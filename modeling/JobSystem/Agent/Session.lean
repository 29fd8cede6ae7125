import JobSystem.Agent.Open
import JobSystem.Protocol
import JobSystem.Server.Messages
import JobSystem.Server.StaleScan

namespace JobSystem

open Lib JsonDoc

structure Listener where
  running : Dict PyKey ContainerId
  correlations : Dict PyKey JsonDoc

/-- What a handler of a message comes to before its first `await`: it returns, or it awaits the send of an
acknowledgement or the end of `kill`. A job without a command fails later, where the exception is caught. -/
inductive Heard
  | returned
  | acking (jobId : PyKey) (image : JsonDoc) (command : Option JsonDoc)
  | killing (id : ContainerId)

namespace Listener

abbrev Fields := List (List Nat × JsonDoc)

def item (name : String) (message : Fields) : Effect Fault Listener JsonDoc :=
  match Dict.lookup (field name) message with
  | some v => pure v
  | none => throw .keyError

def hashed (v : JsonDoc) : Effect Fault Listener PyKey :=
  match v.key with
  | some k => pure k
  | none => throw .typeError

def remember (k : PyKey) (message : Fields) (l : Listener) : Listener :=
  let correlationId := (Dict.lookup (field "correlation_id") message).getD .null
  if correlationId.truthy then { l with correlations := l.correlations.set k correlationId } else l

/-- `_extra` looks the id up in any case. -/
def onJob (message : Fields) : Effect Fault Listener Heard := do
  let k ← hashed (← item "job_id" message)
  .update (remember k message)
  let image ← item "image" message
  return .acking k image (Dict.lookup (field "command") message)

def onCancel (message : Fields) : Effect Fault Listener Heard := do
  let k ← hashed (← item "job_id" message)
  .call fun l => (.ok ((l.running.get k).elim .returned .killing), l)

def handlers : List (PyKey × (Fields → Effect Fault Listener Heard)) :=
  [(.str "job", onJob), (.str "cancel", onCancel)]

/-- `_dispatch`. Only a dictionary has an item that is called `type`. -/
def dispatch (message : JsonDoc) : Effect Fault Listener Heard :=
  match message with
  | .obj fields => do
      let k ← hashed (← item "type" fields)
      match Dict.lookup k handlers with
      | some handler => handler fields
      | none => return .returned
  | _ => throw .typeError

/-- The body of the loop of `_listen`. An exception leaves the loop and ends the session. -/
def hear (it : Interpreter) (depth : Nat) (raw : RawFrame) : Effect Fault Listener Heard :=
  match raw.loads it depth with
  | .ok message => dispatch message
  | .error .decode => return .returned
  | .error _ => throw .raised

end Listener

/-- Where the task of `Agent.run` stands: before a connection, in an `await` of the session other than that for a
frame, or at the head of the loop of `_listen`. -/
inductive SessionPoint
  | offline
  | busy
  | listening
  deriving DecidableEq

/-- The listener of an agent, with the frames of the present connection that it has not read. -/
structure AgentSession where
  listener : Listener
  inbox : List RawFrame
  point : SessionPoint

/-- `returned` and `raised` are the ends of what the session awaits. The handlers and the tasks of `_reattach`
change the dictionaries. -/
inductive SessionLabel
  | connect
  | arrives (raw : RawFrame)
  | receive
  | returned
  | raised
  | other (listener : Listener)

def SessionLabel.elsewhere : SessionLabel → Bool
  | .returned | .raised | .other _ => true
  | .connect | .arrives _ | .receive => false

namespace AgentSession

variable (it : Interpreter) (depth : Nat)

def start : AgentSession := ⟨⟨.empty, .empty⟩, [], .offline⟩

def resume (s : AgentSession) : Except Fault Heard × Listener → AgentSession
  | (.ok .returned, l) => { s with listener := l }
  | (.ok _, l) => { s with listener := l, point := .busy }
  | (.error _, l) => { s with listener := l, point := .offline }

def step (label : SessionLabel) (s : AgentSession) : Option AgentSession :=
  match label, s.point with
  | .connect, .offline => some { s with inbox := [], point := .busy }
  | .arrives raw, .busy | .arrives raw, .listening => some { s with inbox := s.inbox ++ [raw] }
  | .receive, .listening =>
      match s.inbox with
      | raw :: inbox => some ({ s with inbox := inbox }.resume ((Listener.hear it depth raw).run s.listener))
      | [] => none
  | .returned, .busy => some { s with point := .listening }
  | .raised, .busy | .raised, .listening => some { s with point := .offline }
  | .other l, _ => some { s with listener := l }
  | _, _ => none

def machine : Machine AgentSession SessionLabel := ⟨start, step it depth⟩

variable {it depth} {s t : AgentSession} {raw : RawFrame}

theorem step_cases {label : SessionLabel} (h : step it depth label s = some t) :
    (label = .connect ∧ s.point = .offline ∧ t = { s with inbox := [], point := .busy }) ∨
    (∃ raw, label = .arrives raw ∧ s.point ≠ .offline ∧ t = { s with inbox := s.inbox ++ [raw] }) ∨
    (∃ raw inbox, label = .receive ∧ s.point = .listening ∧ s.inbox = raw :: inbox ∧
      t = { s with inbox := inbox }.resume ((Listener.hear it depth raw).run s.listener)) ∨
    (label = .returned ∧ s.point = .busy ∧ t = { s with point := .listening }) ∨
    (label = .raised ∧ s.point ≠ .offline ∧ t = { s with point := .offline }) ∨
    ∃ l, label = .other l ∧ t = { s with listener := l } := by
  rw [step.eq_def] at h
  split at h
  · next hp => exact .inl ⟨rfl, hp, (Option.some.inj h).symm⟩
  · next raw hp => exact .inr (.inl ⟨raw, rfl, by rw [hp]; rintro ⟨⟩, (Option.some.inj h).symm⟩)
  · next raw hp => exact .inr (.inl ⟨raw, rfl, by rw [hp]; rintro ⟨⟩, (Option.some.inj h).symm⟩)
  · next hp =>
      split at h
      · next raw inbox hin => exact .inr (.inr (.inl ⟨raw, inbox, rfl, hp, hin, (Option.some.inj h).symm⟩))
      · cases h
  · next hp => exact .inr (.inr (.inr (.inl ⟨rfl, hp, (Option.some.inj h).symm⟩)))
  · next hp => exact .inr (.inr (.inr (.inr (.inl ⟨rfl, by rw [hp]; rintro ⟨⟩, (Option.some.inj h).symm⟩))))
  · next hp => exact .inr (.inr (.inr (.inr (.inl ⟨rfl, by rw [hp]; rintro ⟨⟩, (Option.some.inj h).symm⟩))))
  · next _ l => exact .inr (.inr (.inr (.inr (.inr ⟨l, rfl, (Option.some.inj h).symm⟩))))
  · cases h

theorem step_returned (hp : s.point = .busy) : step it depth .returned s = some { s with point := .listening } := by
  obtain ⟨l, is, p⟩ := s
  obtain rfl : p = .busy := hp
  rfl

theorem step_connect (hp : s.point = .offline) :
    step it depth .connect s = some { s with inbox := [], point := .busy } := by
  obtain ⟨l, is, p⟩ := s
  obtain rfl : p = .offline := hp
  rfl

theorem step_raised (hp : s.point ≠ .offline) : step it depth .raised s = some { s with point := .offline } := by
  obtain ⟨l, is, p⟩ := s
  cases p with
  | offline => exact absurd rfl hp
  | _ => rfl

theorem step_arrives (hp : s.point ≠ .offline) :
    step it depth (.arrives raw) s = some { s with inbox := s.inbox ++ [raw] } := by
  obtain ⟨l, is, p⟩ := s
  cases p with
  | offline => exact absurd rfl hp
  | _ => rfl

theorem step_receive {inbox : List RawFrame} (hp : s.point = .listening) (hin : s.inbox = raw :: inbox) :
    step it depth .receive s =
      some ({ s with inbox := inbox }.resume ((Listener.hear it depth raw).run s.listener)) := by
  obtain ⟨l, is, p⟩ := s
  obtain rfl : p = .listening := hp
  obtain rfl : is = raw :: inbox := hin
  rfl

@[simp] theorem inbox_resume (r : Except Fault Heard × Listener) : (s.resume r).inbox = s.inbox := by
  rw [resume.eq_def]
  split <;> rfl

theorem point_resume (hs : s.point ≠ .offline) (r : Except Fault Heard × Listener) :
    (s.resume r).point = .offline ↔ ∃ e, r.1 = .error e := by
  obtain ⟨r, l⟩ := r
  cases r with
  | error e => exact ⟨fun _ => ⟨e, rfl⟩, fun _ => rfl⟩
  | ok heard =>
      constructor
      · cases heard with
        | returned => exact fun h => absurd h hs
        | acking | killing => rintro ⟨⟩
      · rintro ⟨e, ⟨⟩⟩

end AgentSession

section Heard

variable {it : Interpreter} {depth : Nat} {raw : RawFrame} {l : Listener} {fields : Listener.Fields}

def Listener.Hashable (name : String) (fields : Listener.Fields) : Prop :=
  ((Dict.lookup (field name) fields).bind JsonDoc.key).isSome

/-- What a handler of the agent needs of a message: its type, the id of the job, and for a new job its image. -/
def Listener.Understood (fields : Listener.Fields) : Prop :=
  ∃ k, (Dict.lookup (field "type") fields).bind JsonDoc.key = some k ∧
    (k = .str "job" → Hashable "job_id" fields ∧ (Dict.lookup (field "image") fields).isSome) ∧
      (k = .str "cancel" → Hashable "job_id" fields)

def RawFrame.Tolerable (it : Interpreter) (depth : Nat) (raw : RawFrame) : Prop :=
  raw.loads it depth = .error .decode ∨ ∃ fields, raw.loads it depth = .ok (.obj fields) ∧ Listener.Understood fields

namespace Listener

theorem run_item {name : String} {v : JsonDoc} (h : Dict.lookup (field name) fields = some v) :
    (item name fields).run l = (.ok v, l) := by
  rw [item, h]
  rfl

theorem run_item_none {name : String} (h : Dict.lookup (field name) fields = none) :
    (item name fields).run l = (.error .keyError, l) := by
  rw [item, h]
  rfl

theorem run_hashed {v : JsonDoc} {k : PyKey} (h : v.key = some k) : (hashed v).run l = (.ok k, l) := by
  rw [hashed, h]
  rfl

theorem run_key (name : String) (fields : Fields) (l : Listener) :
    (∃ v k, Dict.lookup (field name) fields = some v ∧ v.key = some k ∧
      (Dict.lookup (field name) fields).bind key = some k) ∨
    ((Dict.lookup (field name) fields).bind key = none ∧
      ∃ e, ∀ {α : Type} (f : PyKey → Effect Fault Listener α),
        (do f (← hashed (← item name fields)) : Effect Fault Listener α).run l = (.error e, l)) := by
  cases hv : Dict.lookup (field name) fields with
  | none => exact .inr ⟨rfl, .keyError, fun f => Effect.run_bind_error (run_item_none hv)⟩
  | some v =>
      cases hk : v.key with
      | none =>
          refine .inr ⟨hk, .typeError, fun f => ?_⟩
          rw [Effect.run_bind_ok (run_item hv)]
          exact Effect.run_bind_error (by rw [hashed, hk]; rfl)
      | some k => exact .inl ⟨v, k, rfl, hk, hk⟩

theorem run_onJob {v image : JsonDoc} {k : PyKey} (hv : Dict.lookup (field "job_id") fields = some v)
    (hk : v.key = some k) (himage : Dict.lookup (field "image") fields = some image) (l : Listener) :
    (onJob fields).run l = (.ok (.acking k image (Dict.lookup (field "command") fields)), remember k fields l) := by
  rw [onJob, Effect.run_bind_ok (run_item hv), Effect.run_bind_ok (run_hashed hk)]
  exact (Effect.run_bind_ok (Effect.run_update (remember k fields) l)).trans (Effect.run_bind_ok (run_item himage))

theorem run_onCancel {v : JsonDoc} {k : PyKey} (hv : Dict.lookup (field "job_id") fields = some v)
    (hk : v.key = some k) (l : Listener) :
    (onCancel fields).run l = (.ok ((l.running.get k).elim .returned .killing), l) := by
  rw [onCancel, Effect.run_bind_ok (run_item hv), Effect.run_bind_ok (run_hashed hk)]
  rfl

theorem onJob_raises (fields : Fields) (l : Listener) : (∃ e, ((onJob fields).run l).1 = .error e) ↔
    ¬ (Hashable "job_id" fields ∧ (Dict.lookup (field "image") fields).isSome) := by
  rw [Hashable]
  rcases run_key "job_id" fields l with ⟨v, k, hv, hk, hbind⟩ | ⟨hnone, e, he⟩
  · rw [hbind]
    cases himage : Dict.lookup (field "image") fields with
    | none =>
        have hrun : (onJob fields).run l = (.error .keyError, remember k fields l) := by
          rw [onJob, Effect.run_bind_ok (run_item hv), Effect.run_bind_ok (run_hashed hk)]
          exact (Effect.run_bind_ok (Effect.run_update (remember k fields) l)).trans
            (Effect.run_bind_error (run_item_none himage))
        rw [hrun]
        exact ⟨fun _ h => absurd h.2 Bool.false_ne_true, fun _ => ⟨.keyError, rfl⟩⟩
    | some image =>
        rw [run_onJob hv hk himage]
        exact ⟨by rintro ⟨e, ⟨⟩⟩, fun h => absurd ⟨rfl, rfl⟩ h⟩
  · rw [hnone, onJob, he]
    exact ⟨fun _ h => absurd h.1 Bool.false_ne_true, fun _ => ⟨e, rfl⟩⟩

theorem onCancel_raises (fields : Fields) (l : Listener) :
    (∃ e, ((onCancel fields).run l).1 = .error e) ↔ ¬ Hashable "job_id" fields := by
  rw [Hashable]
  rcases run_key "job_id" fields l with ⟨v, k, hv, hk, hbind⟩ | ⟨hnone, e, he⟩
  · rw [hbind, run_onCancel hv hk]
    exact ⟨by rintro ⟨e, ⟨⟩⟩, fun h => absurd rfl h⟩
  · rw [hnone, onCancel, he]
    exact ⟨fun _ => Bool.false_ne_true, fun _ => ⟨e, rfl⟩⟩

theorem run_dispatch {v : JsonDoc} {k : PyKey} (hv : Dict.lookup (field "type") fields = some v) (hk : v.key = some k)
    (l : Listener) :
    (dispatch (.obj fields)).run l =
      match Dict.lookup k handlers with
      | some handler => (handler fields).run l
      | none => (.ok .returned, l) := by
  rw [dispatch, Effect.run_bind_ok (run_item hv), Effect.run_bind_ok (run_hashed hk)]
  split <;> rfl

/-- Whether a handler raises does not depend on the jobs of the agent. -/
theorem dispatch_raises (fields : Fields) (l : Listener) :
    (∃ e, ((dispatch (.obj fields)).run l).1 = .error e) ↔ ¬ Understood fields := by
  rcases run_key "type" fields l with ⟨v, k, hv, hk, hbind⟩ | ⟨hnone, e, he⟩
  · have hunderstood : Understood fields ↔
        (k = .str "job" → Hashable "job_id" fields ∧ (Dict.lookup (field "image") fields).isSome) ∧
          (k = .str "cancel" → Hashable "job_id" fields) := by
      rw [Understood, hbind]
      exact ⟨by rintro ⟨_, ⟨⟩, h⟩; exact h, fun h => ⟨k, rfl, h⟩⟩
    rw [hunderstood, run_dispatch hv hk, handlers, Dict.lookup, Dict.lookup]
    dsimp only
    by_cases hjob : PyKey.str "job" = k
    · rw [if_pos hjob]
      subst hjob
      simpa using onJob_raises fields l
    · rw [if_neg hjob]
      by_cases hcancel : PyKey.str "cancel" = k
      · rw [if_pos hcancel]
        subst hcancel
        simpa using onCancel_raises fields l
      · rw [if_neg hcancel, Dict.lookup]
        simp [Ne.symm hjob, Ne.symm hcancel]
  · rw [Understood, hnone, dispatch, he]
    exact ⟨fun _ => by rintro ⟨k, ⟨⟩, _⟩, fun _ => ⟨e, rfl⟩⟩

/-- A frame ends the session of an agent if and only if it is not tolerable. -/
theorem hear_raises (raw : RawFrame) (l : Listener) :
    (∃ e, ((hear it depth raw).run l).1 = .error e) ↔ ¬ raw.Tolerable it depth := by
  rw [hear, RawFrame.Tolerable]
  cases hload : raw.loads it depth with
  | error e =>
      cases e with
      | decode => exact ⟨by rintro ⟨e, ⟨⟩⟩, fun h => absurd (.inl rfl) h⟩
      | _ => exact ⟨fun _ => by rintro (⟨⟨⟩⟩ | ⟨_, ⟨⟩, _⟩), fun _ => ⟨.raised, rfl⟩⟩
  | ok v =>
      cases v with
      | obj fields =>
          refine (dispatch_raises fields l).trans (not_congr ?_)
          exact ⟨fun h => .inr ⟨fields, rfl, h⟩, by rintro (⟨⟨⟩⟩ | ⟨_, ⟨⟩, h⟩); exact h⟩
      | _ => exact ⟨fun _ => by rintro (⟨⟨⟩⟩ | ⟨_, ⟨⟩, _⟩), fun _ => ⟨.typeError, rfl⟩⟩

end Listener

end Heard

def AgentCtl.point : AgentCtl → SessionPoint
  | .offline => .offline
  | .listening _ => .listening
  | _ => .busy

def Agent.runningOf (a : Agent) : PyKey → Option ContainerId
  | .str j => a.running.get j
  | _ => none

def ServerFrame.Writes (it : Interpreter) (room : Nat) (f : ServerFrame) (raw : RawFrame) : Prop :=
  ∃ text, (f.document it).dumps it room = .ok text ∧ raw = .text text

namespace AgentSession

variable {it : Interpreter} {room depth : Nat} {raw : RawFrame} {agentId : String}

section Survives

variable {A : RawFrame → Prop}

theorem inbox_of_run {s : AgentSession}
    (h : (machine it depth).Run (fun _ l => ∀ raw, l = .arrives raw → A raw) start s) : ∀ raw ∈ s.inbox, A raw := by
  refine h.invariant (I := fun s : AgentSession => ∀ raw ∈ s.inbox, A raw) ?_ (by rintro raw ⟨⟩)
  intro s label t hI hl hst
  rcases step_cases hst with ⟨-, -, rfl⟩ | ⟨raw, rfl, -, rfl⟩ | ⟨raw, inbox, -, -, hin, rfl⟩ | ⟨-, -, rfl⟩ |
    ⟨-, -, rfl⟩ | ⟨l, -, rfl⟩
  · rintro raw ⟨⟩
  · intro raw' hraw
    rcases List.mem_append.mp hraw with h | h
    · exact hI raw' h
    · rw [List.mem_singleton.mp h]
      exact hl raw rfl
  · rw [inbox_resume]
    exact fun raw' h => hI raw' (by rw [hin]; exact List.mem_cons_of_mem _ h)
  · exact hI
  · exact hI
  · exact hI

/-- A session goes on while the server sends only frames that the agent tolerates. -/
theorem survives {s t : AgentSession} (h : ∀ raw, A raw → raw.Tolerable it depth)
    (hs : (machine it depth).Run (fun _ l => ∀ raw, l = .arrives raw → A raw) start s)
    (hst : step it depth .receive s = some t) : t.point ≠ .offline := by
  intro hend
  rcases step_cases hst with ⟨hl, -⟩ | ⟨_, hl, -⟩ | ⟨raw, inbox, -, hp, hin, rfl⟩ | ⟨hl, -⟩ | ⟨hl, -⟩ | ⟨_, hl, -⟩
  · cases hl
  · cases hl
  · have hlive : ({ s with inbox := inbox } : AgentSession).point ≠ .offline := by
      rw [hp]
      rintro ⟨⟩
    have hraised := (Listener.hear_raises raw s.listener).mp ((point_resume hlive _).mp hend)
    exact hraised (h raw (inbox_of_run hs raw (by rw [hin]; exact List.mem_cons_self)))
  · cases hl
  · cases hl
  · cases hl

end Survives

section Follows

/-- The session has read what the agent has read, in texts, and stands where it stands. -/
structure Shows (it : Interpreter) (room : Nat) (s : OpenAgent) (w : AgentSession) : Prop where
  running : ∀ k, w.listener.running.get k = s.agent.runningOf k
  point : w.point = s.agent.main.point
  read : s.agent.read ≤ s.inbox.length
  unread : List.Forall₂ (ServerFrame.Writes it room) (s.inbox.drop s.agent.read) w.inbox

inductive Takes (it : Interpreter) : Heard → AgentCtl → Prop
  | returned (c) : Takes it .returned (.listening c)
  | acking (c j image command) :
      Takes it (.acking (.str j) (.str (field image)) (some (ofJson it (.arr (command.map fun s => .str (.text s))))))
        (.acking c j image command)
  | killing (c id) : Takes it (.killing id) (.killing c id)

/-- Ends of what the session awaits and steps of other tasks, one after the other. -/
def Aside (it : Interpreter) (depth : Nat) : AgentSession → AgentSession → Prop :=
  Relation.ReflTransGen fun u v => ∃ k : SessionLabel, k.elsewhere = true ∧ step it depth k u = some v

/-- What a session does in a step of the agent. A message that arrives does so as its text. A message that the agent
reads is the next text, which `_dispatch` takes to the point that the agent goes to. In all other steps the session reads
nothing. -/
inductive Goes (it : Interpreter) (room depth : Nat) (l : OpenLabel) (t : OpenAgent) (w w' : AgentSession) : Prop
  | connects (hl : l = .connect) (h : step it depth .connect w = some w')
  | arrives (f raw) (hl : l = .arrives f) (hraw : f.Writes it room raw) (h : step it depth (.arrives raw) w = some w')
  | hears (raw rest heard) (hl : l = .agent .read) (hin : w.inbox = raw :: rest)
      (hheard : ((Listener.hear it depth raw).run w.listener).1 = .ok heard) (htakes : Takes it heard t.agent.main)
      (h : step it depth .receive w = some w')
  | elsewhere (hl : l ≠ .agent .read) (hconnect : l ≠ .connect) (harrives : ∀ f, l ≠ .arrives f) (h : Aside it depth w w')

/-- A run of the agent to `s`, and a session that goes along with it and stands at `w`. -/
def Beside (agentId : String) (it : Interpreter) (room depth : Nat) (s : OpenAgent) (w : AgentSession) : Prop :=
  (OpenAgent.machine agentId).Joint
    (fun _ l => ∀ f, l = .arrives f → ∃ text, (f.document it).dumps it room = .ok text)
    (fun _ l t => Goes it room depth l t) (Shows it room) (OpenAgent.start, start) (s, w)

variable {inbox : ConnId → List ServerFrame} {a a' : Agent} {s t : OpenAgent} {w : AgentSession} {l : AgentLabel}

theorem act_point (h : Agent.Act agentId inbox a l a') (hl : l ≠ .read) : a'.read = a.read ∧
    (a'.main.point = a.main.point ∨ (a.main.point = .busy ∧ a'.main.point = .listening) ∨ a'.main.point = .offline) := by
  cases h with
  | sent c f x ho =>
      refine ⟨rfl, ?_⟩
      cases hm : a.main <;> rw [hm] at ho <;> cases ho
      any_goals exact .inl rfl
      exact .inr (.inl ⟨rfl, rfl⟩)
  | reattaching c id j rest hm => exact ⟨rfl, .inl (by rw [hm]; rfl)⟩
  | sendFailed | ended => exact ⟨rfl, .inr (.inr rfl)⟩
  | tookJob | ignored | killing => exact absurd rfl hl
  | listed c hm => exact ⟨rfl, .inl (by rw [hm]; rfl)⟩
  | listens _ c hx =>
      refine ⟨rfl, .inr (.inl ⟨?_, rfl⟩)⟩
      rcases hx with ⟨-, hm⟩ | ⟨-, hm⟩ <;> rw [hm] <;> rfl
  | examined c id container rest x hm hx =>
      refine ⟨rfl, .inl ?_⟩
      rcases hx with ⟨-, rfl⟩ | rfl | rfl | rfl <;> rw [hm] <;> rfl
  | inspected c id j rest x out err hm => exact ⟨rfl, .inl (by rw [hm]; rfl)⟩
  | removed ok c id rest hm => cases ok <;> exact ⟨rfl, .inl (by rw [hm]; rfl)⟩
  | started c j image command hm => exact ⟨rfl, .inl (by rw [hm]; rfl)⟩
  | startFailed c j image command error left hm => cases left <;> exact ⟨rfl, .inl (by rw [hm]; rfl)⟩
  | waited c j id removed x out err hm => cases removed <;> exact ⟨rfl, .inl (by rw [hm]; rfl)⟩
  | waitFailed c j id removed => cases removed <;> exact ⟨rfl, .inr (.inr rfl)⟩
  | killed c id hm => exact ⟨rfl, .inr (.inl ⟨by rw [hm]; rfl, rfl⟩)⟩
  | heartbeat | exited | reattachSent => exact ⟨rfl, .inl rfl⟩
  | reattachWaited i removed | reattachFailed i removed => cases removed <;> exact ⟨rfl, .inl rfl⟩
  | crashed left =>
      refine ⟨?_, .inr (.inr rfl)⟩
      cases hm : a.main <;> cases left <;> rw [Agent.crashed, hm] <;> rfl

theorem get_running (a : Agent) (k : PyKey) :
    (a.running.map PyKey.str PyKey.str_injective id).get k = a.runningOf k := by
  cases k with
  | str j => exact (Dict.get_map a.running j).trans (congrFun Option.map_id _)
  | _ => exact Dict.get_map_of_ne a.running (by rintro _ ⟨⟩)

theorem shows_other (hw : Shows it room s w) (h : Agent.Act agentId inbox s.agent l a) (hl : l ≠ .read) :
    ∃ w', Aside it depth w w' ∧ Shows it room { s with agent := a } w' := by
  obtain ⟨hread, hpoint⟩ := act_point h hl
  have hother : Aside it depth w
      { w with listener := ⟨a.running.map PyKey.str PyKey.str_injective id, w.listener.correlations⟩ } :=
    .single ⟨.other ⟨a.running.map PyKey.str PyKey.str_injective id, w.listener.correlations⟩, rfl, rfl⟩
  have hunread : List.Forall₂ (ServerFrame.Writes it room) (s.inbox.drop a.read) w.inbox := by
    rw [hread]
    exact hw.unread
  have hle : a.read ≤ s.inbox.length := hread.trans_le hw.read
  rcases hpoint with hsame | ⟨hbusy, hlistening⟩ | hoffline
  · exact ⟨_, hother, get_running a, hw.point.trans hsame.symm, hle, hunread⟩
  · refine ⟨_, hother.tail ⟨.returned, rfl, step_returned (hw.point.trans hbusy)⟩, get_running a, hlistening.symm, hle,
      hunread⟩
  · by_cases hp : w.point = .offline
    · exact ⟨_, hother, get_running a, hp.trans hoffline.symm, hle, hunread⟩
    · exact ⟨_, hother.tail ⟨.raised, rfl, step_raised hp⟩, get_running a, hoffline.symm, hle, hunread⟩

theorem running_remember (k : PyKey) (fields : Listener.Fields) (l : Listener) :
    (Listener.remember k fields l).running = l.running := by
  rw [Listener.remember]
  split <;> rfl

theorem load_written {f : ServerFrame} (h : f.Writes it room raw) (hdepth : room ≤ depth) :
    raw.loads it depth = .ok (.obj (ofFields it f.fields)) := by
  obtain ⟨text, htext, rfl⟩ := h
  exact loads_dumps f.wellFormed_document htext hdepth

theorem hear_job {j cid image : String} {command : List String} {timeoutMs : Int}
    (h : (ServerFrame.job j cid image command timeoutMs).Writes it room raw) (hdepth : room ≤ depth) (l : Listener) :
    (Listener.hear it depth raw).run l =
      (.ok (.acking (.str j) (.str (field image)) (some (ofJson it (.arr (command.map fun s => .str (.text s)))))),
        Listener.remember (.str j) (ofFields it (ServerFrame.job j cid image command timeoutMs).fields) l) := by
  have hlookup : ∀ name, Dict.lookup (field name) (ofFields it (ServerFrame.job j cid image command timeoutMs).fields) =
      (Dict.lookup name (ServerFrame.job j cid image command timeoutMs).fields).map (ofJson it) :=
    fun name => lookup_ofFields name _
  have htype : Dict.lookup (field "type") (ofFields it (ServerFrame.job j cid image command timeoutMs).fields) =
      some (.str (field "job")) := hlookup "type"
  have hid : Dict.lookup (field "job_id") (ofFields it (ServerFrame.job j cid image command timeoutMs).fields) =
      some (.str (field j)) := hlookup "job_id"
  have himage : Dict.lookup (field "image") (ofFields it (ServerFrame.job j cid image command timeoutMs).fields) =
      some (.str (field image)) := hlookup "image"
  have hcommand : Dict.lookup (field "command") (ofFields it (ServerFrame.job j cid image command timeoutMs).fields) =
      some (ofJson it (.arr (command.map fun s => .str (.text s)))) := hlookup "command"
  rw [Listener.hear, load_written h hdepth]
  refine (Listener.run_dispatch htype (key_str "job") l).trans ?_
  refine (Listener.run_onJob hid (key_str j) himage l).trans ?_
  rw [hcommand]

theorem hear_cancel {j reason : String} (h : (ServerFrame.cancel j reason).Writes it room raw) (hdepth : room ≤ depth)
    (l : Listener) :
    (Listener.hear it depth raw).run l = (.ok ((l.running.get (.str j)).elim .returned .killing), l) := by
  have hlookup : ∀ name, Dict.lookup (field name) (ofFields it (ServerFrame.cancel j reason).fields) =
      (Dict.lookup name (ServerFrame.cancel j reason).fields).map (ofJson it) := fun name => lookup_ofFields name _
  have htype : Dict.lookup (field "type") (ofFields it (ServerFrame.cancel j reason).fields) =
      some (.str (field "cancel")) := hlookup "type"
  have hid : Dict.lookup (field "job_id") (ofFields it (ServerFrame.cancel j reason).fields) =
      some (.str (field j)) := hlookup "job_id"
  rw [Listener.hear, load_written h hdepth]
  exact (Listener.run_dispatch htype (key_str "cancel") l).trans (Listener.run_onCancel hid (key_str j) l)

theorem unread_cons {f : ServerFrame} (hw : Shows it room s w) (hf : s.inbox[s.agent.read]? = some f) :
    ∃ raw rest, w.inbox = raw :: rest ∧ f.Writes it room raw ∧
      List.Forall₂ (ServerFrame.Writes it room) (s.inbox.drop (s.agent.read + 1)) rest := by
  obtain ⟨hlt, hget⟩ := List.getElem?_eq_some_iff.mp hf
  have hunread := hw.unread
  rw [List.drop_eq_getElem_cons hlt, hget] at hunread
  obtain ⟨raw, rest, hraw, hrest, hin⟩ := List.forall₂_cons_left_iff.mp hunread
  exact ⟨raw, rest, hin, hraw, hrest⟩

theorem shows_read (hw : Shows it room s w) (hdepth : room ≤ depth)
    (h : Agent.Act agentId (fun _ => s.inbox) s.agent .read a) :
    ∃ w', Goes it room depth (.agent .read) { s with agent := a } w w' ∧ Shows it room { s with agent := a } w' := by
  have hgo : ∀ {raw rest heard c}, w.inbox = raw :: rest → s.agent.main = .listening c →
      ((Listener.hear it depth raw).run w.listener).1 = .ok heard → Takes it heard a.main →
      Goes it room depth (.agent .read) { s with agent := a } w
        (({ w with inbox := rest } : AgentSession).resume ((Listener.hear it depth raw).run w.listener)) :=
    fun hin hm hheard htakes =>
      .hears _ _ _ rfl hin hheard htakes (step_receive (hw.point.trans (congrArg AgentCtl.point hm)) hin)
  have hread : ∀ {f}, s.inbox[s.agent.read]? = some f → s.agent.read + 1 ≤ s.inbox.length :=
    fun hf => (List.getElem?_eq_some_iff.mp hf).1
  cases h with
  | ended _ hl => rcases hl with hl | hl <;> cases hl
  | listens _ _ hl => rcases hl with hl | hl <;> cases hl.1
  | tookJob c j cid image command timeoutMs hm hf =>
      obtain ⟨raw, rest, hin, hraw, hrest⟩ := unread_cons hw hf
      have hhear := hear_job hraw hdepth w.listener
      refine ⟨_, hgo hin hm (by rw [hhear]) (.acking c j image command), ?_⟩
      rw [hhear]
      have hrunning : ∀ fields k, (Listener.remember (.str j) fields w.listener).running.get k = s.agent.runningOf k :=
        fun fields k => (congrArg (fun d => Dict.get d k) (running_remember _ _ _)).trans (hw.running k)
      exact ⟨hrunning _, rfl, hread hf, hrest⟩
  | ignored c j reason hm hf hr =>
      obtain ⟨raw, rest, hin, hraw, hrest⟩ := unread_cons hw hf
      have hnone : w.listener.running.get (.str j) = none := (hw.running (.str j)).trans hr
      have hhear := hear_cancel hraw hdepth w.listener
      rw [hnone] at hhear
      refine ⟨_, hgo hin hm (by rw [hhear]; rfl) (.returned c), ?_⟩
      rw [hhear]
      exact ⟨hw.running, hw.point.trans (congrArg AgentCtl.point hm), hread hf, hrest⟩
  | killing c j reason id hm hf hr =>
      obtain ⟨raw, rest, hin, hraw, hrest⟩ := unread_cons hw hf
      have hsome : w.listener.running.get (.str j) = some id := (hw.running (.str j)).trans hr
      have hhear := hear_cancel hraw hdepth w.listener
      rw [hsome] at hhear
      refine ⟨_, hgo hin hm (by rw [hhear]; rfl) (.killing c id), ?_⟩
      rw [hhear]
      exact ⟨hw.running, rfl, hread hf, hrest⟩

/-- In every step of the agent its session goes along on the texts of the frames. -/
theorem shows_step {label : OpenLabel} (hw : Shows it room s w) (hdepth : room ≤ depth)
    (hl : ∀ f, label = .arrives f → ∃ text, (f.document it).dumps it room = .ok text)
    (h : OpenAgent.step agentId label s = some t) : ∃ w', Goes it room depth label t w w' ∧ Shows it room t w' := by
  cases label with
  | arrives f =>
      obtain ⟨hup, ⟨⟩⟩ := Option.ite_none_right_eq_some.mp h
      obtain ⟨text, htext⟩ := hl f rfl
      have hp : w.point ≠ .offline := by
        rw [hw.point]
        intro hoff
        cases hm : s.agent.main <;> rw [hm] at hup hoff <;> cases hoff
        simp [AgentCtl.session] at hup
      refine ⟨_, .arrives f (.text text) rfl ⟨text, htext, rfl⟩ (step_arrives hp), hw.running, hw.point, ?_, ?_⟩
      · rw [List.length_append]
        exact hw.read.trans (Nat.le_add_right _ _)
      · rw [List.drop_append_of_le_length hw.read]
        exact List.rel_append hw.unread (.cons ⟨text, htext, rfl⟩ .nil)
  | connect =>
      obtain ⟨hm, rfl⟩ := OpenAgent.of_connect agentId h
      have hp : w.point = .offline := hw.point.trans (congrArg AgentCtl.point hm)
      exact ⟨_, .connects rfl (step_connect hp), hw.running, rfl, Nat.le_refl 0, .nil⟩
  | drop =>
      cases h
      exact ⟨w, .elsewhere OpenLabel.noConfusion OpenLabel.noConfusion (fun _ => OpenLabel.noConfusion) .refl, hw.running,
        hw.point, hw.read, hw.unread⟩
  | agent l =>
      obtain ⟨-, a, rfl, hact⟩ := OpenAgent.of_agent h
      by_cases hread : l = .read
      · subst hread
        exact shows_read hw hdepth hact
      · obtain ⟨w', haside, hshows⟩ : ∃ w', Aside it depth w w' ∧ Shows it room { s with agent := a } w' :=
          shows_other hw hact hread
        refine ⟨w', .elsewhere ?_ OpenLabel.noConfusion (fun _ => OpenLabel.noConfusion) haside, hshows⟩
        rintro ⟨⟩
        exact hread rfl

/-- Along every run of the agent goes its session on the texts of the frames that the server sends: each message that
the agent reads is the next text, `_dispatch` takes it to where the agent goes, and after every step both keep the same
jobs and stand at the same point. -/
theorem session_follows (agentId : String) (it : Interpreter) {room depth : Nat} (hdepth : room ≤ depth) {s : OpenAgent}
    (h : (OpenAgent.machine agentId).Run
      (fun _ l => ∀ f, l = .arrives f → ∃ text, (f.document it).dumps it room = .ok text) OpenAgent.start s) :
    ∃ w, Beside agentId it room depth s w ∧ Shows it room s w := by
  have hstart : Shows it room OpenAgent.start start := by
    refine ⟨fun k => ?_, rfl, Nat.le_refl 0, .nil⟩
    cases k <;> rfl
  have hsim : ∀ (s : OpenAgent) (l : OpenLabel) (t : OpenAgent) (w : AgentSession),
      (∀ f, l = .arrives f → ∃ text, (f.document it).dumps it room = .ok text) →
      (OpenAgent.machine agentId).step l s = some t → Shows it room s w →
      ∃ w', Goes it room depth l t w w' ∧ Shows it room t w' :=
    fun s l t w hl hst hw => shows_step hw hdepth hl hst
  exact Machine.Run.joint hsim h hstart

def arrivalFits : OpenLabel → Bool
  | .arrives f => f.fits
  | _ => true

theorem session_follows_job : ∃ s w, (OpenAgent.machine "agent-1").Reachable s ∧ s.agent.read = 1 ∧
    Beside "agent-1" .default 2 1000 s w ∧ Shows .default 2 s w ∧ w.point = .busy := by
  obtain ⟨s, hs, hread, hpoint⟩ := Machine.exists_run (M := OpenAgent.machine "agent-1")
    (P := fun _ l => arrivalFits l = true)
    (Q := fun s => s.agent.read = 1 ∧ s.agent.main.point = .busy)
    [.connect, .agent .sent, .agent (.listed false), .arrives (.job "job_1" "c1" "alpine" ["true"] 60000), .agent .read]
    OpenAgent.start (by decide +kernel)
  have htext : ∀ (s : OpenAgent) (l : OpenLabel), arrivalFits l = true →
      ∀ f, l = .arrives f → ∃ text, (f.document .default).dumps .default 2 = .ok text := by
    rintro s l hl f rfl
    have hcheck : check .default 2 (f.document .default) = .ok () := f.check_document hl (le_refl 2) (by decide)
    exact ⟨_, by rw [dumps, hcheck]; rfl⟩
  obtain ⟨w, hw, hshows⟩ := session_follows "agent-1" .default (by decide : 2 ≤ 1000) (hs.mono htext)
  exact ⟨s, w, hs.mono fun _ _ _ => trivial, hread, hw, hshows, hshows.point.trans hpoint⟩

end Follows

/-- A text that a gateway writes ends no session. -/
theorem tolerable_of_writes {f : ServerFrame} (hf : f.Writes it room raw) (hdepth : room ≤ depth) :
    raw.Tolerable it depth := by
  by_contra hbad
  obtain ⟨e, he⟩ := (Listener.hear_raises raw ⟨.empty, .empty⟩).mpr hbad
  cases f with
  | job j cid image command timeoutMs =>
      rw [hear_job hf hdepth] at he
      cases he
  | cancel j reason =>
      rw [hear_cancel hf hdepth] at he
      cases he

end AgentSession

namespace Server

variable {cfg : Config} {jobs : JobTable} {s s' : Server} {label : Label}

theorem fits_step (hB : SQLiteJobRepository.Bound s.jobs) (hf : ∀ c, ∀ f ∈ s.outbox c, f.fits = true)
    (h : View cfg s label s') : ∀ c, ∀ f ∈ s'.outbox c, f.fits = true := by
  intro c f hmem
  rcases view_outbox h c with he | ⟨a, o, g, he, -, -, hg⟩
  · exact hf c f (he ▸ hmem)
  · rw [he] at hmem
    rcases List.mem_append.mp hmem with hold | hnew
    · exact hf c f hold
    · rw [List.mem_singleton.mp hnew]
      rcases hg with ⟨j, reason, rfl⟩ | ⟨co, l, job, k, rfl, -, hbegun⟩
      · rfl
      · have hpending := mem_pendingJobs.mp (List.mem_of_mem_head? hbegun.pending)
        have hbind := hB job (Table.find_mem hpending.1).1
        rw [Job.bindable, Job.integersFit, Bool.and_eq_true, Bool.and_eq_true, Bool.and_eq_true, Bool.and_eq_true]
          at hbind
        exact hbind.1.1.1.1

theorem fits_of_reachable (hjobs : SQLiteJobRepository.Bound jobs) (h : (machine cfg jobs).Reachable s) :
    ∀ c, ∀ f ∈ s.outbox c, f.fits = true := by
  have hI : SQLiteJobRepository.Bound s.jobs ∧ ∀ c, ∀ f ∈ s.outbox c, f.fits = true := by
    refine h.invariant (I := fun s => SQLiteJobRepository.Bound s.jobs ∧ ∀ c, ∀ f ∈ s.outbox c, f.fits = true) ?_
      ⟨hjobs, by rintro c f ⟨⟩⟩
    rintro u l v ⟨hB, hf⟩ - hst
    exact ⟨bound_step hB (step_view hst), fits_step hB hf (step_view hst)⟩
  exact hI.2

def Wrote (cfg : Config) (jobs : JobTable) (it : Interpreter) (room : Nat) (raw : RawFrame) : Prop :=
  ∃ s c f, (machine cfg jobs).Reachable s ∧ f ∈ s.outbox c ∧ f.Writes it room raw

/-- Every message of the gateway can be put in text, and no text of one ends a session of an agent. -/
theorem messages_understood (cfg : Config) (hjobs : SQLiteJobRepository.Bound jobs) (it : Interpreter) {room depth : Nat}
    (hroom : 2 ≤ room) (hdepth : room ≤ depth) (hdigits : 19 ≤ it.maxDigits) :
    (∀ s, (machine cfg jobs).Reachable s → ∀ c, ∀ f ∈ s.outbox c, ∃ raw, f.Writes it room raw) ∧
      ∀ u v, (AgentSession.machine it depth).Run (fun _ l => ∀ raw, l = .arrives raw → Wrote cfg jobs it room raw)
        AgentSession.start u → AgentSession.step it depth .receive u = some v → v.point ≠ .offline := by
  constructor
  · intro s hs c f hf
    have hfits : f.fits = true := fits_of_reachable hjobs hs c f hf
    have hcheck : check it room (f.document it) = .ok () := f.check_document hfits hroom hdigits
    exact ⟨_, _, by rw [dumps, hcheck]; rfl, rfl⟩
  · intro u v hu hst
    refine AgentSession.survives ?_ hu hst
    rintro raw ⟨s, c, f, -, -, hf⟩
    exact AgentSession.tolerable_of_writes hf hdepth

theorem messages_understood_job : ∃ s f raw, (machine .default .empty).Reachable s ∧ f ∈ s.outbox 0 ∧
    f.isJob "job_1" = true ∧ f.Writes .default 2 raw := by
  obtain ⟨s, hs, hany⟩ := Machine.exists_run (M := machine .default .empty) (P := fun _ _ => True)
    (Q := fun s => (s.outbox 0).any (·.isJob "job_1") = true)
    [.connect, .frame 0 (some (.register "agent-1")), .run, .run,
      .submit 0 "job_1" "c1" (.alpine "agent-1" agent_1_ne), .run, .run] (start .empty) (by decide +kernel)
  obtain ⟨f, hf, hjob⟩ := List.any_eq_true.mp hany
  obtain ⟨raw, hraw⟩ := (messages_understood .default bound_empty .default (le_refl 2) (by decide : 2 ≤ 1000)
    (by decide)).1 s hs 0 f hf
  exact ⟨s, f, raw, hs, hf, hjob, hraw⟩

end Server

end JobSystem
