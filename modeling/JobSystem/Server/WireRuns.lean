import JobSystem.Server.Connection
import JobSystem.Server.Quiescence
import JobSystem.Server.Sockets
import JobSystem.Server.Tasks
import JobSystem.Server.Wire

namespace JobSystem

open Lib JsonDoc

def Return.returns (b : Option String) : Return → PyKey
  | .register _ a => .str a
  | .result | .submit _ | .scan _ _ => handlerKey b

def Ctl.returns (b : Option String) : Ctl → PyKey
  | .dispatch _ k | .acquiring _ k | .locked _ k | .sending _ _ _ k => k.returns b
  | .scanAck _ _ | .scanTimeout _ _ | .sendCancel _ _ | .sendingCancel _ _ => handlerKey b

def Label.concerns (c : ConnId) : Label → Bool
  | .frame c' _ | .handlerEnd c' => c' = c
  | _ => false

def Label.Encodes (it : Interpreter) (room getDepth : Nat) : Label → Prop
  | .submit _ _ _ req => (JsonDoc.obj (ofFields it req.metadata)).WellFormed it ∧
      check it room (.obj (ofFields it req.metadata)) = .ok () ∧
        (JsonDoc.obj (ofFields it req.metadata)).nesting ≤ getDepth
  | _ => True

namespace Server

def arrived (c : ConnId) (_ : Server) (label : Label) (_ : Server) (fs : List (Option AgentFrame)) :
    List (Option AgentFrame) :=
  match label with
  | .frame c' f => if c' = c then fs ++ [f] else fs
  | _ => fs

def pointOf (c : ConnId) (s : Server) : Gateway.Point :=
  match s.handlers c with
  | none => .ended
  | some b =>
      match s.ctl (.handler c) with
      | none => .waiting (handlerKey b)
      | some x => .dispatching (handlerKey b) (x.returns b)

variable {c : ConnId} {b : Option String} {s t : Server} {x : Ctl}

theorem pointOf_none (h : s.handlers c = none) : s.pointOf c = .ended := by rw [pointOf, h]

theorem pointOf_waiting (h : s.handlers c = some b) (hx : s.ctl (.handler c) = none) :
    s.pointOf c = .waiting (handlerKey b) := by
  rw [pointOf, h]
  dsimp only
  rw [hx]

theorem pointOf_dispatching (h : s.handlers c = some b) (hx : s.ctl (.handler c) = some x) :
    s.pointOf c = .dispatching (handlerKey b) (x.returns b) := by
  rw [pointOf, h]
  dsimp only
  rw [hx]

theorem pointOf_congr (h : t.handlers c = s.handlers c) (hx : t.ctl (.handler c) = s.ctl (.handler c)) :
    t.pointOf c = s.pointOf c := by rw [pointOf, pointOf, h, hx]

/-- The handler of a connection is in a call of `dispatch_pending` only as long as there is a handler. -/
def Attended (s : Server) : Prop := ∀ c, (s.ctl (.handler c)).isSome → (s.handlers c).isSome

theorem view_attended {cfg : Config} {label : Label} (h : View cfg s label t) (hc : (t.ctl (.handler c)).isSome) :
    (s.ctl (.handler c)).isSome ∨ (t.handlers c).isSome := by
  have hupdate : ∀ {co u}, t.ctl = Function.update s.ctl co u →
      (co = .handler c → (s.ctl co).isSome ∨ (t.handlers c).isSome) →
      (s.ctl (.handler c)).isSome ∨ (t.handlers c).isSome := by
    intro co u ht hco
    by_cases he : co = .handler c
    · rw [← he]
      exact he ▸ hco he
    · rw [ht, Function.update_of_ne (Ne.symm he)] at hc
      exact .inl hc
  have hsome : ∀ {co x}, s.ctl co = some x → (s.ctl co).isSome := by
    intro co x hx
    rw [hx]
    rfl
  cases h with
  | registered c' b a hl hidle hb | resultFreed c' b j x o e err events hl hidle hb =>
      refine hupdate rfl fun he => .inr ?_
      cases he
      exact Option.isSome_iff_exists.mpr ⟨_, hb⟩
  | submitted | cancelBegun | ackScan | timeoutScan | scanEnded | scanSkipped | staleFailed | requeued | timeoutMoved =>
      exact hupdate rfl (by rintro ⟨⟩)
  | woken co _ _ _ _ hx | sendBegun co _ _ _ _ _ hx => exact hupdate rfl fun _ => .inl (hsome hx)
  | entered co _ _ _ hx | queued co _ _ _ hx => exact hupdate rfl fun _ => .inl (hsome hx)
  | left co _ _ _ hx => exact hupdate rfl fun _ => .inl (hsome hx)
  | sent co _ _ _ _ _ _ hx | sentUnrecorded co _ _ _ _ _ _ hx => exact hupdate rfl fun _ => .inl (hsome hx)
  | sendClosed co _ _ _ _ _ hx => exact hupdate rfl fun _ => .inl (hsome hx)
  | cancelSending co _ _ _ _ hx => exact hupdate rfl fun _ => .inl (hsome hx)
  | timedOut _ co _ _ _ _ _ hx => exact hupdate rfl fun _ => .inl (hsome hx)
  | cancelled _ co _ _ _ _ _ hx => exact hupdate rfl fun _ => .inl (hsome hx)
  | _ => exact .inl hc

theorem attended_step {cfg : Config} {label : Label} (hA : Attended s) (h : View cfg s label t) : Attended t := by
  intro c hc
  rcases view_attended h hc with hb | ht
  · exact view_handlers_busy h (hA c hb) hb
  · exact ht

theorem attended_of_reachable {cfg : Config} {jobs : JobTable} (h : (machine cfg jobs).Reachable s) : Attended s :=
  h.invariant (I := Attended) (fun _ _ _ hI _ hst => attended_step hI (step_view hst)) fun _ hc => by cases hc

theorem opened_of_reachable {cfg : Config} {jobs : JobTable} (h : (machine cfg jobs).Reachable s) : Opened s :=
  h.invariant (I := Opened) (fun _ _ _ hI _ hst => opened_step hI (step_view hst)) (opened_start jobs)

/-- The handler is where it was, or its call of `dispatch_pending` has returned, by an exception or not. -/
def Proceeds (c : ConnId) (s t : Server) : Prop :=
  t.pointOf c = s.pointOf c ∨ ∃ a n raised, s.pointOf c = .dispatching a n ∧
    t.pointOf c = .waiting (if raised = true then a else n)

theorem proceeds_of_eq (hh : t.handlers c = s.handlers c) (hx : t.ctl (.handler c) = s.ctl (.handler c)) :
    Proceeds c s t := .inl (pointOf_congr hh hx)

section Updated

variable {co : Coro} {y : Option Ctl}

theorem ctl_other (ht : t.ctl = Function.update s.ctl co y) (hco : co ≠ .handler c) :
    t.ctl (.handler c) = s.ctl (.handler c) := by
  rw [ht, Function.update_of_ne (Ne.symm hco)]

/-- A call that goes on is to return what it was to return. -/
theorem proceeds_moved {u : Ctl} (hA : Attended s) (hx : s.ctl co = some x)
    (ht : t.ctl = Function.update s.ctl co (some u)) (hh : t.handlers = s.handlers)
    (hu : ∀ b, u.returns b = x.returns b) : Proceeds c s t := by
  by_cases hco : co = .handler c
  · subst hco
    obtain ⟨b, hb⟩ := Option.isSome_iff_exists.mp (hA c (by rw [hx]; rfl))
    have htx : t.ctl (.handler c) = some u := by rw [ht, Function.update_self]
    refine .inl ?_
    rw [pointOf_dispatching hb hx, pointOf_dispatching ((congrFun hh c).trans hb) htx, hu]
  · exact proceeds_of_eq (congrFun hh c) (ctl_other ht hco)

theorem proceeds_raised (hA : Attended s) (hx : s.ctl co = some x) (ht : t.ctl = Function.update s.ctl co none)
    (hh : t.handlers = s.handlers) : Proceeds c s t := by
  by_cases hco : co = .handler c
  · subst hco
    obtain ⟨b, hb⟩ := Option.isSome_iff_exists.mp (hA c (by rw [hx]; rfl))
    have htx : t.ctl (.handler c) = none := by rw [ht, Function.update_self]
    exact .inr ⟨_, _, true, pointOf_dispatching hb hx, pointOf_waiting ((congrFun hh c).trans hb) htx⟩
  · exact proceeds_of_eq (congrFun hh c) (ctl_other ht hco)

theorem proceeds_returned {k : Return} (hA : Attended s) (hx : s.ctl co = some x) (hxk : ∀ b, x.returns b = k.returns b)
    (hk : k.Of co) (ht : t.ctl = Function.update s.ctl co k.next) (hh : t.handlers = k.bind s.handlers) :
    Proceeds c s t := by
  by_cases hco : co = .handler c
  · subst hco
    obtain ⟨b, hb⟩ := Option.isSome_iff_exists.mp (hA c (by rw [hx]; rfl))
    have hs := pointOf_dispatching hb hx
    rw [hxk] at hs
    have htx : t.ctl (.handler c) = k.next := by rw [ht, Function.update_self]
    cases k with
    | register c' a =>
        cases hk
        have hta : t.handlers c = some (some a) := by rw [hh, Return.bind, Function.update_self]
        exact .inr ⟨_, _, false, hs, pointOf_waiting hta htx⟩
    | result | submit => exact .inr ⟨_, _, false, hs, pointOf_waiting ((congrFun hh c).trans hb) htx⟩
    | scan => cases hk
  · refine proceeds_of_eq ?_ (ctl_other ht hco)
    rw [hh]
    cases k with
    | register c' a =>
        have hne : c ≠ c' := by
          rintro rfl
          exact hco hk
        rw [Return.bind, Function.update_of_ne hne]
    | _ => rfl

end Updated

theorem view_point {cfg : Config} {label : Label} (hP : Placed s) (hA : Attended s) (h : View cfg s label t)
    (hc : c < s.nextConn) (hlabel : label.concerns c = false) : Proceeds c s t := by
  cases h with
  | connect => exact proceeds_of_eq (Function.update_of_ne hc.ne _ _) rfl
  | ended c' | forgot c' =>
      have hne : c ≠ c' := fun he => of_decide_eq_false hlabel he.symm
      exact proceeds_of_eq (Function.update_of_ne hne _ _) rfl
  | registered c' | resultFreed c' =>
      have hne : Coro.handler c' ≠ .handler c := fun he => of_decide_eq_false hlabel (Coro.handler.inj he)
      exact proceeds_of_eq rfl (ctl_other rfl hne)
  | submitted | cancelBegun | ackScan | timeoutScan | scanEnded | scanSkipped | staleFailed | requeued | timeoutMoved =>
      exact proceeds_of_eq rfl (ctl_other rfl (by rintro ⟨⟩))
  | woken co l k m _ hx | queued co a k _ hx => exact proceeds_moved hA hx rfl rfl fun _ => rfl
  | entered co a k _ hx => exact proceeds_moved hA hx rfl rfl fun _ => rfl
  | sendBegun co l k o job _ hx => exact proceeds_moved hA hx rfl rfl fun _ => rfl
  | cancelSending co job k o _ hx => exact proceeds_moved hA hx rfl rfl fun _ => rfl
  | timedOut l co job now rest x events hx hw =>
      refine proceeds_moved hA hx rfl rfl fun _ => ?_
      rcases hw with ⟨_, _, rfl⟩ | ⟨_, _, _, rfl⟩ <;> rfl
  | sentUnrecorded co l o job k out _ hx => exact proceeds_raised hA hx rfl rfl
  | cancelled l co job n x events state hx => exact proceeds_raised hA hx rfl rfl
  | left co l k _ hx => exact proceeds_returned hA hx (fun _ => rfl) (hP co _ hx) rfl rfl
  | sent co l o job k attempt _ hx | sendClosed co l o job k _ hx =>
      exact proceeds_returned hA hx (fun _ => rfl) (hP co _ hx) rfl rfl
  | _ => exact proceeds_of_eq rfl rfl

theorem step_frame {cfg : Config} {f : Option AgentFrame} (h : step cfg (.frame c f) s = some t) :
    ∃ b, s.handlers c = some b ∧ s.ctl (.handler c) = none ∧ t = s.onFrame c b f := by
  simp only [step] at h
  split at h
  · next b hb =>
      obtain ⟨-, hidle, rfl⟩ := of_idle h
      exact ⟨b, hb, hidle, rfl⟩
  · cases h

theorem handlers_handlerEnd {cfg : Config} (h : step cfg (.handlerEnd c) s = some t) : t.handlers c = none := by
  simp only [step] at h
  split at h
  · next b hb =>
      obtain ⟨-, -, rfl⟩ := of_idle h
      cases b with
      | none => exact Function.update_self _ _ _
      | some a =>
          rw [endHandler.eq_def]
          dsimp only
          split <;> exact Function.update_self _ _ _
  · cases h

theorem handlers_connect {cfg : Config} (h : step cfg .connect s = some t) :
    t.handlers s.nextConn = some none ∧ t.sockets s.nextConn = true := by
  obtain ⟨-, ⟨⟩⟩ := of_loop h
  exact ⟨Function.update_self _ _ _, Function.update_self _ _ _⟩

theorem sockets_freed (c : ConnId) (b : Option String) (s : Server) : (s.freed c b).sockets = s.sockets := by
  cases b with
  | none => rfl
  | some a =>
      rw [freed]
      split <;> rfl

end Server

def Gateway.Unhandled : JsonDoc → Prop
  | .obj fields => ∀ k ∈ (getD "type" .null fields).key, ∀ name ∈
      ["register", "ack", "started", "log", "result", "heartbeat", "reconcile"], k ≠ .str name
  | _ => True

/-- A text or binary frame that brings a message, or one that brings none. -/
def RawFrame.Carries (it : Interpreter) (depth : Nat) (raw : RawFrame) : Option AgentFrame → Prop
  | some f => raw.parseMessage it depth = .ok (f.document it)
  | none => ∃ v, raw.parseMessage it depth = .ok v ∧ Gateway.Unhandled v

/-- What `json.dumps` makes of a message of an agent brings it. -/
theorem RawFrame.carries_dumps {it : Interpreter} {room depth : Nat} {f : AgentFrame} {text : String} (hf : f.Unpaired)
    (htext : (f.document it).dumps it room = .ok text) (hdepth : room ≤ depth) :
    (RawFrame.text text).Carries it depth (some f) :=
  parseMessage_dumps (AgentFrame.wellFormed_document hf) htext hdepth

namespace Gateway

/-- The steps of other tasks, with the returns of `dispatch_pending` and the loss of the socket. -/
def ConnectionLabel.elsewhere {σ : Type} : ConnectionLabel σ → Bool
  | .dispatched _ | .close | .other _ => true
  | .receive | .stop => false

def Handled.point (agentId : PyKey) : Handled → Point
  | .returned next => .waiting next
  | .dispatching next => .dispatching agentId next

namespace Connection

structure Shows (it : Interpreter) (c : ConnId) (s : Server) (w : Connection Database) : Prop where
  gateway : w.gateway.Shows it s
  isOpen : w.isOpen = s.sockets c
  point : w.point = s.pointOf c

/-- Steps of other tasks, one after the other. -/
def Aside (it : Interpreter) (depth : Nat) (svc : Services Database) (c : ConnId) :
    Connection Database → Connection Database → Prop :=
  Relation.ReflTransGen fun u v => ∃ k : ConnectionLabel Database, k.elsewhere = true ∧ step it depth svc c k u = some v

/-- What a connection does in a step of the server. A frame that arrives on it is read by its handler and by nothing
else, and so is the end of the frames; while other tasks go on, the handler at most comes back from
`dispatch_pending`. -/
inductive Goes (it : Interpreter) (depth : Nat) (svc : Services Database) (c : ConnId) (l : Label)
    (w w' : Connection Database) : Prop
  | receives (f : Option AgentFrame) (hl : l = .frame c f) (h : step it depth svc c .receive w = some w')
  | ends (u : Connection Database) (hl : l = .handlerEnd c) (hu : step it depth svc c .close w = some u)
      (h : step it depth svc c .stop u = some w')
  | elsewhere (hl : l.concerns c = false) (h : Aside it depth svc c w w')

variable {af : Affinity} {it : Interpreter} {room getDepth depth : Nat} {c : ConnId} {b : Option String} {s t : Server}
  {w : Connection Database}

theorem step_stop {svc : Services Database} {agentId : PyKey} (hp : w.point = .waiting agentId) (ho : w.isOpen = false)
    (hin : w.inbox = []) :
    step it depth svc c .stop w = some { w with gateway := finish agentId w.gateway, point := .ended } := by
  obtain ⟨g, is, o, p⟩ := w
  obtain rfl : p = .waiting agentId := hp
  obtain rfl : is = [] := hin
  obtain rfl : o = false := ho
  rfl

theorem resume_eq (agentId : PyKey) (w : Connection Database) (h : Handled) (g : Gateway Database) :
    resume agentId w (h, g) = { w with gateway := g, point := h.point agentId } := by cases h <;> rfl

theorem point_idle (hb : t.handlers c = some b) (hidle : t.ctl (.handler c) = none) :
    t.pointOf c = (t.handled c b).point (handlerKey b) := by
  rw [Server.pointOf_waiting hb hidle, handled_of_idle hidle]
  rfl

theorem point_dispatch {a : String} {k : Return} (hb : s.handlers c = some b) (hk : k.returns b = .str a) :
    (s.goto (.handler c) (.dispatch a k)).pointOf c =
      ((s.goto (.handler c) (.dispatch a k)).handled c b).point (handlerKey b) := by
  have hctl : (s.goto (.handler c) (.dispatch a k)).ctl (.handler c) = some (.dispatch a k) := Function.update_self _ _ _
  have hb' : (s.goto (.handler c) (.dispatch a k)).handlers c = some b := hb
  rw [Server.pointOf_dispatching hb' hctl, handled_goto, Ctl.returns, hk]
  rfl

theorem point_freed (hb : s.handlers c = some b) (hidle : s.ctl (.handler c) = none) :
    (s.freed c b).pointOf c = ((s.freed c b).handled c b).point (handlerKey b) := by
  cases b with
  | none => exact point_idle hb hidle
  | some a =>
      rw [Server.freed]
      split
      · exact point_idle hb hidle
      · exact point_dispatch (s := { s with agents := Server.freeSlot a s.agents }) hb rfl

theorem point_onFrame (hb : s.handlers c = some b) (hidle : s.ctl (.handler c) = none) (f : AgentFrame) :
    (s.onFrame c b (some f)).pointOf c = ((s.onFrame c b (some f)).handled c b).point (handlerKey b) := by
  cases f with
  | register a => exact point_dispatch (s := _) hb rfl
  | ack | log | reconcile => exact point_idle hb hidle
  | heartbeat => cases b <;> exact point_idle hb hidle
  | started j =>
      change (s.onStarted j).pointOf c = ((s.onStarted j).handled c b).point (handlerKey b)
      rw [Server.onStarted]
      split <;> exact point_idle hb hidle
  | result j x o e err =>
      change (s.onResult c b j x o e err).pointOf c = ((s.onResult c b j x o e err).handled c b).point (handlerKey b)
      cases hc : (s.note (.resultProcessed c j)).complete j x o e err with
      | error r =>
          rw [Server.onResult_error hc]
          exact point_idle hb hidle
      | ok p =>
          obtain ⟨r, T⟩ := p
          cases r with
          | none =>
              rw [Server.onResult_none hc]
              exact point_freed hb hidle
          | some job =>
              rw [Server.onResult_some hc]
              exact point_freed hb hidle

theorem run_unhandled {svc : Services Database} {v : JsonDoc} (hv : Unhandled v) (agentId : PyKey)
    (g : Gateway Database) : ∃ r, (dispatch svc c v agentId).run g = (r, g) ∧ ∀ h, r = .ok h → h = .returned agentId := by
  have hraised : ∀ e : Fault, ∀ h : Handled, (.error e : Except Fault Handled) = .ok h → h = .returned agentId := by
    rintro e h ⟨⟩
  have hreturned : ∀ h, (.ok (.returned agentId) : Except Fault Handled) = .ok h → h = .returned agentId := by
    rintro h ⟨⟩
    rfl
  cases v with
  | obj fields =>
      rw [dispatch]
      split
      · exact ⟨_, rfl, hreturned⟩
      · rw [Effect.run_bind, hashed]
        cases hk : (getD "type" .null fields).key with
        | none => exact ⟨_, rfl, hraised .typeError⟩
        | some k =>
            have hlookup : Dict.lookup k (handlers svc c) = none := by
              have hne : ∀ name ∈ ["register", "ack", "started", "log", "result", "heartbeat", "reconcile"],
                  PyKey.str name ≠ k := fun name hname he => hv k hk name hname he.symm
              simp only [List.forall_mem_cons] at hne
              simp [handlers, Dict.lookup, hne]
            simp only [Effect.run_pure, hlookup]
            exact ⟨_, rfl, hreturned⟩
  | _ => exact ⟨_, rfl, hraised .attributeError⟩

theorem safeDispatch_unhandled {svc : Services Database} {v : JsonDoc} (hv : Unhandled v) (agentId : PyKey)
    (g : Gateway Database) : safeDispatch svc c v agentId g = (.returned agentId, g) := by
  obtain ⟨r, hrun, hr⟩ := run_unhandled hv agentId g
  rw [safeDispatch, Effect.guarded, hrun]
  cases r with
  | error e => rfl
  | ok h => rw [hr h rfl]

theorem sockets_onFrame (f : Option AgentFrame) : (s.onFrame c b f).sockets = s.sockets := by
  cases f with
  | none => rfl
  | some f =>
      cases f with
      | register | ack | log | reconcile => rfl
      | heartbeat => cases b <;> rfl
      | started j =>
          change (s.onStarted j).sockets = _
          rw [Server.onStarted]
          split <;> rfl
      | result j x o e err =>
          change (s.onResult c b j x o e err).sockets = _
          cases hc : (s.note (.resultProcessed c j)).complete j x o e err with
          | error r =>
              rw [Server.onResult_error hc]
              rfl
          | ok p =>
              obtain ⟨r, T⟩ := p
              cases r with
              | none =>
                  rw [Server.onResult_none hc, Server.sockets_freed]
                  rfl
              | some job =>
                  rw [Server.onResult_some hc, Server.sockets_freed]
                  rfl

theorem receive_shows (hw : w.Shows it c s) (hT : Columns.Readable it room getDepth s.jobs) (hroom : 1 ≤ room)
    (hdigits : 19 ≤ it.maxDigits) (hb : s.handlers c = some b)
    (hidle : s.ctl (.handler c) = none) {raw : RawFrame} {f : Option AgentFrame} (hraw : raw.Carries it depth f) :
    (receive it depth (Database.services af it room getDepth) c raw (handlerKey b) w).Shows it c (s.onFrame c b f) := by
  cases f with
  | none =>
      obtain ⟨v, hv, hu⟩ := hraw
      have hsame : receive it depth (Database.services af it room getDepth) c raw (handlerKey b) w = w := by
        by_cases hnull : v = .null
        · rw [receive, hv, hnull]
        · rw [receive_message hv hnull, safeDispatch_unhandled hu, resume_eq]
          have hpoint := hw.point
          rw [Server.pointOf_waiting hb hidle] at hpoint
          rw [Handled.point, ← hpoint]
      rw [hsame]
      exact hw
  | some f =>
      obtain ⟨g', hrun, hS⟩ : Answers it c b
          (dispatch (Database.services af it room getDepth) c (f.document it) (handlerKey b))
          w.gateway (s.onFrame c b (some f)) := answers_frame hw.gateway hT hroom hdigits hidle f
      rw [receive_message hraw (by rintro ⟨⟩), safeDispatch, hrun, resume_eq]
      exact ⟨hS, hw.isOpen.trans (congrFun (sockets_onFrame (some f)) c).symm, (point_onFrame hb hidle f).symm⟩

section Others

variable {cfg : Config} {label : Label}

/-- What other tasks can make of an entry: they do not register the websocket of this connection. -/
def Permitted (c : ConnId) (old new : Option AgentEntry) : Prop :=
  ∀ e ∈ new, e.ws = c → ∃ e₀ ∈ old, e₀.agentId = e.agentId ∧ e₀.ws = e.ws ∧ e₀.connectedAt = e.connectedAt

theorem Permitted.refl (c : ConnId) (e : Option AgentEntry) : Permitted c e e := fun e he _ => ⟨e, he, rfl, rfl, rfl⟩

def Reaches (c : ConnId) : Gateway Database → Gateway Database → Prop :=
  Relation.ReflTransGen fun g g' => ∃ a : Activity Database, a.apply c g = some g'

theorem reaches_of_apply {a : Activity Database} {g g' : Gateway Database} (h : a.apply c g = some g') :
    Reaches c g g' := .single ⟨a, h⟩

theorem run_reaches {g : Gateway Database} (h : Reaches c w.gateway g) :
    Aside it depth (Database.services af it room getDepth) c w { w with gateway := g } := by
  induction h with
  | refl => exact .refl
  | tail _ hnext ih =>
      obtain ⟨a, ha⟩ := hnext
      refine ih.tail ⟨.other a, rfl, ?_⟩
      change (a.apply c _).map _ = _
      rw [ha]
      rfl

theorem reaches_entry {g : Gateway Database} {k : PyKey} {new : Option AgentEntry}
    (h : Permitted c (g.agents.get k) new) :
    ∃ agents, Reaches c g { g with agents := agents } ∧
      ∀ k', agents.get k' = if k' = k then new else g.agents.get k' := by
  cases new with
  | none => exact ⟨_, reaches_of_apply (a := .unregister k) rfl, fun k' => Dict.get_pop _ k k'⟩
  | some e =>
      refine ⟨g.agents.set k e, ?_, fun k' => Dict.get_set _ k k' e⟩
      by_cases hws : e.ws = c
      · obtain ⟨e₀, he₀, hid, hws₀, hat⟩ := h e rfl hws
        refine reaches_of_apply (a := .update k e.lastHeartbeatAt e.inFlight) ?_
        rw [Activity.apply, onEntry, he₀]
        dsimp only
        rw [hid, hws₀, hat]
      · exact reaches_of_apply (a := .register k e) (if_neg hws)

theorem reaches_entries {g : Gateway Database} {target : PyKey → Option AgentEntry} (ks : List PyKey)
    (h : ∀ k, Permitted c (g.agents.get k) (target k)) :
    ∃ agents, Reaches c g { g with agents := agents } ∧
      (∀ k ∈ ks, agents.get k = target k) ∧ ∀ k ∉ ks, agents.get k = g.agents.get k := by
  induction ks generalizing g with
  | nil => exact ⟨g.agents, .refl, by simp, fun _ _ => rfl⟩
  | cons k ks ih =>
      obtain ⟨agents₁, hreach₁, hget₁⟩ := reaches_entry (h k)
      have hpermitted : ∀ k', Permitted c (agents₁.get k') (target k') := by
        intro k'
        rw [hget₁]
        split
        · next hk =>
            rw [hk]
            exact .refl c _
        · exact h k'
      obtain ⟨agents, hreach, hin, hout⟩ := ih (g := { g with agents := agents₁ }) hpermitted
      refine ⟨agents, hreach₁.trans hreach, fun k' hk' => ?_, fun k' hk' => ?_⟩
      · by_cases hks : k' ∈ ks
        · exact hin k' hks
        · obtain rfl : k' = k := (List.mem_cons.mp hk').resolve_right hks
          rw [hout k' hks]
          exact (hget₁ k').trans (if_pos rfl)
      · rw [List.mem_cons, not_or] at hk'
        rw [hout k' hk'.2]
        exact (hget₁ k').trans (if_neg hk'.1)

theorem entryOf_of_not_mem {r : AgentRegistry} {k : PyKey} (h : k ∉ r.agents.keys.map PyKey.str) :
    r.entryOf k = none := by
  cases k with
  | str a =>
      have hnone : r.get a = none := by
        by_contra hne
        exact h (List.mem_map_of_mem (Dict.mem_keys.mpr (Option.isSome_iff_ne_none.mpr hne)))
      rw [AgentRegistry.entryOf, hnone]
      rfl
  | _ => rfl

def lockDict (d : DispatchLocks) : Dict PyKey Nat := d.locks.map .str PyKey.str_injective LockRef.serial

theorem get_lockDict (d : DispatchLocks) (k : PyKey) : (lockDict d).get k = d.lockOf k := by
  cases k with
  | str a => exact Dict.get_map d.locks a
  | _ => exact Dict.get_map_of_ne d.locks (by rintro _ ⟨⟩)

theorem exists_rows (it : Interpreter) (events : List Event) :
    ∃ E : EventTable, List.Forall₂ (EventRow.Tells it) events E.rows := by
  induction events using List.reverseRecOn with
  | nil => exact ⟨.empty, .nil⟩
  | append_singleton events e ih =>
      obtain ⟨E, hE⟩ := ih
      exact ⟨E.insert e.jobId e.eventType (String.ofList ((JsonDoc.obj (ofFields it e.payload)).text it))
        e.createdAt.isoformat, List.rel_append hE (.cons ⟨rfl, rfl, rfl, rfl⟩ .nil)⟩

/-- Other tasks take the shared data to what the server has after their step. -/
theorem reaches_shows {g : Gateway Database} (hg : g.Shows it s)
    (h : ∀ k, Permitted c (s.agents.entryOf k) (t.agents.entryOf k)) : ∃ g', Reaches c g g' ∧ g'.Shows it t := by
  have hpermitted : ∀ k, Permitted c (g.agents.get k) (t.agents.entryOf k) := by
    intro k
    rw [hg.agents]
    exact h k
  obtain ⟨agents, hreach, hin, hout⟩ :=
    reaches_entries (s.agents.agents.keys.map PyKey.str ++ t.agents.agents.keys.map PyKey.str) hpermitted
  obtain ⟨E, hE⟩ := exists_rows it t.events
  have hlocks := reaches_of_apply (c := c) (g := { g with agents := agents }) (a := .locks (lockDict t.dispatchLocks)) rfl
  have hstore := reaches_of_apply (c := c)
    (g := { g with agents := agents, dispatchLocks := lockDict t.dispatchLocks })
    (a := .store { g.store with clock := t.clock, jobs := (Columns.coding it).table t.jobs, events := E }) rfl
  refine ⟨_, (hreach.trans hlocks).trans hstore, fun k => ?_, get_lockDict t.dispatchLocks, rfl, rfl, hE⟩
  change agents.get k = _
  by_cases hk : k ∈ s.agents.agents.keys.map PyKey.str ++ t.agents.agents.keys.map PyKey.str
  · exact hin k hk
  · rw [hout k hk, hg.agents]
    rw [List.mem_append, not_or] at hk
    rw [entryOf_of_not_mem hk.1, entryOf_of_not_mem hk.2]

theorem view_connectedAt (h : Server.View cfg s label t) {o : ObjId} (ho : o < s.agents.next) :
    (t.agents.conns o).connectedAt = (s.agents.conns o).connectedAt := by
  cases h with
  | registered c b a =>
      dsimp only
      rw [s.agents.conns_register_lt ho]
  | heartbeatScan =>
      obtain ⟨hc, -, -⟩ := Server.foldl_unregister (s.agents.staleAgents s.clock cfg.maxIdle) s.agents
      rw [Server.heartbeatScan, hc]
  | touched c a b =>
      dsimp only
      rcases s.agents.conns_touch a s.clock o with he | he
      · rw [he]
      · rw [he]
        rfl
  | resultFreed =>
      dsimp only
      rw [Server.conns_freeSlot]
      split <;> rfl
  | sent | sentUnrecorded =>
      dsimp only
      rw [AgentRegistry.conns_markBusy]
      split <;> rfl
  | _ => rfl

theorem view_permitted (h : Server.View cfg s label t) (hl : ∀ a, label ≠ .frame c (some (.register a))) (k : PyKey) :
    Permitted c (s.agents.entryOf k) (t.agents.entryOf k) := by
  intro e he hws
  cases k with
  | str a =>
      obtain ⟨o, ho, rfl⟩ := Option.map_eq_some_iff.mp he
      rcases Server.view_entry h ho with ⟨ho₀, hws₀⟩ | ⟨c', hlabel, -, hws', -⟩
      · refine ⟨(s.agents.conns o).entry, ?_, ?_, hws₀.symm, ?_⟩
        · exact congrArg (Option.map _) ho₀
        · exact congrArg PyKey.str ((s.agents.keyed ho₀).2.trans (t.agents.keyed ho).2.symm)
        · exact (view_connectedAt h (s.agents.get_lt ho₀)).symm
      · obtain rfl : c' = c := hws'.symm.trans hws
        exact absurd hlabel (hl a)
  | _ => cases he

/-- A step of another task is followed by what it does to the shared data, to the socket and to the handler. -/
theorem other_shows (hw : w.Shows it c s) (hP : s.Placed) (hA : s.Attended) (h : Server.View cfg s label t)
    (hc : c < s.nextConn) (hlabel : label.concerns c = false) :
    ∃ w', Aside it depth (Database.services af it room getDepth) c w w' ∧ w'.Shows it c t ∧ w'.inbox = w.inbox := by
  have hregister : ∀ a, label ≠ .frame c (some (.register a)) := by
    rintro a rfl
    exact of_decide_eq_false hlabel rfl
  obtain ⟨g, hreach, hg⟩ := reaches_shows hw.gateway (view_permitted h hregister)
  have hshared : Aside it depth (Database.services af it room getDepth) c w { w with gateway := g } := run_reaches hreach
  obtain ⟨w₁, hsocket, hg₁, hopen₁, hpoint₁, hinbox₁⟩ :
      ∃ w₁, Aside it depth (Database.services af it room getDepth) c { w with gateway := g } w₁ ∧
        w₁.gateway = g ∧ w₁.isOpen = t.sockets c ∧ w₁.point = w.point ∧
        w₁.inbox = w.inbox := by
    by_cases hs : t.sockets c = s.sockets c
    · exact ⟨_, .refl, rfl, hw.isOpen.trans hs.symm, rfl, rfl⟩
    · have hclosed : t.sockets c = false := by
        by_contra hopen
        rw [Bool.not_eq_false] at hopen
        rcases Server.view_sockets h hopen with hs' | he
        · exact hs (hopen.trans hs'.symm)
        · exact hc.ne he
      exact ⟨_, Relation.ReflTransGen.single ⟨.close, rfl, rfl⟩, rfl, hclosed.symm, rfl, rfl⟩
  have hgo := hshared.trans hsocket
  rcases Server.view_point hP hA h hc hlabel with hsame | ⟨a, n, raised, hs, ht⟩
  · exact ⟨w₁, hgo, ⟨hg₁ ▸ hg, hopen₁, hpoint₁.trans (hw.point.trans hsame.symm)⟩, hinbox₁⟩
  · refine ⟨_, hgo.tail ⟨.dispatched raised, rfl, step_dispatched (hpoint₁.trans (hw.point.trans hs))⟩, ?_, hinbox₁⟩
    exact ⟨hg₁ ▸ hg, hopen₁, ht.symm⟩

theorem end_shows (hw : w.Shows it c s) (h : Server.View cfg s (.handlerEnd c) t) (hinbox : w.inbox = []) :
    ∃ w', Goes it depth (Database.services af it room getDepth) c (.handlerEnd c) w w' ∧
      w'.Shows it c t ∧ w'.inbox = [] := by
  have hstop : ∀ b, s.handlers c = some b → s.ctl (.handler c) = none →
      (finish (handlerKey b) w.gateway).Shows it t → t.handlers c = none → t.sockets c = false →
      ∃ w', Goes it depth (Database.services af it room getDepth) c (.handlerEnd c) w w' ∧
      w'.Shows it c t ∧ w'.inbox = [] := by
    intro b hb hidle hg hh ho
    have hpoint : ({ w with isOpen := false } : Connection Database).point = .waiting (handlerKey b) :=
      hw.point.trans (Server.pointOf_waiting hb hidle)
    refine ⟨_, .ends { w with isOpen := false } rfl rfl (step_stop hpoint rfl hinbox), ⟨hg, ho.symm, ?_⟩, hinbox⟩
    exact (Server.pointOf_none hh).symm
  cases h with
  | quiet _ _ _ hq => cases hq
  | ended _ b _ hidle hb hf =>
      refine hstop b hb hidle ?_ (Function.update_self _ _ _) (Function.update_self _ _ _)
      have hkey : (handlerKey b).truthy = false := by
        cases b with
        | none => rfl
        | some a => exact hf
      rw [finish, hkey]
      exact ⟨hw.gateway.agents, hw.gateway.locks, hw.gateway.store.clock, hw.gateway.store.jobs, hw.gateway.store.events⟩
  | forgot _ a _ hidle hb ha =>
      refine hstop (some a) hb hidle ?_ (Function.update_self _ _ _) (Function.update_self _ _ _)
      have hkey : (handlerKey (some a)).truthy = true := decide_eq_true ha
      rw [finish, hkey, if_pos rfl]
      refine ⟨fun k => ?_, fun k => ?_, hw.gateway.store.clock, hw.gateway.store.jobs, hw.gateway.store.events⟩
      · dsimp only
        rw [Dict.get_pop, hw.gateway.agents]
        cases k with
        | str a' =>
            rw [AgentRegistry.entryOf, AgentRegistry.entryOf, AgentRegistry.get_unregister]
            by_cases hk : a' = a
            · subst hk
              rw [handlerKey, if_pos rfl, if_pos rfl]
              rfl
            · rw [handlerKey, if_neg (by simpa using hk), if_neg hk]
              rfl
        | _ => exact if_neg (by rintro ⟨⟩)
      · dsimp only
        rw [Dict.get_pop, hw.gateway.locks]
        cases k with
        | str a' =>
            rw [DispatchLocks.lockOf, DispatchLocks.lockOf, DispatchLocks.forget, Dict.get_pop]
            by_cases hk : a' = a
            · subst hk
              rw [handlerKey, if_pos rfl, if_pos rfl]
              rfl
            · rw [handlerKey, if_neg (by simpa using hk), if_neg hk]
        | _ => exact if_neg (by rintro ⟨⟩)
  | timedOut _ _ _ _ _ _ _ _ hc | cancelled _ _ _ _ _ _ _ _ hc => rcases hc with ⟨⟨⟩, _⟩ | ⟨_, ⟨⟩, _⟩

end Others

section Runs

variable {cfg : Config} {label : Label} {jobs : JobTable} {g : Gateway Database} {fs : List (Option AgentFrame)}

theorem readable_step (hT : Columns.Readable it room getDepth s.jobs) (hl : label.Encodes it room getDepth)
    (h : Server.View cfg s label t) : Columns.Readable it room getDepth t.jobs := by
  rcases Server.view_jobs h with he | ⟨op, he, hop⟩
  · rw [he]
    exact hT
  · rw [he]
    refine Columns.readable_after hT ?_
    cases hop with
    | submitted n id cid req =>
        rintro b ⟨⟩
        exact ⟨hl.1, hl.2.1, hl.2.2⟩
    | result c j x o e err =>
        rw [Server.completion_created]
        rintro _ ⟨⟩
    | _ => rintro _ ⟨⟩

/-- A run of the server from `s₁` to `s`, and a connection that goes along from the state `g` on. It has read the
frames `fs` and stands at `w`. -/
def Beside (cfg : Config) (jobs : JobTable) (af : Affinity) (it : Interpreter) (room getDepth depth : Nat) (c : ConnId)
    (s₁ : Server) (g : Gateway Database) (raws : List RawFrame) (s : Server) (fs : List (Option AgentFrame))
    (w : Connection Database) : Prop :=
  ((Server.machine cfg jobs).observed [] (Server.arrived c)).Joint (fun _ l => l.Encodes it room getDepth)
    (fun _ l _ => Goes it depth (Database.services af it room getDepth) c l) (fun p w => w.Shows it c p.1)
    ((s₁, []), start g raws) ((s, fs), w)

/-- What the runs of the server keep, with the frames `fs` that the handler of `c` has read since the connection
was in state `g`. -/
structure Follows (cfg : Config) (jobs : JobTable) (af : Affinity) (it : Interpreter) (room getDepth depth : Nat)
    (c : ConnId) (s₁ : Server) (g : Gateway Database) (s : Server) (fs : List (Option AgentFrame)) : Prop where
  placed : s.Placed
  attended : s.Attended
  opened : s.Opened
  readable : Columns.Readable it room getDepth s.jobs
  made : c < s.nextConn
  wire : ∀ raws rest, List.Forall₂ (RawFrame.Carries it depth) raws fs → (s.handlers c = none → rest = []) →
    ∃ w, Beside cfg jobs af it room getDepth depth c s₁ g (raws ++ rest) s fs w ∧ w.Shows it c s ∧ w.inbox = rest

theorem arrived_of_other (hl : label.concerns c = false) (fs : List (Option AgentFrame)) :
    Server.arrived c s label t fs = fs := by
  cases label with
  | frame c' f => exact if_neg (of_decide_eq_false hl)
  | _ => rfl

theorem forall₂_concat {α β : Type} {R : α → β → Prop} {us : List α} {l : List β} {b : β}
    (h : List.Forall₂ R us (l ++ [b])) : ∃ pre a, us = pre ++ [a] ∧ List.Forall₂ R pre l ∧ R a b := by
  obtain ⟨a, last, ha, hlast, hdrop⟩ := List.forall₂_cons_right_iff.mp (List.forall₂_drop_append us l [b] h)
  obtain rfl := List.forall₂_nil_right_iff.mp hlast
  refine ⟨us.take l.length, a, ?_, List.forall₂_take_append us l [b] h, ha⟩
  rw [← hdrop, List.take_append_drop]

theorem follows_step {s₁ : Server} (hroom : 1 ≤ room) (hdigits : 19 ≤ it.maxDigits)
    (hF : Follows cfg jobs af it room getDepth depth c s₁ g s fs) (hl : label.Encodes it room getDepth)
    (hst : Server.step cfg label s = some t) :
    Follows cfg jobs af it room getDepth depth c s₁ g t (Server.arrived c s label t fs) := by
  have h := Server.step_view hst
  have hobserved : ((Server.machine cfg jobs).observed [] (Server.arrived c)).step label (s, fs) =
      some (t, Server.arrived c s label t fs) := Machine.observed_step.mpr ⟨hst, rfl⟩
  refine ⟨Server.placed_step hF.placed h, Server.attended_step hF.attended h, Server.opened_step hF.opened h,
    readable_step hF.readable hl h, hF.made.trans_le (Server.view_nextConn h), fun raws rest hraws hrest => ?_⟩
  cases hlabel : label.concerns c with
  | false =>
      rw [arrived_of_other hlabel] at hraws hobserved ⊢
      have hended : s.handlers c = none → rest = [] := by
        intro hs
        refine hrest ?_
        rw [← Option.not_isSome_iff_eq_none]
        intro ht
        have hsome := hF.opened.handlers_old h hF.made ht
        rw [hs] at hsome
        cases hsome
      obtain ⟨w, hrun, hw, hin⟩ := hF.wire raws rest hraws hended
      obtain ⟨w', hother, hw', hin'⟩ := other_shows hw hF.placed hF.attended h hF.made hlabel
      exact ⟨w', hrun.step hl hobserved (.elsewhere hlabel hother) hw', hw', hin'.trans hin⟩
  | true =>
      cases label with
      | frame c' f =>
          obtain rfl : c' = c := of_decide_eq_true hlabel
          rw [Server.arrived, if_pos rfl] at hraws hobserved
          rw [Server.arrived, if_pos rfl]
          obtain ⟨pre, raw, rfl, hpre, hraw⟩ := forall₂_concat hraws
          obtain ⟨b, hb, hidle, rfl⟩ := Server.step_frame hst
          obtain ⟨w, hrun, hw, hin⟩ := hF.wire pre (raw :: rest) hpre fun hnone => by rw [hb] at hnone; cases hnone
          rw [List.append_assoc, List.singleton_append]
          have hpoint := hw.point.trans (Server.pointOf_waiting hb hidle)
          have hw₁ : ({ w with inbox := rest } : Connection Database).Shows it c' s := ⟨hw.gateway, hw.isOpen, hw.point⟩
          have hshows : (receive it depth (Database.services af it room getDepth) c' raw (handlerKey b)
              { w with inbox := rest }).Shows it c' (s.onFrame c' b f) :=
            receive_shows hw₁ hF.readable hroom hdigits hb hidle hraw
          exact ⟨_, hrun.step hl hobserved (.receives f rfl (step_receive hpoint hin)) hshows, hshows, inbox_receive⟩
      | handlerEnd c' =>
          obtain rfl : c' = c := of_decide_eq_true hlabel
          obtain rfl : rest = [] := hrest (Server.handlers_handlerEnd hst)
          obtain ⟨w, hrun, hw, hin⟩ := hF.wire raws [] hraws fun _ => rfl
          obtain ⟨w', hend, hw', hin'⟩ := end_shows hw h hin
          exact ⟨w', hrun.step hl hobserved hend hw', hw', hin'⟩
      | _ => cases hlabel

theorem follows_connect (hs : (Server.machine cfg jobs).Reachable s) (hT : Columns.Readable it room getDepth s.jobs)
    (hst : Server.step cfg .connect s = some t) (hg : g.Shows it t) :
    Follows cfg jobs af it room getDepth depth s.nextConn t g t [] := by
  have h := Server.step_view hst
  obtain ⟨hnext, hjobs, hctl, -⟩ := Server.view_connect h
  have hidle : t.ctl (.handler s.nextConn) = none := by
    rw [hctl, ← Option.not_isSome_iff_eq_none]
    intro hbusy
    have hattended := Server.attended_of_reachable hs s.nextConn hbusy
    exact absurd ((Server.opened_of_reachable hs).handler _ hattended) (lt_irrefl _)
  obtain ⟨hb, ho⟩ := Server.handlers_connect hst
  refine ⟨Server.placed_step (Server.placed_of_reachable hs) h, Server.attended_step (Server.attended_of_reachable hs) h,
    Server.opened_step (Server.opened_of_reachable hs) h, by rw [hjobs]; exact hT,
    by rw [hnext]; exact Nat.lt_succ_self _,
    fun raws rest hraws _ => ?_⟩
  obtain rfl := List.forall₂_nil_right_iff.mp hraws
  exact ⟨_, Relation.ReflTransGen.refl, ⟨hg, ho.symm, (Server.pointOf_waiting hb hidle).symm⟩, rfl⟩

theorem readable_run (hT : Columns.Readable it room getDepth jobs)
    (h : (Server.machine cfg jobs).Run (fun _ l => l.Encodes it room getDepth) (Server.start jobs) s) :
    Columns.Readable it room getDepth s.jobs :=
  h.invariant (I := fun s => Columns.Readable it room getDepth s.jobs)
    (fun _ _ _ hI hl hst => readable_step hI hl (Server.step_view hst)) hT

/-- Over a database of texts and numbers, with raw frames that carry what the agents send or nothing, a handler does
in every run what it does in the server: it reads each frame by one step of its own, and after every step its
connection, the registry, the locks and the database are those of the server. -/
theorem wire_run (cfg : Config) (af : Affinity) (it : Interpreter) {room : Nat} (getDepth depth : Nat) (hroom : 1 ≤ room)
    (hdigits : 19 ≤ it.maxDigits) {jobs : JobTable} (hT : Columns.Readable it room getDepth jobs) {s₀ s₁ s : Server}
    (h₀ : (Server.machine cfg jobs).Run (fun _ l => l.Encodes it room getDepth) (Server.start jobs) s₀)
    (h₁ : Server.step cfg .connect s₀ = some s₁) {fs : List (Option AgentFrame)}
    (h : ((Server.machine cfg jobs).observed [] (Server.arrived s₀.nextConn)).Run
      (fun _ l => l.Encodes it room getDepth) (s₁, []) (s, fs))
    {g : Gateway Database} (hg : g.Shows it s₁) {raws : List RawFrame}
    (hraws : List.Forall₂ (RawFrame.Carries it depth) raws fs) :
    ∃ w, Beside cfg jobs af it room getDepth depth s₀.nextConn s₁ g raws s fs w ∧ w.Shows it s₀.nextConn s ∧
      w.inbox = [] := by
  have hstart : Follows cfg jobs af it room getDepth depth s₀.nextConn s₁ g s₁ [] :=
    follows_connect (h₀.mono fun _ _ _ => trivial) (readable_run hT h₀) h₁ hg
  have hend : Follows cfg jobs af it room getDepth depth s₀.nextConn s₁ g s fs := by
    refine h.invariant (I := fun p => Follows cfg jobs af it room getDepth depth s₀.nextConn s₁ g p.1 p.2) ?_ hstart
    intro p l q hp hl hst
    obtain ⟨hst, hq⟩ := Machine.observed_step.mp hst
    rw [hq]
    exact follows_step hroom hdigits hp hl hst
  have hwire := hend.wire raws [] hraws fun _ => rfl
  rwa [List.append_nil] at hwire

def registeringFrames : List RawFrame :=
  [.text "\x7b\"type\": \"register\", \"agent_id\": \"agent-1\"\x7d", .text "hello",
    .text "\x7b\"type\": \"heartbeat\", \"agent_id\": \"agent-1\"\x7d"]

theorem registeringFrames_carry : List.Forall₂ (RawFrame.Carries .default 1000) registeringFrames
    [some (.register "agent-1"), none, some (.heartbeat "agent-1")] := by
  have hwritten : ∀ f : AgentFrame, ∀ text, f.Unpaired → (f.document .default).dumps .default 1 = .ok text →
      (RawFrame.text text).Carries .default 1000 (some f) := fun f text hf htext =>
    RawFrame.carries_dumps hf htext (by decide)
  refine .cons (hwritten _ _ trivial (by decide +kernel)) (.cons ⟨.null, rfl, trivial⟩ (.cons ?_ .nil))
  exact hwritten _ _ trivial (by decide +kernel)

def accepted : Server :=
  { Server.start .empty with
    nextConn := 1
    sockets := Function.update (fun _ => false) 0 true
    handlers := Function.update (fun _ => none) 0 (some none) }

def emptyGateway : Gateway Database := .empty ⟨.epoch, .empty, .empty, .new 5000 1000, []⟩

theorem emptyGateway_shows : emptyGateway.Shows .default accepted where
  agents k := by cases k <;> rfl
  locks k := by cases k <;> rfl
  store := ⟨rfl, rfl, .nil⟩

theorem wire_run_registering : ∃ s fs w,
    Beside .default .empty ⟨fun _ => "", id, fun _ => rfl⟩ .default 1 1 1000 0 accepted emptyGateway registeringFrames
      s fs w ∧ w.Shows .default 0 s ∧ w.inbox = [] ∧
    s.agents.isOnline "agent-1" = true ∧ w.point = .waiting (.str "agent-1") := by
  obtain ⟨⟨s, fs⟩, hrun, rfl, honline, hpoint⟩ :=
    Machine.exists_run (M := (Server.machine .default .empty).observed [] (Server.arrived 0))
      (P := fun _ l => l.concerns 0 = true ∨ l.isTask = true)
      (Q := fun p => p.2 = [some (.register "agent-1"), none, some (.heartbeat "agent-1")] ∧
        p.1.agents.isOnline "agent-1" = true ∧ p.1.pointOf 0 = .waiting (.str "agent-1"))
      [.frame 0 (some (.register "agent-1")), .run, .run, .frame 0 none, .frame 0 (some (.heartbeat "agent-1"))]
      (accepted, []) (by decide +kernel)
  have hencodes : ∀ (p : Server × List (Option AgentFrame)) (l : Label), l.concerns 0 = true ∨ l.isTask = true →
      l.Encodes .default 1 1 := by
    intro p l hl
    cases l with
    | submit => rcases hl with hl | hl <;> cases hl
    | _ => trivial
  have haccept : Server.step .default .connect (.start .empty) = some accepted := rfl
  obtain ⟨w, hw, hshows, hin⟩ := wire_run .default ⟨fun _ => "", id, fun _ => rfl⟩ .default 1 1000 (le_refl 1)
    (by decide) (by rintro row ⟨⟩) .refl haccept (hrun.mono hencodes) emptyGateway_shows registeringFrames_carry
  exact ⟨s, _, w, hw, hshows, hin, honline, hshows.point.trans hpoint⟩

end Runs

end Connection

end Gateway

end JobSystem
