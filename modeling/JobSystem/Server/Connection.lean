import JobSystem.Lib.Machine
import JobSystem.Server.Handler

namespace JobSystem

open Lib JsonDoc

namespace Gateway

variable {σ : Type}

/-- Where `_handle_connection` stands: at the head of its loop, or in the call of `dispatch_pending` at the end
of a handler, which is to return `next`. -/
inductive Point
  | waiting (agentId : PyKey)
  | dispatching (agentId next : PyKey)
  | ended
  deriving DecidableEq

structure Connection (σ : Type) where
  gateway : Gateway σ
  inbox : List RawFrame
  isOpen : Bool
  point : Point

/-- What `dispatch_pending` and the other tasks do to the shared data between two steps of the handler. Another
handler registers its own websocket. -/
inductive Activity (σ : Type)
  | register (agentId : PyKey) (conn : AgentEntry)
  | unregister (agentId : PyKey)
  | update (agentId : PyKey) (lastHeartbeatAt : Instant) (inFlight : Nat)
  | locks (dispatchLocks : Dict PyKey Nat)
  | store (store : σ)

inductive ConnectionLabel (σ : Type)
  | receive
  | dispatched (raised : Bool)
  | stop
  | close
  | other (a : Activity σ)

def ConnectionLabel.handles : ConnectionLabel σ → Bool
  | receive | dispatched _ => true
  | stop | close | other _ => false

def Activity.apply (ws : ConnId) (g : Gateway σ) : Activity σ → Option (Gateway σ)
  | register agentId conn => if conn.ws = ws then none else some { g with agents := g.agents.set agentId conn }
  | unregister agentId => some { g with agents := g.agents.pop agentId }
  | update agentId t n => some (onEntry agentId (fun conn => { conn with lastHeartbeatAt := t, inFlight := n }) g)
  | locks dispatchLocks => some { g with dispatchLocks := dispatchLocks }
  | store st => some { g with store := st }

def finish (agentId : PyKey) (g : Gateway σ) : Gateway σ :=
  if agentId.truthy then { g with agents := g.agents.pop agentId, dispatchLocks := g.dispatchLocks.pop agentId }
  else g

namespace Connection

variable (it : Interpreter) (depth : Nat) (svc : Services σ) (ws : ConnId)

def resume (agentId : PyKey) (s : Connection σ) : Handled × Gateway σ → Connection σ
  | (.returned next, g) => { s with gateway := g, point := .waiting next }
  | (.dispatching next, g) => { s with gateway := g, point := .dispatching agentId next }

/-- The body of the loop. An exception of `_parse_message` leaves it, and the guard around the whole handler logs
it after the `finally` block. -/
def receive (raw : RawFrame) (agentId : PyKey) (s : Connection σ) : Connection σ :=
  match raw.parseMessage it depth with
  | .error _ => { s with gateway := finish agentId s.gateway, point := .ended }
  | .ok .null => s
  | .ok message => resume agentId s (safeDispatch svc ws message agentId s.gateway)

def step (l : ConnectionLabel σ) (s : Connection σ) : Option (Connection σ) :=
  match l, s.point with
  | .receive, .waiting agentId =>
      match s.inbox with
      | raw :: inbox => some (receive it depth svc ws raw agentId { s with inbox := inbox })
      | [] => none
  | .dispatched raised, .dispatching agentId next =>
      -- `with_dispatch_guard` returns the old id when `dispatch_pending` raises.
      some { s with point := .waiting (if raised then agentId else next) }
  | .stop, .waiting agentId =>
      if s.isOpen = false ∧ s.inbox = [] then
        some { s with gateway := finish agentId s.gateway, point := .ended }
      else none
  | .close, _ => some { s with isOpen := false }
  | .other a, _ => (a.apply ws s.gateway).map fun g => { s with gateway := g }
  | _, _ => none

def start (g : Gateway σ) (frames : List RawFrame) : Connection σ := ⟨g, frames, true, .waiting .none⟩

def machine (g : Gateway σ) (frames : List RawFrame) : Machine (Connection σ) (ConnectionLabel σ) where
  init := start g frames
  step := step it depth svc ws

/-- The handler lives as long as its connection, it comes to the end of the frames, and one that cannot be
parsed changes nothing. -/
structure Survives (g : Gateway σ) (frames : List RawFrame) : Prop where
  alive : ∀ s, (machine it depth svc ws g frames).Reachable s → s.point = .ended → s.isOpen = false ∧ s.inbox = []
  inTurn : ∀ s, (machine it depth svc ws g frames).Reachable s → s.point ≠ .ended →
    ∃ t, (machine it depth svc ws g frames).Run (fun _ l => l.handles) s t ∧ t.inbox = [] ∧ t.point ≠ .ended
  unparsed : ∀ s raw inbox t, (machine it depth svc ws g frames).Reachable s → s.inbox = raw :: inbox →
    raw.Unparsable it depth → step it depth svc ws .receive s = some t → t = { s with inbox := inbox }

variable {it depth svc ws} {g : Gateway σ} {frames : List RawFrame} {s t : Connection σ}

theorem resume_spec (agentId : PyKey) (r : Handled × Gateway σ) :
    (resume agentId s r).inbox = s.inbox ∧ (resume agentId s r).isOpen = s.isOpen ∧
      (resume agentId s r).point ≠ .ended := by
  obtain ⟨h, g⟩ := r
  cases h <;> exact ⟨rfl, rfl, nofun⟩

@[simp] theorem inbox_receive {raw : RawFrame} {agentId : PyKey} :
    (receive it depth svc ws raw agentId s).inbox = s.inbox := by
  rw [receive]
  split
  · rfl
  · rfl
  · exact (resume_spec _ _).1

@[simp] theorem isOpen_receive {raw : RawFrame} {agentId : PyKey} :
    (receive it depth svc ws raw agentId s).isOpen = s.isOpen := by
  rw [receive]
  split
  · rfl
  · rfl
  · exact (resume_spec _ _).2.1

/-- The handler goes on after any frame but one on which `json.loads` raises what is not expected. -/
theorem receive_point {raw : RawFrame} {agentId : PyKey} (hs : s.point ≠ .ended) :
    (receive it depth svc ws raw agentId s).point = .ended ↔ raw.Undecoded it depth := by
  constructor
  · intro h
    rw [receive] at h
    split at h
    · next he => exact RawFrame.parseMessage_error he
    · exact absurd h hs
    · exact absurd h (resume_spec _ _).2.2
  · intro h
    obtain ⟨e, he⟩ := RawFrame.parseMessage_undecoded h
    rw [receive, he]

theorem receive_unparsable {raw : RawFrame} {agentId : PyKey} (h : raw.Unparsable it depth)
    (hdec : ¬ raw.Undecoded it depth) : receive it depth svc ws raw agentId s = s := by
  rw [receive, RawFrame.parseMessage_unparsable h hdec]

theorem receive_message {raw : RawFrame} {agentId : PyKey} {message : JsonDoc}
    (h : raw.parseMessage it depth = .ok message) (hne : message ≠ .null) :
    receive it depth svc ws raw agentId s = resume agentId s (safeDispatch svc ws message agentId s.gateway) := by
  rw [receive, h]
  cases message with
  | null => exact absurd rfl hne
  | _ => rfl

theorem step_receive {raw : RawFrame} {inbox : List RawFrame} {agentId : PyKey} (hp : s.point = .waiting agentId)
    (hin : s.inbox = raw :: inbox) :
    step it depth svc ws .receive s = some (receive it depth svc ws raw agentId { s with inbox := inbox }) := by
  obtain ⟨g, is, o, p⟩ := s
  obtain rfl : p = .waiting agentId := hp
  obtain rfl : is = raw :: inbox := hin
  rfl

theorem step_dispatched {raised : Bool} {agentId next : PyKey} (hp : s.point = .dispatching agentId next) :
    step it depth svc ws (.dispatched raised) s =
      some { s with point := .waiting (if raised then agentId else next) } := by
  obtain ⟨g, is, o, p⟩ := s
  obtain rfl : p = .dispatching agentId next := hp
  rfl

theorem step_cases {l : ConnectionLabel σ} (h : step it depth svc ws l s = some t) :
    (∃ raw inbox agentId, l = .receive ∧ s.point = .waiting agentId ∧ s.inbox = raw :: inbox ∧
      t = receive it depth svc ws raw agentId { s with inbox := inbox }) ∨
    (∃ raised agentId next, l = .dispatched raised ∧ s.point = .dispatching agentId next ∧
      t = { s with point := .waiting (if raised then agentId else next) }) ∨
    (∃ agentId, l = .stop ∧ s.point = .waiting agentId ∧ s.isOpen = false ∧ s.inbox = [] ∧
      t = { s with gateway := finish agentId s.gateway, point := .ended }) ∨
    (l = .close ∧ t = { s with isOpen := false }) ∨
    ∃ a g, l = .other a ∧ a.apply ws s.gateway = some g ∧ t = { s with gateway := g } := by
  rw [step.eq_def] at h
  split at h
  · next agentId hp =>
      split at h
      · next raw inbox hin => exact .inl ⟨raw, inbox, agentId, rfl, hp, hin, (Option.some.inj h).symm⟩
      · cases h
  · next raised agentId next hp => exact .inr (.inl ⟨raised, agentId, next, rfl, hp, (Option.some.inj h).symm⟩)
  · next agentId hp =>
      split at h
      · next hc => exact .inr (.inr (.inl ⟨agentId, rfl, hp, hc.1, hc.2, (Option.some.inj h).symm⟩))
      · cases h
  · exact .inr (.inr (.inr (.inl ⟨rfl, (Option.some.inj h).symm⟩)))
  · next a =>
      obtain ⟨g, hg, ht⟩ := Option.map_eq_some_iff.mp h
      exact .inr (.inr (.inr (.inr ⟨a, g, rfl, hg, ht.symm⟩)))
  · cases h

section Runs

variable (it depth svc ws g frames)

theorem run_waiting (hs : s.point ≠ .ended) :
    ∃ t agentId, (machine it depth svc ws g frames).Run (fun _ l => l.handles) s t ∧ t.point = .waiting agentId ∧
      t.inbox = s.inbox ∧ t.isOpen = s.isOpen := by
  cases hp : s.point with
  | waiting agentId => exact ⟨s, agentId, .refl, hp, rfl, rfl⟩
  | dispatching agentId next =>
      exact ⟨_, next, Relation.ReflTransGen.single ⟨.dispatched false, rfl, step_dispatched hp⟩, rfl, rfl, rfl⟩
  | ended => exact absurd hp hs

theorem run_inbox {pre rest : List RawFrame} (hs : s.point ≠ .ended) (hin : s.inbox = pre ++ rest)
    (hpre : ∀ raw ∈ pre, ¬ raw.Undecoded it depth) :
    ∃ t agentId, (machine it depth svc ws g frames).Run (fun _ l => l.handles) s t ∧ t.point = .waiting agentId ∧
      t.inbox = rest ∧ t.isOpen = s.isOpen := by
  induction pre generalizing s with
  | nil =>
      obtain ⟨t, agentId, hrun, hp, hi, ho⟩ := run_waiting it depth svc ws g frames hs
      exact ⟨t, agentId, hrun, hp, hi.trans hin, ho⟩
  | cons raw pre ih =>
      obtain ⟨u, agentId, hu, hp, hi, ho⟩ := run_waiting it depth svc ws g frames hs
      have hrecv : (machine it depth svc ws g frames).step .receive u =
          some (receive it depth svc ws raw agentId { u with inbox := pre ++ rest }) :=
        step_receive hp (hi.trans hin)
      have hlive : (receive it depth svc ws raw agentId { u with inbox := pre ++ rest }).point ≠ .ended := by
        refine fun he => hpre raw List.mem_cons_self ((receive_point ?_).mp he)
        exact fun hne => by rw [hp] at hne; cases hne
      obtain ⟨t, agentId', ht, hp', hi', ho'⟩ :=
        ih hlive inbox_receive fun r hr => hpre r (List.mem_cons_of_mem _ hr)
      exact ⟨t, agentId', (hu.tail ⟨_, rfl, hrecv⟩).trans ht, hp', hi', ho'.trans (isOpen_receive.trans ho)⟩

end Runs

/-- Only frames that were sent arrive, and the handler ends with its connection. -/
structure Serving (it : Interpreter) (depth : Nat) (s : Connection σ) : Prop where
  inbox : ∀ raw ∈ s.inbox, ¬ raw.Undecoded it depth
  ended : s.point = .ended → s.isOpen = false ∧ s.inbox = []

theorem serving_step {l : ConnectionLabel σ} (hI : Serving it depth s) (h : step it depth svc ws l s = some t) :
    Serving it depth t := by
  rcases step_cases h with ⟨raw, inbox, agentId, -, hp, hin, rfl⟩ | ⟨raised, agentId, next, -, hp, rfl⟩ |
    ⟨agentId, -, hp, ho, hin, rfl⟩ | ⟨-, rfl⟩ | ⟨a, g, -, -, rfl⟩
  · have hmem := hI.inbox
    rw [hin] at hmem
    obtain ⟨hraw, hrest⟩ := List.forall_mem_cons.mp hmem
    refine ⟨by rwa [inbox_receive], fun he => ?_⟩
    have hlive : ({ s with inbox := inbox } : Connection σ).point ≠ .ended := fun hne => by rw [hp] at hne; cases hne
    exact absurd ((receive_point hlive).mp he) hraw
  · exact ⟨hI.inbox, nofun⟩
  · exact ⟨hI.inbox, fun _ => ⟨ho, hin⟩⟩
  · exact ⟨hI.inbox, fun he => ⟨rfl, (hI.ended he).2⟩⟩
  · exact ⟨hI.inbox, hI.ended⟩

theorem survives_of_decoded (h : ∀ raw ∈ frames, ¬ raw.Undecoded it depth) : Survives it depth svc ws g frames := by
  have hserving : ∀ s, (machine it depth svc ws g frames).Reachable s → Serving it depth s := by
    intro s hs
    have hstart : Serving it depth (start g frames) := ⟨h, nofun⟩
    exact hs.invariant (I := Serving it depth) (fun _ _ _ hI _ hst => serving_step hI hst) hstart
  constructor
  · exact fun s hs => (hserving s hs).ended
  · intro s hs hp
    obtain ⟨t, agentId, hrun, hpt, hin, -⟩ := run_inbox it depth svc ws g frames hp (List.append_nil _).symm
      (hserving s hs).inbox
    exact ⟨t, hrun, hin, fun he => by rw [hpt] at he; cases he⟩
  · intro s raw inbox t hs hin hraw hst
    have hdec : ¬ raw.Undecoded it depth := (hserving s hs).inbox raw (by rw [hin]; exact List.mem_cons_self)
    rcases step_cases hst with ⟨raw', inbox', agentId, -, -, hin', rfl⟩ | ⟨_, _, _, hl, _⟩ | ⟨_, hl, _⟩ | ⟨hl, _⟩ |
      ⟨_, _, hl, _⟩
    · rw [hin] at hin'
      cases hin'
      exact receive_unparsable hraw hdec
    all_goals cases hl

/-- Frames that `json.dumps` has written never end the handler. -/
theorem survives_dumps {room : Nat} (hroom : room ≤ depth)
    (h : ∀ raw ∈ frames, ∃ (v : JsonDoc) (s : String), v.WellFormed it ∧ v.dumps it room = .ok s ∧ raw = .text s) :
    Survives it depth svc ws g frames := by
  refine survives_of_decoded fun raw hraw hund => ?_
  obtain ⟨v, s, hv, hs, rfl⟩ := h raw hraw
  obtain ⟨e, he⟩ := RawFrame.parseMessage_undecoded hund
  rw [RawFrame.parseMessage_dumps hv hs hroom] at he
  cases he

/-- The handler survives a sequence of frames if and only if `json.loads` raises nothing but `JSONDecodeError` on
each of them. -/
theorem survives_iff (it : Interpreter) (depth : Nat) (svc : Services σ) (ws : ConnId) (g : Gateway σ)
    (frames : List RawFrame) :
    Survives it depth svc ws g frames ↔ ∀ raw ∈ frames, ¬ raw.Undecoded it depth := by
  refine ⟨fun h raw hraw hund => ?_, survives_of_decoded⟩
  classical
  have hsome : (frames.find? fun y => decide (y.Undecoded it depth)).isSome :=
    List.find?_isSome.mpr ⟨raw, hraw, decide_eq_true hund⟩
  obtain ⟨x, hfind⟩ := Option.isSome_iff_exists.mp hsome
  obtain ⟨hx, pre, rest, he, hpre⟩ := List.find?_eq_some_iff_append.mp hfind
  have hdecoded : ∀ y ∈ pre, ¬ y.Undecoded it depth := by simpa using hpre
  obtain ⟨t, agentId, hrun, hp, hin, ho⟩ := run_inbox it depth svc ws g frames (s := start g frames) nofun he hdecoded
  have hst : (machine it depth svc ws g frames).step .receive t =
      some (receive it depth svc ws x agentId { t with inbox := rest }) := step_receive hp hin
  have hend : (receive it depth svc ws x agentId { t with inbox := rest }).point = .ended :=
    (receive_point fun hne => by rw [hp] at hne; cases hne).mpr (of_decide_eq_true hx)
  obtain ⟨hopen, -⟩ := h.alive _ (hrun.reachable.tail ⟨_, trivial, hst⟩) hend
  rw [isOpen_receive, ho] at hopen
  cases hopen

/-- Invalid UTF-8 in a binary frame ends the handler of a registered agent, and its connection is still open. -/
theorem survives_false : ¬ ∀ frames, Survives .default 1000 (.empty .epoch) 0 (.empty ()) frames := by
  intro h
  let frames : List RawFrame :=
    [.text "\x7b\"type\": \"register\", \"agent_id\": \"agent-1\"\x7d", .binary [0xFF]]
  obtain ⟨t, hrun, hp, ho⟩ :=
    Machine.exists_run (M := machine .default 1000 (.empty .epoch) 0 (.empty ()) frames)
      (P := fun _ _ => True) (Q := fun t => t.point = .ended ∧ t.isOpen = true)
      [.receive, .dispatched false, .receive] (start (.empty ()) frames) (by decide +kernel)
  obtain ⟨hclosed, -⟩ := (h frames).alive t hrun hp
  rw [ho] at hclosed
  cases hclosed

end Connection

end Gateway

end JobSystem
