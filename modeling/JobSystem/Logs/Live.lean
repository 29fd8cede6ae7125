import JobSystem.Lib.Machine
import JobSystem.Lifecycle
import JobSystem.Logs.Broker

namespace JobSystem

open Lib

inductive StreamEvent (σ χ : Type)
  | log (chunk : LogChunk σ χ)
  | endEvent
  deriving DecidableEq

def StreamEvent.chunk? {σ χ : Type} : StreamEvent σ χ → Option (LogChunk σ χ)
  | log chunk => some chunk
  | endEvent => none

/-- Where the generator `_log_stream` stands. `polling` is the `await` of
`wait_for`; at the other points but the first and the last it is suspended at a
`yield`, `ending` at that of the `end` event. -/
inductive StreamCtl (σ χ : Type)
  | created
  | replaying (rest : List (LogChunk σ χ))
  | polling
  | following
  | draining
  | ending
  | closed

/-- The generator, its local variable `queue`, and what it shares with the rest
of the server. -/
structure LogStream (σ χ : Type) [DecidableEq σ] where
  broker : LogBroker String σ χ
  jobs : JobTable
  ctl : StreamCtl σ χ
  queue : QueueId
  emitted : List (StreamEvent σ χ)

inductive StreamLabel (σ χ : Type)
  | publish (jobId : String) (stream : σ) (chunk : χ)
  | job (op : Op)
  | pull
  | received
  | timedOut
  | disconnected

namespace LogStream

variable {σ χ : Type} [DecidableEq σ]

def start (broker : LogBroker String σ χ) (jobs : JobTable) : LogStream σ χ := ⟨broker, jobs, .created, 0, []⟩

def emit (e : StreamEvent σ χ) (s : LogStream σ χ) : LogStream σ χ := { s with emitted := s.emitted ++ [e] }

def goto (x : StreamCtl σ χ) (s : LogStream σ χ) : LogStream σ χ := { s with ctl := x }

def isTerminal (jobId : String) (s : LogStream σ χ) : Bool :=
  (JobService.get sqliteJobRepository jobId s.jobs).any fun job => job.state.isTerminal

def isOver (jobId : String) (s : LogStream σ χ) : Bool :=
  (JobService.get sqliteJobRepository jobId s.jobs).all fun job => job.state.isTerminal

def replay (jobId : String) (rest : List (LogChunk σ χ)) (s : LogStream σ χ) : LogStream σ χ :=
  match rest with
  | chunk :: rest => (s.emit (.log chunk)).goto (.replaying rest)
  | [] => if s.isTerminal jobId then (s.emit .endEvent).goto .ending else s.goto .polling

def subscribe (jobId : String) (s : LogStream σ χ) : LogStream σ χ :=
  let ((queue, history), broker) := s.broker.subscribe jobId
  { s with broker := broker, queue := queue }.replay jobId history

def received (s : LogStream σ χ) : Option (LogStream σ χ) :=
  (s.broker.get s.queue).map fun (chunk, broker) =>
    ({ s with broker := broker }.emit (.log chunk)).goto .following

def drain (s : LogStream σ χ) : LogStream σ χ :=
  match s.broker.get s.queue with
  | some (chunk, broker) => ({ s with broker := broker }.emit (.log chunk)).goto .draining
  | none => (s.emit .endEvent).goto .ending

def timedOut (jobId : String) (s : LogStream σ χ) : LogStream σ χ :=
  if s.isOver jobId then s.drain else s.goto .polling

def unsubscribe (jobId : String) (s : LogStream σ χ) : LogStream σ χ :=
  { s with broker := s.broker.unsubscribe jobId s.queue, ctl := .closed }

def step (jobId : String) (label : StreamLabel σ χ) (s : LogStream σ χ) : Option (LogStream σ χ) :=
  match label, s.ctl with
  | .publish j st c, _ => some { s with broker := (s.broker.publish j st c).2 }
  | .job op, _ => some { s with jobs := after sqliteJobRepository op s.jobs }
  | .pull, .created => some (s.subscribe jobId)
  | .pull, .replaying rest => some (s.replay jobId rest)
  | .pull, .following => some (s.goto .polling)
  | .pull, .draining => some s.drain
  | .pull, .ending => some (s.unsubscribe jobId)
  | .received, .polling => s.received
  | .timedOut, .polling => some (s.timedOut jobId)
  | .disconnected, .created => some (s.goto .closed)
  | .disconnected, .closed => none
  | .disconnected, _ => some (s.unsubscribe jobId)
  | _, _ => none

def machine (jobId : String) (broker : LogBroker String σ χ) (jobs : JobTable) :
    Machine (LogStream σ χ) (StreamLabel σ χ) := ⟨start broker jobs, step jobId⟩

def queued (s : LogStream σ χ) : List (LogChunk σ χ) := s.broker.queues s.queue

def chunks (s : LogStream σ χ) : List (LogChunk σ χ) := s.emitted.filterMap StreamEvent.chunk?

def hasEnded (s : LogStream σ χ) : Prop := .endEvent ∈ s.emitted

def sees (jobId : String) (label : StreamLabel σ χ) (s : LogStream σ χ) : Bool :=
  match label, s.ctl with
  | .pull, .created => (s.broker.history jobId).isEmpty && s.isTerminal jobId
  | .pull, .replaying [] => s.isTerminal jobId
  | .timedOut, .polling => s.isOver jobId
  | _, _ => false

/-- No chunk waits when the replay ends with the job over, and none is published while the queue
is drained. -/
def prompt (jobId : String) (label : StreamLabel σ χ) (s : LogStream σ χ) : Bool :=
  match label, s.ctl with
  | .pull, .replaying [] => !s.isTerminal jobId || s.queued.isEmpty
  | .publish j _ _, .draining => j ≠ jobId
  | _, _ => true

/-- The snapshot that the generator got, what was published for the job since, and how much of it
when the generator saw that the job was over. -/
structure Record (σ χ : Type) where
  snapshot : List (LogChunk σ χ)
  since : List (LogChunk σ χ)
  seen : Option Nat
  overflowed : Bool
  prompt : Bool

def observe (jobId : String) (s : LogStream σ χ) (label : StreamLabel σ χ) (_ : LogStream σ χ)
    (g : Record σ χ) : Record σ χ where
  snapshot :=
    match label, s.ctl with
    | .pull, .created => s.broker.history jobId
    | _, _ => g.snapshot
  since :=
    match label, s.ctl with
    | .publish _ _ _, .created => g.since
    | .publish j st c, _ => if j = jobId then g.since ++ [(s.broker.publish j st c).1] else g.since
    | _, _ => g.since
  seen := if s.sees jobId label then some g.since.length else g.seen
  overflowed :=
    match label, s.ctl with
    | .publish _ _ _, .created | .publish _ _ _, .closed => g.overflowed
    | .publish j _ _, _ =>
        g.overflowed || (decide (j = jobId) && LogBroker.full s.broker.queueCap s.queued)
    | _, _ => g.overflowed
  prompt := g.prompt && s.prompt jobId label

def watched (jobId : String) (broker : LogBroker String σ χ) (jobs : JobTable) :
    Machine (LogStream σ χ × Record σ χ) (StreamLabel σ χ) :=
  (machine jobId broker jobs).observed ⟨[], [], none, false, true⟩ (observe jobId)

/-- The log events are the snapshot and what was published until the generator saw that the job was
over. -/
def Complete (s : LogStream σ χ) (g : Record σ χ) : Prop :=
  ∃ n, g.seen = some n ∧ s.chunks = g.snapshot ++ g.since.take n

def Open (s : LogStream σ χ) (g : Record σ χ) : Prop := ¬ s.hasEnded ∧ g.seen = none ∧ g.prompt = true

/-- After the `end` event: `m` of the later chunks were emitted, and `n` were published in time. -/
def Settled (s : LogStream σ χ) (g : Record σ χ) : Prop :=
  ∃ n m, n ≤ g.since.length ∧ m ≤ g.since.length ∧ g.seen = some n ∧
    s.chunks = g.snapshot ++ g.since.take m ∧ (g.prompt = true ↔ n = m)

/-- How far the generator has come at each of its points. -/
def Progress (s : LogStream σ χ) (g : Record σ χ) : Prop :=
  match s.ctl with
  | .created => Open s g ∧ s.chunks = [] ∧ g.since = []
  | .replaying rest => Open s g ∧ s.chunks ++ rest = g.snapshot ∧ s.queued = g.since
  | .polling | .following => Open s g ∧ s.chunks ++ s.queued = g.snapshot ++ g.since
  | .draining => ¬ s.hasEnded ∧ s.chunks ++ s.queued = g.snapshot ++ g.since ∧
      ∃ n, n ≤ g.since.length ∧ g.seen = some n ∧ (g.prompt = true ↔ n = g.since.length)
  | .ending => Settled s g
  | .closed => s.hasEnded → Settled s g

/-- Between its subscription and its end the generator has a queue that only its job feeds. -/
def Subscribed (jobId : String) (s : LogStream σ χ) : Prop :=
  match s.ctl with
  | .created | .closed => True
  | _ => ∀ k, s.queue ∈ s.broker.subscribersOf k ↔ k = jobId

section Steps

variable {jobId : String} {s s' : LogStream σ χ} {g : Record σ χ} {label : StreamLabel σ χ}

@[simp] theorem chunks_emit_log (c : LogChunk σ χ) (x : StreamCtl σ χ) :
    ((s.emit (.log c)).goto x).chunks = s.chunks ++ [c] := by
  simp [chunks, emit, goto, StreamEvent.chunk?]

@[simp] theorem chunks_emit_end (x : StreamCtl σ χ) : ((s.emit .endEvent).goto x).chunks = s.chunks := by
  simp [chunks, emit, goto, StreamEvent.chunk?]

@[simp] theorem hasEnded_emit_log (c : LogChunk σ χ) (x : StreamCtl σ χ) :
    ((s.emit (.log c)).goto x).hasEnded ↔ s.hasEnded := by
  simp [hasEnded, emit, goto]

theorem progress_replay {rest : List (LogChunk σ χ)} (hc : s.chunks ++ rest = g.snapshot)
    (hq : s.queued = g.since) (hend : ¬ s.hasEnded)
    (hseen : g.seen = if rest.isEmpty && s.isTerminal jobId then some g.since.length else none)
    (hprompt : g.prompt = (!(rest.isEmpty && s.isTerminal jobId) || s.queued.isEmpty)) :
    Progress (s.replay jobId rest) g := by
  cases rest with
  | cons c rest =>
      rw [replay]
      refine ⟨⟨fun h => hend ((hasEnded_emit_log c _).mp h), by simpa using hseen, by simpa using hprompt⟩, ?_, hq⟩
      rw [chunks_emit_log, List.append_assoc]
      exact hc
  | nil =>
      rw [List.append_nil] at hc
      rw [replay]
      cases ht : s.isTerminal jobId with
      | true =>
          -- the chunks that were published during the replay are given up
          rw [ht] at hseen hprompt
          refine ⟨g.since.length, 0, le_rfl, Nat.zero_le _, hseen, ?_, ?_⟩
          · rw [List.take_zero, List.append_nil, ← hc]
            exact chunks_emit_end _
          · rw [hprompt, hq]
            simp [List.isEmpty_iff]
      | false =>
          rw [ht] at hseen hprompt
          refine ⟨⟨hend, hseen, hprompt⟩, ?_⟩
          change s.chunks ++ s.queued = _
          rw [hc, hq]

theorem get_cases (b : LogBroker String σ χ) (q : QueueId) :
    (b.queues q = [] ∧ b.get q = none) ∨ ∃ c rest, b.queues q = c :: rest ∧
      b.get q = some (c, { b with queues := Function.update b.queues q rest }) := by
  rw [LogBroker.get]
  cases b.queues q with
  | nil => exact .inl ⟨rfl, rfl⟩
  | cons c rest => exact .inr ⟨c, rest, rfl, rfl⟩

theorem progress_drain {n : Nat} (hc : s.chunks ++ s.queued = g.snapshot ++ g.since) (hend : ¬ s.hasEnded)
    (hn : n ≤ g.since.length) (hseen : g.seen = some n) (hprompt : g.prompt = true ↔ n = g.since.length) :
    Progress s.drain g := by
  rw [drain]
  rcases get_cases s.broker s.queue with ⟨hq, hg⟩ | ⟨c, rest, hq, hg⟩
  · rw [hg]
    refine ⟨n, g.since.length, hn, le_rfl, hseen, ?_, hprompt⟩
    rw [queued, hq, List.append_nil] at hc
    rw [List.take_length, ← hc]
    exact chunks_emit_end _
  · rw [hg]
    refine ⟨fun h => hend ((hasEnded_emit_log c .draining).mp h), ?_, n, hn, hseen, hprompt⟩
    rw [chunks_emit_log, queued]
    change s.chunks ++ [c] ++ Function.update s.broker.queues s.queue rest s.queue = _
    rw [Function.update_self, List.append_assoc, List.singleton_append, ← hq]
    exact hc

theorem Settled.grow {g' : Record σ χ} (h : Settled s g) (hchunks : s'.chunks = s.chunks)
    (hsnapshot : g'.snapshot = g.snapshot) (hsince : ∃ new, g'.since = g.since ++ new)
    (hseen : g'.seen = g.seen) (hprompt : g'.prompt = g.prompt) : Settled s' g' := by
  obtain ⟨n, m, hn, hm, hs, hc, hp⟩ := h
  obtain ⟨new, hsince⟩ := hsince
  refine ⟨n, m, ?_, ?_, hseen.trans hs, ?_, by rw [hprompt]; exact hp⟩
  · rw [hsince, List.length_append]
    omega
  · rw [hsince, List.length_append]
    omega
  · rw [hchunks, hsnapshot, hsince, List.take_append_of_le_length hm]
    exact hc

/-- What a publication does to a generator that has subscribed: the chunk goes to the queue and to
the record alike. -/
theorem publish_appends (hsub : ∀ k, s.queue ∈ s.broker.subscribersOf k ↔ k = jobId) {j : String} {st : σ}
    {c : χ} (hfull : (decide (j = jobId) && LogBroker.full s.broker.queueCap s.queued) = false) :
    ((s.broker.publish j st c).2.queues s.queue) =
      s.queued ++ if j = jobId then [(s.broker.publish j st c).1] else [] := by
  by_cases hj : j = jobId
  · subst j
    have hroom : LogBroker.full s.broker.queueCap s.queued = false := by simpa using hfull
    have hmem : s.queue ∈ s.broker.subscribersOf jobId := (hsub jobId).mpr rfl
    rw [if_pos rfl]
    change (if s.queue ∈ s.broker.subscribersOf jobId then _ else _) = _
    rw [if_pos hmem]
    change LogBroker.deliver s.broker.queueCap (s.broker.publish jobId st c).1 s.queued = _
    rw [LogBroker.deliver, hroom, if_neg Bool.false_ne_true, hroom, if_neg Bool.false_ne_true]
  · have hmem : s.queue ∉ s.broker.subscribersOf j := fun h => hj ((hsub j).mp h)
    rw [if_neg hj, List.append_nil]
    exact if_neg hmem

theorem subscribed_replay {rest : List (LogChunk σ χ)}
    (h : ∀ k, s.queue ∈ s.broker.subscribersOf k ↔ k = jobId) :
    Subscribed jobId (s.replay jobId rest) := by
  cases rest with
  | cons c rest => exact h
  | nil =>
      rw [replay]
      split <;> exact h

theorem subscribed_drain (h : ∀ k, s.queue ∈ s.broker.subscribersOf k ↔ k = jobId) :
    Subscribed jobId s.drain := by
  rw [drain]
  rcases get_cases s.broker s.queue with ⟨-, hg⟩ | ⟨c, rest, -, hg⟩ <;> rw [hg] <;> exact h

theorem subscribed_step (h : s.step jobId label = some s') (hS : Subscribed jobId s) : Subscribed jobId s' := by
  unfold step at h
  split at h <;> rename_i hx
  · cases h
    exact hS
  · cases h
    exact hS
  · cases h
    refine subscribed_replay fun k => ?_
    change s.broker.next ∈ (s.broker.subscribe jobId).2.subscribersOf k ↔ k = jobId
    rw [LogBroker.mem_subscribe]
    constructor
    · rintro (hlt | ⟨hk, -⟩)
      · exact absurd (LogBroker.lt_next hlt) (Nat.lt_irrefl _)
      · exact hk
    · exact fun hk => .inr ⟨hk, rfl⟩
  · cases h
    rw [Subscribed, hx] at hS
    exact subscribed_replay hS
  · cases h
    rw [Subscribed, hx] at hS
    exact hS
  · cases h
    rw [Subscribed, hx] at hS
    exact subscribed_drain hS
  · cases h
    trivial
  · rw [Subscribed, hx] at hS
    rw [received] at h
    rcases get_cases s.broker s.queue with ⟨-, hg⟩ | ⟨c, rest, -, hg⟩ <;> rw [hg] at h <;> cases h
    exact hS
  · cases h
    rw [Subscribed, hx] at hS
    rw [timedOut]
    split
    · exact subscribed_drain hS
    · exact hS
  · cases h
    trivial
  · cases h
  · cases h
    trivial
  · cases h

theorem Open.publish (h : Open s g) (hx : s.ctl ≠ .draining) (j : String) (st : σ) (c : χ) :
    Open { s with broker := (s.broker.publish j st c).2 } (observe jobId s (.publish j st c) s' g) := by
  obtain ⟨hend, hseen, hprompt⟩ := h
  refine ⟨hend, by simpa [observe, sees] using hseen, ?_⟩
  cases hc : s.ctl <;> first | exact absurd hc hx | simpa [observe, prompt, hc] using hprompt

theorem progress_publish (hS : Subscribed jobId s) (hP : Progress s g) {j : String} {st : σ} {c : χ}
    (ho : (observe jobId s (.publish j st c) s' g).overflowed = false) :
    Progress { s with broker := (s.broker.publish j st c).2 } (observe jobId s (.publish j st c) s' g) := by
  have hsplit : ∀ e : LogChunk σ χ, (if j = jobId then g.since ++ [e] else g.since) =
      g.since ++ if j = jobId then [e] else [] := by
    intro e
    split
    · rfl
    · exact (List.append_nil _).symm
  have hsince : ∀ {x}, s.ctl = x → x ≠ .created → (observe jobId s (.publish j st c) s' g).since =
      g.since ++ if j = jobId then [(s.broker.publish j st c).1] else [] := by
    intro x hx hne
    rw [← hsplit]
    cases x <;> first | contradiction | simp only [observe, hx]
  have hfed : (∀ k, s.queue ∈ s.broker.subscribersOf k ↔ k = jobId) →
      (decide (j = jobId) && LogBroker.full s.broker.queueCap s.queued) = false →
      s.chunks ++ s.queued = g.snapshot ++ g.since →
      s.chunks ++ (s.broker.publish j st c).2.queues s.queue =
        g.snapshot ++ (g.since ++ if j = jobId then [(s.broker.publish j st c).1] else []) := by
    intro hsub hfull hc
    rw [publish_appends hsub hfull, ← List.append_assoc, hc, List.append_assoc]
  rw [Progress]
  rw [Progress] at hP
  rw [Subscribed] at hS
  cases hx : s.ctl with
  | created =>
      rw [hx] at hP
      obtain ⟨hopen, hc, hs⟩ := hP
      exact ⟨hopen.publish (by rw [hx]; nofun) j st c, hc, by simpa [observe, hx] using hs⟩
  | replaying rest =>
      rw [hx] at hP hS
      obtain ⟨hopen, hc, hq⟩ := hP
      simp only [observe, hx, Bool.or_eq_false_iff] at ho
      refine ⟨hopen.publish (by rw [hx]; nofun) j st c, ?_, ?_⟩
      · simpa [observe, hx] using! hc
      · rw [hsince hx nofun, queued, publish_appends hS ho.2, hq]
  | polling | following =>
      rw [hx] at hP hS
      obtain ⟨hopen, hc⟩ := hP
      simp only [observe, hx, Bool.or_eq_false_iff] at ho
      refine ⟨hopen.publish (by rw [hx]; nofun) j st c, ?_⟩
      rw [hsince hx nofun]
      exact hfed hS ho.2 hc
  | draining =>
      rw [hx] at hP hS
      obtain ⟨hend, hc, n, hn, hseen, hprompt⟩ := hP
      simp only [observe, hx, Bool.or_eq_false_iff] at ho
      refine ⟨hend, ?_, n, ?_, by simpa [observe, sees, hx] using hseen, ?_⟩
      · rw [hsince hx nofun]
        exact hfed hS ho.2 hc
      · rw [hsince hx nofun, List.length_append]
        omega
      · by_cases hj : j = jobId
        · -- such a chunk is emitted too
          have hlt : n ≠ g.since.length + 1 := by omega
          simpa [observe, prompt, hx, hj] using hlt
        · simpa [observe, prompt, hx, hj] using hprompt
  | ending =>
      rw [hx] at hP
      exact hP.grow rfl (by simp [observe, hx]) ⟨_, hsince hx nofun⟩ (by simp [observe, sees, hx])
        (by simp [observe, prompt, hx])
  | closed =>
      rw [hx] at hP
      exact fun he => (hP he).grow rfl (by simp [observe, hx]) ⟨_, hsince hx nofun⟩ (by simp [observe, sees, hx])
        (by simp [observe, prompt, hx])

theorem progress_pull (hx : s.ctl = .created) (hP : Progress s g) :
    Progress (s.subscribe jobId) (observe jobId s .pull s' g) := by
  rw [Progress, hx] at hP
  obtain ⟨⟨hend, hseen, hprompt⟩, hc, hs⟩ := hP
  have hempty : queued { s with broker := (s.broker.subscribe jobId).2, queue := s.broker.next } = [] :=
    Function.update_self _ _ _
  refine progress_replay (s := { s with broker := (s.broker.subscribe jobId).2, queue := s.broker.next })
    ?_ ?_ hend ?_ ?_
  · simpa [observe, hx] using! hc
  · rw [hempty]
    simpa [observe, hx] using hs.symm
  · simp only [observe, sees, hx, hseen]
    rfl
  · rw [hempty]
    simp [observe, prompt, hx, hprompt]

theorem observe_quiet (hl : ∀ j st c, label ≠ .publish j st c) (hx : label = .pull → s.ctl ≠ .created)
    (hs : s.sees jobId label = false) (hp : s.prompt jobId label = true) : observe jobId s label s' g = g := by
  have hprompt : (g.prompt && s.prompt jobId label) = g.prompt := by rw [hp, Bool.and_true]
  cases label with
  | publish j st c => exact absurd rfl (hl j st c)
  | pull =>
      have hne := hx rfl
      cases hc : s.ctl <;> first | exact absurd hc hne | simp [observe, hs, hprompt, hc]
  | job | received | timedOut | disconnected => simp [observe, hs, hprompt]

theorem Progress.settled (hP : Progress s g) (he : s.hasEnded) : Settled s g := by
  rw [Progress] at hP
  cases hx : s.ctl with
  | created | replaying | polling | following =>
      rw [hx] at hP
      exact absurd he hP.1.1
  | draining =>
      rw [hx] at hP
      exact absurd he hP.1
  | ending =>
      rw [hx] at hP
      exact hP
  | closed =>
      rw [hx] at hP
      exact hP he

theorem progress_step (h : s.step jobId label = some s') (hS : Subscribed jobId s) (hP : Progress s g)
    (ho : (observe jobId s label s' g).overflowed = false) : Progress s' (observe jobId s label s' g) := by
  have hquiet : (∀ j st c, label ≠ .publish j st c) → (label = .pull → s.ctl ≠ .created) →
      s.sees jobId label = false → s.prompt jobId label = true → observe jobId s label s' g = g := observe_quiet
  have hsettled : s.hasEnded → Settled s g := hP.settled
  unfold step at h
  split at h <;> rename_i hx
  · cases h
    exact progress_publish hS hP ho
  · -- the table of jobs is read at the checks only
    rw [hquiet nofun nofun rfl rfl]
    cases h
    exact hP
  · cases h
    exact progress_pull hx hP
  · next rest =>
      cases h
      rw [Progress, hx] at hP
      obtain ⟨⟨hend, hseen, hprompt⟩, hc, hq⟩ := hP
      refine progress_replay ?_ ?_ hend ?_ ?_
      · simpa [observe, hx] using hc
      · simpa [observe, hx] using hq
      · cases rest <;> simp [observe, sees, hx, hseen]
      · cases rest <;> simp [observe, prompt, hx, hprompt]
  · rw [hquiet nofun (by simp [hx]) (by simp [sees, hx]) (by simp [prompt, hx])]
    cases h
    rw [Progress, hx] at hP
    exact hP
  · rw [hquiet nofun (by simp [hx]) (by simp [sees, hx]) (by simp [prompt, hx])]
    cases h
    rw [Progress, hx] at hP
    obtain ⟨hend, hc, n, hn, hseen, hprompt⟩ := hP
    exact progress_drain hc hend hn hseen hprompt
  · rw [hquiet nofun (by simp [hx]) (by simp [sees, hx]) (by simp [prompt, hx])]
    cases h
    exact hsettled
  · rw [hquiet nofun nofun (by simp [sees]) (by simp [prompt])]
    rw [Progress, hx] at hP
    obtain ⟨⟨hend, hopen⟩, hc⟩ := hP
    rw [received] at h
    rcases get_cases s.broker s.queue with ⟨-, hg⟩ | ⟨c, rest, hq, hg⟩ <;> rw [hg] at h <;> cases h
    refine ⟨⟨fun h => hend ((hasEnded_emit_log c .following).mp h), hopen⟩, ?_⟩
    rw [chunks_emit_log]
    change s.chunks ++ [c] ++ Function.update s.broker.queues s.queue rest s.queue = _
    rw [Function.update_self, List.append_assoc, List.singleton_append, ← hq]
    exact hc
  · rw [Progress, hx] at hP
    obtain ⟨⟨hend, hseen, hprompt⟩, hc⟩ := hP
    rw [timedOut] at h
    split at h
    · next hover =>
        cases h
        refine progress_drain (n := g.since.length) ?_ hend ?_ ?_ ?_
        · simpa [observe] using hc
        · simp [observe]
        · simp [observe, sees, hx, hover]
        · simp [observe, prompt, hprompt]
    · next hover =>
        rw [hquiet nofun nofun (by simpa [sees, hx] using hover) (by simp [prompt])]
        cases h
        exact ⟨⟨hend, hseen, hprompt⟩, hc⟩
  · rw [hquiet nofun nofun (by simp [sees]) (by simp [prompt])]
    cases h
    exact hsettled
  · cases h
  · rw [hquiet nofun nofun (by simp [sees]) (by simp [prompt])]
    cases h
    exact hsettled
  · cases h

theorem overflowed_of_observe (h : (observe jobId s label s' g).overflowed = false) : g.overflowed = false := by
  simp only [observe] at h
  split at h
  · exact h
  · exact h
  · exact (Bool.or_eq_false_iff.mp h).1
  · exact h

theorem progress_of_reachable {broker : LogBroker String σ χ} {jobs : JobTable}
    {p : LogStream σ χ × Record σ χ} (hp : (watched jobId broker jobs).Reachable p) :
    Subscribed jobId p.1 ∧ (p.2.overflowed = false → Progress p.1 p.2) := by
  refine Machine.Run.invariant (I := fun p : LogStream σ χ × Record σ χ =>
    Subscribed jobId p.1 ∧ (p.2.overflowed = false → Progress p.1 p.2)) ?_ hp ⟨trivial, fun _ => ?_⟩
  · rintro u label v ⟨hS, hP⟩ - hst
    obtain ⟨hst, hghost⟩ := Machine.observed_step.mp hst
    rw [hghost]
    exact ⟨subscribed_step hst hS, fun ho => progress_step hst hS (hP (overflowed_of_observe ho)) ho⟩
  · exact ⟨⟨List.not_mem_nil, rfl, rfl⟩, rfl, rfl⟩

end Steps

/-- Live stream completeness: when the stream has ended, and its queue never overflowed, the log
events are the snapshot and the chunks published before the generator saw that the job was over,
exactly if no chunk waited at the end of a replay that ended the stream and none was published while
the queue was drained. -/
theorem live_stream_complete_iff (jobId : String) (broker : LogBroker String σ χ) (jobs : JobTable)
    {p : LogStream σ χ × Record σ χ} (hp : (watched jobId broker jobs).Reachable p) (hend : p.1.hasEnded)
    (ho : p.2.overflowed = false) : Complete p.1 p.2 ↔ p.2.prompt = true := by
  obtain ⟨n, m, hn, hm, hseen, hc, hprompt⟩ := ((progress_of_reachable hp).2 ho).settled hend
  rw [hprompt]
  constructor
  · rintro ⟨n', hseen', hc'⟩
    cases hseen.symm.trans hseen'
    have htake := List.append_cancel_left (hc.symm.trans hc')
    have hlen := congrArg List.length htake
    rw [List.length_take_of_le hm, List.length_take_of_le hn] at hlen
    exact hlen.symm
  · rintro rfl
    exact ⟨n, hseen, hc⟩

instance (s : LogStream σ χ) [DecidableEq χ] : Decidable s.hasEnded := inferInstanceAs (Decidable (_ ∈ _))

def streamBegins : List (StreamLabel String String) :=
  [.job (.submit "job_1" "corr_1" .epoch .epoch ⟨"agent-1", "alpine", ["true"], 60000, none, 0, some []⟩),
    .job (.markDispatchedWithAttempt .epoch .epoch "job_1"), .job (.markRunning .epoch "job_1"),
    .publish "job_1" "stdout" "a", .pull]

/-- A chunk arrives while the client is still being sent the history, and the job succeeds. -/
def slowClient : List (StreamLabel String String) :=
  streamBegins ++ [.publish "job_1" "stdout" "b", .job (.markSucceeded .epoch "job_1" 0 "ab" ""), .pull]

theorem live_stream_loses_chunk : ¬ ∀ (jobId : String) (broker : LogBroker String String String)
    (jobs : JobTable) (p : LogStream String String × Record String String),
    (watched jobId broker jobs).Reachable p → p.1.hasEnded → p.2.overflowed = false →
      Complete p.1 p.2 := by
  intro hall
  have hexec : ((watched "job_1" (.new 5000 1000) .empty).exec (fun _ _ => True) slowClient
      (watched "job_1" (.new 5000 1000) .empty).init).any (fun p => decide
        (p.1.hasEnded ∧ p.2.overflowed = false ∧ p.2.seen = some 1 ∧ p.1.chunks = [⟨"stdout", 1, "a"⟩] ∧
          p.2.snapshot = [⟨"stdout", 1, "a"⟩] ∧ p.2.since = [⟨"stdout", 2, "b"⟩])) = true := by
    decide +kernel
  obtain ⟨p, hp, hend, ho, hseen, hc, hsnapshot, hsince⟩ := Machine.exists_run _ _ hexec
  obtain ⟨n, hn, heq⟩ := hall _ _ _ p hp hend ho
  rw [hseen] at hn
  cases hn
  rw [hc, hsnapshot, hsince] at heq
  simp at heq

def promptClient : List (StreamLabel String String) :=
  streamBegins ++ [.pull, .publish "job_1" "stdout" "b", .received, .pull,
    .job (.markSucceeded .epoch "job_1" 0 "ab" ""), .timedOut]

theorem live_stream_complete_prompt : ∃ p : LogStream String String × Record String String,
    (watched "job_1" (.new 5000 1000) .empty).Reachable p ∧ p.1.hasEnded ∧
      p.1.chunks = [⟨"stdout", 1, "a"⟩, ⟨"stdout", 2, "b"⟩] ∧ p.2.prompt = true ∧
      (Complete p.1 p.2 ↔ p.2.prompt = true) := by
  have hexec : ((watched "job_1" (.new 5000 1000) .empty).exec (fun _ _ => True) promptClient
      (watched "job_1" (.new 5000 1000) .empty).init).any (fun p => decide
        (p.1.hasEnded ∧ p.2.overflowed = false ∧ p.1.chunks = [⟨"stdout", 1, "a"⟩, ⟨"stdout", 2, "b"⟩] ∧
          p.2.prompt = true)) = true := by decide +kernel
  obtain ⟨p, hp, hend, ho, hc, hprompt⟩ := Machine.exists_run _ _ hexec
  exact ⟨p, hp, hend, hc, hprompt, live_stream_complete_iff _ _ _ hp hend ho⟩

end LogStream

end JobSystem
