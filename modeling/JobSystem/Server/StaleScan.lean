import JobSystem.Repository.Refinement
import JobSystem.Server.Attempts
import JobSystem.Server.Tasks

namespace JobSystem

open Lib

namespace SQLiteJobRepository

def Bound (T : JobTable) : Prop := ∀ r ∈ T.rows, r.bindable = true

theorem bound_modify {T : JobTable} (hT : Bound T) {f : Job → Job}
    (hpk : ∀ r, (f r).jobId = r.jobId) (hix : ∀ r, (f r).idempotencyKey = r.idempotencyKey)
    (hf : ∀ r, r.bindable = true → (f r).bindable = true) : Bound (T.modify f hpk hix) := by
  intro r hr
  obtain ⟨x, hx, rfl⟩ := List.mem_map.mp hr
  exact hf x (hT x hx)

theorem bound_add {T T' : JobTable} (hT : Bound T) {job r : Job} (h : add job T = .ok (r, T')) :
    Bound T' := by
  rw [add] at h
  split at h
  · cases h
  · next hb =>
      have hb : job.bindable = true := by simpa using hb
      split at h
      · next hins =>
          cases h
          intro x hx
          rw [Table.check_rows hins, List.mem_append, List.mem_singleton] at hx
          rcases hx with hx | rfl
          · exact hT x hx
          · exact hb
      · split at h
        · cases h
        · split at h <;> cases h
          exact hT

theorem bound_save {T T' : JobTable} (hT : Bound T) {t : Instant} {job r : Job}
    (h : save t job T = .ok (r, T')) : Bound T' := by
  unfold save at h
  dsimp only at h
  split at h
  · cases h
  · next hb =>
      have hb : { job with updatedAt := t }.bindable = true := by simpa using hb
      split at h
      · next hrep =>
          cases h
          intro x hx
          rw [Table.check_rows hrep, List.mem_map] at hx
          obtain ⟨y, hy, rfl⟩ := hx
          split
          · exact hb
          · exact hT y hy
      · cases h

theorem bound_transitionIf {T T' : JobTable} (hT : Bound T) {t : Instant} {j : String}
    {e n : JobState} {r : Option Job} (h : sqliteJobRepository.transitionIf t j e n T = .ok (r, T')) :
    Bound T' := by
  cases h
  refine bound_modify hT _ _ fun row hrow => ?_
  unfold transitionRow
  dsimp only
  split <;> exact hrow

theorem bound_completeIfRunning {T T' : JobTable} (hT : Bound T) {t : Instant} {j : String}
    {n : JobState} {x : Int} {o e : PyStr} {err : Option PyStr} {r : Option Job}
    (h : completeIfRunning t j n x o e err T = .ok (r, T')) : Bound T' := by
  have hbinds := bindable_of_completed h
  rw [completeIfRunning_eq t j n x o e err T hbinds] at h
  cases h
  refine bound_modify hT _ _ fun row hrow => ?_
  rw [bindableResult, Bool.and_eq_true] at hbinds
  rw [completeRow]
  split
  · simp only [Job.bindable, Job.integersFit, Option.all_some, hbinds.1, hbinds.2, Bool.and_eq_true] at hrow ⊢
    exact ⟨⟨⟨hrow.1.1.1, trivial⟩, hrow.1.2⟩, trivial⟩
  · exact hrow

theorem bound_after (op : Op) {T : JobTable} (hT : Bound T) : Bound (after sqliteJobRepository op T) :=
  after_invariant (R := sqliteJobRepository) (fun _ _ _ _ hT h => bound_add hT h)
    (fun _ _ _ _ _ hT h => bound_save hT h) (fun _ _ _ _ _ _ _ hT h => bound_transitionIf hT h)
    (fun _ _ _ _ _ _ _ _ _ _ hT h => bound_completeIfRunning hT h)
    op hT

end SQLiteJobRepository

namespace Server

def failsRunning (cfg : Config) (s : Server) : Bool :=
  match s.ctl .ackWatcher with
  | some (.scanAck now (job :: _)) =>
      ackOverdue cfg now job && decide (cfg.maxDispatchAttempts ≤ job.dispatchAttempts) &&
        decide (stateOf job.jobId s.jobs = some .running)
  | _ => false

def TouchesDispatched (s s' : Server) : Prop :=
  ∀ k a b, record k s.jobs = some a → record k s'.jobs = some b → b ≠ a → a.state = .dispatched

variable {cfg : Config} {s s' : Server} {label : Label}

theorem bound_step (hB : SQLiteJobRepository.Bound s.jobs) (h : View cfg s label s') :
    SQLiteJobRepository.Bound s'.jobs := by
  rcases view_jobs h with hj | ⟨op, hj, _⟩
  · rwa [hj]
  · rw [hj]
    exact SQLiteJobRepository.bound_after op hB

theorem current_of_reachable {jobs : JobTable} (h : (machine cfg jobs).Reachable s) : Current s :=
  h.invariant (I := Current) (fun _ _ _ hI _ hst => current_step hI (step_view hst)) fun _ _ hc => by cases hc

theorem bound_of_reachable {jobs : JobTable} (hjobs : SQLiteJobRepository.Bound jobs)
    (h : (machine cfg jobs).Reachable s) : SQLiteJobRepository.Bound s.jobs :=
  h.invariant (I := fun s => SQLiteJobRepository.Bound s.jobs)
    (fun _ _ _ hI _ hst => bound_step hI (step_view hst)) hjobs

theorem failStaleDispatch_some {T : JobTable} (hT : SQLiteJobRepository.Bound T) {j : String} {a : Job}
    (ha : record j T = some a) (ht : a.state.isTerminal = false) (t₁ t₂ : Instant) (error : String) :
    ∃ r T', JobService.failStaleDispatch sqliteJobRepository t₁ t₂ j error T = .ok (r, T') ∧
      record j T' = some (a.failStale t₁ t₂ error) := by
  have hid := record_jobId ha
  let job : Job :=
    { a with exitCode := some 1, error := some error, state := .failed, finishedAt := some t₁ }
  have hfind : T.find job.jobId = some a := by
    change T.find a.jobId = some a
    rw [hid]
    exact ha
  have hbind : job.bindable = true := by
    have hrow := hT a (Table.find_mem ha).1
    simp only [Job.bindable, Job.integersFit, encodable, Bool.and_eq_true] at hrow ⊢
    exact ⟨⟨⟨hrow.1.1.1, rfl⟩, hrow.1.2⟩, hrow.2.1, rfl⟩
  have hsave := SQLiteJobRepository.save_isOk (t := t₂) hfind rfl hbind
  cases hs : SQLiteJobRepository.save t₂ job T with
  | error e => rw [hs] at hsave; cases hsave
  | ok p =>
      have hex :
          JobService.failStaleDispatch sqliteJobRepository t₁ t₂ j error T =
            .ok (some p.1, p.2) := by
        have hget : sqliteJobRepository.get j T = some a := ha
        rw [JobService.failStaleDispatch, hget]
        dsimp only
        rw [if_neg (by rw [ht]; rintro ⟨⟩)]
        exact congrArg (Except.map fun p => (some p.1, p.2)) hs
      obtain ⟨_, hu⟩ := JobService.failStaleDispatch_spec sqliteJobRepository_lawful hex
      exact ⟨_, _, hex, (hu.get_some ha).trans (by rw [if_pos rfl])⟩

theorem failsRunning_iff :
    s.failsRunning cfg = true ↔
      ∃ now job rest a, s.ctl .ackWatcher = some (.scanAck now (job :: rest)) ∧
      ackOverdue cfg now job = true ∧ cfg.maxDispatchAttempts ≤ job.dispatchAttempts ∧
      record job.jobId s.jobs = some a ∧ a.state = .running := by
  unfold failsRunning
  split
  · next now job rest hc =>
      simp only [Bool.and_eq_true, decide_eq_true_eq, stateOf, Option.map_eq_some_iff]
      constructor
      · rintro ⟨⟨ho, hm⟩, a, ha, hs⟩
        exact ⟨now, job, rest, a, hc, ho, hm, ha, hs⟩
      · rintro ⟨_, _, _, a, hc', ho, hm, ha, hs⟩
        cases hc.symm.trans hc'
        exact ⟨⟨ho, hm⟩, a, ha, hs⟩
  · next hne =>
      refine ⟨fun h => (by cases h), ?_⟩
      rintro ⟨now, job, rest, _, hc, _⟩
      exact absurd hc (hne now job rest)

theorem step_failsRunning (hB : SQLiteJobRepository.Bound s.jobs) (hl : s.loop = some .ackWatcher)
    (hst : step cfg .run s = some s') (hf : s.failsRunning cfg = true) :
    ∃ k a b, record k s.jobs = some a ∧ a.state = .running ∧ record k s'.jobs = some b ∧
      b.state = .failed := by
  obtain ⟨now, job, rest, a, hc, ho, hm, ha, hrun⟩ := failsRunning_iff.mp hf
  have hterm : a.state.isTerminal = false := by rw [hrun]; rfl
  obtain ⟨r, T', hex, hrec⟩ := failStaleDispatch_some hB ha hterm s.clock s.clock
    ("No ack after " ++ toString cfg.maxDispatchAttempts ++ " dispatch attempts")
  simp only [step, hl, hc, runPiece, scanAck, ho, if_true, onAckTimeout, hm, hex] at hst
  cases hst
  refine ⟨job.jobId, a, _, ha, hrun, hrec, ?_⟩
  rw [Job.failStale, if_neg (by rw [hterm]; rintro ⟨⟩)]

/-- The head of a current list that has not ended and does not run is still dispatched. -/
theorem Current.dispatched_head (hC : Current s) (hf : s.failsRunning cfg = false) {now : Instant}
    {job : Job} {rest : List Job} (hc : s.ctl .ackWatcher = some (.scanAck now (job :: rest)))
    (ho : ackOverdue cfg now job = true) (hm : cfg.maxDispatchAttempts ≤ job.dispatchAttempts)
    {a : Job} (ha : record job.jobId s.jobs = some a) (hterm : a.state.isTerminal = false) :
    a.state = .dispatched := by
  obtain ⟨-, hknown⟩ := hC now (job :: rest) (by rw [hc]; rfl)
  obtain ⟨a', ha', hpend, -⟩ := hknown job List.mem_cons_self
  cases ha.symm.trans ha'
  have hrun : a.state ≠ .running := fun hrun => by
    rw [failsRunning_iff.mpr ⟨now, job, rest, a, hc, ho, hm, ha, hrun⟩] at hf
    cases hf
  cases hs : a.state with
  | pending => exact absurd hs hpend
  | dispatched => rfl
  | running => exact absurd hs hrun
  | succeeded | failed | timedOut | cancelled =>
      rw [hs] at hterm
      cases hterm

/-- One step of the watcher, from any state that can be reached: what it changes was a dispatch,
unless it fails a job that has started. -/
theorem scan_touches_dispatched_iff (cfg : Config) (jobs : JobTable)
    (hjobs : SQLiteJobRepository.Bound jobs) {s s' : Server} (h : (machine cfg jobs).Reachable s)
    (hl : s.loop = some .ackWatcher) (hst : step cfg .run s = some s') :
    TouchesDispatched s s' ↔ s.failsRunning cfg = false := by
  constructor
  · intro htouch
    rw [Bool.eq_false_iff]
    intro hf
    obtain ⟨k, a, b, ha, hrun, hb, hfail⟩ := step_failsRunning (bound_of_reachable hjobs h) hl hst hf
    have hd := htouch k a b ha hb (by rintro rfl; rw [hrun] at hfail; cases hfail)
    rw [hrun] at hd
    cases hd
  · intro hf k a b ha hb hne
    have hv := step_view hst
    have hsame : s'.jobs = s.jobs → a.state = .dispatched := by
      intro hj
      rw [hj, ha] at hb
      exact absurd (Option.some.inj hb).symm hne
    -- what the watcher stores is the effect of an operation on the head of its list
    have hop : ∀ op : Op, s'.jobs = stored op s.jobs → op.target = some k ∧ b = op.effect a := by
      intro op hj
      rw [hj] at hb
      rcases stored_some op ha with hk | ⟨ht, hk⟩
      · exact absurd (Option.some.inj (hk.symm.trans hb)).symm hne
      · exact ⟨ht, Option.some.inj (hb.symm.trans hk)⟩
    cases hv with
    | quiet _ _ _ hq => cases hq
    | entered | queued | left | sendBegun | scanEnded | scanSkipped | timeoutMoved | cancelSending =>
        exact hsame rfl
    | staleFailed now job rest error events hl' hc ho hm =>
        obtain ⟨ht, rfl⟩ := hop _ rfl
        cases ht
        have hterm : a.state.isTerminal = false := by
          by_contra ht
          exact hne (Op.effect_terminal _ (by simpa using ht))
        exact (current_of_reachable h).dispatched_head hf hc ho hm ha hterm
    | requeued now job rest =>
        obtain ⟨ht, rfl⟩ := hop (.requeue s.clock job.jobId) rfl
        by_contra hd
        exact hne (Job.transition_of_ne hd)
    | timedOut _ co _ _ _ _ _ hx hcase | cancelled _ co _ _ _ _ _ hx hcase =>
        rcases hcase with ⟨_, hl', rfl⟩ | ⟨_, he, _⟩
        · cases hl.symm.trans hl'
          cases placed_of_reachable h _ _ hx
        · cases he

theorem bound_empty : SQLiteJobRepository.Bound Lib.Table.empty := by rintro r ⟨⟩

theorem scan_touches_dispatched_requeue : ∃ s s', (machine .default .empty).Reachable s ∧
    step .default .run s = some s' ∧ stateOf "job_1" s.jobs = some .dispatched ∧
    stateOf "job_1" s'.jobs = some .pending ∧
      (TouchesDispatched s s' ↔ s.failsRunning .default = false) := by
  have hexec : ((machine .default .empty).exec (fun _ _ => True) (ackedDispatch ++ [.tick sixSeconds, .ackScan])
      (start .empty)).any (fun s => decide (s.loop = some .ackWatcher ∧ stateOf "job_1" s.jobs = some .dispatched ∧
        (step .default .run s).any (fun s' => decide (stateOf "job_1" s'.jobs = some .pending)) = true)) = true := by
    decide +kernel
  obtain ⟨s, hs, hl, hd, hst⟩ := Machine.exists_run _ _ hexec
  obtain ⟨s', hst, hp⟩ := (Option.any_eq_true _ _).mp hst
  have hiff := scan_touches_dispatched_iff .default .empty bound_empty hs hl hst
  exact ⟨s, s', hs, hst, hd, of_decide_eq_true hp, hiff⟩

/-- `job_1` is dispatched three times without an ack, `job_2` of another agent once; then both are
overdue. `job_2` is requeued first and sent again, and while that send is suspended `job_1` starts.
-/
def startedDuringScan : List Label :=
  let reconnect (c : ConnId) : List Label := [.ackScan, .run, .run, .run, .run, .connect,
    .frame c (some (.register "agent-1")), .run, .run, .sendReturned (.handler c) .sent]
  [.connect, .frame 0 (some (.register "agent-1")), .run, .run,
    .submit 0 "job_1" "c1" (.alpine "agent-1" agent_1_ne), .run, .run, .sendReturned (.api 0) .sent,
    .tick sixSeconds] ++ reconnect 1 ++ [.tick twelveSeconds] ++ reconnect 2 ++
  [.connect, .frame 3 (some (.register "agent-2")), .run, .run,
    .submit 0 "job_2" "c2" (.alpine "agent-2" agent_2_ne), .run, .run, .sendReturned (.api 0) .sent,
    .connect, .frame 4 (some (.register "agent-2")), .run, .run,
    .tick eighteenSeconds, .ackScan, .run, .run, .run, .frame 2 (some (.started "job_1")),
    .sendReturned .ackWatcher .sent]

/-- The scan goes on to `job_1` with its old list and fails the running job. -/
theorem scan_touches_dispatched_false :
    ∃ s s', (machine .default .empty).Reachable s ∧ s.loop = some .ackWatcher ∧
      step .default .run s = some s' ∧ stateOf "job_1" s.jobs = some .running ∧
      stateOf "job_1" s'.jobs = some .failed ∧ ¬ TouchesDispatched s s' := by
  have hexec : ((machine .default .empty).exec (fun _ _ => True) startedDuringScan (start .empty)).any
      (fun s => decide (s.loop = some .ackWatcher ∧ stateOf "job_1" s.jobs = some .running ∧
        (step .default .run s).any (fun s' => decide (stateOf "job_1" s'.jobs = some .failed)) = true)) = true := by
    decide +kernel
  obtain ⟨s, hs, hl, hrun, hst⟩ := Machine.exists_run _ _ hexec
  obtain ⟨s', hst, hfail⟩ := (Option.any_eq_true _ _).mp hst
  refine ⟨s, s', hs, hl, hst, hrun, of_decide_eq_true hfail, fun htouch => ?_⟩
  obtain ⟨a, ha, hrun⟩ := Option.map_eq_some_iff.mp hrun
  obtain ⟨b, hb, hfail⟩ := Option.map_eq_some_iff.mp (of_decide_eq_true hfail)
  have hd := htouch "job_1" a b ha hb (by rintro rfl; rw [hrun] at hfail; cases hfail)
  rw [hrun] at hd
  cases hd

end Server

end JobSystem
