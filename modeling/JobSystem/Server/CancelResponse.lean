import JobSystem.Server.Attempts
import JobSystem.Server.Tasks

namespace JobSystem

open Lib

def Ctl.cancels : Ctl → Option String
  | .sendCancel job (.user _) | .sendingCancel job (.user _) => some job.jobId
  | _ => none

theorem Return.next_cancels (k : Return) : k.next.bind Ctl.cancels = none := by cases k <;> rfl

theorem Job.cancel_of_terminal {x : Job} (h : x.state.isTerminal = true) (t : Instant) : x.cancel t = x :=
  if_pos h

theorem Job.cancel_state_of_open {x : Job} (h : x.state.isTerminal = false) (t : Instant) :
    (x.cancel t).state = .cancelled := by
  have hc : x.cancel t = x.transition t x.state .cancelled := if_neg (by rw [h]; nofun)
  rw [hc, Job.transition_state, if_pos rfl]

namespace Server

def Cancelling (n : Nat) (j : String) (s : Server) : Prop := (s.ctl (.api n)).bind Ctl.cancels = some j

def Open (j : String) (s : Server) : Prop := ∃ x, record j s.jobs = some x ∧ x.state.isTerminal = false

def Answers (n : Nat) (j : String) (q : JobState) (s s' : Server) : Prop :=
  s'.history = .cancelResponse n j q :: s.history

section Steps

variable {cfg : Config} {s s' : Server} {label : Label} {j : String} {n : Nat} {q : JobState}

theorem view_cancels (h : View cfg s label s') {co : Coro} (hc : (s'.ctl co).bind Ctl.cancels = some j) :
    (s.ctl co).bind Ctl.cancels = some j ∨
      ∃ n, co = .api n ∧ label = .cancel n j ∧ s.Open j ∧ s'.jobs = s.jobs := by
  cases h with
  | cancelBegun n k job _ _ hj ht =>
      dsimp only at hc
      rw [update_bind] at hc
      split at hc
      · next hco =>
          cases hc
          have hid := record_jobId hj
          exact .inr ⟨n, hco, by rw [hid], ⟨job, hid.symm ▸ hj, ht⟩, rfl⟩
      · exact .inl hc
  | registered | resultFreed | submitted | ackScan | timeoutScan | sentUnrecorded | scanEnded | scanSkipped
    | staleFailed | requeued | timedOut | cancelled | woken | entered | queued | sendBegun =>
      exact .inl (bind_of_update hc (.inl rfl))
  | timeoutMoved _ y _ _ _ _ hy =>
      refine .inl (bind_of_update hc (.inl ?_))
      rcases hy with ⟨rfl, _⟩ | ⟨_, ⟨_, _, rfl⟩ | ⟨_, _, _, rfl⟩⟩ <;> rfl
  | cancelSending co job k _ _ hu =>
      refine .inl (bind_of_update hc (.inr ?_))
      rw [hu]
      cases k <;> rfl
  | left _ _ k | sent _ _ _ _ k | sendClosed _ _ _ _ k =>
      exact .inl (bind_of_update hc (.inl k.next_cancels))
  | _ => exact .inl hc

/-- The swap, and the answer that is made of what it returns. -/
theorem cancelSent_user (co : Coro) (job : Job) (n : Nat) {x : Job} (hx : record job.jobId s.jobs = some x) :
    record job.jobId (s.cancelSent co job (.user n)).jobs = some (x.cancel s.clock) ∧
      Answers n job.jobId (x.cancel s.clock).state s (s.cancelSent co job (.user n)) := by
  obtain ⟨jobs, hex, hu⟩ :=
    JobService.markCancelled_spec sqliteJobRepository_lawful s.clock job.jobId s.jobs
  have hrec : sqliteJobRepository.get job.jobId jobs = some (x.cancel s.clock) :=
    (hu.get_some hx).trans (by rw [if_pos rfl])
  simp only [cancelSent, hex, hrec]
  exact ⟨hrec, rfl⟩

theorem sendCancel_cases (co : Coro) (job : Job) (k : CancelReturn) (s : Server) :
    s.sendCancel co job k = s.cancelSent co job k ∨ (s.sendCancel co job k).history = s.history := by
  rw [sendCancel]
  split
  · exact .inl rfl
  · dsimp only
    split
    · exact .inr rfl
    · exact .inl rfl

theorem step_answers (hP : Placed s) (hst : step cfg label s = some s') (hans : Answers n j q s s') :
    ∃ job, (s.ctl (.api n)).bind Ctl.cancels = some job.jobId ∧ job.jobId = j ∧
      s' = s.cancelSent (.api n) job (.user n) := by
  have hview := step_view hst
  rw [Answers] at hans
  cases hview with
  | cancelled l co job m x events state hx hcase =>
      cases hans
      have hco : co = .api n := by
        have hof := hP co x hx
        rcases hcase with ⟨-, -, rfl⟩ | ⟨-, -, -, rfl⟩ <;> exact hof
      subst co
      rcases hcase with ⟨rfl, hl, rfl⟩ | ⟨out, rfl, hl, rfl⟩
      · simp only [step, hl, hx, runPiece, Option.some.injEq] at hst
        refine ⟨job, by rw [hx]; rfl, rfl, ?_⟩
        rcases sendCancel_cases (.api n) job (.user n) s with hsent | hhist
        · exact hst.symm.trans hsent
        · rw [hst] at hhist
          exact absurd hhist (List.cons_ne_self _ _)
      · simp only [step, hl, hx, Option.isNone_none, if_true] at hst
        refine ⟨job, by rw [hx]; rfl, rfl, ?_⟩
        cases out with
        | sent | closed => exact (Option.some.inj hst).symm
        | sentStoreFails => cases hst
  | staleFailed | requeued =>
      dsimp only at hans
      split at hans
      · cases hans
      · exact absurd hans.symm (List.cons_ne_self _ _)
  | acked | registered | resultRaised | resultKept | resultFreed | sendBegun | sent | sentUnrecorded => cases hans
  | _ => exact absurd hans.symm (List.cons_ne_self _ _)

end Steps

section Runs

variable {cfg : Config} {jobs : JobTable} {s t : Server} {j : String} {n : Nat}

/-- A stored job stays stored, and once it is terminal nothing changes its record. -/
theorem run_record {P : Server → Label → Prop} (h : (machine cfg jobs).Run P s t) {x : Job}
    (hx : record j s.jobs = some x) :
    ∃ y, record j t.jobs = some y ∧ (x.state.isTerminal = true → y = x) := by
  refine h.invariant (I := fun u => ∃ y, record j u.jobs = some y ∧ (x.state.isTerminal = true → y = x))
    ?_ ⟨x, hx, fun _ => rfl⟩
  rintro u l v ⟨y, hy, heq⟩ - hst
  cases ht : x.state.isTerminal with
  | true =>
      obtain rfl := heq ht
      exact ⟨y, view_terminal (step_view hst) hy ht, fun _ => rfl⟩
  | false =>
      obtain ⟨z, hz, -⟩ := view_agentId (step_view hst) hy
      exact ⟨z, hz, nofun⟩

theorem run_closes {P : Server → Label → Prop} (h : (machine cfg jobs).Run P s t) (hs : s.Open j) {y : Job}
    (hy : record j t.jobs = some y) (ht : y.state.isTerminal = true) :
    ∃ u l v, (machine cfg jobs).Run P s u ∧ u.Open j ∧ step cfg l u = some v ∧
      stateOf j v.jobs = some y.state ∧ (machine cfg jobs).Run P v t := by
  obtain ⟨x, hx, hopen⟩ := hs
  have hfalse : ¬ ∃ w, record j s.jobs = some w ∧ w.state.isTerminal = true := by
    rintro ⟨w, hw, hwt⟩
    cases hx.symm.trans hw
    rw [hopen] at hwt
    cases hwt
  obtain ⟨u, l, v, hsu, hnot, -, hst, ⟨w, hw, hwt⟩, hvt⟩ :=
    h.crossing (Q := fun u => ∃ w, record j u.jobs = some w ∧ w.state.isTerminal = true) hfalse ⟨y, hy, ht⟩
  obtain ⟨z, hz, -⟩ := run_record hsu hx
  have hzopen : z.state.isTerminal = false := by
    rw [← Bool.not_eq_true]
    exact fun hzt => hnot ⟨z, hz, hzt⟩
  obtain ⟨y', hy', heq⟩ := run_record hvt hw
  cases hy.symm.trans hy'
  exact ⟨u, l, v, hsu, ⟨z, hz, hzopen⟩, hst, by rw [stateOf, hw, heq hwt]; rfl, hvt⟩

structure Checked (cfg : Config) (jobs : JobTable) (n : Nat) (j : String) (s₀ s₁ s : Server) : Prop where
  reachable : (machine cfg jobs).Reachable s₀
  check : step cfg (.cancel n j) s₀ = some s₁
  isOpen : s₁.Open j
  run : (machine cfg jobs).Run (fun u _ => u.Cancelling n j) s₁ s

theorem checked_of_reachable (h : (machine cfg jobs).Reachable s) :
    ∀ n j, s.Cancelling n j → ∃ s₀ s₁, Checked cfg jobs n j s₀ s₁ s := by
  induction h with
  | refl =>
      intro n j hc
      cases hc
  | @tail u v hu hnext ih =>
      intro n j hc
      obtain ⟨label, -, hst⟩ := hnext
      rcases view_cancels (step_view hst) hc with hold | ⟨m, hm, rfl, hopen, hjobs⟩
      · obtain ⟨s₀, s₁, hch⟩ := ih n j hold
        exact ⟨s₀, s₁, { hch with run := hch.run.tail ⟨label, hold, hst⟩ }⟩
      · cases hm
        exact ⟨u, v, hu, hst, by rwa [Open, hjobs], Relation.ReflTransGen.refl⟩

/-- Cancel is decisive: the job is terminal in the state that the response names, and it stays so,
also for a server that is started again with the store. The state is `CANCELLED` unless, after the
check, another step took the open job to the state of the response. -/
theorem cancel_decisive (cfg : Config) (jobs : JobTable) {s s' : Server} {label : Label} {n : Nat}
    {j : String} {q : JobState} (hs : (machine cfg jobs).Reachable s) (hst : step cfg label s = some s')
    (hans : Answers n j q s s') :
    ∃ s₀ s₁, Checked cfg jobs n j s₀ s₁ s ∧ q.isTerminal = true ∧ stateOf j s'.jobs = some q ∧
      (∀ P jobs' u t, u.jobs = s'.jobs → (machine cfg jobs').Run P u t → stateOf j t.jobs = some q) ∧
      (q = .cancelled ∨ ∃ u l v, (machine cfg jobs).Run (fun w _ => w.Cancelling n j) s₁ u ∧ u.Open j ∧
        step cfg l u = some v ∧ stateOf j v.jobs = some q ∧
          (machine cfg jobs).Run (fun w _ => w.Cancelling n j) v s) := by
  obtain ⟨job, hcan, rfl, rfl⟩ := step_answers (placed_of_reachable hs) hst hans
  obtain ⟨s₀, s₁, hch⟩ := checked_of_reachable hs n job.jobId hcan
  obtain ⟨x, hx, hopen⟩ := hch.isOpen
  obtain ⟨y, hy, -⟩ := run_record hch.run hx
  obtain ⟨hrec, hans'⟩ := cancelSent_user (.api n) job n hy
  obtain rfl : q = (y.cancel s.clock).state := by
    cases hans.symm.trans hans'
    rfl
  have hterminal : (y.cancel s.clock).state.isTerminal = true := by
    cases ht : y.state.isTerminal with
    | true => rw [Job.cancel_of_terminal ht, ht]
    | false => rw [Job.cancel_state_of_open ht]; rfl
  refine ⟨s₀, s₁, hch, hterminal, by rw [stateOf, hrec]; rfl, ?_, ?_⟩
  · intro P jobs' u t hu hrun
    rw [← hu] at hrec
    obtain ⟨z, hz, heq⟩ := run_record hrun hrec
    rw [stateOf, hz, heq hterminal]
    rfl
  · cases ht : y.state.isTerminal with
    | false => exact .inl (Job.cancel_state_of_open ht _)
    | true =>
        rw [Job.cancel_of_terminal ht]
        exact .inr (run_closes hch.run hch.isOpen hy ht)

def timeoutDuringCancel : List Label :=
  [.frame 0 (some (.started "job_1")), .cancel 1 "job_1", .run, .tick ⟨61000000, by decide⟩, .timeoutScan, .run,
    .run, .sendReturned .timeoutWatcher .sent, .run]

theorem cancel_decisive_timedOut : ∃ s s', (machine .default .empty).Reachable s ∧
    step .default (.sendReturned (.api 1) .sent) s = some s' ∧ Answers 1 "job_1" .timedOut s s' ∧
    ∃ s₀ s₁, Checked .default .empty 1 "job_1" s₀ s₁ s ∧ JobState.isTerminal .timedOut = true ∧
      stateOf "job_1" s'.jobs = some .timedOut ∧
      (∀ P jobs' u t, u.jobs = s'.jobs → (machine .default jobs').Run P u t →
        stateOf "job_1" t.jobs = some .timedOut) ∧
      (JobState.timedOut = .cancelled ∨
        ∃ u l v, (machine .default .empty).Run (fun w _ => w.Cancelling 1 "job_1") s₁ u ∧ u.Open "job_1" ∧
          step .default l u = some v ∧ stateOf "job_1" v.jobs = some .timedOut ∧
            (machine .default .empty).Run (fun w _ => w.Cancelling 1 "job_1") v s) := by
  have hexec : ((machine .default .empty).exec (fun _ _ => True) (ackedDispatch ++ timeoutDuringCancel)
      (start .empty)).any (fun s => decide ((step .default (.sendReturned (.api 1) .sent) s).any (fun s' =>
        decide (s'.history = .cancelResponse 1 "job_1" .timedOut :: s.history)) = true)) = true := by
    decide +kernel
  obtain ⟨s, hs, hany⟩ := Machine.exists_run _ _ hexec
  obtain ⟨s', hst, hdone⟩ := (Option.any_eq_true _ _).mp hany
  have hans := of_decide_eq_true hdone
  exact ⟨s, s', hs, hst, hans, cancel_decisive .default .empty hs hst hans⟩

end Runs

end Server

end JobSystem
