import JobSystem.Server.Acknowledge

namespace JobSystem

open Lib

def dispatchAttempts (j : String) (jobs : JobTable) : Nat := (record j jobs).elim 0 (·.dispatchAttempts)

def stateOf (j : String) (jobs : JobTable) : Option JobState := (record j jobs).map (·.state)

/-- The server's operations count every dispatch, and nothing else. -/
theorem Op.effect_attempts {op : Op} (hop : ∀ t j, op ≠ .markDispatched t j) (job : Job) :
    (op.effect job).dispatchAttempts = job.dispatchAttempts +
      if job.state = .pending ∧ (op.effect job).state = .dispatched then 1 else 0 := by
  have htrans : ∀ t e n, (job.transition t e n).dispatchAttempts = job.dispatchAttempts := by
    intro t e n
    rw [Job.transition]
    split <;> rfl
  -- every other operation leaves a pending job in another state than `DISPATCHED`
  have hother :
      op.next .pending ≠ .dispatched → (op.effect job).dispatchAttempts = job.dispatchAttempts →
      (op.effect job).dispatchAttempts = job.dispatchAttempts +
        if job.state = .pending ∧ (op.effect job).state = .dispatched then 1 else 0 := by
    intro hne hsame
    rw [op.effect_state, if_neg (by rintro ⟨hp, hd⟩; exact hne (hp ▸ hd)), hsame, Nat.add_zero]
  cases op with
  | submit => exact hother (by simp [next]) rfl
  | markDispatched t j => exact absurd rfl (hop t j)
  | markDispatchedWithAttempt t₁ t₂ j =>
      by_cases hs : job.state = .pending
      · simp [effect, Job.dispatch, hs]
      · simp [effect, Job.dispatch, hs]
  | markRunning | markTimedOut | requeue => exact hother (by simp [next]) (htrans _ _ _)
  | markSucceeded | markFailed =>
      refine hother (by simp [next]) ?_
      rw [effect, Job.complete]
      split <;> rfl
  | markCancelled =>
      refine hother (by simp [next]) ?_
      rw [effect, Job.cancel]
      split
      · rfl
      · exact htrans _ _ _
  | failStaleDispatch =>
      refine hother (by simp [next]) ?_
      rw [effect, Job.failStale]
      split <;> rfl

theorem Op.created_attempts {op : Op} {b : Job} (h : b ∈ op.created) : b.dispatchAttempts = 0 := by
  cases op <;> cases h
  rfl

namespace Server

def countDispatches (s : Server) (_ : Label) (t : Server) (count : String → Nat) : String → Nat :=
  fun j =>
  count j + if stateOf j s.jobs = some .pending ∧ stateOf j t.jobs = some .dispatched then 1 else 0

def counted (cfg : Config) (jobs : JobTable) : Machine (Server × (String → Nat)) Label :=
  (machine cfg jobs).observed (fun _ => 0) countDispatches

def Bounded (cfg : Config) (jobs : JobTable) : Prop :=
  ∀ j a, record j jobs = some a → a.dispatchAttempts ≤ cfg.maxDispatchAttempts ∧
    (a.state = .pending → a.dispatchAttempts + 1 ≤ cfg.maxDispatchAttempts)

/-- The jobs that the scan has still to look at are different ones, and none was taken
back or dispatched since the list was drawn up. -/
def Current (s : Server) : Prop :=
  ∀ now rest, (s.ctl .ackWatcher).bind Ctl.scanning = some (now, rest) →
    (rest.map (·.jobId)).Nodup ∧ ∀ e ∈ rest, ∃ a, record e.jobId s.jobs = some a ∧ a.state ≠ .pending ∧
      a.dispatchAttempts = e.dispatchAttempts

variable {cfg : Config} {s s' : Server} {label : Label}

theorem performs_dispatch {op : Op} (h : Performs cfg s label op) : ∀ t j, op ≠ .markDispatched t j := by
  rintro t j rfl
  generalize hop : Op.markDispatched t j = op at h
  cases h with
  | result _ k x o e err t' =>
      rcases completion_cases t' k x o e err with ⟨_, he⟩ | he <;> rw [he] at hop <;> cases hop
  | _ => cases hop

theorem view_scan_head (h : View cfg s .run s') {now : Instant} {job : Job} {rest : List Job}
    (hl : s.loop = some .ackWatcher) (hc : s.ctl .ackWatcher = some (.scanAck now (job :: rest))) :
    s'.ctl .ackWatcher = none ∨ (s'.ctl .ackWatcher).bind Ctl.scanning = some (now, rest) := by
  cases h with
  | quiet _ _ _ hq => cases hq
  | entered co _ _ hl' hu | queued co _ _ hl' hu | left co _ _ hl' hu | sendBegun co _ _ _ _ hl' hu
    | cancelSending co _ _ _ hl' hu =>
      cases hl.symm.trans hl'
      cases hc.symm.trans hu
  | scanEnded =>
      left
      dsimp only
      rw [Function.update_self]
  | scanSkipped _ _ _ _ hu | staleFailed _ _ _ _ _ _ hu | requeued _ _ _ _ _ hu =>
      cases hc.symm.trans hu
      right
      dsimp only
      rw [Function.update_self]
      rfl
  | timeoutMoved _ _ _ hl' => cases hl.symm.trans hl'
  | timedOut _ co _ _ _ _ _ hx hcase | cancelled _ co _ _ _ _ _ hx hcase =>
      rcases hcase with ⟨_, hl', rfl⟩ | ⟨_, he, _⟩
      · cases hl.symm.trans hl'
        cases hc.symm.trans hx
      · cases he

theorem current_step (hC : Current s) (h : View cfg s label s') : Current s' := by
  intro now rest hc
  rcases view_scanning h hc with ⟨jobs, hjobs, hsub⟩ | ⟨rfl, rfl, rfl⟩
  · obtain ⟨hnd, hold⟩ := hC now jobs hjobs
    refine ⟨(hsub.sublist.map _).nodup hnd, fun e he => ?_⟩
    obtain ⟨a, ha, hne, hatt⟩ := hold e (hsub.mem he)
    rcases view_record h ha with hb | ⟨op, ht, hp, hb⟩
    · exact ⟨a, hb, hne, hatt⟩
    · refine ⟨op.effect a, hb, fun hpend => ?_, ?_⟩
      · -- only the scan itself requeues, and then the job is the head of the list
        obtain ⟨_, t, j, rfl⟩ := Op.effect_pending hpend hne
        cases ht
        obtain ⟨rfl, now', job, rest', hl, hc', -, -, hid⟩ := performs_requeue hp
        rw [hc'] at hjobs
        cases hjobs
        rcases view_scan_head h hl hc' with hnone | hhead
        · rw [hnone] at hc
          cases hc
        · cases hhead.symm.trans hc
          rw [List.map_cons, List.nodup_cons] at hnd
          exact hnd.1 (List.mem_map.mpr ⟨e, he, hid.symm⟩)
      · rw [Op.effect_attempts (performs_dispatch hp), if_neg fun hs => hne hs.1]
        exact hatt
  · refine ⟨list_nodup _ _ _, fun e he => ?_⟩
    obtain ⟨hrec, hm⟩ := mem_list.mp he
    have hd : e.state = .dispatched := by
      simpa [Job.matches, eq_comm (a := JobState.dispatched)] using hm
    have hjobs : s'.jobs = s.jobs := by
      cases h with
      | ackScan => rfl
      | quiet _ _ _ hq => cases hq
      | timedOut _ _ _ _ _ _ _ _ hcase | cancelled _ _ _ _ _ _ _ _ hcase =>
          rcases hcase with ⟨he, _⟩ | ⟨_, he, _⟩ <;> cases he
    exact ⟨e, by rw [hjobs]; exact hrec, by rw [hd]; rintro ⟨⟩, rfl⟩

/-- A step raises the counter of a job with its dispatch, and only then. -/
theorem view_attempts (h : View cfg s label s') (j : String) :
    dispatchAttempts j s'.jobs = dispatchAttempts j s.jobs +
      if stateOf j s.jobs = some .pending ∧ stateOf j s'.jobs = some .dispatched then 1 else 0 := by
  cases ha : record j s.jobs with
  | none =>
      have hnew : dispatchAttempts j s'.jobs = 0 := by
        rcases view_jobs h with hj | ⟨op, hj, hp⟩
        · rw [dispatchAttempts, hj, ha]; rfl
        · rw [dispatchAttempts, hj]
          rcases stored_cases op s.jobs j with hk | ⟨_, hk⟩ | ⟨_, b, hb, _, hk⟩
          · rw [hk, ha]; rfl
          · rw [hk, ha]; rfl
          · rw [hk]
            exact Op.created_attempts hb
      rw [hnew, dispatchAttempts, stateOf, ha]
      rfl
  | some a =>
      rcases view_record h ha with hb | ⟨op, _, hp, hb⟩
      · simp only [dispatchAttempts, stateOf, ha, hb, Option.elim_some, Option.map_some,
          Option.some.injEq]
        rw [if_neg (by rintro ⟨h₁, h₂⟩; rw [h₁] at h₂; cases h₂), Nat.add_zero]
      · simp only [dispatchAttempts, stateOf, ha, hb, Option.elim_some, Option.map_some,
          Option.some.injEq]
        exact Op.effect_attempts (performs_dispatch hp) a

theorem bounded_step (hm : 1 ≤ cfg.maxDispatchAttempts) (hB : Bounded cfg s.jobs) (hC : Current s)
    (h : View cfg s label s') : Bounded cfg s'.jobs := by
  intro j b hb
  have hcount := view_attempts h j
  rw [dispatchAttempts, hb, Option.elim_some] at hcount
  cases ha : record j s.jobs with
  | none =>
      rw [dispatchAttempts, stateOf, ha, if_neg (by rintro ⟨⟨⟩, _⟩)] at hcount
      have hzero : b.dispatchAttempts = 0 := hcount
      omega
  | some a =>
      obtain ⟨hle, hpend⟩ := hB j a ha
      rw [dispatchAttempts, stateOf, stateOf, ha, hb] at hcount
      simp only [Option.elim_some, Option.map_some, Option.some.injEq] at hcount
      by_cases hd : a.state = .pending ∧ b.state = .dispatched
      · have hlt := hpend hd.1
        rw [if_pos hd] at hcount
        refine ⟨by omega, fun hp => ?_⟩
        rw [hd.2] at hp
        cases hp
      · rw [if_neg hd] at hcount
        refine ⟨by omega, fun hp => ?_⟩
        by_cases hap : a.state = .pending
        · have hlt := hpend hap
          omega
        · -- the job was requeued as the head of a scan that knows its counter
          rcases view_record h ha with hk | ⟨op, ht, hperf, hk⟩
          · cases hb.symm.trans hk
            exact absurd hp hap
          · cases hb.symm.trans hk
            obtain ⟨_, t, k, rfl⟩ := Op.effect_pending hp hap
            cases ht
            obtain ⟨-, now, job, rest, -, hc, -, hlt, rfl⟩ := performs_requeue hperf
            obtain ⟨-, hknown⟩ := hC now (job :: rest) (by rw [hc]; rfl)
            obtain ⟨a', ha', -, hatt⟩ := hknown job List.mem_cons_self
            cases ha.symm.trans ha'
            omega

/-- Over a run the limit is kept, and the ghost counts what the counters of the jobs count. -/
theorem counted_run (hm : 1 ≤ cfg.maxDispatchAttempts) {jobs : JobTable} (hjobs : Bounded cfg jobs)
    {p : Server × (String → Nat)} (hp : (counted cfg jobs).Reachable p) :
    Current p.1 ∧ Bounded cfg p.1.jobs ∧
      ∀ j, dispatchAttempts j p.1.jobs = dispatchAttempts j jobs + p.2 j := by
  have hstart : Current (start jobs) := fun _ _ hc => by cases hc
  refine Machine.Run.invariant (I := fun p : Server × (String → Nat) => Current p.1 ∧ Bounded cfg p.1.jobs ∧
    ∀ j, dispatchAttempts j p.1.jobs = dispatchAttempts j jobs + p.2 j) ?_ hp ⟨hstart, hjobs, fun _ => rfl⟩
  rintro u l v ⟨hC, hB, hcount⟩ - hst
  obtain ⟨hst, hghost⟩ := Machine.observed_step.mp hst
  have hv := step_view hst
  refine ⟨current_step hC hv, bounded_step hm hB hC hv, fun j => ?_⟩
  rw [view_attempts hv j, hcount j, hghost, Nat.add_assoc]
  rfl

theorem attempts_mono {p q : Server × (String → Nat)} {jobs : JobTable}
    (hq : (counted cfg jobs).Run (fun _ _ => True) p q) (j : String) :
    dispatchAttempts j p.1.jobs ≤ dispatchAttempts j q.1.jobs := by
  refine Machine.Run.invariant (I := fun r : Server × (String → Nat) =>
    dispatchAttempts j p.1.jobs ≤ dispatchAttempts j r.1.jobs) ?_ hq le_rfl
  intro u l v hu _ hst
  have hcount := view_attempts (step_view (Machine.observed_step.mp hst).1) j
  omega

/-- Bounded dispatch: no job is dispatched more than `max_dispatch_attempts` times, and its counter
is the number of its dispatches, which never falls. -/
theorem bounded_dispatch (cfg : Config) (hm : 1 ≤ cfg.maxDispatchAttempts) (jobs : JobTable)
    (hjobs : Bounded cfg jobs) {p q : Server × (String → Nat)} (hp : (counted cfg jobs).Reachable p)
    (hq : (counted cfg jobs).Run (fun _ _ => True) p q) :
    Bounded cfg p.1.jobs ∧ (∀ j, dispatchAttempts j p.1.jobs = dispatchAttempts j jobs + p.2 j) ∧
      ∀ j, dispatchAttempts j p.1.jobs ≤ dispatchAttempts j q.1.jobs :=
  ⟨(counted_run hm hjobs hp).2.1, (counted_run hm hjobs hp).2.2, attempts_mono hq⟩

def dispatchedTwice : List Label :=
  [.tick sixSeconds, .ackScan, .run, .run, .run, .run, .connect, .frame 1 (some (.register "agent-1")),
    .run, .run, .sendReturned (.handler 1) .sent]

theorem bounded_dispatch_twice : ∃ p q, (counted .default .empty).Reachable p ∧
    (counted .default .empty).Run (fun _ _ => True) p q ∧
    p.2 "job_1" = 1 ∧ dispatchAttempts "job_1" q.1.jobs = 2 ∧
    Bounded .default p.1.jobs ∧
      (∀ j, dispatchAttempts j p.1.jobs = dispatchAttempts j Lib.Table.empty + p.2 j) ∧
      ∀ j, dispatchAttempts j p.1.jobs ≤ dispatchAttempts j q.1.jobs := by
  have hexec : ((counted .default .empty).exec (fun _ _ => True) ackedDispatch
      (counted .default .empty).init).any (fun p => decide (p.2 "job_1" = 1 ∧
        ((counted .default .empty).exec (fun _ _ => True) dispatchedTwice p).any
          (fun q => decide (dispatchAttempts "job_1" q.1.jobs = 2)) = true)) = true := by decide +kernel
  obtain ⟨p, hp, hone, hq⟩ := Machine.exists_run _ _ hexec
  obtain ⟨q, hq, htwo⟩ := Machine.exists_run _ _ hq
  exact ⟨p, q, hp, hq, hone, htwo, bounded_dispatch .default (by decide) .empty (by rintro j a ⟨⟩) hp hq⟩

end Server

end JobSystem
