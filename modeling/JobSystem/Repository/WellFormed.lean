import JobSystem.Lifecycle
import Mathlib.Data.List.Induction

namespace JobSystem

open Lib

def Op.times : Op → List Instant
  | submit _ _ t₁ t₂ _ | markDispatchedWithAttempt t₁ t₂ _ | failStaleDispatch t₁ t₂ _ _ => [t₁, t₂]
  | markDispatched t _ | markRunning t _ | markSucceeded t _ _ _ _ | markFailed t _ _ _ _ _
  | markTimedOut t _ | markCancelled t _ | requeue t _ => [t]

namespace Job

structure WellFormed (job : Job) : Prop where
  finished : job.finishedAt.isSome ↔ job.state.isTerminal
  exited : job.exitCode.isSome ↔ job.state = .succeeded ∨ job.state = .failed
  notStarted : job.state = .pending ∨ job.state = .dispatched → job.startedAt = none
  started : job.state = .running ∨ job.state = .succeeded ∨ job.state = .timedOut → job.startedAt.isSome
  succeeded : job.state = .succeeded → job.exitCode = some 0 ∧ job.error = none
  failed : job.error.isSome → job.state = .failed
  output : job.stdout ≠ "" ∨ job.stderr ≠ "" → job.state = .succeeded ∨ job.state = .failed
  created_started : ∀ t ∈ job.startedAt, job.createdAt ≤ t
  created_finished : ∀ t ∈ job.finishedAt, job.createdAt ≤ t
  started_finished : ∀ t ∈ job.startedAt, ∀ u ∈ job.finishedAt, t ≤ u
  created_updated : job.createdAt ≤ job.updatedAt

def Since (t : Instant) (job : Job) : Prop := job.createdAt ≤ t ∧ ∀ u ∈ job.startedAt, u ≤ t

section Changes

variable {job : Job} {t : Instant}

theorem WellFormed.unfinished (h : job.WellFormed) (hn : job.state.isTerminal = false) :
    job.finishedAt = none ∧ job.exitCode = none ∧ job.error = none ∧ job.stdout = "" ∧
      job.stderr = "" := by
  have hne : ¬ (job.state = .succeeded ∨ job.state = .failed) := by
    rintro (hs | hs) <;> rw [hs] at hn <;> cases hn
  refine ⟨?_, ?_, ?_, ?_, ?_⟩
  · exact Option.not_isSome_iff_eq_none.mp fun hf => by rw [h.finished.mp hf] at hn; cases hn
  · exact Option.not_isSome_iff_eq_none.mp fun hx => hne (h.exited.mp hx)
  · exact Option.not_isSome_iff_eq_none.mp fun he => hne (.inr (h.failed he))
  · by_contra ho
    exact hne (h.output (.inl ho))
  · by_contra ho
    exact hne (h.output (.inr ho))

theorem WellFormed.queue (h : job.WellFormed) (ht : job.Since t)
    (hs : job.state = .pending ∨ job.state = .dispatched) {n : JobState}
    (hn : n = .pending ∨ n = .dispatched) (d : Nat) :
    { job with state := n, dispatchAttempts := d, updatedAt := t }.WellFormed := by
  have hterm : job.state.isTerminal = false := by rcases hs with hs | hs <;> rw [hs] <;> rfl
  obtain ⟨hf, hx, he, ho, ho'⟩ := h.unfinished hterm
  have hstart := h.notStarted hs
  rcases hn with rfl | rfl
  all_goals
    constructor <;> simp [hf, hx, he, ho, ho', hstart, ht.1]

theorem WellFormed.transition_queue (h : job.WellFormed) (ht : job.Since t) {e n : JobState}
    (he : e = .pending ∨ e = .dispatched) (hn : n = .pending ∨ n = .dispatched) :
    (job.transition t e n).WellFormed := by
  rw [Job.transition]
  split
  · next hs =>
      have hqueue := h.queue ht (hs ▸ he) hn job.dispatchAttempts
      rcases hn with rfl | rfl <;> simpa using hqueue
  · exact h

theorem WellFormed.start (h : job.WellFormed) (ht : job.Since t) (hs : job.state = .dispatched) :
    { job with state := .running, updatedAt := t, startedAt := some (job.startedAt.getD t) }.WellFormed := by
  have hterm : job.state.isTerminal = false := by rw [hs]; rfl
  obtain ⟨hf, hx, he, ho, ho'⟩ := h.unfinished hterm
  have hstart := h.notStarted (.inr hs)
  constructor <;> simp [hf, hx, he, ho, ho', hstart, ht.1]

theorem WellFormed.finish (h : job.WellFormed) (ht : job.Since t) {u : Instant} (htu : t ≤ u)
    {n : JobState} {x : Option Int} {r : Option PyStr} {o e : PyStr} (hn : n.isTerminal = true)
    (hx : x.isSome ↔ n = .succeeded ∨ n = .failed)
    (hrun : n = .succeeded ∨ n = .timedOut → job.state = .running)
    (hsucc : n = .succeeded → x = some 0 ∧ r = none) (herr : r.isSome → n = .failed)
    (hout : o ≠ "" ∨ e ≠ "" → n = .succeeded ∨ n = .failed) :
    { job with
      state := n, exitCode := x, stdout := o, stderr := e, error := r, updatedAt := u,
      finishedAt := some t }.WellFormed where
  finished := by simp [hn]
  exited := hx
  notStarted := by rintro (rfl | rfl) <;> cases hn
  started := by
    rintro (rfl | hn' | hn')
    · cases hn
    · exact h.started (.inl (hrun (.inl hn')))
    · exact h.started (.inl (hrun (.inr hn')))
  succeeded := hsucc
  failed := herr
  output := hout
  created_started := h.created_started
  created_finished := by rintro _ ⟨⟩; exact ht.1
  started_finished := by rintro v hv _ ⟨⟩; exact ht.2 v hv
  created_updated := ht.1.trans htu

/-- A job that is given up in the state `n` keeps what it has of an outcome, which is nothing. -/
theorem WellFormed.giveUp (h : job.WellFormed) (ht : job.Since t)
    (hs : job.state.isTerminal = false) {n : JobState}
    (hn : n = .cancelled ∨ n = .timedOut ∧ job.state = .running) :
    (job.transition t job.state n).WellFormed := by
  obtain ⟨-, hx, he, ho, ho'⟩ := h.unfinished hs
  have hfinish : { job with state := n, updatedAt := t, finishedAt := some t }.WellFormed := by
    rcases hn with rfl | ⟨rfl, hrun⟩
    · exact h.finish ht le_rfl (x := job.exitCode) (r := job.error) (o := job.stdout) (e := job.stderr)
        rfl (by simp [hx]) (by simp) (by simp) (by simp [he]) (by simp [ho, ho'])
    · exact h.finish ht le_rfl (x := job.exitCode) (r := job.error) (o := job.stdout) (e := job.stderr)
        rfl (by simp [hx]) (fun _ => hrun) (by simp) (by simp [he]) (by simp [ho, ho'])
  rcases hn with rfl | ⟨rfl, hrun⟩ <;> simpa [transition] using hfinish

theorem WellFormed.complete (h : job.WellFormed) (ht : job.Since t) {n : JobState} {x : Int}
    {o e : PyStr} {err : Option PyStr} (hn : n = .succeeded ∧ x = 0 ∧ err = none ∨ n = .failed) :
    (job.complete t n x o e err).WellFormed := by
  rw [Job.complete]
  split
  · next hrun =>
      rcases hn with ⟨rfl, rfl, rfl⟩ | rfl
      · exact h.finish ht le_rfl rfl (by simp) (fun _ => hrun) (fun _ => ⟨rfl, rfl⟩) (by simp) (by simp)
      · exact h.finish ht le_rfl rfl (by simp) (by simp) (by simp) (by simp) (by simp)
  · exact h

theorem WellFormed.failStale (h : job.WellFormed) (ht : job.Since t) {u : Instant} (htu : t ≤ u)
    (error : PyStr) : (job.failStale t u error).WellFormed := by
  rw [Job.failStale]
  split
  · exact h
  · exact h.finish ht htu rfl (by simp) (by simp) (by simp) (by simp) (by simp)

end Changes

end Job

namespace Op

def zeroExit : Op → Bool
  | markSucceeded _ _ x _ _ => x = 0
  | _ => true

theorem effect_wellFormed {op : Op} {job : Job} (h : job.WellFormed) (ht : ∀ t ∈ op.times, job.Since t)
    (hmono : op.times.Pairwise (· ≤ ·)) (hzero : op.zeroExit = true) : (op.effect job).WellFormed := by
  cases op with
  | submit => exact h
  | markDispatched t j => exact h.transition_queue (ht t (by simp [times])) (.inl rfl) (.inr rfl)
  | requeue t j => exact h.transition_queue (ht t (by simp [times])) (.inr rfl) (.inl rfl)
  | markDispatchedWithAttempt t₁ t₂ j =>
      rw [effect, Job.dispatch]
      split
      · next hs => exact h.queue (ht t₂ (by simp [times])) (.inl hs) (.inr rfl) _
      · exact h
  | markRunning t j =>
      rw [effect, Job.transition]
      split
      · next hs => simpa using h.start (ht t (by simp [times])) hs
      · exact h
  | markTimedOut t j =>
      by_cases hs : job.state = .running
      · have hgone := h.giveUp (ht t (by simp [times])) (by rw [hs]; rfl) (.inr ⟨rfl, hs⟩)
        rwa [hs] at hgone
      · rw [effect, Job.transition_of_ne hs]
        exact h
  | markSucceeded t j x o e =>
      exact h.complete (ht t (by simp [times])) (.inl ⟨rfl, of_decide_eq_true hzero, rfl⟩)
  | markFailed t => exact h.complete (ht t (by simp [times])) (.inr rfl)
  | markCancelled t j =>
      rw [effect, Job.cancel]
      split
      · exact h
      · next hs => exact h.giveUp (ht t (by simp [times])) (Bool.not_eq_true _ ▸ hs) (.inl rfl)
  | failStaleDispatch t₁ t₂ j error =>
      exact h.failStale (ht t₁ (by simp [times])) (by simpa [times] using hmono) error

theorem effect_since {op : Op} {job : Job} {t : Instant} (h : job.Since t) (ht : ∀ u ∈ op.times, u ≤ t) :
    (op.effect job).Since t := by
  refine ⟨(op.effect_createdAt job).le.trans h.1, ?_⟩
  have htrans : ∀ u e n, u ≤ t → ∀ v ∈ (job.transition u e n).startedAt, v ≤ t := by
    intro u e n hu v hv
    rw [Job.transition] at hv
    split at hv
    · dsimp only at hv
      split at hv
      · cases hs : job.startedAt with
        | none => rw [hs] at hv; cases hv; exact hu
        | some w => rw [hs] at hv; cases hv; exact h.2 _ hs
      · exact h.2 v hv
    · exact h.2 v hv
  have hkeep :
      ∀ {p : Prop} [Decidable p] {a b : Job}, a.startedAt = job.startedAt →
        b.startedAt = job.startedAt →
      ∀ v ∈ (if p then a else b).startedAt, v ≤ t := by
    intro p _ a b ha hb v hv
    rw [apply_ite Job.startedAt, ha, hb, ite_self] at hv
    exact h.2 v hv
  cases op with
  | submit => exact h.2
  | markDispatched u | markRunning u | markTimedOut u | requeue u =>
      exact htrans u _ _ (ht u (by simp [times]))
  | markDispatchedWithAttempt | markSucceeded | markFailed | failStaleDispatch => exact hkeep rfl rfl
  | markCancelled u =>
      rw [effect, Job.cancel]
      split
      · exact h.2
      · exact htrans u _ _ (ht u (by simp [times]))

/-- Only a result for a running job writes its output. -/
theorem effect_output (op : Op) {job : Job} (h : ¬ (op.exitCode.isSome ∧ job.state = .running)) :
    (op.effect job).stdout = job.stdout ∧ (op.effect job).stderr = job.stderr := by
  have htrans :
      ∀ t e n, (job.transition t e n).stdout = job.stdout ∧
        (job.transition t e n).stderr = job.stderr := by
    intro t e n
    rw [Job.transition]
    split <;> exact ⟨rfl, rfl⟩
  cases op with
  | submit => exact ⟨rfl, rfl⟩
  | markDispatched | markRunning | markTimedOut | requeue => exact htrans _ _ _
  | markDispatchedWithAttempt =>
      rw [effect, Job.dispatch]
      split <;> exact ⟨rfl, rfl⟩
  | markSucceeded | markFailed =>
      have hne : job.state ≠ .running := fun hs => h ⟨rfl, hs⟩
      rw [effect, Job.complete_of_ne hne]
      exact ⟨rfl, rfl⟩
  | markCancelled =>
      rw [effect, Job.cancel]
      split
      · exact ⟨rfl, rfl⟩
      · exact htrans _ _ _
  | failStaleDispatch =>
      rw [effect, Job.failStale]
      split <;> exact ⟨rfl, rfl⟩

theorem created_wellFormed {op : Op} {b : Job} (hb : b ∈ op.created)
    (hmono : op.times.Pairwise (· ≤ ·)) :
    b.WellFormed ∧ ∀ t, (∀ u ∈ op.times, u ≤ t) → b.Since t := by
  cases op <;> cases hb
  next j c t₁ t₂ req =>
    have hle : t₁ ≤ t₂ := by simpa [times] using hmono
    refine ⟨?_, fun t ht => ⟨ht t₁ (by simp [times]), nofun⟩⟩
    constructor <;> simp [Request.toJob, hle]

end Op

section Reachable

variable {σ : Type} {R : JobRepository σ}

/-- The record is what a result made of the job while it was running. -/
def CompletedIn (R : JobRepository σ) (ops : List Op) (s : σ) (job : Job) : Prop :=
  ∃ pre op post a, ops = pre ++ op :: post ∧ op.exitCode.isSome ∧ op.target = some job.jobId ∧
    R.get job.jobId (run R pre s) = some a ∧ a.state = .running ∧ job = op.effect a

theorem CompletedIn.append {ops more : List Op} {s : σ} {job : Job} (h : CompletedIn R ops s job) :
    CompletedIn R (ops ++ more) s job := by
  obtain ⟨pre, op, post, a, rfl, h⟩ := h
  exact ⟨pre, op, post ++ more, a, by simp, h⟩

/-- A run from an empty store: its records are well-formed and only a result leaves output. -/
theorem run_wellFormed (hid : ∀ {k s job}, R.get k s = some job → job.jobId = k)
    (horigin : ∀ op s k b, R.get k (after R op s) = some b → R.get k s = some b ∨
      (op.target = some k ∧ ∃ a, R.get k s = some a ∧ b = op.effect a) ∨ (b ∈ op.created ∧ b.jobId = k))
    {s : σ} (hempty : ∀ k, R.get k s = none) {ops : List Op}
    (hmono : (ops.flatMap Op.times).Pairwise (· ≤ ·)) (hzero : ∀ op ∈ ops, op.zeroExit = true)
    {k : String} {b : Job} (hb : R.get k (run R ops s) = some b) :
    b.WellFormed ∧ (∀ t, (∀ u ∈ ops.flatMap Op.times, u ≤ t) → b.Since t) ∧
      (b.stdout ≠ "" ∨ b.stderr ≠ "" → CompletedIn R ops s b) := by
  induction ops using List.reverseRecOn generalizing k b with
  | nil =>
      rw [run, List.foldl_nil, hempty] at hb
      cases hb
  | append_singleton ops op ih =>
      rw [List.flatMap_append, List.flatMap_singleton, List.pairwise_append] at hmono
      obtain ⟨hbefore, hop, hlater⟩ := hmono
      have hzero' : ∀ o ∈ ops, o.zeroExit = true := fun o ho => hzero o (List.mem_append_left _ ho)
      have hstep : run R (ops ++ [op]) s = after R op (run R ops s) := by
        rw [run, List.foldl_append]; rfl
      rw [hstep] at hb
      rw [List.flatMap_append, List.flatMap_singleton]
      rcases horigin op _ k b hb with hk | ⟨htarget, a, hk, rfl⟩ | ⟨hnew, rfl⟩
      · obtain ⟨hwf, hsince, hout⟩ := ih hbefore hzero' hk
        exact ⟨hwf, fun t ht => hsince t fun u hu => ht u (List.mem_append_left _ hu), fun ho => (hout ho).append⟩
      · obtain ⟨hwf, hsince, hout⟩ := ih hbefore hzero' hk
        have hpast : ∀ t ∈ op.times, a.Since t := fun t ht => hsince t fun u hu => hlater u hu t ht
        refine ⟨op.effect_wellFormed hwf hpast hop (hzero op (by simp)), fun t ht => ?_, fun ho => ?_⟩
        · exact op.effect_since (hsince t fun u hu => ht u (List.mem_append_left _ hu))
            fun u hu => ht u (List.mem_append_right _ hu)
        · have hjob : (op.effect a).jobId = k := (op.effect_jobId a).trans (hid hk)
          by_cases hresult : op.exitCode.isSome ∧ a.state = .running
          · refine ⟨ops, op, [], a, rfl, hresult.1, ?_, ?_, hresult.2, rfl⟩
            · rw [hjob]
              exact htarget
            · rw [hjob]
              exact hk
          · have hsame := op.effect_output hresult
            rw [hsame.1, hsame.2] at ho
            have hterm : a.state.isTerminal = true := by
              rcases hwf.output ho with hs | hs <;> rw [hs] <;> rfl
            rw [op.effect_terminal hterm]
            exact (hout ho).append
      · obtain ⟨hwf, hsince⟩ := Op.created_wellFormed hnew hop
        refine ⟨hwf, fun t ht => hsince t fun u hu => ht u (List.mem_append_right _ hu), fun ho => ?_⟩
        rcases hwf.output ho with hs | hs <;> rw [Op.created_pending hnew] at hs <;> cases hs

end Reachable

theorem SQLiteJobRepository.after_origin (op : Op) (T : JobTable) (k : String) (b : Job)
    (h : sqliteJobRepository.get k (after sqliteJobRepository op T) = some b) :
    sqliteJobRepository.get k T = some b ∨
      (op.target = some k ∧ ∃ a, sqliteJobRepository.get k T = some a ∧ b = op.effect a) ∨
        (b ∈ op.created ∧ b.jobId = k) := by
  rcases after_refines sqliteJobRepository_lawful (onlyAdds op T) k with hk | ⟨ht, hk⟩ | ⟨_, c, hc, hid, hk⟩
  · exact .inl (hk.symm.trans h)
  · obtain ⟨a, ha, rfl⟩ := Option.map_eq_some_iff.mp (hk.symm.trans h)
    exact .inr (.inl ⟨ht, a, ha, rfl⟩)
  · cases hk.symm.trans h
    exact .inr (.inr ⟨hc, hid⟩)

/-- In memory a generated id that is taken replaces the record, so ids need not be new. -/
theorem InMemoryJobRepository.after_origin (op : Op) (s : MemoryStore) (k : String) (b : Job)
    (h : inMemoryJobRepository.get k (after inMemoryJobRepository op s) = some b) :
    inMemoryJobRepository.get k s = some b ∨
      (op.target = some k ∧ ∃ a, inMemoryJobRepository.get k s = some a ∧ b = op.effect a) ∨
        (b ∈ op.created ∧ b.jobId = k) := by
  cases hj : op.target with
  | none =>
      cases op <;> cases hj
      next j c t₁ t₂ req =>
        rw [after_submit] at h
        change get k (add (req.toJob j c t₁ t₂) s).2 = some b at h
        rcases add_effect (req.toJob j c t₁ t₂) s with ⟨_, hk⟩ | ⟨_, _, hs⟩
        · rw [hk] at h
          split at h
          · next hkj =>
              cases h
              exact .inr (.inr ⟨rfl, hkj.symm⟩)
          · exact .inl h
        · rw [hs] at h
          exact .inl h
  | some j =>
      have hnone : op.created = none := by cases op <;> first | rfl | cases hj
      have honly : OnlyAdds inMemoryJobRepository op s := fun hc => by rw [hnone] at hc; cases hc
      rcases after_refines inMemoryJobRepository_lawful honly k with hk | ⟨ht, hk⟩ | ⟨_, c, hc, _⟩
      · exact .inl (hk.symm.trans h)
      · obtain ⟨a, ha, rfl⟩ := Option.map_eq_some_iff.mp (hk.symm.trans h)
        exact .inr (.inl ⟨hj ▸ ht, a, ha, rfl⟩)
      · rw [hnone] at hc
        cases hc

/-- Every record that can be reached from an empty store is well-formed, and only what a result
completed has output. -/
theorem job_wellFormed (ops : List Op) (hmono : (ops.flatMap Op.times).Pairwise (· ≤ ·))
    (hzero : ∀ op ∈ ops, op.zeroExit = true) :
    (∀ k b, sqliteJobRepository.get k (run sqliteJobRepository ops .empty) = some b →
      b.WellFormed ∧
        (b.stdout ≠ "" ∨ b.stderr ≠ "" → CompletedIn sqliteJobRepository ops .empty b)) ∧
    ∀ k b, inMemoryJobRepository.get k (run inMemoryJobRepository ops .empty) = some b →
      b.WellFormed ∧
        (b.stdout ≠ "" ∨ b.stderr ≠ "" → CompletedIn inMemoryJobRepository ops .empty b) := by
  constructor
  · intro k b hb
    obtain ⟨hwf, _, hout⟩ :=
      run_wellFormed sqliteJobRepository_lawful.get_jobId SQLiteJobRepository.after_origin
      (fun _ => rfl) hmono hzero hb
    exact ⟨hwf, hout⟩
  · intro k b hb
    obtain ⟨hwf, _, hout⟩ :=
      run_wellFormed inMemoryJobRepository_lawful.get_jobId InMemoryJobRepository.after_origin
      (fun _ => rfl) hmono hzero hb
    exact ⟨hwf, hout⟩

def attempts : List Op :=
  let tick : Fin 100 → Instant := fun n => ⟨n, n.isLt.trans (by decide)⟩
  let req : Request := ⟨"agent-1", "alpine", ["true"], 1000, none, 0, none⟩
  [.submit "job_1" "c1" (tick 1) (tick 2) req, .markDispatchedWithAttempt (tick 3) (tick 3) "job_1",
    .requeue (tick 4) "job_1",
    .submit "job_2" "c2" (tick 5) (tick 5) req, .markDispatched (tick 6) "job_1", .markRunning (tick 7) "job_1",
    .markSucceeded (tick 9) "job_1" 0 "done" "", .markDispatchedWithAttempt (tick 9) (tick 10) "job_2",
    .markRunning (tick 11) "job_2", .markCancelled (tick 12) "job_2",
    .markFailed (tick 13) "job_2" 137 "" "killed" none]

theorem job_wellFormed_attempts :
    (∀ k b, sqliteJobRepository.get k (run sqliteJobRepository attempts .empty) = some b →
      b.WellFormed ∧
        (b.stdout ≠ "" ∨ b.stderr ≠ "" → CompletedIn sqliteJobRepository attempts .empty b)) ∧
    ∀ k b, inMemoryJobRepository.get k (run inMemoryJobRepository attempts .empty) = some b →
      b.WellFormed ∧
        (b.stdout ≠ "" ∨ b.stderr ≠ "" → CompletedIn inMemoryJobRepository attempts .empty b) :=
  job_wellFormed attempts (by decide) (by decide)

end JobSystem
