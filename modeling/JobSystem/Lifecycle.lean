import JobSystem.JobService
import JobSystem.Repository.Memory
import JobSystem.Repository.SQLite

namespace JobSystem

open Lib

/-- A call of `JobService` that writes, with the clock readings it takes. The
id of a submitted job is the one that `new_job_id` generates. -/
inductive Op
  | submit (jobId correlationId : String) (createdAt updatedAt : Instant) (req : Request)
  | markDispatched (t : Instant) (jobId : String)
  | markDispatchedWithAttempt (t₁ t₂ : Instant) (jobId : String)
  | markRunning (t : Instant) (jobId : String)
  | markSucceeded (t : Instant) (jobId : String) (exitCode : Int) (stdout stderr : PyStr)
  | markFailed (t : Instant) (jobId : String) (exitCode : Int) (stdout stderr : PyStr)
      (error : Option PyStr)
  | markTimedOut (t : Instant) (jobId : String)
  | markCancelled (t : Instant) (jobId : String)
  | requeue (t : Instant) (jobId : String)
  | failStaleDispatch (t₁ t₂ : Instant) (jobId : String) (error : PyStr)

namespace Op

def target : Op → Option String
  | submit .. => none
  | markDispatched _ j | markDispatchedWithAttempt _ _ j | markRunning _ j
  | markSucceeded _ j _ _ _ | markFailed _ j _ _ _ _ | markTimedOut _ j | markCancelled _ j
  | requeue _ j | failStaleDispatch _ _ j _ => some j

def created : Op → Option Job
  | submit j c t₁ t₂ req => some (req.toJob j c t₁ t₂)
  | _ => none

/-- The abstract machine: what an operation does to the record of its job. -/
def effect : Op → Job → Job
  | submit .. => id
  | markDispatched t _ => Job.transition t .pending .dispatched
  | markDispatchedWithAttempt _ t _ => Job.dispatch t
  | markRunning t _ => Job.transition t .dispatched .running
  | markSucceeded t _ x o e => Job.complete t .succeeded x o e none
  | markFailed t _ x o e err => Job.complete t .failed x o e err
  | markTimedOut t _ => Job.transition t .running .timedOut
  | markCancelled t _ => Job.cancel t
  | requeue t _ => Job.transition t .dispatched .pending
  | failStaleDispatch t₁ t₂ _ error => Job.failStale t₁ t₂ error

def next : Op → JobState → JobState
  | markDispatched .., .pending | markDispatchedWithAttempt .., .pending => .dispatched
  | markRunning .., .dispatched => .running
  | requeue .., .dispatched => .pending
  | markSucceeded .., .running => .succeeded
  | markFailed .., .running => .failed
  | markTimedOut .., .running => .timedOut
  | markCancelled .., s => if s.isTerminal then s else .cancelled
  | failStaleDispatch .., s => if s.isTerminal then s else .failed
  | _, s => s

def Allowed (op : Op) (a b : JobState) : Prop :=
  (a = .pending ∧ b = .dispatched) ∨ (a = .dispatched ∧ b = .running) ∨ (a = .dispatched ∧ b = .pending) ∨
    (a = .running ∧ (b = .succeeded ∨ b = .failed ∨ b = .timedOut)) ∨
    ((a = .pending ∨ a = .dispatched ∨ a = .running) ∧ b = .cancelled ∧ ∃ t j, op = .markCancelled t j) ∨
    ((a = .pending ∨ a = .dispatched) ∧ b = .failed ∧ ∃ t₁ t₂ j e, op = .failStaleDispatch t₁ t₂ j e)

def outcome : Op → Option JobState
  | markSucceeded .. => some .succeeded
  | markFailed .. => some .failed
  | markTimedOut .. => some .timedOut
  | markCancelled .. => some .cancelled
  | _ => none

def exitCode : Op → Option Int
  | markSucceeded _ _ x _ _ | markFailed _ _ x _ _ _ => some x
  | _ => none

def binds : Op → Bool
  | markSucceeded _ _ x o e => bindableResult x o e none
  | markFailed _ _ x o e err => bindableResult x o e err
  | _ => true

theorem created_pending {op : Op} {b : Job} (h : b ∈ op.created) : b.state = .pending := by
  cases op <;> cases h
  rfl

theorem effect_state (op : Op) (job : Job) : (op.effect job).state = op.next job.state := by
  cases op with
  | submit => rfl
  | markDispatched | markRunning | markTimedOut | requeue =>
      rw [effect, Job.transition_state]
      cases job.state <;> rfl
  | markDispatchedWithAttempt =>
      rw [effect, Job.dispatch]
      split
      · next hs => rw [hs]; rfl
      · cases hs : job.state <;> first | rfl | contradiction
  | markSucceeded | markFailed =>
      rw [effect, Job.complete_state]
      cases job.state <;> rfl
  | markCancelled =>
      rw [effect, Job.cancel, apply_ite Job.state, Job.transition_state, if_pos rfl]
      rfl
  | failStaleDispatch =>
      rw [effect, Job.failStale, apply_ite Job.state]
      rfl

/-- The fields that an operation may write; the others keep what the submission gave them. -/
theorem effect_eq (op : Op) (job : Job) : ∃ q u s f d x err o e,
    op.effect job =
      { job with
        state := q, updatedAt := u, startedAt := s, finishedAt := f, dispatchAttempts := d, exitCode := x,
        error := err, stdout := o, stderr := e } := by
  have htrans : ∀ t a b, ∃ q u s f d x err o e, job.transition t a b =
      { job with
        state := q, updatedAt := u, startedAt := s, finishedAt := f, dispatchAttempts := d, exitCode := x,
        error := err, stdout := o, stderr := e } := by
    intro t a b
    unfold Job.transition
    split <;> exact ⟨_, _, _, _, _, _, _, _, _, rfl⟩
  cases op with
  | submit => exact ⟨_, _, _, _, _, _, _, _, _, rfl⟩
  | markDispatched | markRunning | markTimedOut | requeue => exact htrans _ _ _
  | markDispatchedWithAttempt =>
      rw [effect, Job.dispatch]
      split <;> exact ⟨_, _, _, _, _, _, _, _, _, rfl⟩
  | markSucceeded | markFailed =>
      rw [effect, Job.complete]
      split <;> exact ⟨_, _, _, _, _, _, _, _, _, rfl⟩
  | markCancelled =>
      rw [effect, Job.cancel]
      split
      · exact ⟨_, _, _, _, _, _, _, _, _, rfl⟩
      · exact htrans _ _ _
  | failStaleDispatch =>
      rw [effect, Job.failStale]
      split <;> exact ⟨_, _, _, _, _, _, _, _, _, rfl⟩

theorem effect_jobId (op : Op) (job : Job) : (op.effect job).jobId = job.jobId := by
  obtain ⟨_, _, _, _, _, _, _, _, _, h⟩ := op.effect_eq job
  rw [h]

@[simp] theorem effect_agentId (op : Op) (job : Job) : (op.effect job).agentId = job.agentId := by
  obtain ⟨_, _, _, _, _, _, _, _, _, h⟩ := op.effect_eq job
  rw [h]

theorem effect_idempotencyKey (op : Op) (job : Job) :
    (op.effect job).idempotencyKey = job.idempotencyKey := by
  obtain ⟨_, _, _, _, _, _, _, _, _, h⟩ := op.effect_eq job
  rw [h]

theorem effect_createdAt (op : Op) (job : Job) : (op.effect job).createdAt = job.createdAt := by
  obtain ⟨_, _, _, _, _, _, _, _, _, h⟩ := op.effect_eq job
  rw [h]

theorem effect_allowed (op : Op) (job : Job) (h : job.state ≠ (op.effect job).state) :
    op.Allowed job.state (op.effect job).state := by
  rw [effect_state] at h ⊢
  generalize job.state = a at h ⊢
  cases op <;> cases a <;> first | exact absurd rfl h | simp [next, Allowed]

theorem effect_terminal (op : Op) {job : Job} (h : job.state.isTerminal = true) :
    op.effect job = job := by
  have hne : ∀ s : JobState, s.isTerminal = false → job.state ≠ s := by
    rintro s hs rfl
    rw [h] at hs
    cases hs
  cases op with
  | submit => rfl
  | markDispatched | markRunning | markTimedOut | requeue => exact Job.transition_of_ne (hne _ rfl)
  | markDispatchedWithAttempt => exact if_neg (hne _ rfl)
  | markSucceeded | markFailed => exact Job.complete_of_ne (hne _ rfl)
  | markCancelled | failStaleDispatch => exact if_pos h

theorem effect_outcome {op : Op} {n : JobState} (ho : op.outcome = some n) {job : Job}
    (h : job.state = .running) : (op.effect job).state = n ∧ n.isTerminal = true := by
  rw [effect_state, h]
  cases op <;> cases ho <;> exact ⟨rfl, rfl⟩

end Op

section Runs

variable {σ : Type} (R : JobRepository σ)

open JobService in
def exec : Op → σ → Except PyError (Option Job × σ)
  | .submit j c t₁ t₂ req, s => (submit R j c t₁ t₂ req s).map fun (job, s) => (some job, s)
  | .markDispatched t j, s => markDispatched R t j s
  | .markDispatchedWithAttempt t₁ t₂ j, s => markDispatchedWithAttempt R t₁ t₂ j s
  | .markRunning t j, s => markRunning R t j s
  | .markSucceeded t j x o e, s => markSucceeded R t j x o e s
  | .markFailed t j x o e err, s => markFailed R t j x o e err s
  | .markTimedOut t j, s => markTimedOut R t j s
  | .markCancelled t j, s => markCancelled R t j s
  | .requeue t j, s => requeue R t j s
  | .failStaleDispatch t₁ t₂ j error, s => failStaleDispatch R t₁ t₂ j error s

def after (op : Op) (s : σ) : σ :=
  match exec R op s with
  | .ok (_, s') => s'
  | .error _ => s

def run (ops : List Op) (s : σ) : σ := ops.foldl (fun s op => after R op s) s

def OnlyAdds (op : Op) (s : σ) : Prop :=
  op.created.isSome → ∀ k, R.get k (after R op s) = R.get k s ∨
    (R.get k s = none ∧ ∃ b ∈ op.created, b.jobId = k ∧ R.get k (after R op s) = some b)

def AllOnlyAdd : List Op → σ → Prop
  | [], _ => True
  | op :: ops, s => OnlyAdds R op s ∧ AllOnlyAdd ops (after R op s)

def FreshIds : List Op → σ → Prop
  | [], _ => True
  | op :: ops, s => (∀ b ∈ op.created, R.get b.jobId s = none) ∧ FreshIds ops (after R op s)

instance decidableFreshIds : ∀ ops s, Decidable (FreshIds R ops s)
  | [], _ => isTrue trivial
  | op :: ops, s =>
      have : Decidable (∀ b ∈ op.created, R.get b.jobId s = none) :=
        match h : op.created with
        | none => isTrue (by simp)
        | some b => decidable_of_iff ((R.get b.jobId s).isNone = true) (by simp)
      have := decidableFreshIds ops (after R op s)
      inferInstanceAs (Decidable (_ ∧ _))

/-- Every change of a stored state is an allowed one, and a new record is pending. -/
def Moves (op : Op) (s : σ) : Prop :=
  (∀ k a, R.get k s = some a → ∃ b, R.get k (after R op s) = some b ∧
    (a.state ≠ b.state → op.target = some k ∧ op.Allowed a.state b.state)) ∧
  ∀ k b, R.get k s = none → R.get k (after R op s) = some b → b.state = .pending

/-- A terminal record stays through all of `ops`, and any later completion of
the job that the store can bind returns it. -/
def Settles (fits : Op → Prop) (ops : List Op) (s : σ) : Prop :=
  ∀ k a, R.get k s = some a → a.state.isTerminal = true →
    R.get k (run R ops s) = some a ∧
      ∀ c, c.target = some k → c.outcome.isSome → fits c → ∃ s', exec R c (run R ops s) = .ok (some a, s')

/-- The first completion of a running job takes effect. -/
def FirstWins (fits : Op → Prop) (c : Op) (s : σ) : Prop :=
  ∀ k a n, R.get k s = some a → a.state = .running → c.target = some k → c.outcome = some n → fits c →
    n.isTerminal = true ∧ (c.effect a).state = n ∧
      exec R c s = .ok (some (c.effect a), after R c s) ∧ R.get k (after R c s) = some (c.effect a)

/-- What holds of a whole run: at each of its points every next operation makes
an allowed move, a completion wins only over a running job, and what is
terminal has settled for the rest of the run. -/
def Lifecycle (fits : Op → Prop) (ops : List Op) (s : σ) : Prop :=
  ∀ pre post, ops = pre ++ post →
    Settles R fits post (run R pre s) ∧
      ∀ op ∈ post.head?, Moves R op (run R pre s) ∧ FirstWins R fits op (run R pre s)

variable {R}

theorem exec_spec (hR : R.Lawful) {op : Op} {j : String} (hj : op.target = some j) {s s' : σ}
    {r : Option Job} (h : exec R op s = .ok (r, s')) : r = R.get j s' ∧ R.Updates j op.effect s s' := by
  have htrans : ∀ t e n, R.transitionIf t j e n s = .ok (r, s') →
      r = R.get j s' ∧ R.Updates j (Job.transition t e n) s s' := by
    intro t e n ht
    obtain ⟨s'', hs, hu⟩ := hR.transitionIf (t := t) (j := j) (e := e) (n := n) (s := s)
    cases hs.symm.trans ht
    exact ⟨rfl, hu⟩
  cases op <;> cases hj
  case markDispatched | markRunning | markTimedOut | requeue => exact htrans _ _ _ h
  case markDispatchedWithAttempt => exact JobService.markDispatchedWithAttempt_spec hR h
  case markSucceeded | markFailed => exact hR.completeIfRunning h
  case failStaleDispatch => exact JobService.failStaleDispatch_spec hR h
  case markCancelled t =>
      obtain ⟨s'', hs, hu⟩ := JobService.markCancelled_spec hR t j s
      cases hs.symm.trans h
      exact ⟨rfl, hu⟩

theorem after_invariant {I : σ → Prop} (hadd : ∀ job s r s', I s → R.add job s = .ok (r, s') → I s')
    (hsave : ∀ t job s r s', I s → R.save t job s = .ok (r, s') → I s')
    (htransition : ∀ t j e n s r s', I s → R.transitionIf t j e n s = .ok (r, s') → I s')
    (hcomplete : ∀ t j n x o e err s r s', I s → R.completeIfRunning t j n x o e err s = .ok (r, s') → I s')
    (op : Op) {s : σ} (hI : I s) : I (after R op s) := by
  rw [after]
  cases he : exec R op s with
  | error e => exact hI
  | ok p =>
      obtain ⟨r, s'⟩ := p
      have hmap : ∀ {x : Except PyError (Job × σ)}, (∀ r s', x = .ok (r, s') → I s') →
          x.map (fun (job, s) => (some job, s)) = .ok (r, s') → I s' := by
        intro x hx h
        cases x with
        | error e => cases h
        | ok q => cases h; exact hx q.1 q.2 rfl
      cases op with
      | submit => exact hmap (fun r s' => hadd _ s r s' hI) he
      | markDispatched | markRunning | markTimedOut | requeue => exact htransition _ _ _ _ s r s' hI he
      | markSucceeded | markFailed => exact hcomplete _ _ _ _ _ _ _ s r s' hI he
      | markDispatchedWithAttempt | failStaleDispatch =>
          exact JobService.readSave_invariant (fun job r s' => hsave _ job s r s' hI) hI he
      | markCancelled t j =>
          change JobService.markCancelled R t j s = _ at he
          rw [JobService.markCancelled] at he
          split at he
          · cases he; exact hI
          · split at he
            · cases he; exact hI
            · exact htransition _ _ _ _ s r s' hI he

/-- The store refines the abstract machine on every record that it holds. -/
theorem after_refines (hR : R.Lawful) {op : Op} {s : σ} (ha : OnlyAdds R op s) (k : String) :
    R.get k (after R op s) = R.get k s ∨
      (op.target = some k ∧ R.get k (after R op s) = (R.get k s).map op.effect) ∨
      (R.get k s = none ∧ ∃ b ∈ op.created, b.jobId = k ∧ R.get k (after R op s) = some b) := by
  cases hj : op.target with
  | none =>
      have hg : op.created.isSome := by cases op <;> cases hj; rfl
      rcases ha hg k with h | h
      · exact .inl h
      · exact .inr (.inr h)
  | some j =>
      rw [after]
      cases he : exec R op s with
      | error e => exact .inl rfl
      | ok p =>
          obtain ⟨r, s'⟩ := p
          obtain ⟨_, hu⟩ := exec_spec hR hj he
          by_cases hkj : k = j
          · exact .inr (.inl ⟨by rw [hkj], by rw [hu k, if_pos hkj]⟩)
          · exact .inl (by rw [hu k, if_neg hkj])

theorem after_terminal (hR : R.Lawful) {op : Op} {s : σ} (hadd : OnlyAdds R op s) {k : String} {a : Job}
    (ha : R.get k s = some a) (ht : a.state.isTerminal = true) : R.get k (after R op s) = some a := by
  rcases after_refines hR hadd k with h | ⟨_, h⟩ | ⟨h, _⟩
  · exact h.trans ha
  · rw [h, ha, Option.map_some, op.effect_terminal ht]
  · rw [ha] at h
    cases h

theorem run_terminal (hR : R.Lawful) {ops : List Op} {s : σ} (hadd : AllOnlyAdd R ops s) {k : String}
    {a : Job} (ha : R.get k s = some a) (ht : a.state.isTerminal = true) :
    R.get k (run R ops s) = some a := by
  induction ops generalizing s with
  | nil => exact ha
  | cons op ops ih => exact ih hadd.2 (after_terminal hR hadd.1 ha ht)

theorem allOnlyAdd_append {pre post : List Op} {s : σ} (h : AllOnlyAdd R (pre ++ post) s) :
    AllOnlyAdd R post (run R pre s) := by
  induction pre generalizing s with
  | nil => exact h
  | cons op pre ih => exact ih h.2

theorem moves_of_onlyAdds (hR : R.Lawful) {op : Op} {s : σ} (hadd : OnlyAdds R op s) : Moves R op s := by
  refine ⟨fun k a ha => ?_, fun k b hk hb => ?_⟩
  · rcases after_refines hR hadd k with h | ⟨hj, h⟩ | ⟨h, _⟩
    · exact ⟨a, h.trans ha, fun hne => absurd rfl hne⟩
    · rw [ha] at h
      exact ⟨op.effect a, h, fun hne => ⟨hj, op.effect_allowed a hne⟩⟩
    · rw [ha] at h
      cases h
  · rcases after_refines hR hadd k with h | ⟨_, h⟩ | ⟨_, c, hcr, _, hc⟩
    · rw [h, hk] at hb
      cases hb
    · rw [h, hk] at hb
      cases hb
    · cases hb.symm.trans hc
      exact Op.created_pending hcr

theorem lifecycle_of_onlyAdd (hR : R.Lawful) {fits : Op → Prop}
    (hfits : ∀ c s, c.outcome.isSome → fits c → ∃ r, exec R c s = .ok r) {ops : List Op} {s : σ}
    (hadd : AllOnlyAdd R ops s) : Lifecycle R fits ops s := by
  rintro pre post rfl
  have hpost := allOnlyAdd_append hadd
  refine ⟨fun k a ha ht => ?_, fun op hop => ⟨?_, ?_⟩⟩
  · have hend := run_terminal hR hpost ha ht
    refine ⟨hend, fun c hc ho hf => ?_⟩
    obtain ⟨⟨r, s'⟩, hr⟩ := hfits c (run R post (run R pre s)) ho hf
    obtain ⟨rfl, hu⟩ := exec_spec hR hc hr
    refine ⟨s', ?_⟩
    rw [hr, hu.get_self, hend, Option.map_some, c.effect_terminal ht]
  · cases post with
    | nil => cases hop
    | cons op' post =>
        cases hop
        exact moves_of_onlyAdds hR hpost.1
  · intro k a n ha hrun hc ho hf
    obtain ⟨hn, ht⟩ := Op.effect_outcome ho hrun
    obtain ⟨⟨r, s'⟩, hr⟩ := hfits op (run R pre s) (by rw [ho]; rfl) hf
    obtain ⟨rfl, hu⟩ := exec_spec hR hc hr
    have hafter : after R op (run R pre s) = s' := by rw [after, hr]
    have hget : R.get k s' = some (op.effect a) := by rw [hu.get_self, ha]; rfl
    exact ⟨ht, hn, by rw [hafter, hr, hget], by rw [hafter, hget]⟩

theorem after_submit (j c : String) (t₁ t₂ : Instant) (req : Request) (s : σ) :
    after R (.submit j c t₁ t₂ req) s =
      match R.add (req.toJob j c t₁ t₂) s with
      | .ok (_, s') => s'
      | .error _ => s := by
  have hexec : exec R (.submit j c t₁ t₂ req) s =
      (R.add (req.toJob j c t₁ t₂) s).map fun (job, s) => (some job, s) := rfl
  rw [after, hexec]
  cases R.add (req.toJob j c t₁ t₂) s <;> rfl

theorem onlyAdds_of_fresh (hR : R.Lawful) {op : Op} {s : σ}
    (hf : ∀ b ∈ op.created, R.get b.jobId s = none) : OnlyAdds R op s := by
  intro hg k
  cases op <;> try cases hg
  case submit j c t₁ t₂ req =>
      have hnone := hf _ rfl
      rw [after_submit]
      cases hadd : R.add (req.toJob j c t₁ t₂) s with
      | error e => exact .inl rfl
      | ok p =>
          obtain ⟨r, s'⟩ := p
          rcases hR.add hadd hnone with ⟨_, hk⟩ | ⟨_, _, hs⟩
          · by_cases hkj : k = j
            · right
              exact ⟨hkj ▸ hnone, _, rfl, hkj.symm, (hk k).trans (if_pos hkj)⟩
            · left
              exact (hk k).trans (if_neg hkj)
          · exact .inl (by rw [hs])

theorem allOnlyAdd_of_fresh (hR : R.Lawful) {ops : List Op} {s : σ} (hf : FreshIds R ops s) :
    AllOnlyAdd R ops s := by
  induction ops generalizing s with
  | nil => trivial
  | cons op ops ih => exact ⟨onlyAdds_of_fresh hR hf.1, ih hf.2⟩

end Runs

namespace SQLiteJobRepository

/-- The primary key makes every generated id new or the insertion fail. -/
theorem onlyAdds (op : Op) (T : JobTable) : OnlyAdds sqliteJobRepository op T := by
  intro hg k
  cases op <;> try cases hg
  case submit j c t₁ t₂ req =>
      cases hj : sqliteJobRepository.get j T with
      | none => exact onlyAdds_of_fresh sqliteJobRepository_lawful (by rintro _ ⟨⟩; exact hj) rfl k
      | some old =>
          left
          have hins : T.insert (req.toJob j c t₁ t₂) = none := Lib.Table.insert_of_find hj
          have hadd : ∀ r, sqliteJobRepository.add (req.toJob j c t₁ t₂) T = .ok r → r.2 = T := by
            intro r hr
            change add (req.toJob j c t₁ t₂) T = .ok r at hr
            rw [add] at hr
            rw [hins] at hr
            split at hr
            · cases hr
            · dsimp only at hr
              split at hr
              · cases hr
              · split at hr <;> cases hr
                rfl
          rw [after_submit]
          split
          · next _ s' hs' => rw [← hadd _ hs']
          · rfl

theorem allOnlyAdd (ops : List Op) (T : JobTable) : AllOnlyAdd sqliteJobRepository ops T := by
  induction ops generalizing T with
  | nil => trivial
  | cons op ops ih => exact ⟨onlyAdds op T, ih _⟩

theorem exec_of_fits (c : Op) (T : JobTable) (ho : c.outcome.isSome) (hf : c.binds = true) :
    ∃ r, exec sqliteJobRepository c T = .ok r := by
  cases c <;> try cases ho
  case markSucceeded t j x o e | markFailed t j x o e err =>
      exact ⟨_, completeIfRunning_eq _ _ _ _ _ _ _ _ hf⟩
  case markTimedOut => exact ⟨_, rfl⟩
  case markCancelled t j =>
      obtain ⟨s', hs', _⟩ := JobService.markCancelled_spec sqliteJobRepository_lawful t j T
      exact ⟨_, hs'⟩

end SQLiteJobRepository

theorem InMemoryJobRepository.exec_of_fits (c : Op) (s : MemoryStore) (ho : c.outcome.isSome) :
    ∃ r, exec inMemoryJobRepository c s = .ok r := by
  cases c <;> try cases ho
  case markSucceeded | markFailed | markTimedOut => exact ⟨_, rfl⟩
  case markCancelled t j =>
      obtain ⟨s', hs', _⟩ := JobService.markCancelled_spec inMemoryJobRepository_lawful t j s
      exact ⟨_, hs'⟩

def submitAlpine (jobId : String) : Op :=
  .submit jobId "c0" .epoch .epoch ⟨"agent-1", "alpine", ["true"], 1000, none, 0, none⟩

def timedOutRun (jobId : String) : List Op :=
  [submitAlpine jobId, .markDispatchedWithAttempt .epoch .epoch jobId, .markRunning .epoch jobId,
    .markTimedOut .epoch jobId, .markCancelled .epoch jobId]

theorem high_valid : ∀ c ∈ [0xD800], c < 0x110000 := by decide

theorem high_lone : ∃ c ∈ [0xD800], isSurrogate c = true := by decide

/-- The first half of a surrogate pair. -/
def highSurrogate : PyStr := .surrogate [0xD800] high_valid high_lone

theorem not_lifecycle_of_late {fits : Op → Prop} {c : Op} (hfits : fits c) (htarget : c.target = some "job_1")
    (hc : c.outcome.isSome)
    (hraises : (exec sqliteJobRepository c (run sqliteJobRepository (timedOutRun "job_1") .empty)).isOk = false) :
    ¬ Lifecycle sqliteJobRepository fits (timedOutRun "job_1") .empty := by
  intro h
  have hend : ((run sqliteJobRepository (timedOutRun "job_1") .empty).find "job_1").any
      (·.state.isTerminal) = true := by decide
  obtain ⟨a, ha, ht⟩ := (Option.any_eq_true _ _).mp hend
  obtain ⟨_, hlate⟩ := (h (timedOutRun "job_1") [] rfl).1 "job_1" a ha ht
  obtain ⟨s', hs'⟩ := hlate c htarget hc hfits
  have hs' : exec sqliteJobRepository c (run sqliteJobRepository (timedOutRun "job_1") .empty) =
      .ok (some a, s') := hs'
  rw [hs'] at hraises
  cases hraises

end JobSystem
