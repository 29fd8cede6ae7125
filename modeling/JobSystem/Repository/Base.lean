import JobSystem.Job
import JobSystem.Lib.Sorted

namespace JobSystem

open Lib

inductive PyError
  | overflowError
  | unicodeEncodeError
  | integrityError
  deriving DecidableEq, Repr

/-- The abstract class `JobRepository`. A method that reads the clock takes the
reading as its first argument; a raised exception leaves the store as it was. -/
structure JobRepository (σ : Type) where
  add : Job → σ → Except PyError (Job × σ)
  get : String → σ → Option Job
  getByIdempotencyKey : String → σ → Option Job
  list : Option String → Option JobState → σ → List Job
  save : Instant → Job → σ → Except PyError (Job × σ)
  transitionIf : Instant → String → JobState → JobState → σ → Except PyError (Option Job × σ)
  completeIfRunning : Instant → String → JobState → Int → PyStr → PyStr → Option PyStr → σ →
    Except PyError (Option Job × σ)

def truthy : Option String → Bool
  | none => false
  | some s => s ≠ ""

@[simp] theorem truthy_none : truthy none = false := rfl

@[simp] theorem truthy_some (s : String) : truthy (some s) = decide (s ≠ "") := rfl

/-- The two optional filters of `list`. An empty agent id does not filter. -/
def Job.matches (agentId : Option String) (state : Option JobState) (job : Job) : Bool :=
  (!truthy agentId || decide (agentId = some job.agentId)) &&
    (state.isNone || decide (state = some job.state))

namespace Job

def transition (t : Instant) (expected newState : JobState) (job : Job) : Job :=
  if job.state = expected then
    { job with
      state := newState
      updatedAt := t
      startedAt := if newState = .running then some (job.startedAt.getD t) else job.startedAt
      finishedAt := if newState.isTerminal then some t else job.finishedAt }
  else job

def complete (t : Instant) (newState : JobState) (exitCode : Int) (stdout stderr : PyStr)
    (error : Option PyStr) (job : Job) : Job :=
  if job.state = .running then
    { job with
      state := newState
      exitCode := some exitCode
      stdout := stdout
      stderr := stderr
      error := error
      updatedAt := t
      finishedAt := some t }
  else job

@[simp] theorem transition_jobId (t : Instant) (e n : JobState) (job : Job) :
    (job.transition t e n).jobId = job.jobId := by
  unfold transition; split <;> rfl

@[simp] theorem transition_idempotencyKey (t : Instant) (e n : JobState) (job : Job) :
    (job.transition t e n).idempotencyKey = job.idempotencyKey := by
  unfold transition; split <;> rfl

theorem transition_state (t : Instant) (e n : JobState) (job : Job) :
    (job.transition t e n).state = if job.state = e then n else job.state := by
  unfold transition; split <;> rfl

theorem transition_of_ne {t : Instant} {e n : JobState} {job : Job} (h : job.state ≠ e) :
    job.transition t e n = job := if_neg h

@[simp] theorem complete_jobId (t : Instant) (n : JobState) (x : Int) (o e : PyStr)
    (r : Option PyStr) (job : Job) : (job.complete t n x o e r).jobId = job.jobId := by
  unfold complete; split <;> rfl

@[simp] theorem complete_idempotencyKey (t : Instant) (n : JobState) (x : Int) (o e : PyStr)
    (r : Option PyStr) (job : Job) : (job.complete t n x o e r).idempotencyKey = job.idempotencyKey := by
  unfold complete; split <;> rfl

theorem complete_state (t : Instant) (n : JobState) (x : Int) (o e : PyStr) (r : Option PyStr)
    (job : Job) : (job.complete t n x o e r).state = if job.state = .running then n else job.state := by
  unfold complete; split <;> rfl

theorem complete_of_ne {t : Instant} {n : JobState} {x : Int} {o e : PyStr} {r : Option PyStr}
    {job : Job} (h : job.state ≠ .running) : job.complete t n x o e r = job := if_neg h

end Job

namespace JobRepository

variable {σ : Type} (R : JobRepository σ)

/-- From `s` to `s'` the record of job `j`, if there is one, goes through `f`
and every other record stays. -/
def Updates (j : String) (f : Job → Job) (s s' : σ) : Prop :=
  ∀ k, R.get k s' = if k = j then (R.get k s).map f else R.get k s

/-- What the service relies on: the effect of every method, seen through `get`. -/
structure Lawful : Prop where
  get_jobId : ∀ {k s job}, R.get k s = some job → job.jobId = k
  mem_list : ∀ {a q s job}, job ∈ R.list a q s ↔ R.get job.jobId s = some job ∧ job.matches a q
  add : ∀ {job s r s'}, R.add job s = .ok (r, s') → R.get job.jobId s = none →
    (r = job ∧ ∀ k, R.get k s' = if k = job.jobId then some job else R.get k s) ∨
      (job.idempotencyKey.isSome ∧ R.get r.jobId s = some r ∧ s' = s)
  save : ∀ {t job s r s'}, R.save t job s = .ok (r, s') → (R.get job.jobId s).isSome →
    r = { job with updatedAt := t } ∧ R.Updates job.jobId (fun _ => { job with updatedAt := t }) s s'
  transitionIf : ∀ {t j e n s}, ∃ s', R.transitionIf t j e n s = .ok (R.get j s', s') ∧
    R.Updates j (Job.transition t e n) s s'
  completeIfRunning : ∀ {t j n x o e err s r s'},
    R.completeIfRunning t j n x o e err s = .ok (r, s') → r = R.get j s' ∧
      R.Updates j (Job.complete t n x o e err) s s'

variable {R}

theorem Updates.refl {j : String} {f : Job → Job} {s : σ}
    (h : ∀ job, R.get j s = some job → f job = job) : R.Updates j f s s := by
  intro k
  split
  · next hk =>
      subst k
      cases hj : R.get j s with
      | none => rfl
      | some job => simp [h job hj]
  · rfl

theorem Updates.congr {j : String} {f g : Job → Job} {s s' : σ} (h : R.Updates j f s s')
    (hfg : ∀ job, R.get j s = some job → f job = g job) : R.Updates j g s s' := by
  intro k
  rw [h k]
  split
  · next hk =>
      subst k
      cases hj : R.get j s with
      | none => rfl
      | some job => simp [hfg job hj]
  · rfl

theorem Updates.get_self {j : String} {f : Job → Job} {s s' : σ} (h : R.Updates j f s s') :
    R.get j s' = (R.get j s).map f := by
  rw [h j, if_pos rfl]

theorem Updates.get_some {j : String} {f : Job → Job} {s s' : σ} (h : R.Updates j f s s') {k : String}
    {job : Job} (hk : R.get k s = some job) : R.get k s' = some (if k = j then f job else job) := by
  rw [h k, hk]
  split <;> rfl

end JobRepository

end JobSystem
