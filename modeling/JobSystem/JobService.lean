import JobSystem.Repository.Base

namespace JobSystem

open Lib

namespace Job

def dispatch (t : Instant) (job : Job) : Job :=
  if job.state = .pending then
    { job with state := .dispatched, dispatchAttempts := job.dispatchAttempts + 1, updatedAt := t }
  else job

theorem dispatch_not_pending (t : Instant) (job : Job) : (job.dispatch t).state ≠ .pending := by
  rw [dispatch]
  split
  · simp
  · assumption

def cancel (t : Instant) (job : Job) : Job :=
  if job.state.isTerminal then job else job.transition t job.state .cancelled

def failStale (finishedAt updatedAt : Instant) (error : PyStr) (job : Job) : Job :=
  if job.state.isTerminal then job
  else
    { job with
      exitCode := some 1
      error := some error
      state := .failed
      finishedAt := some finishedAt
      updatedAt := updatedAt }

end Job

namespace JobService

variable {σ : Type} (R : JobRepository σ)

def submit (jobId correlationId : String) (createdAt updatedAt : Instant) (req : Request) (s : σ) :
    Except PyError (Job × σ) :=
  R.add (req.toJob jobId correlationId createdAt updatedAt) s

def get (jobId : String) (s : σ) : Option Job := R.get jobId s

def list (agentId : Option String) (state : Option JobState) (s : σ) : List Job := R.list agentId state s

def markDispatched (t : Instant) (jobId : String) (s : σ) : Except PyError (Option Job × σ) :=
  R.transitionIf t jobId .pending .dispatched s

def markDispatchedWithAttempt (t₁ t₂ : Instant) (jobId : String) (s : σ) :
    Except PyError (Option Job × σ) :=
  match R.get jobId s with
  | none => .ok (none, s)
  | some job =>
      if job.state ≠ .pending then .ok (some job, s)
      else
        let job := { job with state := .dispatched }
        let job := { job with dispatchAttempts := job.dispatchAttempts + 1 }
        let job := { job with updatedAt := t₁ }
        (R.save t₂ job s).map fun (job, s) => (some job, s)

def markRunning (t : Instant) (jobId : String) (s : σ) : Except PyError (Option Job × σ) :=
  R.transitionIf t jobId .dispatched .running s

def markSucceeded (t : Instant) (jobId : String) (exitCode : Int) (stdout stderr : PyStr) (s : σ) :
    Except PyError (Option Job × σ) :=
  R.completeIfRunning t jobId .succeeded exitCode stdout stderr none s

def markFailed (t : Instant) (jobId : String) (exitCode : Int) (stdout stderr : PyStr)
    (error : Option PyStr) (s : σ) : Except PyError (Option Job × σ) :=
  R.completeIfRunning t jobId .failed exitCode stdout stderr error s

def markTimedOut (t : Instant) (jobId : String) (s : σ) : Except PyError (Option Job × σ) :=
  R.transitionIf t jobId .running .timedOut s

def markCancelled (t : Instant) (jobId : String) (s : σ) : Except PyError (Option Job × σ) :=
  match R.get jobId s with
  | none => .ok (none, s)
  | some job =>
      if job.state.isTerminal then .ok (some job, s)
      else R.transitionIf t jobId job.state .cancelled s

def requeue (t : Instant) (jobId : String) (s : σ) : Except PyError (Option Job × σ) :=
  R.transitionIf t jobId .dispatched .pending s

def failStaleDispatch (t₁ t₂ : Instant) (jobId : String) (error : PyStr) (s : σ) :
    Except PyError (Option Job × σ) :=
  match R.get jobId s with
  | none => .ok (none, s)
  | some job =>
      if job.state.isTerminal then .ok (some job, s)
      else
        let job := { job with exitCode := some 1 }
        let job := { job with error := some error }
        let job := { job with state := .failed }
        let job := { job with finishedAt := some t₁ }
        (R.save t₂ job s).map fun (job, s) => (some job, s)

/-- What two of the operations do: they read a record, and save it changed unless it is to be left
alone. -/
def readSave (t : Instant) (leave : Job → Prop) [DecidablePred leave] (change : Job → Job)
    (jobId : String) (s : σ) : Except PyError (Option Job × σ) :=
  match R.get jobId s with
  | none => .ok (none, s)
  | some job =>
      if leave job then .ok (some job, s) else (R.save t (change job) s).map fun (job, s) => (some job, s)

theorem markDispatchedWithAttempt_eq (t₁ t₂ : Instant) (j : String) (s : σ) :
    markDispatchedWithAttempt R t₁ t₂ j s = readSave R t₂ (fun job => job.state ≠ .pending)
      (fun job =>
        { job with state := .dispatched, dispatchAttempts := job.dispatchAttempts + 1, updatedAt := t₁ })
      j s := rfl

theorem failStaleDispatch_eq (t₁ t₂ : Instant) (j : String) (error : PyStr) (s : σ) :
    failStaleDispatch R t₁ t₂ j error s = readSave R t₂ (fun job => job.state.isTerminal)
      (fun job => { job with exitCode := some 1, error := some error, state := .failed, finishedAt := some t₁ })
      j s := rfl

variable {R}

theorem save_spec (hR : R.Lawful) {t : Instant} {j : String} {old job : Job} {f : Job → Job} {s s' : σ}
    {r : Option Job} (hj : R.get j s = some old) (hid : job.jobId = j) (hf : f old = { job with updatedAt := t })
    (h : (R.save t job s).map (fun (job, s) => (some job, s)) = .ok (r, s')) :
    r = R.get j s' ∧ R.Updates j f s s' := by
  subst hid
  cases hs : R.save t job s with
  | error e => rw [hs] at h; cases h
  | ok p =>
      obtain ⟨saved, s''⟩ := p
      rw [hs] at h
      cases h
      obtain ⟨hr, hu⟩ := hR.save hs (by rw [hj]; rfl)
      have hu' : R.Updates job.jobId f s s' := hu.congr fun other ho => by
        cases hj.symm.trans ho
        exact hf.symm
      refine ⟨?_, hu'⟩
      rw [hu'.get_self, hj, hr, Option.map_some, hf]

section ReadSave

variable {t : Instant} {leave : Job → Prop} [DecidablePred leave] {change : Job → Job} {j : String} {s s' : σ}
  {r : Option Job}

theorem readSave_spec (hR : R.Lawful) (h : readSave R t leave change j s = .ok (r, s'))
    (hid : ∀ job, (change job).jobId = job.jobId) {f : Job → Job}
    (hf : ∀ job, f job = if leave job then job else { change job with updatedAt := t }) :
    r = R.get j s' ∧ R.Updates j f s s' := by
  rw [readSave] at h
  cases hj : R.get j s with
  | none =>
      rw [hj] at h
      cases h
      exact ⟨hj.symm, .refl (by simp [hj])⟩
  | some job =>
      rw [hj] at h
      dsimp only at h
      split at h
      · next hl =>
          cases h
          refine ⟨hj.symm, .refl fun other ho => ?_⟩
          cases hj.symm.trans ho
          rw [hf, if_pos hl]
      · next hl =>
          have hchanged : f job = { change job with updatedAt := t } := by rw [hf, if_neg hl]
          exact save_spec hR hj ((hid job).trans (hR.get_jobId hj)) hchanged h

theorem readSave_invariant {I : σ → Prop} (hsave : ∀ job r s', R.save t job s = .ok (r, s') → I s')
    (hI : I s) (h : readSave R t leave change j s = .ok (r, s')) : I s' := by
  rw [readSave] at h
  split at h
  · cases h
    exact hI
  · next job _ =>
      split at h
      · cases h
        exact hI
      · cases hs : R.save t (change job) s with
        | error e =>
            rw [hs] at h
            cases h
        | ok p =>
            rw [hs] at h
            cases h
            exact hsave _ p.1 p.2 hs

theorem readSave_refused (h : (readSave R t leave change j s).isOk = false) :
    ∃ job, R.get j s = some job ∧ ¬ leave job ∧
      (R.save t (change job) s).isOk = false := by
  rw [readSave] at h
  split at h
  · cases h
  · next job hj =>
      split at h
      · cases h
      · next hl =>
          refine ⟨job, hj, hl, ?_⟩
          cases hs : R.save t (change job) s with
          | error e => rfl
          | ok p =>
              rw [hs] at h
              cases h

end ReadSave

theorem markDispatchedWithAttempt_spec (hR : R.Lawful) {t₁ t₂ : Instant} {j : String} {s s' : σ}
    {r : Option Job} (h : markDispatchedWithAttempt R t₁ t₂ j s = .ok (r, s')) :
    r = R.get j s' ∧ R.Updates j (Job.dispatch t₂) s s' := by
  rw [markDispatchedWithAttempt_eq] at h
  exact readSave_spec hR h (fun _ => rfl) fun job => (ite_not ..).symm

theorem markCancelled_spec (hR : R.Lawful) (t : Instant) (j : String) (s : σ) :
    ∃ s', markCancelled R t j s = .ok (R.get j s', s') ∧ R.Updates j (Job.cancel t) s s' := by
  rw [markCancelled]
  cases hj : R.get j s with
  | none => exact ⟨s, by simp [hj], .refl (by simp [hj])⟩
  | some job =>
      dsimp only
      split
      · next ht =>
          refine ⟨s, by rw [hj], .refl fun other ho => ?_⟩
          cases hj.symm.trans ho
          exact if_pos ht
      · next ht =>
          obtain ⟨s', hs', hu⟩ :=
            hR.transitionIf (t := t) (j := j) (e := job.state) (n := .cancelled) (s := s)
          refine ⟨s', hs', hu.congr fun other ho => ?_⟩
          cases hj.symm.trans ho
          exact (if_neg ht).symm

theorem failStaleDispatch_spec (hR : R.Lawful) {t₁ t₂ : Instant} {j : String} {error : PyStr} {s s' : σ}
    {r : Option Job} (h : failStaleDispatch R t₁ t₂ j error s = .ok (r, s')) :
    r = R.get j s' ∧ R.Updates j (Job.failStale t₁ t₂ error) s s' := by
  rw [failStaleDispatch_eq] at h
  exact readSave_spec hR h (fun _ => rfl) fun _ => rfl

end JobService

end JobSystem
