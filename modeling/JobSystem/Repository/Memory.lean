import JobSystem.Lib.Dict
import JobSystem.Repository.Base

namespace JobSystem

open Lib

/-- The dictionaries `_jobs` and `_idempotency`. A job is stored under its own
id, and an indexed key always leads to a stored job. -/
structure MemoryStore where
  jobs : Dict String Job
  idempotency : Dict String String
  keyed : ∀ {id job}, jobs.get id = some job → job.jobId = id
  indexed : ∀ {key id}, idempotency.get key = some id → (jobs.get id).isSome

namespace MemoryStore

def empty : MemoryStore := ⟨.empty, .empty, by simp, by simp⟩

def put (s : MemoryStore) (job : Job) : MemoryStore where
  jobs := s.jobs.set job.jobId job
  idempotency := s.idempotency
  keyed := by
    intro id other h
    rw [Dict.get_set] at h
    split at h
    · next hid => cases h; exact hid.symm
    · exact s.keyed h
  indexed := by
    intro key id h
    rw [Dict.get_set]
    split
    · rfl
    · exact s.indexed h

def index (s : MemoryStore) (key id : String) (h : (s.jobs.get id).isSome) : MemoryStore where
  jobs := s.jobs
  idempotency := s.idempotency.set key id
  keyed := s.keyed
  indexed := by
    intro key' id' h'
    rw [Dict.get_set] at h'
    split at h'
    · cases h'; exact h
    · exact s.indexed h'

@[simp] theorem get_put (s : MemoryStore) (job : Job) (k : String) :
    (s.put job).jobs.get k = if k = job.jobId then some job else s.jobs.get k :=
  Dict.get_set _ _ _ _

theorem get_put_map {s : MemoryStore} {j : String} {job : Job} {f : Job → Job}
    (hj : s.jobs.get j = some job) (hf : (f job).jobId = j) (k : String) :
    (s.put (f job)).jobs.get k = if k = j then (s.jobs.get k).map f else s.jobs.get k := by
  rw [get_put, hf]
  split
  · next hk => rw [hk, hj]; rfl
  · rfl

theorem get_map_fixed {s : MemoryStore} {j : String} {f : Job → Job}
    (hf : ∀ job, s.jobs.get j = some job → f job = job) (k : String) :
    s.jobs.get k = if k = j then (s.jobs.get k).map f else s.jobs.get k := by
  split
  · next hk =>
      subst k
      cases hj : s.jobs.get j with
      | none => rfl
      | some job => simp [hf job hj]
  · rfl

end MemoryStore

namespace InMemoryJobRepository

def add (job : Job) (s : MemoryStore) : Job × MemoryStore :=
  match job.idempotencyKey with
  | none => (job, s.put job)
  | some key =>
      match h : s.idempotency.get key with
      | some existingId => ((s.jobs.get existingId).get (s.indexed h), s)
      | none => (job, (s.put job).index key job.jobId (by simp))

def get (jobId : String) (s : MemoryStore) : Option Job := s.jobs.get jobId

def getByIdempotencyKey (key : String) (s : MemoryStore) : Option Job :=
  let jobId := s.idempotency.get key
  if truthy jobId then jobId.bind s.jobs.get else none

def list (agentId : Option String) (state : Option JobState) (s : MemoryStore) : List Job :=
  let jobs := s.jobs.values
  let jobs := if truthy agentId then jobs.filter fun j => agentId = some j.agentId else jobs
  let jobs := if state.isSome then jobs.filter fun j => state = some j.state else jobs
  sortedReverse (fun j => j.createdAt.isoformat) jobs

def save (t : Instant) (job : Job) (s : MemoryStore) : Job × MemoryStore :=
  let job := { job with updatedAt := t }
  (job, s.put job)

/-- The record is changed in place, one field after the other. -/
def transitionIf (t : Instant) (jobId : String) (expected newState : JobState) (s : MemoryStore) :
    Option Job × MemoryStore :=
  match s.jobs.get jobId with
  | none => (none, s)
  | some job =>
      if job.state ≠ expected then (some job, s)
      else
        let job := { job with state := newState }
        let job := { job with updatedAt := t }
        let job := if newState = .running ∧ job.startedAt = none then
          { job with startedAt := some job.updatedAt } else job
        let job := if newState.isTerminal then { job with finishedAt := some job.updatedAt } else job
        (some job, s.put job)

def completeIfRunning (t : Instant) (jobId : String) (newState : JobState) (exitCode : Int)
    (stdout stderr : PyStr) (error : Option PyStr) (s : MemoryStore) : Option Job × MemoryStore :=
  match s.jobs.get jobId with
  | none => (none, s)
  | some job =>
      if job.state ≠ .running then (some job, s)
      else
        let job :=
          { job with exitCode := some exitCode, stdout := stdout, stderr := stderr, error := error }
        let job := { job with state := newState }
        let job := { job with updatedAt := t }
        let job := { job with finishedAt := some job.updatedAt }
        (some job, s.put job)

end InMemoryJobRepository

open InMemoryJobRepository in
def inMemoryJobRepository : JobRepository MemoryStore where
  add job s := .ok (add job s)
  get := get
  getByIdempotencyKey := getByIdempotencyKey
  list := list
  save t job s := .ok (save t job s)
  transitionIf t j e n s := .ok (transitionIf t j e n s)
  completeIfRunning t j n x o e err s := .ok (completeIfRunning t j n x o e err s)

namespace InMemoryJobRepository

theorem transitionIf_some {t : Instant} {j : String} {e n : JobState} {s : MemoryStore} {job : Job}
    (hj : s.jobs.get j = some job) (he : job.state = e) :
    transitionIf t j e n s = (some (job.transition t e n), s.put (job.transition t e n)) := by
  have hrec : (let job := { job with state := n }
      let job := { job with updatedAt := t }
      let job := if n = .running ∧ job.startedAt = none then
        { job with startedAt := some job.updatedAt } else job
      if n.isTerminal then { job with finishedAt := some job.updatedAt } else job) =
        job.transition t e n := by
    cases hs : job.startedAt <;> cases n <;> simp [Job.transition, he, hs]
  simp only [transitionIf, hj, he, ne_eq, not_true_eq_false, if_false, ← hrec]

theorem transitionIf_effect (t : Instant) (j : String) (e n : JobState) (s : MemoryStore) :
    (transitionIf t j e n s).1 = get j (transitionIf t j e n s).2 ∧
      ∀ k, get k (transitionIf t j e n s).2 =
        if k = j then (get k s).map (Job.transition t e n) else get k s := by
  cases hj : s.jobs.get j with
  | none =>
      have hres : transitionIf t j e n s = (none, s) := by simp only [transitionIf, hj]
      rw [hres]
      exact ⟨hj.symm, MemoryStore.get_map_fixed (by simp [hj])⟩
  | some job =>
      by_cases he : job.state = e
      · have hid : (job.transition t e n).jobId = j := by simp [s.keyed hj]
        rw [transitionIf_some hj he]
        refine ⟨?_, MemoryStore.get_put_map hj hid⟩
        rw [get, MemoryStore.get_put, if_pos hid.symm]
      · have hres : transitionIf t j e n s = (some job, s) := by
          simp only [transitionIf, hj, ne_eq, he, not_false_eq_true, if_true]
        rw [hres]
        refine ⟨hj.symm, MemoryStore.get_map_fixed fun other ho => ?_⟩
        cases hj.symm.trans ho
        exact Job.transition_of_ne he

theorem completeIfRunning_effect (t : Instant) (j : String) (n : JobState) (x : Int) (o e : PyStr)
    (err : Option PyStr) (s : MemoryStore) :
    (completeIfRunning t j n x o e err s).1 = get j (completeIfRunning t j n x o e err s).2 ∧
      ∀ k, get k (completeIfRunning t j n x o e err s).2 =
        if k = j then (get k s).map (Job.complete t n x o e err) else get k s := by
  cases hj : s.jobs.get j with
  | none =>
      have hres : completeIfRunning t j n x o e err s = (none, s) := by simp only [completeIfRunning, hj]
      rw [hres]
      exact ⟨hj.symm, MemoryStore.get_map_fixed (by simp [hj])⟩
  | some job =>
      by_cases he : job.state = .running
      · have hid : (job.complete t n x o e err).jobId = j := by simp [s.keyed hj]
        have hres : completeIfRunning t j n x o e err s =
            (some (job.complete t n x o e err), s.put (job.complete t n x o e err)) := by
          simp only [completeIfRunning, hj, he, ne_eq, not_true_eq_false, if_false, Job.complete,
            if_true]
        rw [hres]
        refine ⟨?_, MemoryStore.get_put_map hj hid⟩
        rw [get, MemoryStore.get_put, if_pos hid.symm]
      · have hres : completeIfRunning t j n x o e err s = (some job, s) := by
          simp only [completeIfRunning, hj, ne_eq, he, not_false_eq_true, if_true]
        rw [hres]
        refine ⟨hj.symm, MemoryStore.get_map_fixed fun other ho => ?_⟩
        cases hj.symm.trans ho
        exact Job.complete_of_ne he

theorem mem_list {agentId : Option String} {state : Option JobState} {s : MemoryStore} {job : Job} :
    job ∈ list agentId state s ↔ get job.jobId s = some job ∧ job.matches agentId state := by
  have hval : job ∈ s.jobs.values ↔ s.jobs.get job.jobId = some job := by
    rw [Dict.mem_values]
    constructor
    · rintro ⟨k, hk⟩
      rwa [← s.keyed hk] at hk
    · exact fun h => ⟨_, h⟩
  rw [list, get, Job.matches]
  cases ha : truthy agentId <;> cases state <;> simp [hval, and_assoc, and_comm]

theorem add_effect (job : Job) (s : MemoryStore) :
    ((add job s).1 = job ∧ ∀ k, get k (add job s).2 = if k = job.jobId then some job else get k s) ∨
      (job.idempotencyKey.isSome ∧ get (add job s).1.jobId s = some (add job s).1 ∧
        (add job s).2 = s) := by
  rw [add]
  split
  · exact .inl ⟨rfl, MemoryStore.get_put s job⟩
  · next key hkey =>
      split
      · next id hid =>
          obtain ⟨r, hr⟩ := Option.isSome_iff_exists.mp (s.indexed hid)
          refine .inr ⟨by simp [hkey], ?_, rfl⟩
          simp only [hr, Option.get_some, get]
          rw [s.keyed hr, hr]
      · exact .inl ⟨rfl, MemoryStore.get_put s job⟩

end InMemoryJobRepository

open InMemoryJobRepository in
theorem inMemoryJobRepository_lawful : inMemoryJobRepository.Lawful where
  get_jobId h := MemoryStore.keyed _ h
  mem_list := mem_list
  add := by
    intro job s r s' h _
    obtain ⟨rfl, rfl⟩ := Prod.mk.inj (Except.ok.inj h)
    exact add_effect job s
  save := by
    intro t job s r s' h hsome
    obtain ⟨rfl, rfl⟩ := Prod.mk.inj (Except.ok.inj h)
    refine ⟨rfl, fun k => ?_⟩
    obtain ⟨old, hold⟩ := Option.isSome_iff_exists.mp hsome
    change (s.put { job with updatedAt := t }).jobs.get k = _
    rw [MemoryStore.get_put]
    split
    · next hk => rw [hk, hold]; rfl
    · rfl
  transitionIf := by
    intro t j e n s
    obtain ⟨hr, hk⟩ := transitionIf_effect t j e n s
    exact ⟨_, congrArg Except.ok (Prod.ext hr rfl), hk⟩
  completeIfRunning := by
    intro t j n x o e err s r s' h
    obtain ⟨rfl, rfl⟩ := Prod.mk.inj (Except.ok.inj h)
    exact completeIfRunning_effect t j n x o e err s

end JobSystem
