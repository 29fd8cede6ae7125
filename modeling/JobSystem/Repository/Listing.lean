import JobSystem.Repository.Refinement

namespace JobSystem

open Lib

theorem JobState.value_injective : Function.Injective value := by
  intro s t h
  cases s <;> cases t <;> first | rfl | exact absurd h (by decide)

/-- What a caller passes as `state`: a member of `JobState`, or a query string. -/
inductive StateArg
  | member (s : JobState)
  | query (s : String)

/-- `'type' object has no attribute 'name'` -/
structure AttributeError where
  type : String
  name : String
  deriving DecidableEq

namespace StateArg

/-- A member of `JobState` is a string too, equal to its value. -/
def str : StateArg → String
  | member s => s.value
  | query s => s

def value : StateArg → Except AttributeError String
  | member s => .ok s.value
  | query _ => .error ⟨"str", "value"⟩

end StateArg

def Job.toDict (job : Job) : List (String × Json) :=
  [("jobId", .str job.jobId), ("agentId", .str job.agentId), ("image", .str job.image),
    ("command", .arr (job.command.map fun s => .str s)), ("timeoutMs", .int job.timeoutMs),
    ("idempotencyKey", job.idempotencyKey.elim .null fun k => .str k), ("priority", .int job.priority),
    ("metadata", .obj job.metadata), ("state", .str job.state.value), ("exitCode", job.exitCode.elim .null .int),
    ("error", job.error.elim .null .str), ("createdAt", .str job.createdAt.isoformat),
    ("updatedAt", .str job.updatedAt.isoformat),
    ("startedAt", job.startedAt.elim .null fun t => .str t.isoformat),
    ("finishedAt", job.finishedAt.elim .null fun t => .str t.isoformat),
    ("correlationId", .str job.correlationId), ("dispatchAttempts", .int job.dispatchAttempts)]

namespace SQLiteJobRepository

def agentClause (agentId : Option String) : List (Job → Bool) :=
  if truthy agentId then [fun row => agentId = some row.agentId] else []

def stateClause : Option StateArg → Except AttributeError (List (Job → Bool))
  | none => .ok []
  | some state => if state.str = "" then .ok [] else state.value.map fun v => [fun row => row.state.value = v]

def listAny (agentId : Option String) (state : Option StateArg) (T : JobTable) :
    Except AttributeError (List Job) :=
  (stateClause state).map fun clauses =>
    sortedReverse (fun row => row.createdAt.isoformat)
      (scanned agentId (T.rows.filter fun row => (agentClause agentId ++ clauses).all fun clause => clause row))

end SQLiteJobRepository

namespace InMemoryJobRepository

def listAny (agentId : Option String) (state : Option StateArg) (s : MemoryStore) : List Job :=
  let jobs := s.jobs.values
  let jobs := if truthy agentId then jobs.filter fun j => agentId = some j.agentId else jobs
  let jobs :=
    if truthy (state.map StateArg.str) then jobs.filter fun j => state.map StateArg.str = some j.state.value
    else jobs
  sortedReverse (fun j => j.createdAt.isoformat) jobs

end InMemoryJobRepository

def listJobs (list : Option String → Option StateArg → Except AttributeError (List Job))
    (agentId state : Option String) : Except AttributeError (List (List (String × Json))) :=
  (list agentId (state.map .query)).map fun jobs => jobs.map Job.toDict

/-- The stored jobs that two filters ask for, newest first. An empty filter does not filter. -/
structure Lists (T : JobTable) (agentId state : Option String) (jobs : List Job) : Prop where
  nodup : jobs.Nodup
  mem : ∀ job, job ∈ jobs ↔ job ∈ T.rows ∧ (truthy agentId = true → agentId = some job.agentId) ∧
    (truthy state = true → state = some job.state.value)
  newest : jobs.Pairwise fun a b => b.createdAt ≤ a.createdAt

def SameJobs (T : JobTable) (s : MemoryStore) : Prop := ∀ j, s.jobs.get j = T.find j

section Listing

variable {T : JobTable} {s : MemoryStore} {agentId state : Option String}

/-- With a member of `JobState` it is the method that the watchers and the gateway call. -/
theorem SQLiteJobRepository.listAny_member (agentId : Option String) (state : Option JobState) (T : JobTable) :
    listAny agentId (state.map .member) T = .ok (list agentId state T) := by
  have hvalue : ∀ s : JobState, s.value ≠ "" := by
    intro s
    cases s <;> decide
  have hclause : ∀ (s : JobState) (row : Job), (row.state.value = s.value) = (s = row.state) := fun s row =>
    propext ⟨fun h => JobState.value_injective h.symm, fun h => by rw [h]⟩
  rw [listAny, list]
  cases state with
  | none =>
      simp only [Option.map_none, stateClause, Except.map, List.append_nil]
      congr 3
      refine List.filter_congr fun row _ => ?_
      cases ha : truthy agentId <;> simp [whereClause, agentClause, ha]
  | some st =>
      simp only [Option.map_some, stateClause, StateArg.str, hvalue, if_false, StateArg.value, Except.map]
      congr 3
      refine List.filter_congr fun row _ => ?_
      cases ha : truthy agentId <;> simp [whereClause, agentClause, ha, hclause]

theorem InMemoryJobRepository.listAny_member (agentId : Option String) (state : Option JobState)
    (s : MemoryStore) : listAny agentId (state.map .member) s = list agentId state s := by
  cases state with
  | none => rfl
  | some st =>
      have hvalue : truthy (some st.value) = true := by cases st <;> decide
      simp only [listAny, list, Option.map_some, StateArg.str, hvalue, if_true, Option.isSome_some]
      refine congrArg _ (List.filter_congr fun j _ => decide_eq_decide.mpr ?_)
      rw [Option.some_inj, Option.some_inj, JobState.value_injective.eq_iff]

theorem SQLiteJobRepository.listAny_query (h : truthy state = true) :
    listAny agentId (state.map .query) T = .error ⟨"str", "value"⟩ := by
  cases state with
  | none => cases h
  | some st =>
      have hst : st ≠ "" := of_decide_eq_true h
      simp only [listAny, Option.map_some, stateClause, StateArg.str, hst, if_false, StateArg.value, Except.map]

theorem SQLiteJobRepository.listAny_empty (h : truthy state = false) :
    listAny agentId (state.map .query) T = .ok (list agentId none T) := by
  rw [← listAny_member]
  cases state with
  | none => rfl
  | some st =>
      obtain rfl : st = "" := by simpa using h
      rfl

theorem InMemoryJobRepository.listAny_empty (h : truthy state = false) :
    listAny agentId (state.map .query) s = list agentId none s := by
  rw [← listAny_member]
  cases state with
  | none => rfl
  | some st =>
      obtain rfl : st = "" := by simpa using h
      rfl

theorem SQLiteJobRepository.lists (h : truthy state = false) :
    Lists T agentId state (list agentId none T) := by
  have hnodup : T.rows.Nodup := List.Nodup.of_map Job.jobId T.primary
  constructor
  · exact (list_perm agentId none T).nodup_iff.mpr (hnodup.filter _)
  · intro job
    rw [(list_perm agentId none T).mem_iff, List.mem_filter, whereClause_eq, Job.matches, h]
    cases truthy agentId <;> simp
  · refine (sortedReverse_pairwise _ _).imp fun hab => ?_
    exact Instant.isoformat_strictMono.le_iff_le.mp hab

/-- With creation times of their own, the same jobs come in the same order from both repositories. -/
theorem list_eq (hsame : SameJobs T s) (htimes : (T.rows.map (·.createdAt)).Nodup)
    (agentId : Option String) (state : Option JobState) :
    InMemoryJobRepository.list agentId state s = SQLiteJobRepository.list agentId state T := by
  have hrows : T.rows.Nodup := List.Nodup.of_map Job.jobId T.primary
  have hrecords : s.records.Nodup := List.Nodup.of_map Job.jobId s.records_nodup
  have hmem : ∀ job, job ∈ s.records ↔ job ∈ T.rows := by
    intro job
    have hrow : job ∈ T.rows ↔ T.find job.jobId = some job := ⟨Table.find_of_mem, fun h => (Table.find_mem h).1⟩
    rw [hrow, ← hsame, MemoryStore.records, Dict.mem_values]
    constructor
    · rintro ⟨k, hk⟩
      rw [s.keyed hk]
      exact hk
    · exact fun h => ⟨_, h⟩
  have hperm : s.records.Perm T.rows := (List.perm_ext_iff_of_nodup hrecords hrows).mpr hmem
  have hfilter : T.rows.filter (SQLiteJobRepository.whereClause agentId state) =
      T.rows.filter fun job => job.matches agentId state :=
    List.filter_congr fun job _ => SQLiteJobRepository.whereClause_eq agentId state job
  have hscanned := (SQLiteJobRepository.scanned_perm agentId (T.rows.filter fun job => job.matches agentId state)).symm
  rw [InMemoryJobRepository.list_records, Ledger.list, SQLiteJobRepository.list, hfilter]
  refine sortedReverse_eq_of_perm ((hperm.filter _).trans hscanned) fun a ha b hb hab => ?_
  have hrow : ∀ job ∈ s.records.filter fun job => job.matches agentId state, job ∈ T.rows := fun job hjob =>
    (hmem job).mp (List.mem_filter.mp hjob).1
  exact List.inj_on_of_nodup_map htimes (hrow a ha) (hrow b hb) (Instant.isoformat_strictMono.injective hab)

end Listing

def onePending : JobTable where
  rows := [Request.toJob ⟨"agent-1", "alpine", ["true"], 60000, none, 0, none⟩ "job_1" "c1" .epoch .epoch]
  primary := by decide
  unique := by decide

end JobSystem
