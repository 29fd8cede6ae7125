import JobSystem.Lib.Table
import JobSystem.Repository.Base

namespace JobSystem

open Lib

/-- The table `jobs`: a primary key on `job_id` and a unique index on
`idempotency_key` where it is not null. The two JSON columns are kept as the
values that their texts encode. -/
abbrev JobTable := Table Job String String Job.jobId Job.idempotencyKey

inductive SqlValue
  | null
  | integer (n : Int)
  | real (x : Rat)
  | infinity (negative : Bool)
  | text (s : String)
  | surrogate (points : List Nat)
  deriving DecidableEq

def int64 (n : Int) : Bool := -9223372036854775808 ≤ n && n ≤ 9223372036854775807

def encodable (stdout stderr : PyStr) (error : Option PyStr) : Bool :=
  stdout.encodes && stderr.encodes && error.all PyStr.encodes

def bindableResult (exitCode : Int) (stdout stderr : PyStr) (error : Option PyStr) : Bool :=
  int64 exitCode && encodable stdout stderr error

def Job.integersFit (job : Job) : Bool :=
  int64 job.timeoutMs && int64 job.priority && job.exitCode.all int64 && int64 job.dispatchAttempts

def Job.bindable (job : Job) : Bool := job.integersFit && encodable job.stdout job.stderr job.error

/-- What `sqlite3` raises for the first parameter that it cannot bind. The counter comes after the texts. -/
def Job.bindError (job : Job) : PyError :=
  if int64 job.timeoutMs && int64 job.priority && job.exitCode.all int64 &&
    !encodable job.stdout job.stderr job.error then .unicodeEncodeError
  else .overflowError

namespace SQLiteJobRepository

/-- `sqlite3.connect` and the script of the schema: a table that the file has is kept as it is. -/
def connect (file : Option JobTable) : JobTable := file.getD .empty

def fetch (jobId : String) (T : JobTable) : Option Job := T.find jobId

def add (job : Job) (T : JobTable) : Except PyError (Job × JobTable) :=
  if !job.bindable then .error job.bindError
  else match T.insert job with
    | some T' => .ok (job, T')
    | none =>
        match job.idempotencyKey with
        | none => .error .integrityError
        | some key =>
            match T.findIndex key with
            | none => .error .integrityError
            | some row => .ok (row, T)

def get (jobId : String) (T : JobTable) : Option Job := fetch jobId T

def getByIdempotencyKey (key : String) (T : JobTable) : Option Job := T.findIndex key

def whereClause (agentId : Option String) (state : Option JobState) (row : Job) : Bool :=
  let clauses := if truthy agentId then [decide (agentId = some row.agentId)] else []
  let clauses := if state.isSome then clauses ++ [decide (state = some row.state)] else clauses
  clauses.all id

/-- The rows in the order in which a statement with these clauses meets them: a filter by agent goes through
the index on `(agent_id, state)`, every other statement meets the rows in the order of their insertion. -/
def scanned (agentId : Option String) (rows : List Job) : List Job :=
  if truthy agentId then sorted (fun row => row.state.value) rows else rows

def list (agentId : Option String) (state : Option JobState) (T : JobTable) : List Job :=
  sortedReverse (fun row => row.createdAt.isoformat) (scanned agentId (T.rows.filter (whereClause agentId state)))

def save (t : Instant) (job : Job) (T : JobTable) : Except PyError (Job × JobTable) :=
  let job := { job with updatedAt := t }
  if !job.bindable then .error job.bindError
  else match T.replace job with
    | some T' => .ok (job, T')
    | none => .error .integrityError

/-- One row under `UPDATE jobs SET state = ?, updated_at = ?, started_at =
COALESCE(started_at, ?), finished_at = CASE WHEN ? THEN ? ELSE finished_at END
WHERE job_id = ? AND state = ?`. -/
def transitionRow (timestamp : Instant) (jobId : String) (expected newState : JobState) (row : Job) :
    Job :=
  let startedAt := if newState = .running then some timestamp else none
  if row.jobId = jobId ∧ row.state = expected then
    { row with
      state := newState
      updatedAt := timestamp
      startedAt := row.startedAt.or startedAt
      finishedAt := if newState.isTerminal then some timestamp else row.finishedAt }
  else row

theorem transitionRow_keys (t : Instant) (j : String) (e n : JobState) (row : Job) :
    (transitionRow t j e n row).jobId = row.jobId ∧
      (transitionRow t j e n row).idempotencyKey = row.idempotencyKey := by
  unfold transitionRow
  dsimp only
  split <;> exact ⟨rfl, rfl⟩

def transitionIf (timestamp : Instant) (jobId : String) (expected newState : JobState) (T : JobTable) :
    Option Job × JobTable :=
  let T' := T.modify (transitionRow timestamp jobId expected newState)
    (fun row => (transitionRow_keys timestamp jobId expected newState row).1)
    (fun row => (transitionRow_keys timestamp jobId expected newState row).2)
  (fetch jobId T', T')

def completeRow (timestamp : Instant) (jobId : String) (newState : JobState) (exitCode : Int)
    (stdout stderr : PyStr) (error : Option PyStr) (row : Job) : Job :=
  if row.jobId = jobId ∧ row.state = .running then
    { row with
      state := newState
      exitCode := some exitCode
      stdout := stdout
      stderr := stderr
      error := error
      updatedAt := timestamp
      finishedAt := some timestamp }
  else row

theorem completeRow_keys (t : Instant) (j : String) (n : JobState) (x : Int) (o e : PyStr)
    (err : Option PyStr) (row : Job) :
    (completeRow t j n x o e err row).jobId = row.jobId ∧
      (completeRow t j n x o e err row).idempotencyKey = row.idempotencyKey := by
  rw [completeRow]
  split <;> exact ⟨rfl, rfl⟩

def completeIfRunning (timestamp : Instant) (jobId : String) (newState : JobState) (exitCode : Int)
    (stdout stderr : PyStr) (error : Option PyStr) (T : JobTable) :
    Except PyError (Option Job × JobTable) :=
  if !int64 exitCode then .error .overflowError
  else if !encodable stdout stderr error then .error .unicodeEncodeError
  else
    let T' := T.modify (completeRow timestamp jobId newState exitCode stdout stderr error)
      (fun row => (completeRow_keys timestamp jobId newState exitCode stdout stderr error row).1)
      (fun row => (completeRow_keys timestamp jobId newState exitCode stdout stderr error row).2)
    .ok (fetch jobId T', T')

end SQLiteJobRepository

open SQLiteJobRepository in
def sqliteJobRepository : JobRepository JobTable where
  add := add
  get := get
  getByIdempotencyKey := getByIdempotencyKey
  list := list
  save := save
  transitionIf t j e n T := .ok (transitionIf t j e n T)
  completeIfRunning := completeIfRunning

namespace SQLiteJobRepository

theorem transitionRow_eq (t : Instant) (j : String) (e n : JobState) (row : Job) :
    transitionRow t j e n row = if row.jobId = j then row.transition t e n else row := by
  rw [transitionRow, Job.transition]
  by_cases hj : row.jobId = j
  · by_cases he : row.state = e
    · cases hs : row.startedAt <;> cases n <;> simp [hj, he]
    · simp [hj, he]
  · simp [hj]

theorem completeRow_eq (t : Instant) (j : String) (n : JobState) (x : Int) (o e : PyStr)
    (err : Option PyStr) (row : Job) :
    completeRow t j n x o e err row = if row.jobId = j then row.complete t n x o e err else row := by
  rw [completeRow, Job.complete]
  by_cases hj : row.jobId = j <;> simp [hj]

theorem get_modify {T : JobTable} {f g : Job → Job} {j : String} (hpk : ∀ r, (f r).jobId = r.jobId)
    (hix : ∀ r, (f r).idempotencyKey = r.idempotencyKey)
    (hf : ∀ r, f r = if r.jobId = j then g r else r) (k : String) :
    get k (T.modify f hpk hix) = if k = j then (get k T).map g else get k T := by
  unfold get fetch
  rw [Table.find_modify]
  cases hk : T.find k with
  | none => simp
  | some row =>
      have hid := (Table.find_mem hk).2
      by_cases hkj : k = j <;> simp [hf, hid, hkj]

theorem transitionIf_effect (t : Instant) (j : String) (e n : JobState) (T : JobTable) (k : String) :
    get k (transitionIf t j e n T).2 = if k = j then (get k T).map (Job.transition t e n) else get k T :=
  get_modify (fun row => (transitionRow_keys t j e n row).1) (fun row => (transitionRow_keys t j e n row).2)
    (transitionRow_eq t j e n) k

theorem whereClause_eq (agentId : Option String) (state : Option JobState) (row : Job) :
    whereClause agentId state row = row.matches agentId state := by
  rw [whereClause, Job.matches]
  cases truthy agentId <;> cases state <;> simp

theorem completeIfRunning_eq (t : Instant) (j : String) (n : JobState) (x : Int) (o e : PyStr) (err : Option PyStr)
    (T : JobTable) (h : bindableResult x o e err = true) :
    completeIfRunning t j n x o e err T =
      (let T' := T.modify (completeRow t j n x o e err) (fun row => (completeRow_keys t j n x o e err row).1)
        (fun row => (completeRow_keys t j n x o e err row).2)
      .ok (fetch j T', T')) := by
  rw [bindableResult, Bool.and_eq_true] at h
  rw [completeIfRunning, h.1, h.2]
  rfl

theorem completeIfRunning_error (t : Instant) (j : String) (n : JobState) {x : Int} {o e : PyStr}
    {err : Option PyStr} (T : JobTable) (h : bindableResult x o e err = false) :
    ∃ r, completeIfRunning t j n x o e err T = .error r := by
  rw [completeIfRunning]
  cases hx : int64 x with
  | false => exact ⟨_, rfl⟩
  | true =>
      rw [bindableResult, hx, Bool.true_and] at h
      rw [h]
      exact ⟨_, rfl⟩

theorem bindable_of_completed {t : Instant} {j : String} {n : JobState} {x : Int} {o e : PyStr} {err : Option PyStr}
    {T : JobTable} {p : Option Job × JobTable} (h : completeIfRunning t j n x o e err T = .ok p) :
    bindableResult x o e err = true := by
  cases hb : bindableResult x o e err with
  | true => rfl
  | false =>
      obtain ⟨r, hr⟩ := completeIfRunning_error t j n T hb
      cases hr.symm.trans h

theorem scanned_perm (agentId : Option String) (rows : List Job) : (scanned agentId rows).Perm rows := by
  rw [scanned]
  split
  · exact sorted_perm _ _
  · exact .refl _

/-- Within one state the index has the rows in the order of their insertion. -/
theorem scanned_eq_self {agentId : Option String} {rows : List Job} {q : JobState} (h : ∀ r ∈ rows, r.state = q) :
    scanned agentId rows = rows := by
  rw [scanned]
  split
  · refine sorted_eq_self (List.pairwise_of_forall_mem_list fun a ha b hb => ?_)
    rw [h a ha, h b hb]
  · rfl

theorem list_perm (agentId : Option String) (state : Option JobState) (T : JobTable) :
    (list agentId state T).Perm (T.rows.filter (whereClause agentId state)) :=
  (sortedReverse_perm _ _).trans (scanned_perm _ _)

/-- With a filter by state, entries with equal times keep the order of their insertion. -/
theorem list_state (agentId : Option String) (q : JobState) (T : JobTable) :
    list agentId (some q) T =
      sortedReverse (fun row => row.createdAt.isoformat) (T.rows.filter (whereClause agentId (some q))) := by
  rw [list, scanned_eq_self (q := q)]
  intro r hr
  have hmatch := (List.mem_filter.mp hr).2
  rw [whereClause_eq, Job.matches, Bool.and_eq_true] at hmatch
  exact Eq.symm (by simpa using hmatch.2)

theorem mem_list {agentId : Option String} {state : Option JobState} {T : JobTable} {job : Job} :
    job ∈ list agentId state T ↔ get job.jobId T = some job ∧ job.matches agentId state := by
  have hrow : job ∈ T.rows ↔ T.find job.jobId = some job :=
    ⟨Table.find_of_mem, fun h => (Table.find_mem h).1⟩
  rw [(list_perm agentId state T).mem_iff, List.mem_filter, whereClause_eq, hrow, get, fetch]

end SQLiteJobRepository

open SQLiteJobRepository in
theorem sqliteJobRepository_lawful : sqliteJobRepository.Lawful where
  get_jobId h := (Table.find_mem h).2
  mem_list := mem_list
  add := by
    intro job T r T' h hfresh
    change SQLiteJobRepository.add job T = .ok (r, T') at h
    rw [SQLiteJobRepository.add] at h
    split at h
    · cases h
    · split at h
      · next hins => cases h; exact .inl ⟨rfl, Table.find_insert hins⟩
      · split at h
        · cases h
        · next key hkey =>
            split at h
            · cases h
            · next row hrow =>
                cases h
                exact .inr ⟨by simp [hkey], Table.find_of_mem (Table.findIndex_mem hrow).1, rfl⟩
  save := by
    intro t job T r T' h _
    change SQLiteJobRepository.save t job T = .ok (r, T') at h
    unfold SQLiteJobRepository.save at h
    dsimp only at h
    split at h
    · cases h
    · split at h
      · next hrep =>
          cases h
          exact ⟨rfl, Table.find_replace hrep⟩
      · cases h
  transitionIf := fun {t j e n T} => ⟨_, rfl, transitionIf_effect t j e n T⟩
  completeIfRunning := by
    intro t j n x o e err T r T' h
    change SQLiteJobRepository.completeIfRunning t j n x o e err T = .ok (r, T') at h
    rw [completeIfRunning_eq t j n x o e err T (bindable_of_completed h)] at h
    cases h
    exact ⟨rfl, get_modify (fun row => (completeRow_keys t j n x o e err row).1)
      (fun row => (completeRow_keys t j n x o e err row).2) (completeRow_eq t j n x o e err)⟩

end JobSystem
