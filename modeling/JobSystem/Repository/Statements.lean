import JobSystem.Repository.Encoding
import JobSystem.Repository.Listing
import JobSystem.Repository.WellFormed
import JobSystem.Server.StaleScan

namespace JobSystem

open Lib JsonDoc

def results {σ : Type} (R : JobRepository σ) : List Op → σ → List (Except PyError (Option Job))
  | [], _ => []
  | op :: ops, s => (exec R op s).map Prod.fst :: results R ops (after R op s)

namespace SqlRow

def value (name : String) (row : SqlRow) : SqlValue := (Dict.lookup name row).getD .null

def assign (columns : List (String × SqlValue)) (row : SqlRow) : SqlRow :=
  row.map fun p => (p.1, (Dict.lookup p.1 columns).getD p.2)

theorem lookup_assign {columns : List (String × SqlValue)} {name : String} (h : Dict.lookup name columns = none)
    (row : SqlRow) : Dict.lookup name (row.assign columns) = Dict.lookup name row := by
  induction row with
  | nil => rfl
  | cons p row ih =>
      rw [assign, List.map_cons, Dict.lookup, Dict.lookup]
      by_cases hp : p.1 = name
      · rw [if_pos hp, if_pos hp, hp, h, Option.getD_none]
      · rw [if_neg hp, if_neg hp]
        exact ih

theorem assign_keys {columns : List (String × SqlValue)} (hid : Dict.lookup "job_id" columns = none)
    (hkey : Dict.lookup "idempotency_key" columns = none) (row : SqlRow) :
    (row.assign columns).primaryKey = row.primaryKey ∧ (row.assign columns).indexKey = row.indexKey := by
  constructor
  · rw [primaryKey, primaryKey, lookup_assign hid]
  · rw [indexKey, indexKey, lookup_assign hkey]

end SqlRow

def SqlValue.coalesce (v w : SqlValue) : SqlValue := if v = .null then w else v

namespace Columns

def update (vs : List SqlValue) (T : RowTable) : Except PyError RowTable :=
  let row : SqlRow := insertColumns.zip vs
  -- The id is the last parameter.
  if !vs.all binds then .error (bindError (vs.drop 1 ++ vs.take 1))
  else if (T.find row.primaryKey).isSome && notNull.any fun c => Dict.lookup c row = some .null then
    .error .integrityError
  else
    match T.replace row with
    | some T' => .ok T'
    | none => .error .integrityError

def transitionRow (timestamp : Instant) (jobId : SqlValue) (expected newState : JobState) (row : SqlRow) : SqlRow :=
  if jobId ≠ .null ∧ row.primaryKey = jobId ∧ row.value "state" = .text expected.value then
    row.assign [("state", .text newState.value), ("updated_at", .text timestamp.isoformat),
      ("started_at", (row.value "started_at").coalesce
        (if newState = .running then .text timestamp.isoformat else .null)),
      ("finished_at", if newState.isTerminal then .text timestamp.isoformat else row.value "finished_at")]
  else row

theorem transitionRow_keys (t : Instant) (j : SqlValue) (e n : JobState) (row : SqlRow) :
    (transitionRow t j e n row).primaryKey = row.primaryKey ∧ (transitionRow t j e n row).indexKey = row.indexKey := by
  rw [transitionRow]
  split
  · exact SqlRow.assign_keys rfl rfl row
  · exact ⟨rfl, rfl⟩

def completeRow (timestamp : Instant) (jobId : SqlValue) (newState : JobState)
    (exitCode stdout stderr error : SqlValue) (row : SqlRow) : SqlRow :=
  if jobId ≠ .null ∧ row.primaryKey = jobId ∧ row.value "state" = .text JobState.running.value then
    row.assign [("state", .text newState.value), ("exit_code", exitCode), ("stdout", stdout), ("stderr", stderr),
      ("error", error), ("updated_at", .text timestamp.isoformat), ("finished_at", .text timestamp.isoformat)]
  else row

theorem completeRow_keys (t : Instant) (j : SqlValue) (n : JobState) (x o e err : SqlValue) (row : SqlRow) :
    (completeRow t j n x o e err row).primaryKey = row.primaryKey ∧
      (completeRow t j n x o e err row).indexKey = row.indexKey := by
  rw [completeRow]
  split
  · exact SqlRow.assign_keys rfl rfl row
  · exact ⟨rfl, rfl⟩

section Interpreter

/-! `json.dumps` has room for `room` containers in each other, and `json.loads` for `depth`. -/

variable (it : Interpreter) (room depth : Nat)

def save (t : Instant) (job : JobRecord) (T : RowTable) : Except StoreError (JobRecord × RowTable) := do
  let job := { job with updatedAt := .text t.isoformat }
  let command ← (job.command.dumps it room).mapError .dumps
  let metadata ← (job.metadata.dumps it room).mapError .dumps
  let T' ← (update (values job command metadata) T).mapError .sqlite
  return (job, T')

/-- What the method returns or raises, and the table that it leaves: the statement is committed before the row
is read. -/
def transitionIf (timestamp : Instant) (jobId : SqlValue) (expected newState : JobState) (T : RowTable) :
    Except StoreError (Option JobRecord) × RowTable :=
  let T' := T.modify (transitionRow timestamp jobId expected newState)
    (fun row => (transitionRow_keys timestamp jobId expected newState row).1)
    (fun row => (transitionRow_keys timestamp jobId expected newState row).2)
  (get it depth jobId T', T')

/-- The output goes to columns that are not null. -/
def completeIfRunning (timestamp : Instant) (jobId : SqlValue) (newState : JobState)
    (exitCode stdout stderr error : SqlValue) (T : RowTable) : Except StoreError (Option JobRecord) × RowTable :=
  let runs (row : SqlRow) : Bool := row.primaryKey = jobId ∧ row.value "state" = .text JobState.running.value
  let T' := T.modify (completeRow timestamp jobId newState exitCode stdout stderr error)
    (fun row => (completeRow_keys timestamp jobId newState exitCode stdout stderr error row).1)
    (fun row => (completeRow_keys timestamp jobId newState exitCode stdout stderr error row).2)
  if !([exitCode, stdout, stderr, error].all binds) then
    (.error (.sqlite (bindError [exitCode, stdout, stderr, error])), T)
  else if (stdout = .null ∨ stderr = .null) ∧ T.rows.any runs then (.error (.sqlite .integrityError), T)
  else (get it depth jobId T', T')

def increment : SqlValue → Except StoreError SqlValue
  | .integer n => .ok (.integer (n + 1))
  | .real x => .ok (.real (x + 1))
  | .infinity negative => .ok (.infinity negative)
  | .null | .text _ | .surrogate _ => .error .typeError

def dispatchWithAttempt (t : Instant) (job : JobRecord) : Except StoreError JobRecord := do
  let attempts ← increment job.dispatchAttempts
  return { job with state := .dispatched, dispatchAttempts := attempts, updatedAt := .text t.isoformat }

def failStale (t : Instant) (error : PyStr) (job : JobRecord) : JobRecord :=
  { job with exitCode := .integer 1, error := ofStr error, state := .failed, finishedAt := .text t.isoformat }

def written (T : RowTable) : Except StoreError (JobRecord × RowTable) → Except StoreError (Option JobRecord) × RowTable
  | .error e => (.error e, T)
  | .ok (job, T') => (.ok (some job), T')

/-- What two of the operations of the service do: they read a record, and save it changed unless it is to
be left alone. -/
def readSave (t : Instant) (leave : JobState → Bool) (change : JobRecord → Except StoreError JobRecord)
    (jobId : SqlValue) (T : RowTable) : Except StoreError (Option JobRecord) × RowTable :=
  match get it depth jobId T with
  | .error e => (.error e, T)
  | .ok none => (.ok none, T)
  | .ok (some job) =>
      if leave job.state then (.ok (some job), T)
      else written T ((change job).bind fun job => save it room t job T)

def markCancelled (t : Instant) (jobId : SqlValue) (T : RowTable) : Except StoreError (Option JobRecord) × RowTable :=
  match get it depth jobId T with
  | .error e => (.error e, T)
  | .ok none => (.ok none, T)
  | .ok (some job) =>
      if job.state.isTerminal then (.ok (some job), T)
      else transitionIf it depth t jobId job.state .cancelled T

def exec : Op → RowTable → Except StoreError (Option JobRecord) × RowTable
  | .submit j c t₁ t₂ req, T =>
      written T (add it room depth ((req.toJob j c t₁ t₂).record it) T)
  | .markDispatched t j, T => transitionIf it depth t (.text j) .pending .dispatched T
  | .markDispatchedWithAttempt t₁ t₂ j, T =>
      readSave it room depth t₂ (fun q => q ≠ .pending) (dispatchWithAttempt t₁) (.text j) T
  | .markRunning t j, T => transitionIf it depth t (.text j) .dispatched .running T
  | .markSucceeded t j x o e, T =>
      completeIfRunning it depth t (.text j) .succeeded (.integer x) (ofStr o) (ofStr e) .null T
  | .markFailed t j x o e err, T =>
      completeIfRunning it depth t (.text j) .failed (.integer x) (ofStr o) (ofStr e) (ofOptionStr err) T
  | .markTimedOut t j, T => transitionIf it depth t (.text j) .running .timedOut T
  | .markCancelled t j, T => markCancelled it depth t (.text j) T
  | .requeue t j, T => transitionIf it depth t (.text j) .dispatched .pending T
  | .failStaleDispatch t₁ t₂ j error, T =>
      readSave it room depth t₂ JobState.isTerminal (fun job => .ok (failStale t₁ error job)) (.text j) T

def textOf : SqlValue → String
  | .text s => s
  | _ => ""

def whereClause (agentId : Option String) (state : Option JobState) (row : SqlRow) : Bool :=
  let clauses := if truthy agentId then [decide (agentId.map SqlValue.text = some (row.value "agent_id"))] else []
  let clauses := if state.isSome then clauses ++ [decide (state.map (fun q => SqlValue.text q.value) =
    some (row.value "state"))] else clauses
  clauses.all id

def scanned (agentId : Option String) (rows : List SqlRow) : List SqlRow :=
  if truthy agentId then sorted (fun row => textOf (row.value "state")) rows else rows

/-- `list`: `created_at` is declared as text that is never null. -/
def list (agentId : Option String) (state : Option JobState) (T : RowTable) : Except StoreError (List JobRecord) :=
  (sortedReverse (fun row => textOf (row.value "created_at"))
    (scanned agentId (T.rows.filter (whereClause agentId state)))).mapM (rowToJob it depth)

def serve : List Op → RowTable → List (Except StoreError (Option JobRecord)) × RowTable
  | [], T => ([], T)
  | op :: ops, T =>
      ((exec it room depth op T).1 :: (serve ops (exec it room depth op T).2).1,
        (serve ops (exec it room depth op T).2).2)

end Interpreter

section Refinement

variable {it : Interpreter} {room depth : Nat} {job : Job} {T : JobTable}

theorem runs_iff {j : String} {q : JobState} :
    (SqlValue.text j ≠ .null ∧ (toRow it (job.record it)).primaryKey = .text j ∧
      SqlRow.value "state" (toRow it (job.record it)) = .text q.value) ↔ job.jobId = j ∧ job.state = q := by
  have hkey : (toRow it (job.record it)).primaryKey = .text job.jobId := rfl
  have hstate : SqlRow.value "state" (toRow it (job.record it)) = .text job.state.value := rfl
  rw [hkey, hstate]
  constructor
  · rintro ⟨-, hj, hq⟩
    exact ⟨SqlValue.text.inj hj, JobState.value_injective (SqlValue.text.inj hq)⟩
  · rintro ⟨rfl, rfl⟩
    exact ⟨by rintro ⟨⟩, rfl, rfl⟩

theorem transitionRow_toRow (t : Instant) (j : String) (e n : JobState) (job : Job) :
    transitionRow t (.text j) e n (toRow it (job.record it)) =
      toRow it ((SQLiteJobRepository.transitionRow t j e n job).record it) := by
  rw [transitionRow, SQLiteJobRepository.transitionRow]
  by_cases h : job.jobId = j ∧ job.state = e
  · rw [if_pos (runs_iff.mpr h), if_pos h]
    have hstarted : (SqlRow.value "started_at" (toRow it (job.record it))).coalesce
        (if n = .running then .text t.isoformat else .null) =
        .ofOption ((job.startedAt.or (if n = .running then some t else none)).map Instant.isoformat) := by
      change (SqlValue.ofOption (job.startedAt.map Instant.isoformat)).coalesce _ = _
      cases job.startedAt with
      | none =>
          change (if n = .running then SqlValue.text t.isoformat else .null) = _
          split <;> rfl
      | some u => rfl
    have hfinished : (if n.isTerminal then .text t.isoformat
        else SqlRow.value "finished_at" (toRow it (job.record it))) =
        SqlValue.ofOption ((if n.isTerminal then some t else job.finishedAt).map Instant.isoformat) := by
      split <;> rfl
    rw [hstarted, hfinished]
    rfl
  · rw [if_neg (mt runs_iff.mp h), if_neg h]

theorem completeRow_toRow (t : Instant) (j : String) (n : JobState) (x : Int) (o e : PyStr) (err : Option PyStr)
    (job : Job) :
    completeRow t (.text j) n (.integer x) (ofStr o) (ofStr e) (ofOptionStr err) (toRow it (job.record it)) =
      toRow it ((SQLiteJobRepository.completeRow t j n x o e err job).record it) := by
  rw [completeRow, SQLiteJobRepository.completeRow]
  by_cases h : job.jobId = j ∧ job.state = .running
  · rw [if_pos (runs_iff.mpr h), if_pos h]
    rfl
  · rw [if_neg (mt runs_iff.mp h), if_neg h]

/-- Every row can be read, and every job of the table can be written as a row. -/
def Readable (it : Interpreter) (room depth : Nat) (T : JobTable) : Prop :=
  ∀ row ∈ T.rows, row.Encodes it room depth ∧ row.bindable = true

/-- What an operation on the jobs returns, in texts and numbers. -/
def answer (it : Interpreter) : Except PyError (Option Job) → Except StoreError (Option JobRecord)
  | .ok r => .ok (r.map (Job.record it))
  | .error e => .error (.sqlite e)

def encode (it : Interpreter) (T : JobTable) :
    Except PyError (Option Job × JobTable) → Except StoreError (Option JobRecord) × RowTable
  | .ok (r, T') => (.ok (r.map (Job.record it)), (coding it).table T')
  | .error e => (.error (.sqlite e), (coding it).table T)

theorem encodes_of_metadata {job' : Job} (h : job.Encodes it room depth) (hm : job'.metadata = job.metadata) :
    job'.Encodes it room depth :=
  ⟨by rw [hm]; exact h.metadata, by rw [hm]; exact h.fits, by rw [hm]; exact h.reads⟩

theorem readable_modify (hT : Readable it room depth T) {T' : JobTable} {f : Job → Job} (hrows : T'.rows = T.rows.map f)
    (hm : ∀ r, (f r).metadata = r.metadata) (hb : ∀ r, r.bindable = true → (f r).bindable = true) :
    Readable it room depth T' := by
  intro row hrow
  rw [hrows] at hrow
  obtain ⟨r, hr, rfl⟩ := List.mem_map.mp hrow
  obtain ⟨henc, hbind⟩ := hT r hr
  exact ⟨encodes_of_metadata henc (hm r), hb r hbind⟩

theorem transitionIf_refines (hT : Readable it room depth T) (t : Instant) (j : String) (e n : JobState) :
    transitionIf it depth t (.text j) e n ((coding it).table T) =
      encode it T (.ok (SQLiteJobRepository.transitionIf t j e n T)) := by
  have hmodify := (coding it).modify_table T (fun row => (SQLiteJobRepository.transitionRow_keys t j e n row).1)
    (fun row => (SQLiteJobRepository.transitionRow_keys t j e n row).2)
    (fun row => (transitionRow_keys t (.text j) e n row).1) (fun row => (transitionRow_keys t (.text j) e n row).2)
    (transitionRow_toRow t j e n)
  have hread : Readable it room depth (SQLiteJobRepository.transitionIf t j e n T).2 := by
    refine readable_modify hT rfl (fun r => ?_) fun r hr => ?_
    · rw [SQLiteJobRepository.transitionRow]
      split <;> rfl
    · rw [SQLiteJobRepository.transitionRow]
      split <;> exact hr
  rw [transitionIf, hmodify]
  exact Prod.ext (get_refines hread j) rfl

theorem ofStr_ne_null (s : PyStr) : ofStr s ≠ .null := by cases s <;> rintro ⟨⟩

theorem ofStr_ne_integer (s : PyStr) (n : Int) : ofStr s ≠ .integer n := by cases s <;> rintro ⟨⟩

theorem ofOptionStr_ne_integer (s : Option PyStr) (n : Int) : ofOptionStr s ≠ .integer n := by
  cases s with
  | none => rintro ⟨⟩
  | some s => exact ofStr_ne_integer s n

theorem bindError_of_integers {vs : List SqlValue} (h : vs.all binds = false)
    (hint : ∀ n, .integer n ∈ vs → int64 n = true) : bindError vs = .unicodeEncodeError := by
  obtain ⟨v, hv, hb⟩ := List.all_eq_false.mp h
  obtain ⟨w, hw⟩ := Option.isSome_iff_exists.mp
    (List.find?_isSome.mpr (⟨v, hv, by simpa using hb⟩ : ∃ v ∈ vs, (!binds v) = true))
  have hmem := List.mem_of_find?_eq_some hw
  have hwb := List.find?_some hw
  rw [bindError, hw]
  cases w with
  | integer n =>
      have hn : binds (.integer n) = true := hint n hmem
      rw [hn] at hwb
      cases hwb
  | surrogate => rfl
  | null | real | infinity | text => cases hwb

/-- A value that can be bound may as well come last. -/
theorem bindError_concat {v : SqlValue} (h : binds v = true) (vs : List SqlValue) :
    bindError (vs ++ [v]) = bindError (v :: vs) := by
  simp only [bindError, List.find?_append, List.find?_cons, List.find?_nil, h, Bool.not_true, Option.or_none]

theorem all_binds_result (x : Int) (o e : PyStr) (err : Option PyStr) :
    [SqlValue.integer x, ofStr o, ofStr e, ofOptionStr err].all binds = bindableResult x o e err := by
  have hint : binds (.integer x) = int64 x := rfl
  simp only [List.all_cons, List.all_nil, hint, binds_ofStr, binds_ofOptionStr, bindableResult, encodable, Bool.and_true]
  ac_rfl

theorem bindError_result {x : Int} {o e : PyStr} {err : Option PyStr} (h : bindableResult x o e err = false) :
    bindError [.integer x, ofStr o, ofStr e, ofOptionStr err] =
      if int64 x then .unicodeEncodeError else .overflowError := by
  cases hx : int64 x with
  | false =>
      have hint : binds (.integer x) = false := hx
      simp only [bindError, List.find?_cons, hint, Bool.not_false, Bool.false_eq_true, if_false]
  | true =>
      refine bindError_of_integers ((all_binds_result x o e err).trans h) fun n hn => ?_
      simp only [List.mem_cons, List.not_mem_nil, or_false, SqlValue.integer.injEq] at hn
      rcases hn with rfl | hn | hn | hn
      · exact hx
      · exact absurd hn.symm (ofStr_ne_integer o n)
      · exact absurd hn.symm (ofStr_ne_integer e n)
      · exact absurd hn.symm (ofOptionStr_ne_integer err n)

theorem completeIfRunning_refines (hT : Readable it room depth T) (t : Instant) (j : String) (n : JobState) (x : Int)
    (o e : PyStr) (err : Option PyStr) :
    completeIfRunning it depth t (.text j) n (.integer x) (ofStr o) (ofStr e) (ofOptionStr err) ((coding it).table T) =
      encode it T (SQLiteJobRepository.completeIfRunning t j n x o e err T) := by
  rw [completeIfRunning, all_binds_result]
  cases hx : bindableResult x o e err with
  | false =>
      rw [SQLiteJobRepository.completeIfRunning, bindError_result hx]
      cases hi : int64 x with
      | false => rfl
      | true =>
          rw [bindableResult, hi, Bool.true_and] at hx
          rw [hx]
          rfl
  | true =>
      rw [SQLiteJobRepository.completeIfRunning_eq t j n x o e err T hx]
      have hmodify := (coding it).modify_table T
        (fun row => (SQLiteJobRepository.completeRow_keys t j n x o e err row).1)
        (fun row => (SQLiteJobRepository.completeRow_keys t j n x o e err row).2)
        (fun row => (completeRow_keys t (.text j) n (.integer x) (ofStr o) (ofStr e) (ofOptionStr err) row).1)
        (fun row => (completeRow_keys t (.text j) n (.integer x) (ofStr o) (ofStr e) (ofOptionStr err) row).2)
        (completeRow_toRow t j n x o e err)
      have hread : Readable it room depth (T.modify (SQLiteJobRepository.completeRow t j n x o e err)
          (fun row => (SQLiteJobRepository.completeRow_keys t j n x o e err row).1)
          (fun row => (SQLiteJobRepository.completeRow_keys t j n x o e err row).2)) := by
        refine readable_modify hT rfl (fun r => ?_) fun r hr => ?_
        · rw [SQLiteJobRepository.completeRow]
          split <;> rfl
        · rw [SQLiteJobRepository.completeRow]
          split
          · rw [bindableResult, Bool.and_eq_true] at hx
            simp only [Job.bindable, Job.integersFit, Bool.and_eq_true, Option.all_some] at hr ⊢
            exact ⟨⟨⟨hr.1.1.1, hx.1⟩, hr.1.2⟩, hx.2⟩
          · exact hr
      have hnull : ¬ (ofStr o = .null ∨ ofStr e = .null) := by
        rintro (h | h)
        · exact ofStr_ne_null o h
        · exact ofStr_ne_null e h
      simp only [hmodify, Bool.not_true, Bool.false_eq_true, if_false, hnull, false_and]
      exact Prod.ext (get_refines hread j) rfl

section Save

variable {r : JobRecord} {t : Instant}

theorem update_toRow (h : Stores it room r) (T : RowTable) :
    update (values r (String.ofList (r.command.text it)) (String.ofList (r.metadata.text it))) T =
      match T.replace (toRow it r) with
      | some T' => .ok T'
      | none => .error .integrityError := by
  have hbinds : (values r (String.ofList (r.command.text it)) (String.ofList (r.metadata.text it))).all binds = true :=
    h.binds
  have hnull : (notNull.any fun c => Dict.lookup c (toRow it r) = some .null) = false := by
    rw [List.any_eq_false]
    intro c hc
    simpa using h.notNull c hc
  rw [update, hbinds]
  change (if (_ && notNull.any fun c => Dict.lookup c (toRow it r) = some .null) = true then _ else _) = _
  rw [hnull, Bool.and_false]
  rfl

theorem save_eq (h : Stores it room { r with updatedAt := .text t.isoformat }) (T : RowTable) :
    save it room t r T =
      (T.replace (toRow it { r with updatedAt := .text t.isoformat })).elim (.error (.sqlite .integrityError))
        fun T' => .ok ({ r with updatedAt := .text t.isoformat }, T') := by
  have hcommand : r.command.dumps it room = .ok (String.ofList (r.command.text it)) := dumps_of_check h.command.2
  have hmetadata : r.metadata.dumps it room = .ok (String.ofList (r.metadata.text it)) := dumps_of_check h.metadata.2
  have hupdate := update_toRow h T
  dsimp only at hupdate
  rw [save, hcommand, hmetadata]
  change ((update _ T).mapError StoreError.sqlite).bind _ = _
  rw [hupdate]
  cases T.replace (toRow it { r with updatedAt := .text t.isoformat }) <;> rfl

theorem save_of_not_bound (hid : binds r.jobId = true) (hcommand : check it room r.command = .ok ())
    (hmeta : check it room r.metadata = .ok ())
    (hb : (values { r with updatedAt := .text t.isoformat } "" "").all binds = false) (T : RowTable) :
    save it room t r T =
      .error (.sqlite (bindError (values { r with updatedAt := .text t.isoformat } "" ""))) := by
  have hupdate : update (values { r with updatedAt := .text t.isoformat } (String.ofList (r.command.text it))
      (String.ofList (r.metadata.text it))) T =
      .error (bindError (values { r with updatedAt := .text t.isoformat } "" "")) := by
    have hb' : (values { r with updatedAt := .text t.isoformat } (String.ofList (r.command.text it))
        (String.ofList (r.metadata.text it))).all binds = false := hb
    rw [update, hb']
    refine congrArg Except.error ((bindError_concat hid _).trans ?_)
    exact bindError_values { r with updatedAt := .text t.isoformat } _ _
  rw [save, dumps_of_check hcommand, dumps_of_check hmeta]
  change ((update _ T).mapError StoreError.sqlite).bind _ = _
  rw [hupdate]
  rfl

end Save

theorem save_refines (hj : job.Encodes it room depth) (t : Instant) :
    save it room t (job.record it) ((coding it).table T) =
      match SQLiteJobRepository.save t job T with
      | .ok (r, T') => .ok (r.record it, (coding it).table T')
      | .error e => .error (.sqlite e) := by
  have hj' : { job with updatedAt := t }.Encodes it room depth := encodes_of_metadata hj rfl
  have hrecord : { job.record it with updatedAt := .text t.isoformat } = { job with updatedAt := t }.record it := rfl
  rw [SQLiteJobRepository.save]
  cases hb : { job with updatedAt := t }.bindable with
  | false =>
      obtain ⟨hcommand, hmeta⟩ := check_record hj
      rw [save_of_not_bound rfl hcommand hmeta ((all_binds_record { job with updatedAt := t }).trans hb)]
      rw [hrecord, bindError_record hb]
      rfl
  | true =>
      have hreplace : ((coding it).table T).replace (toRow it ({ job with updatedAt := t }.record it)) =
          (T.replace { job with updatedAt := t }).map (coding it).table := (coding it).replace_table T _
      rw [save_eq (stores_record hj' hb), hrecord, hreplace]
      cases T.replace { job with updatedAt := t } <;> rfl

theorem readSave_refines (hT : Readable it room depth T) {t : Instant} {q : JobState → Bool} {p : Job → Prop}
    [DecidablePred p] {f : JobRecord → Except StoreError JobRecord} {g : Job → Job}
    (hleave : ∀ job, p job ↔ q job.state = true)
    (hchange : ∀ job, f (job.record it) = .ok ((g job).record it))
    (hmeta : ∀ job, (g job).metadata = job.metadata) (j : String) :
    readSave it room depth t q f (.text j) ((coding it).table T) =
      encode it T (JobService.readSave sqliteJobRepository t p g j T) := by
  rw [readSave, get_refines hT j, JobService.readSave]
  cases hget : SQLiteJobRepository.get j T with
  | none =>
      have hget' : sqliteJobRepository.get j T = none := hget
      rw [hget']
      rfl
  | some job =>
      have hget' : sqliteJobRepository.get j T = some job := hget
      rw [hget']
      have henc : job.Encodes it room depth := (hT job (Table.find_mem hget).1).1
      change (if q job.state = true then _ else _) = encode it T (if p job then _ else _)
      by_cases hl : q job.state = true
      · rw [if_pos hl, if_pos ((hleave job).mpr hl)]
        rfl
      · rw [if_neg hl, if_neg (mt (hleave job).mp hl), hchange]
        have hsave := save_refines (T := T) (encodes_of_metadata henc (hmeta job)) t
        change written _ (save it room t ((g job).record it) ((coding it).table T)) =
          encode it T ((SQLiteJobRepository.save t (g job) T).map _)
        rw [hsave]
        cases SQLiteJobRepository.save t (g job) T <;> rfl

theorem markCancelled_refines (hT : Readable it room depth T) (t : Instant) (j : String) :
    markCancelled it depth t (.text j) ((coding it).table T) =
      encode it T (JobService.markCancelled sqliteJobRepository t j T) := by
  rw [markCancelled, get_refines hT j, JobService.markCancelled]
  cases hget : SQLiteJobRepository.get j T with
  | none =>
      have hget' : sqliteJobRepository.get j T = none := hget
      rw [hget']
      rfl
  | some job =>
      have hget' : sqliteJobRepository.get j T = some job := hget
      rw [hget']
      change (if job.state.isTerminal = true then _ else _) = encode it T (if job.state.isTerminal = true then _ else _)
      split
      · rfl
      · exact transitionIf_refines hT t j _ _

/-- An operation of the service does to the texts and numbers what it does to the jobs. -/
theorem exec_refines (hT : Readable it room depth T) {op : Op} (hop : ∀ b ∈ op.created, b.Encodes it room depth) :
    exec it room depth op ((coding it).table T) = encode it T (JobSystem.exec sqliteJobRepository op T) := by
  cases op with
  | submit j c t₁ t₂ req =>
      have hadd := add_refines hT (hop _ rfl)
      rw [exec, hadd]
      change _ = encode it T ((SQLiteJobRepository.add _ T).map _)
      cases SQLiteJobRepository.add (req.toJob j c t₁ t₂) T <;> rfl
  | markDispatched | markRunning | markTimedOut | requeue =>
      rw [exec]
      exact transitionIf_refines hT _ _ _ _
  | markSucceeded t j x o e =>
      rw [exec]
      exact completeIfRunning_refines hT t j _ x o e none
  | markFailed =>
      rw [exec]
      exact completeIfRunning_refines hT _ _ _ _ _ _ _
  | markDispatchedWithAttempt t₁ t₂ j =>
      have hchange : ∀ job : Job, dispatchWithAttempt t₁ (job.record it) =
          .ok (({ job with
            state := .dispatched, dispatchAttempts := job.dispatchAttempts + 1, updatedAt := t₁ } : Job).record it) :=
        fun _ => rfl
      have h := readSave_refines hT (t := t₂) (q := fun q => q ≠ .pending)
        (fun job => (decide_eq_true_iff (p := job.state ≠ .pending)).symm) hchange (fun _ => rfl) j
      rw [exec, h]
      rfl
  | failStaleDispatch t₁ t₂ j error =>
      have h := readSave_refines hT (t := t₂) (q := JobState.isTerminal)
        (p := fun job => job.state.isTerminal = true) (f := fun job => .ok (failStale t₁ error job))
        (g := fun job =>
          { job with exitCode := some 1, error := some error, state := .failed, finishedAt := some t₁ })
        (fun _ => Iff.rfl) (fun _ => rfl) (fun _ => rfl) j
      rw [exec, h]
      rfl
  | markCancelled t j =>
      rw [exec]
      exact markCancelled_refines hT t j

theorem readable_after (hT : Readable it room depth T) {op : Op} (hop : ∀ b ∈ op.created, b.Encodes it room depth) :
    Readable it room depth (after sqliteJobRepository op T) := by
  intro b hb
  have hbound := SQLiteJobRepository.bound_after op (fun row hrow => (hT row hrow).2)
  refine ⟨?_, hbound b hb⟩
  rcases SQLiteJobRepository.after_origin op T b.jobId b (Table.find_of_mem hb) with h | ⟨-, a, ha, rfl⟩ | ⟨h, -⟩
  · exact (hT b (Table.find_mem h).1).1
  · refine encodes_of_metadata (hT a (Table.find_mem ha).1).1 ?_
    obtain ⟨_, _, _, _, _, _, _, _, _, h⟩ := op.effect_eq a
    rw [h]
  · exact hop b h

theorem exec_table (hT : Readable it room depth T) {op : Op} (hop : ∀ b ∈ op.created, b.Encodes it room depth) :
    (exec it room depth op ((coding it).table T)).2 = (coding it).table (after sqliteJobRepository op T) := by
  rw [exec_refines hT hop, after]
  cases JobSystem.exec sqliteJobRepository op T <;> rfl

theorem whereClause_toRow (agentId : Option String) (state : Option JobState) (job : Job) :
    whereClause agentId state (toRow it (job.record it)) = SQLiteJobRepository.whereClause agentId state job := by
  have hagent : SqlRow.value "agent_id" (toRow it (job.record it)) = .text job.agentId := rfl
  have hstate : SqlRow.value "state" (toRow it (job.record it)) = .text job.state.value := rfl
  have hq : ∀ q : JobState,
      (some (SqlValue.text q.value) = some (.text job.state.value)) = (some q = some job.state) := by
    intro q
    simp only [Option.some.injEq, SqlValue.text.injEq, JobState.value_injective.eq_iff]
  rw [whereClause, SQLiteJobRepository.whereClause, hagent, hstate]
  cases agentId <;> cases state <;> simp [hq]

theorem mapM_map_ok {α β γ ε : Type} {f : β → Except ε γ} {h : α → β} {g : α → γ} {xs : List α}
    (hf : ∀ x ∈ xs, f (h x) = .ok (g x)) : (xs.map h).mapM f = .ok (xs.map g) := by
  induction xs with
  | nil => rfl
  | cons x xs ih =>
      rw [List.map_cons, List.mapM_cons, hf x (by simp), ih fun y hy => hf y (List.mem_cons_of_mem _ hy)]
      rfl

theorem scanned_map (agentId : Option String) (jobs : List Job) :
    scanned agentId (jobs.map fun job => toRow it (job.record it)) =
      (SQLiteJobRepository.scanned agentId jobs).map fun job => toRow it (job.record it) := by
  have hkey : (fun job : Job => textOf (SqlRow.value "state" (toRow it (job.record it)))) =
      fun job => job.state.value := rfl
  rw [scanned, SQLiteJobRepository.scanned]
  split
  · rw [sorted_map, hkey]
  · rfl

/-- The query of `list` reads in the rows the jobs that it would find in the table of jobs. -/
theorem list_refines (hT : Readable it room depth T) (agentId : Option String) (state : Option JobState) :
    list it depth agentId state ((coding it).table T) =
      .ok ((SQLiteJobRepository.list agentId state T).map (Job.record it)) := by
  have hwhere : (whereClause agentId state ∘ fun job : Job => toRow it (job.record it)) =
      SQLiteJobRepository.whereClause agentId state :=
    funext fun job => whereClause_toRow agentId state job
  have hkey : (fun job : Job => textOf (SqlRow.value "created_at" (toRow it (job.record it)))) =
      fun job => job.createdAt.isoformat := rfl
  have hrows : sortedReverse (fun row => textOf (SqlRow.value "created_at" row))
      (scanned agentId (((coding it).table T).rows.filter (whereClause agentId state))) =
      (SQLiteJobRepository.list agentId state T).map fun job => toRow it (job.record it) := by
    change sortedReverse _ (scanned _ ((T.rows.map fun job => toRow it (job.record it)).filter _)) = _
    rw [List.filter_map, hwhere, scanned_map, sortedReverse_map, hkey, SQLiteJobRepository.list]
  have hread : ∀ job ∈ SQLiteJobRepository.list agentId state T,
      rowToJob it depth (toRow it (job.record it)) = .ok (job.record it) := by
    intro job hjob
    have hrow : job ∈ T.rows :=
      (List.mem_filter.mp ((SQLiteJobRepository.list_perm agentId state T).mem_iff.mp hjob)).1
    obtain ⟨henc, hbind⟩ := hT job hrow
    exact rowToJob_toRow (stores_record henc hbind) (reads_record henc)
  rw [list, hrows, mapM_map_ok hread]

/-- The repository of texts and numbers and that of jobs, next to each other: the same operations return the
same, and what is read from the one is what is read from the other. -/
structure Agrees (it : Interpreter) (room depth : Nat) (ops : List Op) (U : RowTable) (T : JobTable) : Prop where
  returns : (serve it room depth ops U).1 = (results sqliteJobRepository ops T).map (answer it)
  gets : ∀ j, get it depth (.text j) (serve it room depth ops U).2 =
    .ok ((SQLiteJobRepository.get j (run sqliteJobRepository ops T)).map (Job.record it))
  lists : ∀ agentId state, ∃ jobs, list it depth agentId state (serve it room depth ops U).2 =
    .ok (jobs.map (Job.record it)) ∧ Ledger.Lists agentId state (run sqliteJobRepository ops T).rows jobs

theorem serve_table {ops : List Op} (hT : Readable it room depth T)
    (hops : ∀ op ∈ ops, ∀ b ∈ op.created, b.Encodes it room depth) :
    (serve it room depth ops ((coding it).table T)).2 = (coding it).table (run sqliteJobRepository ops T) ∧
      Readable it room depth (run sqliteJobRepository ops T) := by
  induction ops generalizing T with
  | nil => exact ⟨rfl, hT⟩
  | cons op ops ih =>
      have hop := hops op (by simp)
      rw [serve, exec_table hT hop]
      exact ih (readable_after hT hop) fun op hmem => hops op (List.mem_cons_of_mem _ hmem)

theorem serve_results {ops : List Op} (hT : Readable it room depth T)
    (hops : ∀ op ∈ ops, ∀ b ∈ op.created, b.Encodes it room depth) :
    (serve it room depth ops ((coding it).table T)).1 = (results sqliteJobRepository ops T).map (answer it) := by
  induction ops generalizing T with
  | nil => rfl
  | cons op ops ih =>
      have hop := hops op (by simp)
      rw [serve, exec_table hT hop, results, List.map_cons, exec_refines hT hop,
        ih (readable_after hT hop) fun op hmem => hops op (List.mem_cons_of_mem _ hmem)]
      cases JobSystem.exec sqliteJobRepository op T <;> rfl

/-- From an empty database on, the rows answer for the jobs. -/
theorem agrees (it : Interpreter) (room depth : Nat) (ops : List Op)
    (hops : ∀ op ∈ ops, ∀ b ∈ op.created, b.Encodes it room depth) : Agrees it room depth ops .empty .empty := by
  have hT : Readable it room depth .empty := by rintro row ⟨⟩
  have hempty : (coding it).table (.empty : JobTable) = .empty := rfl
  obtain ⟨htable, hread⟩ := serve_table hT hops
  rw [hempty] at htable
  refine ⟨serve_results hT hops, fun j => ?_, fun agentId state => ?_⟩
  · rw [htable, get_refines hread]
  · refine ⟨_, ?_, sqliteJobRepository_refines.list⟩
    rw [htable, list_refines hread]
    rfl

theorem encodes_alpine (jobId : String) : ∀ b ∈ (submitAlpine jobId).created, b.Encodes .default 100 99 := by
  rintro b ⟨⟩
  refine ⟨?_, rfl, ?_⟩
  · change (JsonDoc.obj []).WellFormed .default
    rw [WellFormed, WellFormedFields]
    exact ⟨List.nodup_nil, trivial⟩
  · change (JsonDoc.obj []).nesting ≤ 99
    decide

/-- A job that times out, and a cancellation that finds it so. -/
theorem agrees_timedOut : Agrees .default 100 99 (timedOutRun "job_1") .empty .empty := by
  refine agrees .default 100 99 (timedOutRun "job_1") fun op hop b hb => ?_
  rw [timedOutRun] at hop
  simp only [List.mem_cons, List.not_mem_nil, or_false] at hop
  rcases hop with rfl | rfl | rfl | rfl | rfl
  · exact encodes_alpine "job_1" b hb
  all_goals cases hb

end Refinement

end Columns

end JobSystem
