import JobSystem.Lib.RoundTrip
import JobSystem.Repository.SQLite

namespace JobSystem

open Lib JsonDoc

abbrev SqlRow := List (String × SqlValue)

namespace SqlRow

def primaryKey (row : SqlRow) : SqlValue := (Dict.lookup "job_id" row).getD .null

/-- `CREATE UNIQUE INDEX ... ON jobs (idempotency_key) WHERE idempotency_key IS NOT NULL` -/
def indexKey (row : SqlRow) : Option SqlValue :=
  match Dict.lookup "idempotency_key" row with
  | none | some .null => none
  | some v => some v

end SqlRow

abbrev RowTable := Table SqlRow SqlValue SqlValue SqlRow.primaryKey SqlRow.indexKey

/-- The fields of a `Job`. Those that go to a column as they are hold what can be bound. -/
structure JobRecord where
  jobId : SqlValue
  agentId : SqlValue
  image : SqlValue
  command : JsonDoc
  timeoutMs : SqlValue
  metadata : JsonDoc
  idempotencyKey : SqlValue
  priority : SqlValue
  correlationId : SqlValue
  state : JobState
  createdAt : SqlValue
  updatedAt : SqlValue
  startedAt : SqlValue
  finishedAt : SqlValue
  dispatchAttempts : SqlValue
  exitCode : SqlValue
  error : SqlValue
  stdout : SqlValue
  stderr : SqlValue

inductive StoreError
  | sqlite (e : PyError)
  | dumps (e : DumpsError)
  | loads (e : LoadsError)
  | indexError
  | typeError
  | valueError
  deriving DecidableEq

namespace Columns

def insertColumns : List String :=
  ["job_id", "agent_id", "image", "command_json", "timeout_ms", "idempotency_key", "priority", "metadata_json",
    "state", "exit_code", "error", "stdout", "stderr", "created_at", "updated_at", "started_at", "finished_at",
    "correlation_id", "dispatch_attempts"]

def notNull : List String :=
  ["agent_id", "image", "command_json", "timeout_ms", "metadata_json", "state", "stdout", "stderr", "created_at",
    "updated_at", "correlation_id", "dispatch_attempts", "priority"]

def values (job : JobRecord) (command metadata : String) : List SqlValue :=
  [job.jobId, job.agentId, job.image, .text command, job.timeoutMs, job.idempotencyKey, job.priority,
    .text metadata, .text job.state.value, job.exitCode, job.error, job.stdout, job.stderr, job.createdAt,
    job.updatedAt, job.startedAt, job.finishedAt, job.correlationId, job.dispatchAttempts]

/-- Binding rejects an integer that has not 64 bits, and a text that has no encoding. -/
def binds : SqlValue → Bool
  | .integer n => int64 n
  | .surrogate _ => false
  | _ => true

def bindError (vs : List SqlValue) : PyError :=
  match vs.find? fun v => !binds v with
  | some (.surrogate _) => .unicodeEncodeError
  | _ => .overflowError

def insert (vs : List SqlValue) (T : RowTable) : Except PyError RowTable :=
  if !vs.all binds then .error (bindError vs)
  else if notNull.any fun c => Dict.lookup c (insertColumns.zip vs) = some .null then .error .integrityError
  else
    match T.insert (insertColumns.zip vs) with
    | some T' => .ok T'
    | none => .error .integrityError

section Interpreter

/-! `json.dumps` has room for `room` containers in each other, and `json.loads` for `depth`. -/

variable (it : Interpreter) (room depth : Nat)

def state : SqlValue → Except StoreError JobState
  | .text s =>
      match JobState.ofValue s with
      | some q => .ok q
      | none => .error .valueError
  | _ => .error .valueError

def column (name : String) (row : SqlRow) : Except StoreError SqlValue :=
  match Dict.lookup name row with
  | some v => .ok v
  | none => .error .indexError

def jsonColumn (name : String) (row : SqlRow) : Except StoreError JsonDoc := do
  match ← column name row with
  | .text s => (loads it depth (codes s.toList)).mapError .loads
  | _ => .error .typeError

def rowToJob (row : SqlRow) : Except StoreError JobRecord := do
  let jobId ← column "job_id" row
  let agentId ← column "agent_id" row
  let image ← column "image" row
  let command ← jsonColumn it depth "command_json" row
  let timeoutMs ← column "timeout_ms" row
  let idempotencyKey ← column "idempotency_key" row
  let priority ← column "priority" row
  let metadata ← jsonColumn it depth "metadata_json" row
  let jobState ← state (← column "state" row)
  let exitCode ← column "exit_code" row
  let error ← column "error" row
  let stdout ← column "stdout" row
  let stderr ← column "stderr" row
  let createdAt ← column "created_at" row
  let updatedAt ← column "updated_at" row
  let startedAt ← column "started_at" row
  let finishedAt ← column "finished_at" row
  let correlationId ← column "correlation_id" row
  let dispatchAttempts ← column "dispatch_attempts" row
  return {
    jobId := jobId
    agentId := agentId
    image := image
    command := command
    timeoutMs := timeoutMs
    metadata := metadata
    idempotencyKey := idempotencyKey
    priority := priority
    correlationId := correlationId
    state := jobState
    createdAt := createdAt
    updatedAt := updatedAt
    startedAt := startedAt
    finishedAt := finishedAt
    dispatchAttempts := dispatchAttempts
    exitCode := exitCode
    error := error
    stdout := stdout
    stderr := stderr }

def add (job : JobRecord) (T : RowTable) : Except StoreError (JobRecord × RowTable) := do
  let command ← (job.command.dumps it room).mapError .dumps
  let metadata ← (job.metadata.dumps it room).mapError .dumps
  match insert (values job command metadata) T with
  | .ok T' => return (job, T')
  | .error .integrityError =>
      if job.idempotencyKey = .null then .error (.sqlite .integrityError)
      else
        match T.findIndex job.idempotencyKey with
        | none => .error (.sqlite .integrityError)
        | some row => do
            let job ← rowToJob it depth row
            return (job, T)
  | .error e => .error (.sqlite e)

def get (jobId : SqlValue) (T : RowTable) : Except StoreError (Option JobRecord) :=
  match T.find jobId with
  | none => .ok none
  | some row => (rowToJob it depth row).map some

end Interpreter

end Columns

/-- A `POST /jobs` body that `SubmitJobRequest` validates. The metadata is any JSON object. -/
structure JobSubmission (it : Interpreter) where
  agentId : String
  image : String
  command : List String
  timeoutMs : Int
  idempotencyKey : Option String
  priority : Int
  metadata : List (List Nat × JsonDoc)
  agentId_ne : agentId ≠ ""
  image_ne : image ≠ ""
  command_ne : command ≠ []
  timeoutMs_pos : 0 < timeoutMs
  priority_mem : 0 ≤ priority ∧ priority ≤ 2
  metadata_wf : (JsonDoc.obj metadata).WellFormed it

def SqlValue.ofOption : Option String → SqlValue
  | none => .null
  | some s => .text s

def JobSubmission.toRecord {it : Interpreter} (req : JobSubmission it) (jobId correlationId : String)
    (createdAt updatedAt : Instant) : JobRecord where
  jobId := .text jobId
  agentId := .text req.agentId
  image := .text req.image
  command := .arr (req.command.map fun s => .str (codes s.toList))
  timeoutMs := .integer req.timeoutMs
  metadata := .obj req.metadata
  idempotencyKey := .ofOption req.idempotencyKey
  priority := .integer req.priority
  correlationId := .text correlationId
  state := .pending
  createdAt := .text createdAt.isoformat
  updatedAt := .text updatedAt.isoformat
  startedAt := .null
  finishedAt := .null
  dispatchAttempts := .integer 0
  exitCode := .null
  error := .null
  stdout := .text ""
  stderr := .text ""

namespace Columns

def submit {it : Interpreter} (room depth : Nat) (jobId correlationId : String) (createdAt updatedAt : Instant)
    (req : JobSubmission it) (T : RowTable) : Except StoreError (JobRecord × RowTable) :=
  add it room depth (req.toRecord jobId correlationId createdAt updatedAt) T

def toRow (it : Interpreter) (job : JobRecord) : SqlRow :=
  insertColumns.zip (values job (String.ofList (job.command.text it)) (String.ofList (job.metadata.text it)))

structure Stores (it : Interpreter) (room : Nat) (job : JobRecord) : Prop where
  command : job.command.WellFormed it ∧ check it room job.command = .ok ()
  metadata : job.metadata.WellFormed it ∧ check it room job.metadata = .ok ()
  binds : (values job "" "").all binds = true
  notNull : ∀ c ∈ notNull, Dict.lookup c (toRow it job) ≠ some .null

/-- A record whose JSON columns `json.loads` has room for. -/
structure Reads (depth : Nat) (job : JobRecord) : Prop where
  command : job.command.nesting ≤ depth
  metadata : job.metadata.nesting ≤ depth

def Written (it : Interpreter) (room : Nat) (T : RowTable) : Prop :=
  ∀ row ∈ T.rows, ∃ job, Stores it room job ∧ row = toRow it job

section Rows

variable {it : Interpreter} {room depth : Nat} {job : JobRecord}

theorem dumps_of_check {v : JsonDoc} (h : check it room v = .ok ()) :
    v.dumps it room = .ok (String.ofList (v.text it)) := by
  rw [dumps, h]
  rfl

theorem jsonColumn_eq {name : String} {row : SqlRow} {v : JsonDoc}
    (hrow : Dict.lookup name row = some (.text (String.ofList (v.text it)))) :
    jsonColumn it depth name row = (loads it depth (codes (v.text it))).mapError .loads := by
  rw [jsonColumn, column, hrow]
  change (loads it depth (codes (String.ofList (v.text it)).toList)).mapError StoreError.loads = _
  rw [String.toList_ofList]

theorem jsonColumn_text {name : String} {row : SqlRow} {v : JsonDoc}
    (hrow : Dict.lookup name row = some (.text (String.ofList (v.text it))))
    (hv : v.WellFormed it ∧ check it room v = .ok ()) (hn : v.nesting ≤ depth) :
    jsonColumn it depth name row = .ok v := by
  rw [jsonColumn_eq hrow, (loads_text_iff hv.1 hv.2).mpr hn]
  rfl

theorem nesting_of_jsonColumn {name : String} {row : SqlRow} {v w : JsonDoc}
    (hrow : Dict.lookup name row = some (.text (String.ofList (v.text it))))
    (hv : v.WellFormed it ∧ check it room v = .ok ()) (h : jsonColumn it depth name row = .ok w) :
    v.nesting ≤ depth := by
  rw [jsonColumn_eq hrow] at h
  cases hw : loads it depth (codes (v.text it)) with
  | error e =>
      rw [hw] at h
      cases h
  | ok u =>
      have hfull : loads it (max depth v.nesting) (codes (v.text it)) = .ok v :=
        (loads_text_iff hv.1 hv.2).mpr (le_max_right _ _)
      cases hfull.symm.trans (loads_mono (le_max_left depth v.nesting) hw)
      exact nesting_of_loads hw

theorem state_value (q : JobState) : state (.text q.value) = .ok q := by rw [state, JobState.ofValue_value]

theorem rowToJob_toRow (h : Stores it room job) (hr : Reads depth job) :
    rowToJob it depth (toRow it job) = .ok job := by
  have hcommand : jsonColumn it depth "command_json" (toRow it job) = .ok job.command :=
    jsonColumn_text rfl h.command hr.command
  have hmetadata : jsonColumn it depth "metadata_json" (toRow it job) = .ok job.metadata :=
    jsonColumn_text rfl h.metadata hr.metadata
  have hstate : (column "state" (toRow it job)).bind state = .ok job.state := state_value job.state
  rw [rowToJob, hcommand, hmetadata]
  change (do
    let jobState ← (column "state" (toRow it job)).bind state
    return { job with state := jobState }) = _
  rw [hstate]
  rfl

theorem reads_of_rowToJob (h : Stores it room job) {r : JobRecord} (hr : rowToJob it depth (toRow it job) = .ok r) :
    Reads depth job := by
  have hcommand : ∃ v, jsonColumn it depth "command_json" (toRow it job) = .ok v := by
    cases hc : jsonColumn it depth "command_json" (toRow it job) with
    | ok v => exact ⟨v, rfl⟩
    | error e => rw [rowToJob, hc] at hr; cases hr
  obtain ⟨v, hv⟩ := hcommand
  have hmetadata : ∃ w, jsonColumn it depth "metadata_json" (toRow it job) = .ok w := by
    cases hm : jsonColumn it depth "metadata_json" (toRow it job) with
    | ok w => exact ⟨w, rfl⟩
    | error e => rw [rowToJob, hv, hm] at hr; cases hr
  obtain ⟨w, hw⟩ := hmetadata
  exact ⟨nesting_of_jsonColumn rfl h.command hv, nesting_of_jsonColumn rfl h.metadata hw⟩

theorem toRow_indexKey (job : JobRecord) :
    (toRow it job).indexKey = if job.idempotencyKey = .null then none else some job.idempotencyKey := by
  change (match some job.idempotencyKey with
    | none | some .null => none
    | some v => some v) = _
  cases job.idempotencyKey <;> rfl

theorem insert_toRow (h : Stores it room job) (T : RowTable) :
    insert (values job (String.ofList (job.command.text it)) (String.ofList (job.metadata.text it))) T =
      match T.insert (toRow it job) with
      | some T' => .ok T'
      | none => .error .integrityError := by
  have hbinds :
      (values job (String.ofList (job.command.text it)) (String.ofList (job.metadata.text it))).all binds = true :=
    h.binds
  have hnull : (notNull.any fun c => Dict.lookup c (toRow it job) = some .null) = false := by
    rw [List.any_eq_false]
    intro c hc
    simpa using h.notNull c hc
  rw [insert, hbinds, Bool.not_true, if_neg Bool.false_ne_true]
  change (if (notNull.any fun c => Dict.lookup c (toRow it job) = some .null) = true then _ else _) = _
  rw [hnull, if_neg Bool.false_ne_true]
  rfl

/-- A record that the table can hold is inserted, unless a constraint forbids it. Then the row with its
idempotency key is returned, if there is one. -/
theorem add_eq (h : Stores it room job) (T : RowTable) :
    add it room depth job T =
      match T.insert (toRow it job) with
      | some T' => .ok (job, T')
      | none =>
          if job.idempotencyKey = .null then .error (.sqlite .integrityError)
          else
            match T.findIndex job.idempotencyKey with
            | none => .error (.sqlite .integrityError)
            | some row => (rowToJob it depth row).map fun job => (job, T) := by
  rw [add, dumps_of_check h.command.2, dumps_of_check h.metadata.2]
  change (match insert (values job (String.ofList (job.command.text it)) (String.ofList (job.metadata.text it))) T with
    | .ok T' => (.ok (job, T') : Except StoreError (JobRecord × RowTable))
    | .error .integrityError => _
    | .error e => _) = _
  rw [insert_toRow h]
  cases T.insert (toRow it job) <;> rfl

theorem map_eq_ok {ε α β : Type} {f : α → β} {x : Except ε α} {y : β} (h : x.map f = .ok y) :
    ∃ a, x = .ok a ∧ f a = y := by
  cases x with
  | error e => cases h
  | ok a => exact ⟨a, rfl, Except.ok.inj h⟩

theorem bindError_ne (vs : List SqlValue) : bindError vs ≠ .integrityError := by
  rw [bindError]
  split <;> rintro ⟨⟩

/-- The two JSON texts can always be bound. -/
theorem bindError_values (job : JobRecord) (command metadata : String) :
    bindError (values job command metadata) = bindError (values job "" "") := by
  rw [bindError, bindError]
  simp only [values, List.find?_cons, binds, Bool.not_true]

theorem add_of_not_bound (hcommand : check it room job.command = .ok ()) (hmeta : check it room job.metadata = .ok ())
    (hb : (values job "" "").all binds = false) (T : RowTable) :
    add it room depth job T = .error (.sqlite (bindError (values job "" ""))) := by
  have hins : insert (values job (String.ofList (job.command.text it)) (String.ofList (job.metadata.text it))) T =
      .error (bindError (values job "" "")) := by
    have hb' : (values job (String.ofList (job.command.text it)) (String.ofList (job.metadata.text it))).all binds =
        false := hb
    rw [insert, hb', bindError_values]
    rfl
  rw [add, dumps_of_check hcommand, dumps_of_check hmeta]
  change (match insert (values job (String.ofList (job.command.text it)) (String.ofList (job.metadata.text it))) T with
    | .ok T' => (.ok (job, T') : Except StoreError (JobRecord × RowTable))
    | .error .integrityError => _
    | .error e => .error (.sqlite e)) = _
  rw [hins]
  have hne := bindError_ne (values job "" "")
  cases he : bindError (values job "" "") with
  | integrityError => exact absurd he hne
  | overflowError | unicodeEncodeError => rfl

end Rows

section Submit

variable {it : Interpreter} {room depth : Nat} (req : JobSubmission it) (jobId correlationId : String)
  (createdAt updatedAt : Instant)

theorem command_wellFormed (command : List String) :
    (JsonDoc.arr (command.map fun s => .str (codes s.toList))).WellFormed it := by
  rw [WellFormed]
  induction command with
  | nil => rw [List.map_nil, WellFormedItems]; trivial
  | cons s command ih => rw [List.map_cons, WellFormedItems, WellFormed]; exact ⟨isText_codes _, ih⟩

theorem check_command (command : List String) :
    check it (room + 1) (JsonDoc.arr (command.map fun s => .str (codes s.toList))) = .ok () := by
  rw [check]
  induction command with
  | nil => rw [List.map_nil, checkItems]
  | cons s command ih =>
      have hs : check it room (.str (codes s.toList)) = .ok () := by simp [check]
      rw [List.map_cons, checkItems, hs, ih]
      rfl

theorem nesting_command (command : List String) :
    (JsonDoc.arr (command.map fun s => .str (codes s.toList))).nesting = 1 := by
  have hflat : nestingItems (command.map fun s => JsonDoc.str (codes s.toList)) = 0 := by
    induction command with
    | nil => rfl
    | cons s command ih =>
        rw [List.map_cons, nestingItems, ih]
        rfl
  rw [nesting, hflat]

/-- Of a validated request, the timeout and the metadata decide whether the table can hold the record. -/
theorem stores_toRecord (htimeout : req.timeoutMs ≤ 9223372036854775807)
    (hmeta : check it room (.obj req.metadata) = .ok ()) :
    Stores it room (req.toRecord jobId correlationId createdAt updatedAt) := by
  cases room with
  | zero => rw [check] at hmeta; cases hmeta
  | succ room =>
      refine ⟨⟨command_wellFormed req.command, check_command req.command⟩, ⟨req.metadata_wf, hmeta⟩, ?_, ?_⟩
      · obtain ⟨hlo, hhi⟩ := req.priority_mem
        have hpos := req.timeoutMs_pos
        cases hkey : req.idempotencyKey <;>
          simp [values, JobSubmission.toRecord, SqlValue.ofOption, binds, int64, hkey] <;> omega
      · intro c hc
        simp only [notNull, List.mem_cons, List.not_mem_nil, or_false] at hc
        rcases hc with rfl | rfl | rfl | rfl | rfl | rfl | rfl | rfl | rfl | rfl | rfl | rfl | rfl <;> nofun

/-- Submitting the request in store `T` gives a record that `get` returns, and that is the submitted one
unless its idempotency key was used before. `get` calls `json.loads` from further down than `add`. -/
def RoundTrips (room depth getDepth : Nat) (T : RowTable) : Prop :=
  ∃ job T', submit room depth jobId correlationId createdAt updatedAt req T = .ok (job, T') ∧
    get it getDepth job.jobId T' = .ok (some job) ∧
    (T.findIndex (.ofOption req.idempotencyKey) = none → job = req.toRecord jobId correlationId createdAt updatedAt)

theorem add_ok {job : JobRecord} {T : RowTable} {p : JobRecord × RowTable} (h : add it room depth job T = .ok p) :
    check it room job.metadata = .ok () ∧ (values job "" "").all binds = true := by
  have hcommand : check it room job.command = .ok () := by
    cases hc : check it room job.command with
    | ok u => rfl
    | error e => rw [add, dumps.eq_def _ _ job.command, hc] at h; cases h
  have hmeta : check it room job.metadata = .ok () := by
    cases hm : check it room job.metadata with
    | ok u => rfl
    | error e =>
        rw [add, dumps_of_check hcommand, dumps.eq_def _ _ job.metadata, hm] at h
        cases h
  refine ⟨hmeta, ?_⟩
  rw [← Bool.not_eq_false]
  intro hb
  rw [add_of_not_bound hcommand hmeta hb] at h
  cases h

theorem submit_ok {T : RowTable} {p : JobRecord × RowTable}
    (h : submit room depth jobId correlationId createdAt updatedAt req T = .ok p) :
    req.timeoutMs ≤ 9223372036854775807 ∧ check it room (.obj req.metadata) = .ok () := by
  obtain ⟨hmeta, hbinds⟩ := add_ok h
  have htimeout : int64 req.timeoutMs = true :=
    List.all_eq_true.mp hbinds (.integer req.timeoutMs) (by simp [values, JobSubmission.toRecord])
  rw [int64, Bool.and_eq_true, decide_eq_true_eq, decide_eq_true_eq] at htimeout
  exact ⟨htimeout.2, hmeta⟩

theorem exists_insert_toRecord {T : RowTable} (hnew : T.find (.text jobId) = none)
    (hkey : T.findIndex (.ofOption req.idempotencyKey) = none) :
    ∃ T', T.insert (toRow it (req.toRecord jobId correlationId createdAt updatedAt)) = some T' := by
  refine Table.exists_insert hnew fun i hi => ?_
  rw [toRow_indexKey] at hi
  split at hi
  · cases hi
  · cases hi
    exact hkey

theorem insert_toRecord_of_used {T : RowTable} (hT : Written it room T) {row : SqlRow}
    (hrow : T.findIndex (.ofOption req.idempotencyKey) = some row) :
    T.insert (toRow it (req.toRecord jobId correlationId createdAt updatedAt)) = none ∧
      SqlValue.ofOption req.idempotencyKey ≠ .null := by
  obtain ⟨hmem, hix⟩ := Table.findIndex_mem hrow
  have hne : SqlValue.ofOption req.idempotencyKey ≠ .null := by
    intro hnull
    obtain ⟨old, -, rfl⟩ := hT row hmem
    rw [hnull, toRow_indexKey] at hix
    split at hix
    · cases hix
    · next hn => exact hn (Option.some.inj hix)
  refine ⟨Table.insert_of_findIndex ?_ hrow, hne⟩
  rw [toRow_indexKey]
  exact if_neg hne

/-- A request whose key was not used before is stored, and read back where the stack has room. -/
theorem submit_new (depth : Nat) {T : RowTable} (hnew : T.find (.text jobId) = none)
    (hkey : T.findIndex (.ofOption req.idempotencyKey) = none)
    (h : Stores it room (req.toRecord jobId correlationId createdAt updatedAt)) :
    ∃ T', submit room depth jobId correlationId createdAt updatedAt req T =
        .ok (req.toRecord jobId correlationId createdAt updatedAt, T') ∧
      ∀ getDepth, get it getDepth (.text jobId) T' =
        (rowToJob it getDepth (toRow it (req.toRecord jobId correlationId createdAt updatedAt))).map some := by
  obtain ⟨T', hins⟩ := exists_insert_toRecord req jobId correlationId createdAt updatedAt hnew hkey
  refine ⟨T', ?_, fun getDepth => ?_⟩
  · rw [submit, add_eq h, hins]
  · rw [get, (Table.find_insert hins (.text jobId)).trans (if_pos rfl)]

/-- A request whose key was used before gives what `_row_to_job` makes of the row with that key. -/
theorem submit_used {T : RowTable} (hT : Written it room T) {row : SqlRow}
    (hrow : T.findIndex (.ofOption req.idempotencyKey) = some row)
    (h : Stores it room (req.toRecord jobId correlationId createdAt updatedAt)) :
    submit room depth jobId correlationId createdAt updatedAt req T =
      (rowToJob it depth row).map fun job => (job, T) := by
  obtain ⟨hins, hne⟩ := insert_toRecord_of_used req jobId correlationId createdAt updatedAt hT hrow
  rw [submit, add_eq h, hins]
  change (if SqlValue.ofOption req.idempotencyKey = .null then _ else
    match T.findIndex (.ofOption req.idempotencyKey) with
    | none => _
    | some row => _) = _
  rw [if_neg hne, hrow]

/-- The record that a request gets has room on the stack where it is read: its own, or the one that was stored
with its idempotency key. -/
def Reached (room depth getDepth : Nat) (T : RowTable) : Prop :=
  (T.findIndex (.ofOption req.idempotencyKey) = none → (JsonDoc.obj req.metadata).nesting ≤ getDepth) ∧
    ∀ old, Stores it room old → T.findIndex (.ofOption req.idempotencyKey) = some (toRow it old) →
      Reads depth old ∧ Reads getDepth old

theorem reads_toRecord {d : Nat} (h : (JsonDoc.obj req.metadata).nesting ≤ d) :
    Reads d (req.toRecord jobId correlationId createdAt updatedAt) := by
  refine ⟨?_, h⟩
  rw [nesting] at h
  exact (nesting_command req.command).trans_le (Nat.le_trans (Nat.le_add_left 1 _) h)

/-- In a store that the program has written, a validated request with a new id round-trips exactly if its
timeout has 64 bits, its metadata nests and counts within the limits of `json.dumps`, and the record that it gets
nests within those of `json.loads`. -/
theorem submit_round_trip_iff {getDepth : Nat} {T : RowTable} (hT : Written it room T)
    (hnew : T.find (.text jobId) = none) :
    RoundTrips req jobId correlationId createdAt updatedAt room depth getDepth T ↔
      req.timeoutMs ≤ 9223372036854775807 ∧ (JsonDoc.obj req.metadata).nesting ≤ room ∧
        (JsonDoc.obj req.metadata).digits ≤ it.maxDigits ∧ Reached req room depth getDepth T := by
  rw [← and_assoc (a := (JsonDoc.obj req.metadata).nesting ≤ room), ← check_eq_ok]
  constructor
  · rintro ⟨job, T', hsubmit, hget, -⟩
    obtain ⟨htimeout, hmeta⟩ := submit_ok req jobId correlationId createdAt updatedAt hsubmit
    have hstores := stores_toRecord req jobId correlationId createdAt updatedAt htimeout hmeta
    refine ⟨htimeout, hmeta, fun hkey => ?_, fun old hold hkey => ?_⟩
    · obtain ⟨T'', hnewsub, hread⟩ := submit_new req jobId correlationId createdAt updatedAt depth hnew hkey hstores
      cases hnewsub.symm.trans hsubmit
      obtain ⟨r, hr, -⟩ := map_eq_ok ((hread getDepth).symm.trans hget)
      exact (reads_of_rowToJob hstores hr).metadata
    · rw [submit_used req jobId correlationId createdAt updatedAt hT hkey hstores] at hsubmit
      obtain ⟨r, hr, -⟩ := map_eq_ok hsubmit
      have hreads := reads_of_rowToJob hold hr
      rw [rowToJob_toRow hold hreads] at hsubmit
      cases hsubmit
      have hfind : T.find job.jobId = some (toRow it job) := Table.find_of_mem (Table.findIndex_mem hkey).1
      rw [get, hfind] at hget
      obtain ⟨r', hr', -⟩ := map_eq_ok hget
      exact ⟨hreads, reads_of_rowToJob hold hr'⟩
  · rintro ⟨htimeout, hmeta, hnone, hsome⟩
    have hstores := stores_toRecord req jobId correlationId createdAt updatedAt htimeout hmeta
    cases hkey : T.findIndex (.ofOption req.idempotencyKey) with
    | none =>
        obtain ⟨T', hsubmit, hread⟩ := submit_new req jobId correlationId createdAt updatedAt depth hnew hkey hstores
        refine ⟨_, T', hsubmit, ?_, fun _ => rfl⟩
        change get it getDepth (.text jobId) T' = _
        rw [hread, rowToJob_toRow hstores (reads_toRecord req jobId correlationId createdAt updatedAt (hnone hkey))]
        rfl
    | some row =>
        obtain ⟨old, hold, rfl⟩ := hT row (Table.findIndex_mem hkey).1
        obtain ⟨hreads, hgets⟩ := hsome old hold hkey
        have hfind : T.find old.jobId = some (toRow it old) := Table.find_of_mem (Table.findIndex_mem hkey).1
        refine ⟨old, T, ?_, ?_, fun hnone => ?_⟩
        · rw [submit_used req jobId correlationId createdAt updatedAt hT hkey hstores, rowToJob_toRow hold hreads]
          rfl
        · rw [get, hfind]
          exact congrArg (Except.map some) (rowToJob_toRow hold hgets)
        · cases hkey.symm.trans hnone

end Submit

def plainSubmission (timeoutMs : Int) (h : 0 < timeoutMs) : JobSubmission .default where
  agentId := "agent-1"
  image := "busybox"
  command := ["echo", "a\nb"]
  timeoutMs := timeoutMs
  idempotencyKey := some "key-1"
  priority := 2
  metadata := [(codes ['k'], .arr [.int (-7), .float 3, .null, .str (codes ['\u00e9'])])]
  agentId_ne := by decide
  image_ne := by decide
  command_ne := by decide
  timeoutMs_pos := h
  priority_mem := by decide
  metadata_wf := by
    have hfloat : IsFloat .default 3 := ⟨Or.inl (by decide), rfl⟩
    simp only [WellFormed, WellFormedFields, WellFormedItems]
    exact ⟨by decide, ⟨isText_codes _, trivial, hfloat, trivial, isText_codes _, trivial⟩, trivial⟩

theorem written_empty (it : Interpreter) (room : Nat) : Written it room .empty := nofun

theorem submit_round_trip_plain :
    RoundTrips (plainSubmission 60000 (by decide)) "job_1" "c1" .epoch .epoch 100 99 98 .empty :=
  (submit_round_trip_iff (plainSubmission 60000 (by decide)) "job_1" "c1" .epoch .epoch (written_empty _ _) rfl).mpr
    ⟨by decide, by decide, by decide, fun _ => by decide, fun _ _ hkey => by cases hkey⟩

/-- The validator accepts a timeout that no column holds. -/
theorem submit_round_trip_false :
    ¬ RoundTrips (plainSubmission 9223372036854775808 (by decide)) "job_1" "c1" .epoch .epoch 100 99 98 .empty := by
  rintro ⟨job, T', hsubmit, -, -⟩
  exact absurd (add_ok hsubmit).2 (by decide)

end Columns

end JobSystem
