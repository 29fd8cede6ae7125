import JobSystem.Lib.RoundTrip
import JobSystem.Lib.Sorted
import JobSystem.Logs.Durable
import JobSystem.Repository.Columns

namespace JobSystem

open Lib JsonDoc

structure EventRow where
  id : Nat
  jobId : String
  eventType : String
  payload : String
  createdAt : String
  deriving DecidableEq

/-- The table `job_events`. `sequence` is the greatest id that was ever given. -/
structure EventTable where
  rows : List EventRow
  sequence : Nat
  ascending : rows.Pairwise fun row row' => row.id < row'.id
  numbered : ∀ row ∈ rows, row.id ≤ sequence

structure EventEntry where
  eventType : String
  payload : JsonDoc
  createdAt : String

namespace EventTable

def empty : EventTable := ⟨[], 0, .nil, by simp⟩

/-- An `INSERT` statement, which gives the row the next id. -/
def insert (jobId eventType payload createdAt : String) (T : EventTable) : EventTable where
  rows := T.rows ++ [⟨T.sequence + 1, jobId, eventType, payload, createdAt⟩]
  sequence := T.sequence + 1
  ascending := by
    refine List.pairwise_append.mpr ⟨T.ascending, List.pairwise_singleton _ _, fun row hrow row' hrow' => ?_⟩
    rw [List.mem_singleton.mp hrow']
    exact Nat.lt_succ_of_le (T.numbered row hrow)
  numbered := by
    intro row hrow
    rcases List.mem_append.mp hrow with h | h
    · exact Nat.le_succ_of_le (T.numbered row h)
    · rw [List.mem_singleton.mp h]

end EventTable

namespace SQLiteEventRepository

variable (it : Interpreter) (realText : Rat → String) (room depth : Nat)

def orEmpty (payload : JsonDoc) : JsonDoc := if payload.truthy then payload else .obj []

def append (t : Instant) (jobId : SqlValue) (eventType : String) (payload : JsonDoc) (T : EventTable) :
    Except StoreError EventTable := do
  let payload ← ((orEmpty payload).dumps it room).mapError .dumps
  if !Columns.binds jobId then .error (.sqlite (Columns.bindError [jobId]))
  else
    match SQLiteLogRepository.toText realText jobId with
    | none => .error (.sqlite .integrityError)
    | some jobId => .ok (T.insert jobId eventType payload t.isoformat)

def select (jobId : String) (T : EventTable) : List EventRow :=
  sorted EventRow.id (T.rows.filter fun row => row.jobId = jobId)

def read (row : EventRow) : Except LoadsError EventEntry := do
  let payload ← loads it depth (codes row.payload.toList)
  return ⟨row.eventType, payload, row.createdAt⟩

def listForJob (jobId : String) (T : EventTable) : Except LoadsError (List EventEntry) :=
  (select jobId T).mapM (read it depth)

structure Append where
  time : Instant
  jobId : SqlValue
  eventType : String
  payload : JsonDoc

def next (a : Append) (T : EventTable) : EventTable :=
  match append it realText room a.time a.jobId a.eventType a.payload T with
  | .ok T' => T'
  | .error _ => T

def run (as : List Append) (T : EventTable) : EventTable := as.foldl (fun T a => next it realText room a T) T

def Append.entry (a : Append) : EventEntry := ⟨a.eventType, orEmpty a.payload, a.time.isoformat⟩

/-- The call names this job by an id that can be bound, and its payload can be put in text. -/
def Append.appends (jobId : String) (a : Append) : Bool :=
  Columns.binds a.jobId = true ∧ SQLiteLogRepository.toText realText a.jobId = some jobId ∧
    check it room (orEmpty a.payload) = .ok ()

section Laws

variable {it : Interpreter} {realText : Rat → String} {room depth : Nat} {T : EventTable} {j : String}

theorem orEmpty_obj (fields : List (List Nat × JsonDoc)) : orEmpty (.obj fields) = .obj fields := by
  cases fields <;> rfl

theorem wellFormed_orEmpty {payload : JsonDoc} (h : payload.WellFormed it) : (orEmpty payload).WellFormed it := by
  rw [orEmpty]
  split
  · exact h
  · exact ⟨List.nodup_nil, trivial⟩

theorem select_eq (jobId : String) (T : EventTable) :
    select jobId T = T.rows.filter fun row => row.jobId = jobId := by
  have hsorted : (T.rows.filter fun row => row.jobId = jobId).Pairwise fun row row' => row.id ≤ row'.id :=
    (T.ascending.sublist List.filter_sublist).imp fun h => h.le
  exact hsorted.insertionSort_eq

theorem select_insert (jobId type payload time : String) (T : EventTable) :
    select j (T.insert jobId type payload time) =
      select j T ++ if jobId = j then [⟨T.sequence + 1, jobId, type, payload, time⟩] else [] := by
  rw [select_eq, select_eq, EventTable.insert, List.filter_append, List.filter_singleton]
  congr 1
  by_cases h : jobId = j <;> simp [h]

theorem listForJob_concat {row : EventRow} {entry : EventEntry} {entries : List EventEntry} {T' : EventTable}
    (hselect : select j T' = select j T ++ [row]) (hread : read it depth row = .ok entry)
    (h : listForJob it depth j T = .ok entries) : listForJob it depth j T' = .ok (entries ++ [entry]) := by
  rw [listForJob] at h
  rw [listForJob, hselect, List.mapM_append, h, List.mapM_cons, hread, List.mapM_nil]
  rfl

theorem append_eq (t : Instant) (jobId : SqlValue) (type : String) (payload : JsonDoc) (T : EventTable) :
    append it realText room t jobId type payload T =
      match check it room (orEmpty payload) with
      | .error e => .error (.dumps e)
      | .ok () =>
          if !Columns.binds jobId then .error (.sqlite (Columns.bindError [jobId]))
          else
            match SQLiteLogRepository.toText realText jobId with
            | none => .error (.sqlite .integrityError)
            | some jobId =>
                .ok (T.insert jobId type (String.ofList ((orEmpty payload).text it)) t.isoformat) := by
  rw [append, dumps]
  cases check it room (orEmpty payload) with
  | error e => rfl
  | ok u => rfl

/-- A call adds its entry to the list of its job, and nothing to any other list. -/
theorem listForJob_next (realText : Rat → String) (a : Append) (hwf : a.payload.WellFormed it) (hroom : room ≤ depth)
    {entries : List EventEntry} (h : listForJob it depth j T = .ok entries) :
    listForJob it depth j (next it realText room a T) =
      .ok (entries ++ if a.appends it realText room j then [a.entry] else []) := by
  rw [next, append_eq, Append.appends]
  cases hcheck : check it room (orEmpty a.payload) with
  | error e => simpa using h
  | ok u =>
    cases hbinds : Columns.binds a.jobId with
    | false => simpa using h
    | true =>
      cases hjob : SQLiteLogRepository.toText realText a.jobId with
      | none => simpa using h
      | some k =>
          dsimp only
          by_cases hk : k = j
          · subst k
            have hselect := select_insert (j := j) j a.eventType (String.ofList ((orEmpty a.payload).text it))
              a.time.isoformat T
            rw [if_pos rfl] at hselect
            have hload : loads it depth (codes (String.ofList ((orEmpty a.payload).text it)).toList) =
                .ok (orEmpty a.payload) := by
              have hdumps : (orEmpty a.payload).dumps it room = .ok (String.ofList ((orEmpty a.payload).text it)) := by
                rw [dumps, hcheck]
                rfl
              exact loads_dumps (wellFormed_orEmpty hwf) hdumps hroom
            have hread : read it depth ⟨T.sequence + 1, j, a.eventType,
                String.ofList ((orEmpty a.payload).text it), a.time.isoformat⟩ = .ok a.entry := by
              rw [read]
              dsimp only
              rw [hload]
              rfl
            simpa using listForJob_concat hselect hread h
          · have hselect := select_insert (j := j) k a.eventType (String.ofList ((orEmpty a.payload).text it))
              a.time.isoformat T
            rw [if_neg hk, List.append_nil] at hselect
            have hsame : listForJob it depth j (T.insert k a.eventType
                (String.ofList ((orEmpty a.payload).text it)) a.time.isoformat) = .ok entries := by
              rw [listForJob, hselect]
              exact h
            simpa [hk] using hsame

/-- Events of two jobs. The id of the third call has 65 bits, and the payload of the fourth is too deep for the
stack that is left. -/
def mixedAppends : List Append :=
  [⟨.epoch, .text "job_1", "ack", .arr []⟩,
    ⟨.epoch, .text "job_2", "started", .obj [(field "state", .str (field "RUNNING"))]⟩,
    ⟨.epoch, .integer 9223372036854775808, "ack", .obj []⟩,
    ⟨.epoch, .text "job_1", "reconciled", .obj [(field "status", .obj [])]⟩,
    ⟨.epoch, .text "job_1", "result", .obj [(field "exit_code", .int 0)]⟩]

theorem mixedAppends_wellFormed : ∀ a ∈ mixedAppends, a.payload.WellFormed .default := by
  have hcodes : ∀ s : String, IsText (field s) := fun s => isText_codes s.toList
  rw [mixedAppends]
  simp only [List.forall_mem_cons, List.not_mem_nil, false_implies, implies_true, and_true, WellFormed,
    WellFormedFields, WellFormedItems, hcodes]
  exact ⟨trivial, List.nodup_singleton _, List.nodup_nil, ⟨List.nodup_singleton _, trivial, List.nodup_nil⟩,
    List.nodup_singleton _⟩

end Laws

end SQLiteEventRepository

end JobSystem
