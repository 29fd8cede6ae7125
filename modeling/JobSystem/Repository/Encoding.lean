import JobSystem.Repository.Columns

namespace JobSystem

open Lib JsonDoc

namespace Columns

def ofOptionInt : Option Int → SqlValue
  | none => .null
  | some n => .integer n

def ofStr : PyStr → SqlValue
  | .text s => .text s
  | .surrogate points _ _ => .surrogate points

def ofOptionStr : Option PyStr → SqlValue
  | none => .null
  | some s => ofStr s

end Columns

def Job.record (it : Interpreter) (job : Job) : JobRecord where
  jobId := .text job.jobId
  agentId := .text job.agentId
  image := .text job.image
  command := .arr (job.command.map fun s => .str (codes s.toList))
  timeoutMs := .integer job.timeoutMs
  metadata := .obj (ofFields it job.metadata)
  idempotencyKey := .ofOption job.idempotencyKey
  priority := .integer job.priority
  correlationId := .text job.correlationId
  state := job.state
  createdAt := .text job.createdAt.isoformat
  updatedAt := .text job.updatedAt.isoformat
  startedAt := .ofOption (job.startedAt.map Instant.isoformat)
  finishedAt := .ofOption (job.finishedAt.map Instant.isoformat)
  dispatchAttempts := .integer job.dispatchAttempts
  exitCode := Columns.ofOptionInt job.exitCode
  error := Columns.ofOptionStr job.error
  stdout := Columns.ofStr job.stdout
  stderr := Columns.ofStr job.stderr

structure Job.Encodes (it : Interpreter) (room depth : Nat) (job : Job) : Prop where
  metadata : (JsonDoc.obj (ofFields it job.metadata)).WellFormed it
  fits : check it room (.obj (ofFields it job.metadata)) = .ok ()
  reads : (JsonDoc.obj (ofFields it job.metadata)).nesting ≤ depth

namespace Columns

/-- The rows as texts and numbers, for the rows as jobs. -/
def coding (it : Interpreter) : Table.Coding Job.jobId Job.idempotencyKey SqlRow.primaryKey SqlRow.indexKey where
  row job := toRow it (job.record it)
  key := .text
  index := .text
  key_injective _ _ h := SqlValue.text.inj h
  index_injective _ _ h := SqlValue.text.inj h
  key_row _ := rfl
  index_row job := by
    rw [toRow_indexKey]
    change (if SqlValue.ofOption job.idempotencyKey = .null then none
      else some (SqlValue.ofOption job.idempotencyKey)) = _
    cases job.idempotencyKey <;> rfl

section Refinement

variable {it : Interpreter} {room depth : Nat} {job : Job} {T : JobTable}

theorem binds_ofStr (s : PyStr) : binds (ofStr s) = s.encodes := by cases s <;> rfl

theorem binds_ofOptionStr (s : Option PyStr) : binds (ofOptionStr s) = s.all PyStr.encodes := by
  cases s with
  | none => rfl
  | some s => exact binds_ofStr s

theorem binds_ofOptionInt (n : Option Int) : binds (ofOptionInt n) = n.all int64 := by cases n <;> rfl

theorem binds_ofOption (s : Option String) : binds (.ofOption s) = true := by cases s <;> rfl

theorem all_binds_record (job : Job) : (values (job.record it) "" "").all binds = job.bindable := by
  have htext : ∀ s, binds (.text s) = true := fun _ => rfl
  have hint : ∀ n, binds (.integer n) = int64 n := fun _ => rfl
  simp only [values, Job.record, List.all_cons, List.all_nil, htext, hint, binds_ofOption, binds_ofOptionInt,
    binds_ofStr, binds_ofOptionStr, Job.bindable, Job.integersFit, encodable, Bool.true_and, Bool.and_true]
  ac_rfl

theorem bindError_record (h : job.bindable = false) : bindError (values (job.record it) "" "") = job.bindError := by
  have htext : ∀ s, binds (.text s) = true := fun _ => rfl
  have hint : ∀ n, binds (.integer n) = int64 n := fun _ => rfl
  have hstr : ∀ {s : PyStr}, s.encodes = false → ∃ points, ofStr s = .surrogate points := by
    rintro (s | ⟨points, _, _⟩) hs
    · cases hs
    · exact ⟨points, rfl⟩
  have hopt : ∀ {s : Option PyStr}, s.all PyStr.encodes = false → ∃ points, ofOptionStr s = .surrogate points := by
    rintro (- | s) hs
    · cases hs
    · exact hstr hs
  have hexit : job.exitCode.all int64 = false → ∃ n, ofOptionInt job.exitCode = .integer n := by
    intro hx
    cases hc : job.exitCode with
    | none => rw [hc] at hx; cases hx
    | some n => exact ⟨n, rfl⟩
  simp only [bindError, values, Job.record, List.find?_cons, htext, hint, binds_ofOption, binds_ofOptionInt, binds_ofStr,
    binds_ofOptionStr, Job.bindError, Bool.not_true]
  rw [Job.bindable, Job.integersFit, encodable] at h
  rw [encodable]
  cases ht : int64 job.timeoutMs with
  | false => rfl
  | true =>
      cases hp : int64 job.priority with
      | false => rfl
      | true =>
          cases hx : job.exitCode.all int64 with
          | false =>
              obtain ⟨n, hn⟩ := hexit hx
              rw [hn]
              rfl
          | true =>
              cases he : job.error.all PyStr.encodes with
              | false =>
                  obtain ⟨points, hpoints⟩ := hopt he
                  rw [hpoints]
                  simp
              | true =>
                  cases ho : job.stdout.encodes with
                  | false =>
                      obtain ⟨points, hpoints⟩ := hstr ho
                      rw [hpoints]
                      rfl
                  | true =>
                      cases hr : job.stderr.encodes with
                      | false =>
                          obtain ⟨points, hpoints⟩ := hstr hr
                          rw [hpoints]
                          rfl
                      | true =>
                          rw [ht, hp, hx, he, ho, hr] at h
                          have hattempts : int64 job.dispatchAttempts = false := by simpa using h
                          rw [hattempts]
                          rfl

theorem check_record (h : job.Encodes it room depth) :
    check it room (job.record it).command = .ok () ∧ check it room (job.record it).metadata = .ok () := by
  refine ⟨?_, h.fits⟩
  cases room with
  | zero => have hfits := h.fits; rw [check] at hfits; cases hfits
  | succ room => exact check_command job.command

theorem stores_record (h : job.Encodes it room depth) (hb : job.bindable = true) : Stores it room (job.record it) := by
  refine ⟨⟨command_wellFormed job.command, (check_record h).1⟩, ⟨h.metadata, h.fits⟩,
    (all_binds_record job).trans hb, ?_⟩
  intro c hc
  have hstr : ∀ s, some (ofStr s) ≠ some .null := by rintro (s | ⟨points, _, _⟩) ⟨⟩
  simp only [notNull, List.mem_cons, List.not_mem_nil, or_false] at hc
  rcases hc with rfl | rfl | rfl | rfl | rfl | rfl | rfl | rfl | rfl | rfl | rfl | rfl | rfl <;>
    first | exact hstr _ | rintro ⟨⟩

theorem reads_record (h : job.Encodes it room depth) : Reads depth (job.record it) := by
  refine ⟨?_, h.reads⟩
  have hread := h.reads
  rw [nesting] at hread
  exact (nesting_command job.command).trans_le (Nat.le_trans (Nat.le_add_left 1 _) hread)

theorem get_refines (hT : ∀ row ∈ T.rows, row.Encodes it room depth ∧ row.bindable = true) (jobId : String) :
    get it depth (.text jobId) ((coding it).table T) = .ok ((SQLiteJobRepository.get jobId T).map (Job.record it)) := by
  have hfind := (coding it).find_table T jobId
  change ((coding it).table T).find (.text jobId) = _ at hfind
  rw [get, hfind, SQLiteJobRepository.get, SQLiteJobRepository.fetch]
  cases hrow : T.find jobId with
  | none => rfl
  | some row =>
      obtain ⟨henc, hb⟩ := hT row (Table.find_mem hrow).1
      exact congrArg (Except.map some) (rowToJob_toRow (stores_record henc hb) (reads_record henc))

theorem add_refines (hT : ∀ row ∈ T.rows, row.Encodes it room depth ∧ row.bindable = true)
    (hj : job.Encodes it room depth) :
    add it room depth (job.record it) ((coding it).table T) =
      match SQLiteJobRepository.add job T with
      | .ok (r, T') => .ok (r.record it, (coding it).table T')
      | .error e => .error (.sqlite e) := by
  rw [SQLiteJobRepository.add]
  cases hb : job.bindable with
  | false =>
      obtain ⟨hcommand, hmeta⟩ := check_record hj
      rw [← bindError_record hb]
      exact add_of_not_bound hcommand hmeta ((all_binds_record job).trans hb) _
  | true =>
      have hins : ((coding it).table T).insert (toRow it (job.record it)) = (T.insert job).map (coding it).table :=
        (coding it).insert_table T job
      rw [add_eq (stores_record hj hb), hins]
      cases T.insert job with
      | some T' => rfl
      | none =>
          have hrecord : (job.record it).idempotencyKey = .ofOption job.idempotencyKey := rfl
          rw [hrecord]
          cases job.idempotencyKey with
          | none => rfl
          | some key =>
              have hix : ((coding it).table T).findIndex (.text key) = (T.findIndex key).map (coding it).row :=
                (coding it).findIndex_table T key
              simp only [SqlValue.ofOption, Option.map_none, reduceCtorEq, if_false, hix, Bool.not_true,
                Bool.false_eq_true]
              cases hrow : T.findIndex key with
              | none => rfl
              | some row =>
                  obtain ⟨henc, hbound⟩ := hT row (Table.findIndex_mem hrow).1
                  exact congrArg (Except.map _) (rowToJob_toRow (stores_record henc hbound) (reads_record henc))

end Refinement

end Columns

end JobSystem
