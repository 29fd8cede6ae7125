import JobSystem.Logs.Broker
import JobSystem.Repository.SQLite

namespace JobSystem

open Lib

/-- The floats that are no numbers, which `json.loads` takes for `NaN`,
`Infinity` and `-Infinity`. -/
inductive SpecialFloat
  | nan
  | infinity (negative : Bool)
  deriving DecidableEq

/-- What `json.loads` makes of a message. A string with an unpaired surrogate
is kept as its code points, since it has no encoding. -/
inductive PyValue
  | none
  | bool (b : Bool)
  | int (n : Int)
  | float (x : Rat)
  | special (x : SpecialFloat)
  | str (s : String)
  | surrogate (codes : List Nat)
  | list (items : List PyValue)
  | dict (fields : List (String × PyValue))

/-- Values up to `==`, as the keys of a dictionary are compared. -/
inductive PyKey
  | none
  | number (x : Rat)
  | special (x : SpecialFloat)
  | str (s : String)
  | surrogate (codes : List Nat)
  deriving DecidableEq

theorem PyKey.str_injective : Function.Injective PyKey.str := by
  rintro _ _ ⟨⟩
  rfl

namespace PyValue

/-- Lists and dictionaries are unhashable. -/
def key : PyValue → Option PyKey
  | none => some .none
  | bool b => some (.number (if b then 1 else 0))
  | int n => some (.number n)
  | float x => some (.number x)
  | special x => some (.special x)
  | str s => some (.str s)
  | surrogate codes => some (.surrogate codes)
  | list _ | dict _ => Option.none

/-- What `sqlite3` binds; it raises for the other values. -/
def bind : PyValue → Option SqlValue
  | none | special .nan => some .null
  | bool b => some (.integer (if b then 1 else 0))
  | int n => if int64 n then some (.integer n) else Option.none
  | float x => some (.real x)
  | special (.infinity negative) => some (.infinity negative)
  | str s => some (.text s)
  | surrogate _ | list _ | dict _ => Option.none

end PyValue

structure LogRow where
  jobId : String
  stream : String
  sequence : SqlValue
  chunk : String
  deriving DecidableEq

/-- What SQLite makes of a value in a column of another type: the text of a float, and a value in a column of
type `INTEGER`. -/
structure Affinity where
  realText : Rat → String
  integer : SqlValue → SqlValue
  integer_eq : ∀ n, integer (.integer n) = .integer n

def Affinity.plain : Affinity := ⟨fun _ => "", id, fun _ => rfl⟩

namespace SQLiteLogRepository

variable (af : Affinity)

/-- A value in a column of type `TEXT NOT NULL`. -/
def toText (realText : Rat → String) : SqlValue → Option String
  | .null | .surrogate _ => none
  | .integer n => some (toString n)
  | .real x => some (realText x)
  | .infinity negative => some (if negative then "-Inf" else "Inf")
  | .text s => some s

/-- A value in a column of type `INTEGER NOT NULL`, which takes every value but null. -/
def notNull : SqlValue → Option SqlValue
  | .null => none
  | v => some (af.integer v)

/-- The row that the statement inserts, unless it raises. -/
def row (jobId stream sequence chunk : PyValue) : Option LogRow := do
  let jobId ← jobId.bind
  let stream ← stream.bind
  let sequence ← sequence.bind
  let chunk ← chunk.bind
  return ⟨← toText af.realText jobId, ← toText af.realText stream, ← notNull af sequence, ← toText af.realText chunk⟩

def append (jobId stream sequence chunk : PyValue) (rows : List LogRow) : Option (List LogRow) :=
  (row af jobId stream sequence chunk).map fun r => rows ++ [r]

def listForJob (jobId : String) (stream : Option String) (rows : List LogRow) : List LogRow :=
  match stream with
  | some stream => rows.filter fun r => r.jobId = jobId ∧ r.stream = stream
  | none => rows.filter fun r => r.jobId = jobId

end SQLiteLogRepository

structure Logs where
  broker : LogBroker PyKey PyKey PyValue
  rows : List LogRow

namespace Logs

variable (af : Affinity)

/-- `_on_log`, and whether it came to its end. An exception leaves what was
written before it, and the guard around the handler only logs it. -/
def onLog (message : Dict String PyValue) (s : Logs) : Logs × Bool :=
  match message.get "job_id", message.get "stream", message.get "chunk" with
  | some jobId, some stream, some chunk =>
      match jobId.key, stream.key with
      | some jobKey, some streamKey =>
          let s := { s with broker := (s.broker.publish jobKey streamKey chunk).2 }
          match message.get "sequence" with
          | some sequence =>
              match SQLiteLogRepository.append af jobId stream sequence chunk s.rows with
              | some rows => ({ s with rows := rows }, true)
              | none => (s, false)
          | none => (s, false)
      | _, _ => (s, false)
  | _, _, _ => (s, false)

def run (messages : List (Dict String PyValue)) (s : Logs) : Logs :=
  messages.foldl (fun s message => (onLog af message s).1) s

def entry (message : Dict String PyValue) : Option (PyKey × PyKey × PyValue) := do
  let jobId ← message.get "job_id"
  let stream ← message.get "stream"
  let chunk ← message.get "chunk"
  return (← jobId.key, ← stream.key, chunk)

def record (message : Dict String PyValue) : Option LogRow := do
  SQLiteLogRepository.row af (← message.get "job_id") (← message.get "stream") (← message.get "sequence")
    (← message.get "chunk")

/-- A message that is refused before it is published, or whose fields are strings that can be
encoded, with a sequence that the store takes. -/
def sound (message : Dict String PyValue) : Bool :=
  (entry message).isNone ||
    match message.get "job_id", message.get "stream", message.get "chunk", message.get "sequence" with
    | some (.str _), some (.str _), some (.str _), some sequence =>
        sequence.bind.any fun v => v ≠ .null
    | _, _, _, _ => false

def published (jobId : String) (message : Dict String PyValue) : List (PyKey × PyValue) :=
  match entry message with
  | some (key, stream, chunk) => if key = .str jobId then [(stream, chunk)] else []
  | none => []

def stored (jobId : String) (message : Dict String PyValue) : List (PyKey × PyValue) :=
  match entry message, record af message with
  | some _, some r => if r.jobId = jobId then [(.str r.stream, .str r.chunk)] else []
  | _, _ => []

def live (jobId : String) (s : Logs) : List (PyKey × PyValue) :=
  (s.broker.history (.str jobId)).map fun e => (e.stream, e.chunk)

def durable (jobId : String) (rows : List LogRow) : List (PyKey × PyValue) :=
  (SQLiteLogRepository.listForJob jobId none rows).map fun r => (.str r.stream, .str r.chunk)

def start (historyCap queueCap : Nat) (rows : List LogRow) : Logs := ⟨.new historyCap queueCap, rows⟩

def Room (historyCap : Nat) (messages : List (Dict String PyValue)) : Prop :=
  ∀ jobId, (messages.flatMap (published jobId)).length ≤ historyCap

/-- The durable log has grown by the live one. -/
def Agree (rows : List LogRow) (s : Logs) : Prop :=
  ∀ jobId, durable jobId s.rows = durable jobId rows ++ live jobId s

/-- After every part of the messages the two logs agree, and the next message changes nothing if it
fails. -/
def Agreeing (historyCap queueCap : Nat) (rows : List LogRow) (messages : List (Dict String PyValue)) : Prop :=
  ∀ pre post, messages = pre ++ post →
    Agree rows (run af pre (start historyCap queueCap rows)) ∧
      ∀ message ∈ post.head?,
        (onLog af message (run af pre (start historyCap queueCap rows))).2 = false →
        (onLog af message (run af pre (start historyCap queueCap rows))).1 =
          run af pre (start historyCap queueCap rows)

section Laws

variable {af : Affinity} {message : Dict String PyValue} {s : Logs}

theorem onLog_eq : onLog af message s =
    match entry message with
    | none => (s, false)
    | some (key, stream, chunk) =>
        let broker := (s.broker.publish key stream chunk).2
        match record af message with
        | none => (⟨broker, s.rows⟩, false)
        | some r => (⟨broker, s.rows ++ [r]⟩, true) := by
  rw [onLog, entry, record]
  cases message.get "job_id" with
  | none => rfl
  | some jobId =>
      cases message.get "stream" with
      | none => rfl
      | some stream =>
          cases message.get "chunk" with
          | none => rfl
          | some chunk =>
              cases hj : jobId.key with
              | none => simp [hj]
              | some jobKey =>
                  cases hs : stream.key with
                  | none => simp [hj, hs]
                  | some streamKey =>
                      cases message.get "sequence" with
                      | none => simp [hj, hs]
                      | some sequence =>
                          cases hr : SQLiteLogRepository.row af jobId stream sequence chunk <;>
                            simp [hj, hs, hr, SQLiteLogRepository.append]

theorem key_str {v : PyValue} {t : String} (h : v.key = some (.str t)) : v = .str t := by
  cases v <;> simp [PyValue.key] at h
  rw [h]

theorem row_str (j st c : String) (q : PyValue) :
    SQLiteLogRepository.row af (.str j) (.str st) q (.str c) =
      (q.bind.bind (SQLiteLogRepository.notNull af)).map fun v => ⟨j, st, v, c⟩ := by
  rw [SQLiteLogRepository.row]
  cases q.bind with
  | none => rfl
  | some v => cases v <;> rfl

theorem notNull_isSome (af : Affinity) (v : Option SqlValue) :
    (v.bind (SQLiteLogRepository.notNull af)).isSome = v.any fun v => v ≠ .null := by
  cases v with
  | none => rfl
  | some v => cases v <;> rfl

theorem record_of_row {j st c q : PyValue} (hj : message.get "job_id" = some j)
    (hs : message.get "stream" = some st) (hc : message.get "chunk" = some c)
    (hq : message.get "sequence" = some q) :
    record af message = SQLiteLogRepository.row af j st q c := by
  simp [record, hj, hs, hc, hq]

theorem sound_of_agreement (hrec : entry message = none ∨ ∃ r, record af message = some r)
    (hsame : ∀ jobId, stored af jobId message = published jobId message) : sound message = true := by
  cases he : entry message with
  | none => simp [sound, he]
  | some e =>
      obtain ⟨key, stream, chunk⟩ := e
      obtain ⟨r, hr⟩ := hrec.resolve_left (by simp [he])
      have heq := hsame r.jobId
      simp only [stored, published, he, hr, if_true] at heq
      split at heq
      · next hkey =>
          -- the fields of the message are the texts of its row
          simp only [List.cons.injEq, Prod.mk.injEq, and_true] at heq
          obtain ⟨hstream, hchunk⟩ := heq
          subst hkey hstream hchunk
          simp only [entry, Option.bind_eq_bind, Option.bind_eq_some_iff, Option.pure_def, Option.some.injEq,
            Prod.mk.injEq] at he
          obtain ⟨j, hj, st, hst, c, hc, k, hk, k', hk', rfl, rfl, rfl⟩ := he
          cases key_str hk
          cases key_str hk'
          cases hq : message.get "sequence" with
          | none => simp [record, hj, hst, hc, hq] at hr
          | some q =>
              rw [record_of_row hj hst hc hq, row_str] at hr
              obtain ⟨v, hv, -⟩ := Option.map_eq_some_iff.mp hr
              have hbound : q.bind.any (fun v => v ≠ .null) = true :=
                (notNull_isSome af q.bind).symm.trans (by rw [hv]; rfl)
              rw [sound, hj, hst, hc, hq]
              exact Bool.or_eq_true_iff.mpr (.inr hbound)
      · simp at heq

theorem agreement_of_sound (h : sound message = true) :
    (entry message = none ∨ ∃ r, record af message = some r) ∧
      ∀ jobId, stored af jobId message = published jobId message := by
  rw [sound, Bool.or_eq_true, Option.isNone_iff_eq_none] at h
  rcases h with he | h
  · exact ⟨.inl he, fun jobId => by simp [stored, published, he]⟩
  · split at h
    · next j st c q hj hst hc hq =>
        obtain ⟨v, hv⟩ := Option.isSome_iff_exists.mp ((notNull_isSome af q.bind).trans h)
        have hr : record af message = some ⟨j, st, v, c⟩ := by
          rw [record_of_row hj hst hc hq, row_str, hv]
          rfl
        have he : entry message = some (.str j, .str st, .str c) := by
          simp [entry, hj, hst, hc, PyValue.key]
        exact ⟨.inr ⟨_, hr⟩, fun jobId => by simp [stored, published, he, hr]⟩
    · cases h

/-- A message is sound exactly if it does not fail halfway and means the same to both stores. -/
theorem sound_iff : sound message = true ↔
    (entry message = none ∨ ∃ r, record af message = some r) ∧
      ∀ jobId, stored af jobId message = published jobId message :=
  ⟨agreement_of_sound, fun h => sound_of_agreement h.1 h.2⟩

/-- A message that fails changes nothing exactly if it is not published. -/
theorem failed_unchanged_iff :
    ((onLog af message s).2 = false → (onLog af message s).1 = s) ↔
      (entry message = none ∨ ∃ r, record af message = some r) := by
  rw [onLog_eq]
  cases he : entry message with
  | none => simp
  | some e =>
      obtain ⟨key, stream, chunk⟩ := e
      cases hr : record af message with
      | some r => simp
      | none =>
          have hchanged : (⟨(s.broker.publish key stream chunk).2, s.rows⟩ : Logs) ≠ s := by
            intro heq
            have hseq := congrArg (fun s : Logs => s.broker.sequenceOf key stream) heq
            simp [LogBroker.sequenceOf_publish] at hseq
          simpa using hchanged

end Laws

section Runs

variable {af : Affinity} {historyCap queueCap : Nat} {rows : List LogRow}

theorem run_concat (messages : List (Dict String PyValue)) (message : Dict String PyValue) (s : Logs) :
    run af (messages ++ [message]) s = (onLog af message (run af messages s)).1 := by
  rw [run, List.foldl_append]
  rfl

theorem durable_onLog (jobId : String) (message : Dict String PyValue) (s : Logs) :
    durable jobId (onLog af message s).1.rows = durable jobId s.rows ++ stored af jobId message := by
  rw [onLog_eq, stored]
  cases he : entry message with
  | none => simp
  | some e =>
      cases hr : record af message with
      | none => simp
      | some r => by_cases hj : r.jobId = jobId <;> simp [durable, SQLiteLogRepository.listForJob, hj]

theorem live_onLog (jobId : String) (message : Dict String PyValue) {s : Logs}
    (hroom : (live jobId s ++ published jobId message).length ≤ s.broker.historyCap) :
    live jobId (onLog af message s).1 = live jobId s ++ published jobId message := by
  have hpublish : ∀ key stream chunk, entry message = some (key, stream, chunk) →
      ((s.broker.publish key stream chunk).2.history (.str jobId)).map (fun e => (e.stream, e.chunk)) =
        live jobId s ++ published jobId message := by
    intro key stream chunk he
    rw [published, he] at hroom ⊢
    rw [LogBroker.history_publish]
    by_cases hk : key = .str jobId
    · subst hk
      have hlt : (s.broker.history (.str jobId)).length < s.broker.historyCap := by
        simpa [live, Nat.succ_le_iff] using hroom
      rw [if_pos rfl, Window.push_of_lt hlt, List.map_append]
      simp [live, LogBroker.publish]
    · simp [Ne.symm hk, hk, live]
  rw [onLog_eq]
  cases he : entry message with
  | none => simp [published, he]
  | some e =>
      obtain ⟨key, stream, chunk⟩ := e
      cases hr : record af message <;> exact hpublish key stream chunk he

theorem durable_run (messages : List (Dict String PyValue)) (jobId : String) (s : Logs) :
    durable jobId (run af messages s).rows =
      durable jobId s.rows ++ messages.flatMap (stored af jobId) := by
  induction messages using List.reverseRecOn with
  | nil => simp [run]
  | append_singleton messages message ih =>
      rw [run_concat, durable_onLog, ih, List.flatMap_append, List.append_assoc]
      simp

theorem historyCap_onLog (message : Dict String PyValue) (s : Logs) :
    (onLog af message s).1.broker.historyCap = s.broker.historyCap := by
  rw [onLog_eq]
  cases entry message with
  | none => rfl
  | some e => cases record af message <;> rfl

theorem live_run {messages : List (Dict String PyValue)} (hroom : Room historyCap messages) :
    (run af messages (start historyCap queueCap rows)).broker.historyCap = historyCap ∧
      ∀ jobId, live jobId (run af messages (start historyCap queueCap rows)) =
        messages.flatMap (published jobId) := by
  induction messages using List.reverseRecOn with
  | nil => exact ⟨rfl, fun _ => rfl⟩
  | append_singleton messages message ih =>
      have hsplit : ∀ jobId, (messages ++ [message]).flatMap (published jobId) =
          messages.flatMap (published jobId) ++ published jobId message := by
        intro jobId
        rw [List.flatMap_append]
        simp
      have hfits : ∀ jobId,
          (messages.flatMap (published jobId) ++ published jobId message).length ≤ historyCap := by
        intro jobId
        rw [← hsplit]
        exact hroom jobId
      obtain ⟨hcap, hlive⟩ := ih fun jobId => le_trans (by simp) (hfits jobId)
      rw [run_concat]
      refine ⟨(historyCap_onLog _ _).trans hcap, fun jobId => ?_⟩
      rw [live_onLog jobId message (by rw [hlive, hcap]; exact hfits jobId), hlive, hsplit]

theorem agree_run_iff {messages : List (Dict String PyValue)} (hroom : Room historyCap messages) :
    Agree rows (run af messages (start historyCap queueCap rows)) ↔
      ∀ jobId, messages.flatMap (stored af jobId) = messages.flatMap (published jobId) := by
  refine forall_congr' fun jobId => ?_
  rw [durable_run, (live_run hroom).2]
  exact List.append_cancel_left_eq _ _ _ |>.to_iff

end Runs

def logMessage (jobId stream : String) (sequence : Int) (chunk : String) : Dict String PyValue :=
  ((((Dict.empty.set "type" (.str "log")).set "job_id" (.str jobId)).set "stream" (.str stream)).set "sequence"
    (.int sequence)).set "chunk" (.str chunk)

/-- The frames of an agent are sound, up to the largest number that the store takes. -/
theorem sound_logMessage (jobId stream : String) (sequence : Int) (chunk : String) :
    sound (logMessage jobId stream sequence chunk) = int64 sequence := by
  cases hn : int64 sequence <;>
    simp [sound, entry, logMessage, Dict.get_set, PyValue.key, PyValue.bind, hn]

/-- Live log and durable log agree: with room in the history they do after every sequence of `log`
frames, and a frame that fails changes neither, exactly if every frame is sound. -/
theorem logs_agree_iff (af : Affinity) (historyCap queueCap : Nat) (rows : List LogRow)
    (messages : List (Dict String PyValue)) (hroom : Room historyCap messages) :
    Agreeing af historyCap queueCap rows messages ↔ ∀ message ∈ messages, sound message = true := by
  have hpart : ∀ pre post, messages = pre ++ post → Room historyCap pre := by
    rintro pre post rfl jobId
    exact le_trans (by simp) (hroom jobId)
  constructor
  · intro h message hm
    obtain ⟨pre, post, rfl⟩ := List.append_of_mem hm
    obtain ⟨hagree, hfail⟩ := h pre (message :: post) rfl
    have hnext : pre ++ message :: post = (pre ++ [message]) ++ post := by simp
    have hagree' := (h (pre ++ [message]) post hnext).1
    rw [agree_run_iff (hpart _ _ rfl)] at hagree
    rw [agree_run_iff (hpart _ _ hnext)] at hagree'
    refine sound_of_agreement (failed_unchanged_iff.mp (hfail message rfl)) fun jobId => ?_
    have hjob := hagree' jobId
    rw [List.flatMap_append, List.flatMap_append, hagree jobId] at hjob
    simpa using hjob
  · rintro h pre post rfl
    refine ⟨(agree_run_iff (hpart _ _ rfl)).mpr fun jobId => ?_, fun message hm => ?_⟩
    · refine List.flatMap_congr fun message hm => ?_
      exact (sound_iff.mp (h message (List.mem_append_left _ hm))).2 jobId
    · have hmem : message ∈ post := List.mem_of_mem_head? hm
      exact failed_unchanged_iff.mpr (sound_iff.mp (h message (List.mem_append_right _ hmem))).1

def unnumbered : Dict String PyValue :=
  (((Dict.empty.set "type" (.str "log")).set "job_id" (.str "job_1")).set "stream" (.str "stdout")).set "chunk"
    (.str "hello")

theorem room_of_length {historyCap : Nat} {messages : List (Dict String PyValue)}
    (h : messages.length ≤ historyCap) : Room historyCap messages := by
  intro jobId
  refine le_trans ?_ h
  induction messages with
  | nil => rfl
  | cons message messages ih =>
      have hone : (published jobId message).length ≤ 1 := by
        rw [published]
        split
        · split <;> simp
        · simp
      rw [List.flatMap_cons, List.length_append, List.length_cons]
      have hrest := ih (le_trans (Nat.le_succ _) h)
      omega

theorem logs_agree_false : ¬ ∀ (af : Affinity) (historyCap queueCap : Nat) (rows : List LogRow)
    (messages : List (Dict String PyValue)), Room historyCap messages →
      Agreeing af historyCap queueCap rows messages := by
  intro h
  have hfail := (h .plain 5000 1000 [] [unnumbered] (room_of_length (by decide)) [] [unnumbered] rfl).2 unnumbered rfl
  rw [failed_unchanged_iff] at hfail
  rcases hfail with he | ⟨r, hr⟩
  · cases he
  · cases hr

def refusedBetween : List (Dict String PyValue) :=
  [logMessage "job_1" "stdout" 1 "hello", unnumbered.pop "chunk", logMessage "job_2" "stdout" 1 "first",
    logMessage "job_1" "stdout" 2 "world"]

theorem logs_agree_refused : Room 5000 refusedBetween ∧
    (Agreeing .plain 5000 1000 [] refusedBetween ↔ ∀ message ∈ refusedBetween, sound message = true) ∧
    ∀ message ∈ refusedBetween, sound message = true := by
  have hroom : Room 5000 refusedBetween := room_of_length (by decide)
  refine ⟨hroom, logs_agree_iff .plain 5000 1000 [] refusedBetween hroom, ?_⟩
  intro message hm
  simp only [refusedBetween, List.mem_cons, List.not_mem_nil, or_false] at hm
  rcases hm with rfl | rfl | rfl | rfl
  · exact sound_logMessage _ _ _ _
  · rfl
  · exact sound_logMessage _ _ _ _
  · exact sound_logMessage _ _ _ _

end Logs

end JobSystem
