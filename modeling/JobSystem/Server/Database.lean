import JobSystem.Protocol
import JobSystem.Repository.Events
import JobSystem.Repository.Statements
import JobSystem.Server.Messages

namespace Lib.JsonDoc

open JobSystem

def bind : JsonDoc → Option SqlValue
  | .null | .nan => some .null
  | .bool b => some (.integer (if b then 1 else 0))
  | .int n => if int64 n then some (.integer n) else none
  | .float x => some (.real x)
  | .infinity negative => some (.infinity negative)
  | .str s => if ∀ c ∈ s, c.isValidChar then some (.text (String.ofList (s.map Char.ofNat))) else none
  | .arr _ | .obj _ => none

@[simp] theorem bind_str (s : String) : (JsonDoc.str (field s)).bind = some (.text s) :=
  (if_pos (isValidChar_codes s)).trans (congrArg (fun t => some (SqlValue.text t)) (text_codes s))

theorem bind_codes (s : PyStr) : (JsonDoc.str s.codes).bind = if s.encodes then some (Columns.ofStr s) else none := by
  cases s with
  | text s => exact bind_str s
  | surrogate points valid lone =>
      obtain ⟨c, hc, hs⟩ := lone
      refine if_neg fun h => ?_
      have hvalid := h c hc
      simp only [isSurrogate, Bool.and_eq_true, decide_eq_true_eq] at hs
      rcases hvalid with hlow | ⟨hhigh, -⟩ <;> omega

end Lib.JsonDoc

namespace JobSystem

open Lib JsonDoc

namespace Affinity

def text (af : Affinity) (v : SqlValue) : SqlValue :=
  match SQLiteLogRepository.toText af.realText v with
  | none => .null
  | some s => .text s

end Affinity

structure Database where
  clock : Instant
  jobs : RowTable
  events : EventTable
  broker : LogBroker PyKey PyKey JsonDoc
  logRows : List LogRow

namespace Database

variable (af : Affinity) (it : Interpreter) (room depth : Nat)

/-- A method of the service, called with the id of a message. No row has the id null. -/
def onJob (jobId : JsonDoc) (f : String → RowTable → Except StoreError (Option JobRecord) × RowTable)
    (d : Database) : Except Fault (Option JobRecord) × Database :=
  match jobId.bind.map (SQLiteLogRepository.toText af.realText) with
  | none => (.error .raised, d)
  | some none => (.ok none, d)
  | some (some j) => ((f j d.jobs).1.mapError fun _ => .raised, { d with jobs := (f j d.jobs).2 })

def complete (newState : JobState) (jobId exitCode stdout stderr error : JsonDoc) (d : Database) :
    Except Fault (Option JobRecord) × Database :=
  match exitCode.bind, stdout.bind, stderr.bind, error.bind with
  | some x, some o, some e, some err =>
      onJob af jobId (fun j => Columns.completeIfRunning it depth d.clock (.text j) newState (af.integer x) (af.text o)
        (af.text e) (af.text err)) d
  | _, _, _, _ => (.error .raised, d)

def appendEvent (jobId : JsonDoc) (eventType : String) (payload : JsonDoc) (d : Database) :
    Except Fault Unit × Database :=
  match jobId.bind with
  | none => (.error .raised, d)
  | some j =>
      match SQLiteEventRepository.append it af.realText room d.clock j eventType payload d.events with
      | .error _ => (.error .raised, d)
      | .ok events => (.ok (), { d with events := events })

def publish (jobId stream chunk : JsonDoc) (d : Database) : Except Fault Unit × Database :=
  match jobId.key, stream.key with
  | some j, some s => (.ok (), { d with broker := (d.broker.publish j s chunk).2 })
  | _, _ => (.error .typeError, d)

def logRow (jobId stream sequence chunk : JsonDoc) : Option LogRow := do
  let jobId ← jobId.bind
  let stream ← stream.bind
  let sequence ← sequence.bind
  let chunk ← chunk.bind
  return ⟨← SQLiteLogRepository.toText af.realText jobId, ← SQLiteLogRepository.toText af.realText stream,
    ← SQLiteLogRepository.notNull af sequence, ← SQLiteLogRepository.toText af.realText chunk⟩

def appendLog (jobId stream sequence chunk : JsonDoc) (d : Database) : Except Fault Unit × Database :=
  match logRow af jobId stream sequence chunk with
  | none => (.error .raised, d)
  | some row => (.ok (), { d with logRows := d.logRows ++ [row] })

def services : Services Database where
  now d := d.clock
  getJob jobId d := onJob af jobId (fun j T => (Columns.get it depth (.text j) T, T)) d
  markRunning jobId d :=
    onJob af jobId (fun j => Columns.transitionIf it depth d.clock (.text j) .dispatched .running) d
  markSucceeded jobId exitCode stdout stderr d :=
    complete af it depth .succeeded jobId exitCode stdout stderr .null d
  markFailed jobId exitCode stdout stderr error d := complete af it depth .failed jobId exitCode stdout stderr error d
  appendEvent := appendEvent af it room
  publish := publish
  appendLog := appendLog af

end Database

structure EventRow.Tells (it : Interpreter) (e : Event) (row : EventRow) : Prop where
  jobId : row.jobId = e.jobId
  eventType : row.eventType = e.eventType
  payload : row.payload = String.ofList ((JsonDoc.obj (ofFields it e.payload)).text it)
  createdAt : row.createdAt = e.createdAt.isoformat

namespace Database

/-- The database has what the server has, in rows of texts and numbers. -/
structure Shows (it : Interpreter) (s : Server) (d : Database) : Prop where
  clock : d.clock = s.clock
  jobs : d.jobs = (Columns.coding it).table s.jobs
  events : List.Forall₂ (EventRow.Tells it) s.events d.events.rows

section Calls

variable {af : Affinity} {it : Interpreter} {room depth : Nat} {s : Server} {d : Database} {j : String}

theorem onJob_str (f : String → RowTable → Except StoreError (Option JobRecord) × RowTable) (d : Database) :
    onJob af (.str (field j)) f d =
      ((f j d.jobs).1.mapError fun _ => .raised, { d with jobs := (f j d.jobs).2 }) := by
  rw [onJob, bind_str]
  rfl

theorem appendEvent_str (af : Affinity) (d : Database) (j type : String) {payload : List (String × Json)}
    (hp : check it room (.obj (ofFields it payload)) = .ok ()) :
    appendEvent af it room (.str (field j)) type (.obj (ofFields it payload)) d =
      (.ok (), { d with
        events := d.events.insert j type (String.ofList ((JsonDoc.obj (ofFields it payload)).text it))
          d.clock.isoformat }) := by
  have happend : SQLiteEventRepository.append it af.realText room d.clock (.text j) type (.obj (ofFields it payload))
      d.events = .ok (d.events.insert j type (String.ofList ((JsonDoc.obj (ofFields it payload)).text it))
        d.clock.isoformat) := by
    rw [SQLiteEventRepository.append_eq, SQLiteEventRepository.orEmpty_obj, hp]
    rfl
  rw [appendEvent, bind_str]
  dsimp only
  rw [happend]

theorem shows_event (h : Shows it s d) (j type : String) (payload : List (String × Json)) :
    Shows it (s.event j type payload) { d with
      events := d.events.insert j type (String.ofList ((JsonDoc.obj (ofFields it payload)).text it))
        d.clock.isoformat } where
  clock := h.clock
  jobs := h.jobs
  events := by
    refine List.rel_append h.events (.cons ⟨rfl, rfl, rfl, ?_⟩ .nil)
    exact congrArg Instant.isoformat h.clock

end Calls

end Database

end JobSystem
