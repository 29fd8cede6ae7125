import JobSystem.Lib.Calendar
import JobSystem.Lib.Document
import Mathlib.Data.String.Basic
import Mathlib.Order.Nat

namespace JobSystem

open Lib

inductive JobState
  | pending
  | dispatched
  | running
  | succeeded
  | failed
  | timedOut
  | cancelled
  deriving DecidableEq, Repr

namespace JobState

def value : JobState → String
  | pending => "PENDING"
  | dispatched => "DISPATCHED"
  | running => "RUNNING"
  | succeeded => "SUCCEEDED"
  | failed => "FAILED"
  | timedOut => "TIMED_OUT"
  | cancelled => "CANCELLED"

def ofValue (v : String) : Option JobState :=
  [pending, dispatched, running, succeeded, failed, timedOut, cancelled].find? fun q => q.value = v

theorem ofValue_value (q : JobState) : ofValue q.value = some q := by cases q <;> decide

def terminalStates : List JobState := [succeeded, failed, timedOut, cancelled]

def isTerminal (s : JobState) : Bool := decide (s ∈ terminalStates)

def isActive : JobState → Bool
  | dispatched | running => true
  | _ => false

@[simp] theorem isTerminal_pending : pending.isTerminal = false := rfl
@[simp] theorem isTerminal_dispatched : dispatched.isTerminal = false := rfl
@[simp] theorem isTerminal_running : running.isTerminal = false := rfl
@[simp] theorem isTerminal_succeeded : succeeded.isTerminal = true := rfl
@[simp] theorem isTerminal_failed : failed.isTerminal = true := rfl
@[simp] theorem isTerminal_timedOut : timedOut.isTerminal = true := rfl
@[simp] theorem isTerminal_cancelled : cancelled.isTerminal = true := rfl

end JobState

/-- A reading of `datetime.now(timezone.utc)`. A job record holds the text that
`isoformat` makes of it. -/
structure Instant where
  micros : Nat
  inRange : micros < Calendar.maxMicros
  deriving DecidableEq

namespace Instant

def isoformat (t : Instant) : String := Calendar.isoformat t.micros

/-- `(now - since).total_seconds()`, in microseconds. -/
def elapsed (now since : Instant) : Int := now.micros - since.micros

def epoch : Instant := ⟨0, by decide⟩

theorem micros_injective : Function.Injective micros := by
  rintro ⟨s, _⟩ ⟨t, _⟩ h
  cases h
  rfl

instance : LinearOrder Instant := LinearOrder.lift' micros micros_injective

theorem isoformat_lt {s t : Instant} (h : s < t) : s.isoformat < t.isoformat :=
  Calendar.isoformat_lt h t.inRange

theorem isoformat_strictMono : StrictMono isoformat := fun _ _ h => isoformat_lt h

end Instant

structure Job where
  jobId : String
  agentId : String
  image : String
  command : List String
  timeoutMs : Int
  metadata : List (String × Json)
  idempotencyKey : Option String
  priority : Int
  correlationId : String
  state : JobState
  createdAt : Instant
  updatedAt : Instant
  startedAt : Option Instant
  finishedAt : Option Instant
  dispatchAttempts : Nat
  exitCode : Option Int
  error : Option PyStr
  stdout : PyStr
  stderr : PyStr

structure Request where
  agentId : String
  image : String
  command : List String
  timeoutMs : Int
  idempotencyKey : Option String
  priority : Int
  metadata : Option (List (String × Json))

/-- `Job(job_id=new_job_id(), ...)`: the generated ids and the two clock
readings come from the environment. -/
def Request.toJob (req : Request) (jobId correlationId : String) (createdAt updatedAt : Instant) :
    Job where
  jobId := jobId
  agentId := req.agentId
  image := req.image
  command := req.command
  timeoutMs := req.timeoutMs
  metadata := req.metadata.getD []
  idempotencyKey := req.idempotencyKey
  priority := req.priority
  correlationId := correlationId
  state := .pending
  createdAt := createdAt
  updatedAt := updatedAt
  startedAt := none
  finishedAt := none
  dispatchAttempts := 0
  exitCode := none
  error := none
  stdout := ""
  stderr := ""

end JobSystem
