import JobSystem.Lib.Channel
import JobSystem.Server.State

namespace JobSystem

open Lib

abbrev ContainerId := Nat

inductive ContainerStatus
  | created
  | running
  | exited (exitCode : Int) (stdout stderr : String)
  deriving DecidableEq

/-- A container with the label `managed_by=job-system`. -/
structure Container where
  jobId : String
  image : String
  command : List String
  status : ContainerStatus

structure JobResult where
  jobId : String
  exitCode : Int
  stdout : String
  stderr : String
  error : Option String

def JobResult.frame (r : JobResult) : AgentFrame :=
  .result r.jobId r.exitCode r.stdout r.stderr (r.error.map .text)

/-- The points at which the task of `Agent.run` stands, with the connection of
its session. `reconciling` and `reattaching` hold what is left of the list that
`_reconcile` goes through. -/
inductive AgentCtl
  | offline
  | registering (c : ConnId)
  | listing (c : ConnId)
  | reconciling (c : ConnId) (rest : List (ContainerId × Container))
  | reattaching (c : ConnId) (id : ContainerId) (jobId : String) (rest : List (ContainerId × Container))
  | inspecting (c : ConnId) (id : ContainerId) (jobId : String) (rest : List (ContainerId × Container))
  | reportingExited (c : ConnId) (id : ContainerId) (result : JobResult) (rest : List (ContainerId × Container))
  | removing (c : ConnId) (id : ContainerId) (rest : List (ContainerId × Container))
  | listening (c : ConnId)
  | acking (c : ConnId) (jobId image : String) (command : List String)
  | starting (c : ConnId) (jobId image : String) (command : List String)
  | announcing (c : ConnId) (jobId : String) (id : ContainerId)
  | waiting (c : ConnId) (jobId : String) (id : ContainerId)
  | reporting (c : ConnId) (result : JobResult)
  | killing (c : ConnId) (id : ContainerId)

structure Reattach where
  c : ConnId
  jobId : String
  id : ContainerId
  result : Option JobResult

/-- The machine of the agent: its process, the containers of its Docker daemon,
and the frames that it has sent and the server has not processed. `started` lists
the jobs of all containers that were ever started; no code reads it. -/
structure Agent where
  running : Dict String ContainerId
  main : AgentCtl
  read : Nat
  heartbeat : Option ConnId
  reattached : List Reattach
  containers : Dict ContainerId Container
  nextContainer : ContainerId
  wire : Channel ConnId AgentFrame
  started : List String

namespace AgentCtl

def session : AgentCtl → Option ConnId
  | offline => none
  | registering c | listing c | reconciling c _ | reattaching c _ _ _ | inspecting c _ _ _
  | reportingExited c _ _ _ | removing c _ _ | listening c | acking c _ _ _ | starting c _ _ _
  | announcing c _ _ | waiting c _ _ | reporting c _ | killing c _ => some c

end AgentCtl

namespace Agent

def start : Agent where
  running := .empty
  main := .offline
  read := 0
  heartbeat := none
  reattached := []
  containers := .empty
  nextContainer := 0
  wire := []
  started := []

def goto (x : AgentCtl) (a : Agent) : Agent := { a with main := x }

def emit (c : ConnId) (f : AgentFrame) (a : Agent) : Agent := { a with wire := a.wire ++ [(c, f)] }

def endSession (a : Agent) : Agent := { a with main := .offline, heartbeat := none }

end Agent

end JobSystem
