import JobSystem.Agent.State

namespace JobSystem

open Lib

/-- How `containers.run` ends. A failed call can leave a container behind that
was created, or even started. -/
inductive StartOutcome
  | started
  | failed (error : String) (left : Option ContainerStatus)
  deriving DecidableEq

/-- The choices of the environment: network, Docker, and the order of the tasks.
A write that fails can still have put the frame on the wire, and a removal can
fail unnoticed. -/
inductive AgentLabel
  | sent
  | sendFailed (written : Bool)
  | lost
  | read
  | listed (ok : Bool)
  | examine
  | inspected (ok : Bool)
  | removed (ok : Bool)
  | startReturned (outcome : StartOutcome)
  | waitReturned (ok removed : Bool)
  | killed
  | heartbeat (ok written : Bool)
  | reattachWaited (i : Nat) (ok removed : Bool)
  | reattachSent (i : Nat) (written : Bool)
  | exited (id : ContainerId) (exitCode : Int) (stdout stderr : String)
  | crashed (left : Option ContainerStatus)

def jobResult (jobId : String) (exitCode : Int) (stdout stderr : String) (error : Option String) :
    JobResult :=
  if error = none ∧ exitCode ≠ 0 then
    ⟨jobId, exitCode, stdout, stderr, some (if stderr ≠ "" then stderr else "exit code " ++ toString exitCode)⟩
  else ⟨jobId, exitCode, stdout, stderr, error⟩

namespace AgentCtl

def outgoing (agentId : String) : AgentCtl → Option (ConnId × AgentFrame × AgentCtl)
  | registering c => some (c, .register agentId, .listing c)
  | reattaching c _ jobId rest => some (c, .reconcile jobId "running" none, .reconciling c rest)
  | reportingExited c id r rest => some (c, r.frame, .removing c id rest)
  | acking c j image command => some (c, .ack j, .starting c j image command)
  | announcing c j id => some (c, .started j, .waiting c j id)
  | reporting c r => some (c, r.frame, .listening c)
  | _ => none

end AgentCtl

namespace Agent

def startContainer (jobId image : String) (command : List String) (status : ContainerStatus)
    (a : Agent) : Agent :=
  { a with
    containers := a.containers.set a.nextContainer ⟨jobId, image, command, status⟩
    nextContainer := a.nextContainer + 1
    started := if status = .created then a.started else jobId :: a.started }

def leaveContainer (jobId image : String) (command : List String) (left : Option ContainerStatus)
    (a : Agent) : Agent :=
  match left with
  | none => a
  | some status => a.startContainer jobId image command status

def removeContainer (ok : Bool) (id : ContainerId) (a : Agent) : Agent :=
  if ok then { a with containers := a.containers.pop id } else a

def exitOf (id : ContainerId) (a : Agent) : Option (Int × String × String) :=
  match a.containers.get id with
  | some ⟨_, _, _, .exited x out err⟩ => some (x, out, err)
  | _ => none

/-- The awaited `ws.send` returns. `_reconcile` goes on to make a task for a
running container. -/
def sent (agentId : String) (a : Agent) : Option Agent :=
  (a.main.outgoing agentId).map fun (c, f, next) =>
    let a' := (a.emit c f).goto next
    match a.main with
    | .reattaching c id j _ =>
        { a' with running := a'.running.set j id, reattached := a'.reattached ++ [⟨c, j, id, none⟩] }
    | _ => a'

def sendFailed (agentId : String) (written : Bool) (a : Agent) : Option Agent :=
  (a.main.outgoing agentId).map fun (c, f, _) => (if written then a.emit c f else a).endSession

def listen (c : ConnId) (a : Agent) : Agent := { a with main := .listening c, heartbeat := some c }

def reconcile (c : ConnId) (rest : List (ContainerId × Container)) (a : Agent) : Agent :=
  match rest with
  | [] => a.listen c
  | (id, container) :: rest =>
      if container.jobId = "" then a.goto (.removing c id rest)
      else match container.status with
        | .running => a.goto (.reattaching c id container.jobId rest)
        | .exited _ _ _ => a.goto (.inspecting c id container.jobId rest)
        | .created => a.goto (.reconciling c rest)

def onCancel (c : ConnId) (jobId : String) (a : Agent) : Agent :=
  match a.running.get jobId with
  | none => a.goto (.listening c)
  | some id => a.goto (.killing c id)

def dispatch (c : ConnId) (f : ServerFrame) (a : Agent) : Agent :=
  match f with
  | .job j _ image command _ => a.goto (.acking c j image command)
  | .cancel j _ => a.onCancel c j

def startReturned (c : ConnId) (jobId image : String) (command : List String)
    (outcome : StartOutcome) (a : Agent) : Agent :=
  match outcome with
  | .started =>
      let a' := a.startContainer jobId image command .running
      { a' with running := a'.running.set jobId a.nextContainer }.goto (.announcing c jobId a.nextContainer)
  | .failed error left =>
      (a.leaveContainer jobId image command left).goto
        (.reporting c (jobResult jobId 1 "" error (some error)))

def waitReturned (c : ConnId) (jobId : String) (id : ContainerId) (ok removed : Bool) (a : Agent) :
    Option Agent :=
  let a' := { a with running := a.running.pop jobId }.removeContainer removed id
  if ok then (a.exitOf id).map fun (x, out, err) => a'.goto (.reporting c (jobResult jobId x out err none))
  else some a'.endSession

def reattachEnd (i : Nat) (jobId : String) (a : Agent) : Agent :=
  { a with running := a.running.pop jobId, reattached := a.reattached.eraseIdx i }

def reattachWaited (i : Nat) (ok removed : Bool) (r : Reattach) (a : Agent) : Option Agent :=
  if r.result.isSome then none
  else if ok then
    (a.exitOf r.id).map fun (x, out, err) =>
      { a with reattached := a.reattached.set i { r with result := some (jobResult r.jobId x out err none) } }
        |>.removeContainer removed r.id
  else some ((a.reattachEnd i r.jobId).removeContainer removed r.id)

/-- The process dies and starts anew. A container that was being started may
come to be all the same. -/
def crashed (left : Option ContainerStatus) (a : Agent) : Agent :=
  let a' := match a.main with
    | .starting _ j image command => a.leaveContainer j image command left
    | _ => a
  { a' with running := .empty, main := .offline, heartbeat := none, reattached := [] }

def step (agentId : String) (inbox : ConnId → List ServerFrame) (label : AgentLabel) (a : Agent) :
    Option Agent :=
  match label, a.main with
  | .sent, _ => a.sent agentId
  | .sendFailed written, _ => a.sendFailed agentId written
  | .lost, .listening _ => some a.endSession
  | .read, .listening c => (inbox c)[a.read]?.map fun f => { a with read := a.read + 1 }.dispatch c f
  | .listed true, .listing c => some (a.goto (.reconciling c a.containers.entries))
  | .listed false, .listing c => some (a.listen c)
  | .examine, .reconciling c rest => some (a.reconcile c rest)
  | .inspected true, .inspecting c id j rest =>
      (a.exitOf id).map fun (x, out, err) => a.goto (.reportingExited c id (jobResult j x out err none) rest)
  | .inspected false, .inspecting _ _ _ _ => some a.endSession
  | .removed ok, .removing c id rest => some ((a.removeContainer ok id).goto (.reconciling c rest))
  | .startReturned outcome, .starting c j image command =>
      some (a.startReturned c j image command outcome)
  | .waitReturned ok removed, .waiting c j id => a.waitReturned c j id ok removed
  | .killed, .killing c _ => some (a.goto (.listening c))
  | .heartbeat ok written, _ =>
      a.heartbeat.map fun c =>
        let a' := if written then a.emit c (.heartbeat agentId) else a
        if ok then a' else { a' with heartbeat := none }
  | .reattachWaited i ok removed, _ => a.reattached[i]?.bind fun r => a.reattachWaited i ok removed r
  | .reattachSent i written, _ =>
      a.reattached[i]?.bind fun r => r.result.map fun result =>
        (if written then a.emit r.c result.frame else a).reattachEnd i r.jobId
  | .exited id x out err, _ =>
      match a.containers.get id with
      | some ⟨j, image, command, .running⟩ =>
          some { a with containers := a.containers.set id ⟨j, image, command, .exited x out err⟩ }
      | _ => none
  | .crashed left, _ => some (a.crashed left)
  | _, _ => none

end Agent

end JobSystem
