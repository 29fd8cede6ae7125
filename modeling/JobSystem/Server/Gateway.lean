import JobSystem.JobService
import JobSystem.Server.State
import Mathlib.Data.Prod.Lex
import Mathlib.Data.Int.Order.Basic

namespace JobSystem

open Lib

namespace Server

def unlock (l : LockRef) (s : Server) : Server :=
  { s with dispatchLocks := s.dispatchLocks.update l (s.dispatchLocks.mutexes l).release }

def resume (co : Coro) (k : Return) (s : Server) : Server :=
  match k with
  | .register c a => { s with handlers := Function.update s.handlers c (some (some a)) }.finish co
  | .result | .submit _ => s.finish co
  | .scan now rest => s.goto co (.scanAck now rest)

def leave (co : Coro) (l : LockRef) (k : Return) (s : Server) : Server := (s.unlock l).resume co k

/-- An exception inside the critical section. Every caller catches it and only
logs: a handler keeps its binding and a scan is given up. -/
def abort (co : Coro) (l : LockRef) (s : Server) : Server := (s.unlock l).finish co

def dispatchPending (co : Coro) (agentId : String) (k : Return) (s : Server) : Server :=
  let (l, d) := s.dispatchLocks.lockFor agentId
  if (d.mutexes l).free then
    { s with dispatchLocks := d.update l ((d.mutexes l).hold co) }.goto co (.locked l k)
  else { s with dispatchLocks := d.update l ((d.mutexes l).enqueue co) }.suspend co (.acquiring l k)

def acquired (co : Coro) (l : LockRef) (k : Return) (s : Server) : Option Server :=
  match (s.dispatchLocks.mutexes l).wake with
  | some (first, m) =>
      if first = co then
        some ({ s with dispatchLocks := s.dispatchLocks.update l m }.goto co (.locked l k))
      else none
  | none => none

def pendingJobs (agentId : String) (jobs : JobTable) : List Job :=
  sorted (fun j => toLex (j.priority, j.createdAt.isoformat))
    (JobService.list sqliteJobRepository (some agentId) (some .pending) jobs)

def jobMessage (job : Job) : ServerFrame :=
  .job job.jobId job.correlationId job.image job.command job.timeoutMs

/-- The critical section up to the suspended send. On a closed socket the send
fails at once and `_send` returns `False`. -/
def critical (co : Coro) (l : LockRef) (k : Return) (s : Server) : Server :=
  match s.agents.get l.agentId with
  | none => s.leave co l k
  | some o =>
      let conn := s.agents.conns o
      if !conn.isIdle then s.leave co l k
      else match pendingJobs l.agentId s.jobs with
        | [] => s.leave co l k
        | job :: _ =>
            if s.sockets conn.ws then
              ((s.write conn.ws (jobMessage job)).note (.jobWritten conn.ws job.jobId)).suspend co
                (.sending l o job k)
            else s.leave co l k

/-- The critical section after a successful send. With `storeFails` the write
of the store raises, as it also does for values that cannot be bound. -/
def sent (co : Coro) (l : LockRef) (o : ObjId) (job : Job) (k : Return) (storeFails : Bool)
    (s : Server) : Server :=
  let s := { s with agents := s.agents.markBusy o }.note (.jobSent (s.agents.conns o).ws job.jobId)
  if storeFails then s.abort co l
  else match JobService.markDispatchedWithAttempt sqliteJobRepository s.clock s.clock job.jobId s.jobs with
    | .error _ => s.abort co l
    | .ok (updated, jobs) =>
        let attempt := updated.elim job.dispatchAttempts (·.dispatchAttempts)
        ({ s with jobs := jobs }.event job.jobId "dispatched" [("attempt", .int attempt)]).leave co l k

def onRegister (c : ConnId) (agentId : String) (s : Server) : Server :=
  ({ s with agents := s.agents.register agentId c s.clock }.note (.registered c agentId)).goto
    (.handler c) (.dispatch agentId (.register c agentId))

def onAck (c : ConnId) (jobId : String) (s : Server) : Server :=
  (s.event jobId "ack" []).note (.acked c jobId)

def onStarted (jobId : String) (s : Server) : Server :=
  match JobService.markRunning sqliteJobRepository s.clock jobId s.jobs with
  | .error _ => s
  | .ok (none, jobs) => { s with jobs := jobs }
  | .ok (some job, jobs) =>
      { s with jobs := jobs }.event jobId "started" [("state", .str job.state.value)]

def complete (jobId : String) (exitCode : Int) (stdout stderr : PyStr) (error : Option PyStr)
    (s : Server) : Except PyError (Option Job × JobTable) :=
  if PyStr.truthy error then
    JobService.markFailed sqliteJobRepository s.clock jobId exitCode stdout stderr error s.jobs
  else if exitCode = 0 then
    JobService.markSucceeded sqliteJobRepository s.clock jobId exitCode stdout stderr s.jobs
  else JobService.markFailed sqliteJobRepository s.clock jobId exitCode stdout stderr none s.jobs

def freeSlot (agentId : String) (agents : AgentRegistry) : AgentRegistry :=
  match agents.get agentId with
  | none => agents
  | some o => agents.markFree o

def onResult (c : ConnId) (agentId : Option String) (jobId : String) (exitCode : Int)
    (stdout stderr : PyStr) (error : Option PyStr) (s : Server) : Server :=
  let s := s.note (.resultProcessed c jobId)
  match s.complete jobId exitCode stdout stderr error with
  | .error _ => s
  | .ok (job, jobs) =>
      let s := { s with jobs := jobs }
      let s := match job with
        | none => s
        | some job => s.event jobId "result"
            [("state", .str job.state.value), ("exit_code", job.exitCode.elim .null .int)]
      match agentId with
      | none => s
      | some a =>
          if a = "" then s
          else { s with agents := freeSlot a s.agents }.goto (.handler c) (.dispatch a .result)

def onHeartbeat (agentId : Option String) (s : Server) : Server :=
  match agentId with
  | none => s
  | some a => { s with agents := s.agents.touch a s.clock }

def onReconcile (jobId status : String) (s : Server) : Server :=
  s.event jobId "reconciled" [("status", .str status)]

/-- `_dispatch`. A message that cannot be parsed, has an unknown type or lacks
a field leaves no trace, and `_on_log` touches only the log broker and the
table of logs. -/
def onFrame (c : ConnId) (agentId : Option String) (f : Option AgentFrame) (s : Server) : Server :=
  match f with
  | none => s
  | some (.register a) => s.onRegister c a
  | some (.ack j) => s.onAck c j
  | some (.started j) => s.onStarted j
  | some (.log _ _ _ _) => s
  | some (.result j x o e err) => s.onResult c agentId j x o e err
  | some (.heartbeat _) => s.onHeartbeat agentId
  | some (.reconcile j status _) => s.onReconcile j status

def endHandler (c : ConnId) (agentId : Option String) (s : Server) : Server :=
  let s := { s with
    handlers := Function.update s.handlers c none
    sockets := Function.update s.sockets c false }
  match agentId with
  | none => s
  | some a =>
      if a = "" then s
      else { s with agents := s.agents.unregister a, dispatchLocks := s.dispatchLocks.forget a }

end Server

end JobSystem
