import JobSystem.Lib.Machine
import JobSystem.Server.Gateway

namespace JobSystem

open Lib

structure Config where
  ackTimeout : Int
  maxDispatchAttempts : Int
  maxIdle : Int

/-- `DEFAULT_ACK_TIMEOUT_SECONDS`, `DEFAULT_MAX_DISPATCH_ATTEMPTS`, and three
missed beats of `DEFAULT_HEARTBEAT_INTERVAL_SECONDS`. -/
def Config.default : Config := ⟨5000000, 3, 30000000⟩

structure SubmitJobRequest where
  agentId : String
  image : String
  command : List String
  timeoutMs : Int
  idempotencyKey : Option String
  priority : Int
  metadata : List (String × Json)
  agentId_ne : agentId ≠ ""
  image_ne : image ≠ ""
  command_ne : command ≠ []
  timeoutMs_pos : 0 < timeoutMs
  priority_mem : 0 ≤ priority ∧ priority ≤ 2

def SubmitJobRequest.toRequest (req : SubmitJobRequest) : Request :=
  ⟨req.agentId, req.image, req.command, req.timeoutMs, req.idempotencyKey, req.priority, some req.metadata⟩

def SubmitJobRequest.alpine (agentId : String) (h : agentId ≠ "") : SubmitJobRequest :=
  ⟨agentId, "alpine", ["true"], 60000, none, 0, [], h, by decide, by decide, by decide, by decide⟩

theorem agent_1_ne : "agent-1" ≠ "" := by decide

theorem agent_2_ne : "agent-2" ≠ "" := by decide

inductive SendOutcome
  | sent
  | closed
  | sentStoreFails
  deriving DecidableEq

/-- The choices of the environment: clock, network, requests, and which task
the event loop resumes. -/
inductive Label
  | tick (t : Instant)
  | connect
  | drop (c : ConnId)
  | handlerEnd (c : ConnId)
  | frame (c : ConnId) (f : Option AgentFrame)
  | submit (n : Nat) (jobId correlationId : String) (req : SubmitJobRequest)
  | cancel (n : Nat) (jobId : String)
  | ackScan
  | timeoutScan
  | heartbeatScan
  | wake (co : Coro)
  | sendReturned (co : Coro) (outcome : SendOutcome)
  | run

def CancelReturn.reason : CancelReturn → String
  | .user _ => "user"
  | .fire _ _ => "timeout"

namespace Server

def isDispatched (jobId : String) (s : Server) : Bool :=
  (sqliteJobRepository.get jobId s.jobs).any fun job => job.state = .dispatched

def isOpen (jobId : String) (s : Server) : Bool :=
  (sqliteJobRepository.get jobId s.jobs).any fun job => !job.state.isTerminal

def onAckTimeout (cfg : Config) (now : Instant) (job : Job) (rest : List Job) (s : Server) : Server :=
  if cfg.maxDispatchAttempts ≤ job.dispatchAttempts then
    let error := "No ack after " ++ toString cfg.maxDispatchAttempts ++ " dispatch attempts"
    match JobService.failStaleDispatch sqliteJobRepository s.clock s.clock job.jobId error s.jobs with
    | .error _ => s.finish .ackWatcher
    | .ok (_, jobs) =>
        let s := s.noteIf (s.isOpen job.jobId) (.failedNoAck job.jobId)
        ({ s with jobs := jobs }.event job.jobId "failed"
          [("reason", .str "no_ack"), ("attempts", .int job.dispatchAttempts)]).goto
          .ackWatcher (.scanAck now rest)
  else
    match JobService.requeue sqliteJobRepository s.clock job.jobId s.jobs with
    | .error _ => s.finish .ackWatcher
    | .ok (_, jobs) =>
        let s := s.noteIf (s.isDispatched job.jobId) (.requeued job.jobId)
        ({ s with jobs := jobs }.event job.jobId "requeued"
          [("attempt", .int job.dispatchAttempts)]).goto
          .ackWatcher (.dispatch job.agentId (.scan now rest))

def ackOverdue (cfg : Config) (now : Instant) (job : Job) : Bool :=
  cfg.ackTimeout < now.elapsed job.updatedAt

def scanAck (cfg : Config) (now : Instant) (jobs : List Job) (s : Server) : Server :=
  match jobs with
  | [] => s.finish .ackWatcher
  | job :: rest =>
      if ackOverdue cfg now job then s.onAckTimeout cfg now job rest
      else s.goto .ackWatcher (.scanAck now rest)

def timeoutOverdue (now : Instant) (job : Job) : Bool :=
  job.startedAt.any fun started => job.timeoutMs * 1000 < now.elapsed started

def scanTimeout (now : Instant) (jobs : List Job) (s : Server) : Server :=
  match jobs with
  | [] => s.finish .timeoutWatcher
  | job :: rest =>
      if timeoutOverdue now job then s.goto .timeoutWatcher (.sendCancel job (.fire now rest))
      else s.goto .timeoutWatcher (.scanTimeout now rest)

def cancelSent (co : Coro) (job : Job) (k : CancelReturn) (s : Server) : Server :=
  match k with
  | .fire now rest =>
      match JobService.markTimedOut sqliteJobRepository s.clock job.jobId s.jobs with
      | .error _ => s.finish co
      | .ok (_, jobs) =>
          ({ s with jobs := jobs }.event job.jobId "timed_out" [("timeout_ms", .int job.timeoutMs)]).goto
            co (.scanTimeout now rest)
  | .user n =>
      match JobService.markCancelled sqliteJobRepository s.clock job.jobId s.jobs with
      | .error _ => s.finish co
      | .ok (updated, jobs) =>
          (({ s with jobs := jobs }.event job.jobId "cancelled" [("by", .str "user")]).note
            (.cancelResponse n job.jobId (updated.elim job.state (·.state)))).finish co

def sendCancel (co : Coro) (job : Job) (k : CancelReturn) (s : Server) : Server :=
  match s.agents.get job.agentId with
  | none => s.cancelSent co job k
  | some o =>
      let ws := (s.agents.conns o).ws
      if s.sockets ws then
        (s.write ws (.cancel job.jobId k.reason)).suspend co (.sendingCancel job k)
      else s.cancelSent co job k

/-- The next piece of a running task, up to a point where it may suspend. -/
def runPiece (cfg : Config) (co : Coro) (x : Ctl) (s : Server) : Option Server :=
  match co, x with
  | co, .dispatch a k => some (s.dispatchPending co a k)
  | co, .locked l k => some (s.critical co l k)
  | .ackWatcher, .scanAck now jobs => some (s.scanAck cfg now jobs)
  | .timeoutWatcher, .scanTimeout now jobs => some (s.scanTimeout now jobs)
  | co, .sendCancel job k => some (s.sendCancel co job k)
  | _, _ => none

def sendReturned (co : Coro) (outcome : SendOutcome) (x : Ctl) (s : Server) : Option Server :=
  match x, outcome with
  | .sending l o job k, .sent => some (s.sent co l o job k false)
  | .sending l o job k, .sentStoreFails => some (s.sent co l o job k true)
  | .sending l o _ k, .closed => if s.sockets (s.agents.conns o).ws then none else some (s.leave co l k)
  | .sendingCancel job k, .sent | .sendingCancel job k, .closed => some (s.cancelSent co job k)
  | _, _ => none

def submitJob (n : Nat) (jobId correlationId : String) (req : SubmitJobRequest) (s : Server) : Server :=
  match JobService.submit sqliteJobRepository jobId correlationId s.clock s.clock req.toRequest s.jobs with
  | .error _ => s
  | .ok (job, jobs) =>
      ({ s with jobs := jobs }.event job.jobId "submitted"
        [("agent_id", .str job.agentId), ("image", .str job.image), ("priority", .int job.priority)]).goto
        (.api n) (.dispatch req.agentId (.submit job.jobId))

def cancelJob (n : Nat) (jobId : String) (s : Server) : Server :=
  match JobService.get sqliteJobRepository jobId s.jobs with
  | none => s
  | some job => if job.state.isTerminal then s else s.goto (.api n) (.sendCancel job (.user n))

def heartbeatScan (cfg : Config) (s : Server) : Server :=
  { s with
    agents := (s.agents.staleAgents s.clock cfg.maxIdle).foldl (fun r conn => r.unregister conn.agentId)
      s.agents }

def idle (co : Coro) (s : Server) : Bool := s.loop.isNone && (s.ctl co).isNone

def step (cfg : Config) (label : Label) (s : Server) : Option Server :=
  match label with
  | .tick t => some { s with clock := t }
  | .connect =>
      if s.loop.isNone then
        some { s with
          nextConn := s.nextConn + 1
          sockets := Function.update s.sockets s.nextConn true
          handlers := Function.update s.handlers s.nextConn (some none) }
      else none
  | .drop c =>
      if s.loop.isNone then some { s with sockets := Function.update s.sockets c false } else none
  | .handlerEnd c =>
      match s.handlers c with
      | some agentId => if s.idle (.handler c) then some (s.endHandler c agentId) else none
      | none => none
  | .frame c f =>
      match s.handlers c with
      | some agentId => if s.idle (.handler c) then some (s.onFrame c agentId f) else none
      | none => none
  | .submit n jobId correlationId req =>
      if s.idle (.api n) then some (s.submitJob n jobId correlationId req) else none
  | .cancel n jobId => if s.idle (.api n) then some (s.cancelJob n jobId) else none
  | .ackScan =>
      if s.idle .ackWatcher then
        some (s.goto .ackWatcher
          (.scanAck s.clock (JobService.list sqliteJobRepository none (some .dispatched) s.jobs)))
      else none
  | .timeoutScan =>
      if s.idle .timeoutWatcher then
        some (s.goto .timeoutWatcher
          (.scanTimeout s.clock (JobService.list sqliteJobRepository none (some .running) s.jobs)))
      else none
  | .heartbeatScan => if s.loop.isNone then some (s.heartbeatScan cfg) else none
  | .wake co =>
      match s.ctl co with
      | some (.acquiring l k) => if s.loop.isNone then s.acquired co l k else none
      | _ => none
  | .sendReturned co outcome =>
      match s.ctl co with
      | some x => if s.loop.isNone then s.sendReturned co outcome x else none
      | none => none
  | .run =>
      match s.loop with
      | some co =>
          match s.ctl co with
          | some x => s.runPiece cfg co x
          | none => none
      | none => none

def machine (cfg : Config) (jobs : JobTable) : Machine Server Label := ⟨start jobs, step cfg⟩

end Server

end JobSystem
