import JobSystem.Lib.Dict
import JobSystem.Lib.Mutex
import JobSystem.Repository.SQLite
import Mathlib.Logic.Function.Basic

namespace JobSystem

open Lib

abbrev ConnId := Nat

/-- An `AgentConnection` object, which a coroutine can hold on to after the
registry has forgotten it. -/
abbrev ObjId := Nat

inductive AgentFrame
  | register (agentId : String)
  | ack (jobId : String)
  | started (jobId : String)
  | log (jobId stream : String) (sequence : Int) (chunk : String)
  | result (jobId : String) (exitCode : Int) (stdout stderr : PyStr) (error : Option PyStr)
  | heartbeat (agentId : String)
  | reconcile (jobId status : String) (exitCode : Option Int)
  deriving DecidableEq

inductive ServerFrame
  | job (jobId correlationId image : String) (command : List String) (timeoutMs : Int)
  | cancel (jobId reason : String)
  deriving DecidableEq

namespace ServerFrame

def isJob (j : String) : ServerFrame → Bool
  | job k _ _ _ _ => k = j
  | cancel _ _ => false

def isCancel (j : String) : ServerFrame → Bool
  | job _ _ _ _ _ => false
  | cancel k _ => k = j

end ServerFrame

structure AgentConnection where
  agentId : String
  ws : ConnId
  connectedAt : Instant
  lastHeartbeatAt : Instant
  inFlight : Nat
  deriving DecidableEq

namespace AgentConnection

def touch (t : Instant) (conn : AgentConnection) : AgentConnection := { conn with lastHeartbeatAt := t }

def markBusy (conn : AgentConnection) : AgentConnection := { conn with inFlight := conn.inFlight + 1 }

def markFree (conn : AgentConnection) : AgentConnection := { conn with inFlight := conn.inFlight - 1 }

def isIdle (conn : AgentConnection) : Bool := conn.inFlight = 0

end AgentConnection

/-- The dictionary `_agents` and the connection objects made so far. An entry
leads to an object that was made for its key. -/
structure AgentRegistry where
  agents : Dict String ObjId
  conns : ObjId → AgentConnection
  next : ObjId
  keyed : ∀ {a o}, agents.get a = some o → o < next ∧ (conns o).agentId = a

namespace AgentRegistry

def empty : AgentRegistry := ⟨.empty, fun _ => ⟨"", 0, .epoch, .epoch, 0⟩, 0, by simp⟩

def register (agentId : String) (ws : ConnId) (t : Instant) (r : AgentRegistry) : AgentRegistry where
  agents := r.agents.set agentId r.next
  conns := Function.update r.conns r.next ⟨agentId, ws, t, t, 0⟩
  next := r.next + 1
  keyed := by
    intro a o h
    rw [Dict.get_set] at h
    split at h
    · next ha =>
        cases h
        exact ⟨Nat.lt_succ_self _, by rw [Function.update_self, ha]⟩
    · obtain ⟨ho, hk⟩ := r.keyed h
      exact ⟨Nat.lt_succ_of_lt ho, by rwa [Function.update_of_ne (Nat.ne_of_lt ho)]⟩

def unregister (agentId : String) (r : AgentRegistry) : AgentRegistry where
  agents := r.agents.pop agentId
  conns := r.conns
  next := r.next
  keyed h := r.keyed (Dict.get_of_get_pop h)

def get (agentId : String) (r : AgentRegistry) : Option ObjId := r.agents.get agentId

def isOnline (agentId : String) (r : AgentRegistry) : Bool := r.agents.contains agentId

def onConn (o : ObjId) (f : AgentConnection → AgentConnection)
    (hf : ∀ conn, (f conn).agentId = conn.agentId) (r : AgentRegistry) : AgentRegistry where
  agents := r.agents
  conns := Function.update r.conns o (f (r.conns o))
  next := r.next
  keyed := by
    intro a o' h
    obtain ⟨ho, hk⟩ := r.keyed h
    refine ⟨ho, ?_⟩
    by_cases he : o' = o
    · subst o'
      rw [Function.update_self, hf, hk]
    · rwa [Function.update_of_ne he]

def markBusy (o : ObjId) (r : AgentRegistry) : AgentRegistry := r.onConn o .markBusy fun _ => rfl

def markFree (o : ObjId) (r : AgentRegistry) : AgentRegistry := r.onConn o .markFree fun _ => rfl

def touch (agentId : String) (t : Instant) (r : AgentRegistry) : AgentRegistry :=
  match r.get agentId with
  | none => r
  | some o => r.onConn o (.touch t) fun _ => rfl

def staleAgents (now : Instant) (maxIdle : Int) (r : AgentRegistry) : List AgentConnection :=
  (r.agents.values.map r.conns).filter fun conn => maxIdle < now.elapsed conn.lastHeartbeatAt

end AgentRegistry

/-- A lock object made for an agent id. The serial number tells it from the
other locks that were made for the same id. -/
structure LockRef where
  agentId : String
  serial : Nat
  deriving DecidableEq

/-- The tasks of the event loop that can suspend: a handler for every
connection, the HTTP requests, and the watchers with an `await` in their scan. -/
inductive Coro
  | handler (c : ConnId)
  | api (n : Nat)
  | ackWatcher
  | timeoutWatcher
  deriving DecidableEq

/-- The dictionary `_dispatch_locks` and the lock objects made so far. -/
structure DispatchLocks where
  locks : Dict String LockRef
  mutexes : LockRef → Mutex Coro
  next : Nat
  keyed : ∀ {a l}, locks.get a = some l → l.agentId = a ∧ l.serial < next

namespace DispatchLocks

def empty : DispatchLocks := ⟨.empty, fun _ => .new, 0, by simp⟩

def lockFor (agentId : String) (d : DispatchLocks) : LockRef × DispatchLocks :=
  match d.locks.get agentId with
  | some lock => (lock, d)
  | none =>
      let lock : LockRef := ⟨agentId, d.next⟩
      (lock, {
        locks := d.locks.set agentId lock
        mutexes := d.mutexes
        next := d.next + 1
        keyed := by
          intro a l h
          rw [Dict.get_set] at h
          split at h
          · next ha => cases h; exact ⟨ha.symm, Nat.lt_succ_self _⟩
          · obtain ⟨hk, hn⟩ := d.keyed h
            exact ⟨hk, Nat.lt_succ_of_lt hn⟩ })

def update (l : LockRef) (m : Mutex Coro) (d : DispatchLocks) : DispatchLocks :=
  { d with mutexes := Function.update d.mutexes l m }

@[simp] theorem mutexes_update (l : LockRef) (m : Mutex Coro) (d : DispatchLocks) :
    (d.update l m).mutexes = Function.update d.mutexes l m := rfl

def forget (agentId : String) (d : DispatchLocks) : DispatchLocks where
  locks := d.locks.pop agentId
  mutexes := d.mutexes
  next := d.next
  keyed h := d.keyed (Dict.get_of_get_pop h)

end DispatchLocks

structure Event where
  jobId : String
  eventType : String
  payload : List (String × Json)
  createdAt : Instant

inductive Return
  | register (c : ConnId) (agentId : String)
  | result
  | submit (jobId : String)
  | scan (now : Instant) (rest : List Job)

inductive CancelReturn
  | user (n : Nat)
  | fire (now : Instant) (rest : List Job)

/-- The point at which a task stands. `acquiring`, `sending` and
`sendingCancel` are its suspension points. -/
inductive Ctl
  | dispatch (agentId : String) (k : Return)
  | acquiring (lock : LockRef) (k : Return)
  | locked (lock : LockRef) (k : Return)
  | sending (lock : LockRef) (conn : ObjId) (job : Job) (k : Return)
  | scanAck (now : Instant) (jobs : List Job)
  | scanTimeout (now : Instant) (jobs : List Job)
  | sendCancel (job : Job) (k : CancelReturn)
  | sendingCancel (job : Job) (k : CancelReturn)

/-- What happened, for statements about whole runs. Nothing in the program
reads it. -/
inductive Obs
  | registered (c : ConnId) (agentId : String)
  | jobWritten (c : ConnId) (jobId : String)
  | jobSent (c : ConnId) (jobId : String)
  | acked (c : ConnId) (jobId : String)
  | requeued (jobId : String)
  | failedNoAck (jobId : String)
  | resultProcessed (c : ConnId) (jobId : String)
  | cancelResponse (n : Nat) (jobId : String) (state : JobState)
  deriving DecidableEq

/-- The server process. At most one task runs at a time: `loop` is the one
that has not come to its next suspension point. -/
structure Server where
  clock : Instant
  jobs : JobTable
  events : List Event
  agents : AgentRegistry
  dispatchLocks : DispatchLocks
  nextConn : ConnId
  sockets : ConnId → Bool
  handlers : ConnId → Option (Option String)
  outbox : ConnId → List ServerFrame
  ctl : Coro → Option Ctl
  loop : Option Coro
  history : List Obs

namespace Server

def start (jobs : JobTable) : Server where
  clock := .epoch
  jobs := jobs
  events := []
  agents := .empty
  dispatchLocks := .empty
  nextConn := 0
  sockets := fun _ => false
  handlers := fun _ => none
  outbox := fun _ => []
  ctl := fun _ => none
  loop := none
  history := []

def goto (co : Coro) (x : Ctl) (s : Server) : Server :=
  { s with ctl := Function.update s.ctl co (some x), loop := some co }

def suspend (co : Coro) (x : Ctl) (s : Server) : Server :=
  { s with ctl := Function.update s.ctl co (some x), loop := none }

def finish (co : Coro) (s : Server) : Server :=
  { s with ctl := Function.update s.ctl co none, loop := none }

def event (jobId eventType : String) (payload : List (String × Json)) (s : Server) : Server :=
  { s with events := s.events ++ [⟨jobId, eventType, payload, s.clock⟩] }

def note (x : Obs) (s : Server) : Server := { s with history := x :: s.history }

def noteIf (b : Bool) (x : Obs) (s : Server) : Server :=
  { s with history := if b then x :: s.history else s.history }

def write (c : ConnId) (f : ServerFrame) (s : Server) : Server :=
  { s with outbox := Function.update s.outbox c (s.outbox c ++ [f]) }

end Server

end JobSystem
