import JobSystem.Lib.Effect
import JobSystem.Lib.Encodings
import JobSystem.Lib.RoundTrip
import JobSystem.Logs.Durable
import JobSystem.Repository.Columns
import JobSystem.Server.State

namespace JobSystem

open Lib JsonDoc

/-- A websocket frame. The library closes a connection with a text frame that is not UTF-8. -/
inductive RawFrame
  | text (s : String)
  | binary (bs : List UInt8)
  deriving DecidableEq

namespace RawFrame

variable (it : Interpreter) (depth : Nat)

def loads : RawFrame → Except LoadsError JsonDoc
  | text s => JsonDoc.loads it depth (codes s.toList)
  | binary bs => loadsBytes it depth bs

/-- `_parse_message`. Its `None` is that of the text `null`. -/
def parseMessage (raw : RawFrame) : Except LoadsError JsonDoc :=
  match raw.loads it depth with
  | .error .decode => .ok .null
  | r => r

def Unparsable (raw : RawFrame) : Prop := ∃ e, raw.loads it depth = .error e

/-- `json.loads` raises something other than `JSONDecodeError`. -/
def Undecoded (raw : RawFrame) : Prop := ∃ e, raw.loads it depth = .error e ∧ e ≠ .decode

variable {it depth}

theorem parseMessage_error {raw : RawFrame} {e : LoadsError} (h : raw.parseMessage it depth = .error e) :
    raw.Undecoded it depth := by
  rw [parseMessage] at h
  split at h
  · cases h
  · next hne =>
      refine ⟨e, h, ?_⟩
      rintro rfl
      exact hne h

theorem parseMessage_undecoded {raw : RawFrame} (h : raw.Undecoded it depth) :
    ∃ e, raw.parseMessage it depth = .error e := by
  obtain ⟨e, he, hne⟩ := h
  refine ⟨e, ?_⟩
  rw [parseMessage, he]
  cases e with
  | decode => exact absurd rfl hne
  | _ => rfl

/-- What is no JSON text is dropped, unless it ends the handler. -/
theorem parseMessage_unparsable {raw : RawFrame} (h : raw.Unparsable it depth)
    (hdec : ¬ raw.Undecoded it depth) : raw.parseMessage it depth = .ok .null := by
  obtain ⟨e, he⟩ := h
  have hd : e = .decode := by
    by_contra hne
    exact hdec ⟨e, he, hne⟩
  rw [parseMessage, he, hd]

theorem parseMessage_dumps {room : Nat} {v : JsonDoc} {s : String} (hv : v.WellFormed it)
    (hs : v.dumps it room = .ok s) (hroom : room ≤ depth) : (text s).parseMessage it depth = .ok v := by
  rw [parseMessage, loads, loads_dumps hv hs hroom]

end RawFrame

def PyKey.truthy : PyKey → Bool
  | none => false
  | number x => x ≠ 0
  | special _ => true
  | str s => s ≠ ""
  | surrogate _ => true

end JobSystem

namespace Lib.JsonDoc

open JobSystem

/-- A value as the key of a dictionary. The floats that are no numbers are the constants of the
`json` module, so `NaN` is found again. -/
def key : JsonDoc → Option PyKey
  | .null => some .none
  | .bool b => some (.number (if b then 1 else 0))
  | .int n => some (.number n)
  | .float x => some (.number x)
  | .infinity negative => some (.special (.infinity negative))
  | .nan => some (.special .nan)
  | .str s => some (if ∀ c ∈ s, c.isValidChar then .str (String.ofList (s.map Char.ofNat)) else .surrogate s)
  | .arr _ | .obj _ => none

theorem text_codes (s : String) : String.ofList ((codes s.toList).map Char.ofNat) = s := by
  have hmap : (codes s.toList).map Char.ofNat = s.toList := by
    rw [codes, List.map_map]
    refine (List.map_congr_left fun c _ => ?_).trans (List.map_id _)
    exact Char.ofNat_toNat c
  rw [hmap, String.ofList_toList]

theorem isValidChar_codes (s : String) : ∀ c ∈ codes s.toList, c.isValidChar := by
  intro c hc
  obtain ⟨ch, -, rfl⟩ := List.mem_map.mp hc
  exact ch.valid

@[simp] theorem key_str (s : String) : (JsonDoc.str (field s)).key = some (.str s) :=
  congrArg some ((if_pos (isValidChar_codes s)).trans (congrArg PyKey.str (text_codes s)))

end Lib.JsonDoc

namespace JobSystem

open Lib JsonDoc

def SqlValue.toDoc : SqlValue → JsonDoc
  | null => .null
  | integer n => .int n
  | real x => .float x
  | infinity negative => .infinity negative
  | text s => .str (codes s.toList)
  | surrogate points => .str points

structure AgentEntry where
  agentId : PyKey
  ws : ConnId
  connectedAt : Instant
  lastHeartbeatAt : Instant
  inFlight : Nat
  deriving DecidableEq

/-- What a handler of the gateway raises: an exception of Python's own, or one of the callees. -/
inductive Fault
  | attributeError
  | typeError
  | keyError
  | raised
  deriving DecidableEq

/-- The job service, the stores and the log broker. A call may raise, and it works on their own data. -/
structure Services (σ : Type) where
  now : σ → Instant
  getJob (jobId : JsonDoc) : σ → Except Fault (Option JobRecord) × σ
  markRunning (jobId : JsonDoc) : σ → Except Fault (Option JobRecord) × σ
  markSucceeded (jobId exitCode stdout stderr : JsonDoc) : σ → Except Fault (Option JobRecord) × σ
  markFailed (jobId exitCode stdout stderr error : JsonDoc) : σ → Except Fault (Option JobRecord) × σ
  appendEvent (jobId : JsonDoc) (eventType : String) (payload : JsonDoc) : σ → Except Fault Unit × σ
  publish (jobId stream chunk : JsonDoc) : σ → Except Fault Unit × σ
  appendLog (jobId stream sequence chunk : JsonDoc) : σ → Except Fault Unit × σ

def Services.empty (now : Instant) : Services Unit where
  now _ := now
  getJob _ st := (.ok none, st)
  markRunning _ st := (.ok none, st)
  markSucceeded _ _ _ _ st := (.ok none, st)
  markFailed _ _ _ _ _ st := (.ok none, st)
  appendEvent _ _ _ st := (.ok (), st)
  publish _ _ _ st := (.ok (), st)
  appendLog _ _ _ _ st := (.ok (), st)

structure Gateway (σ : Type) where
  agents : Dict PyKey AgentEntry
  dispatchLocks : Dict PyKey Nat
  store : σ

namespace Gateway

variable {σ : Type}

def empty (store : σ) : Gateway σ := ⟨.empty, .empty, store⟩

/-- How a handler goes on after its last statement but the `await dispatch_pending(agent_id)`: it has returned
the id of its connection, or it returns it when that call does. -/
inductive Handled
  | returned (agentId : PyKey)
  | dispatching (agentId : PyKey)
  deriving DecidableEq

abbrev Fields := List (List Nat × JsonDoc)

def item (name : String) (message : Fields) : Effect Fault (Gateway σ) JsonDoc :=
  match Dict.lookup (field name) message with
  | some v => pure v
  | none => throw .keyError

def getD (name : String) (default : JsonDoc) (message : Fields) : JsonDoc :=
  (Dict.lookup (field name) message).getD default

def hashed (v : JsonDoc) : Effect Fault (Gateway σ) PyKey :=
  match v.key with
  | some k => pure k
  | none => throw .typeError

def onStore {α : Type} (f : σ → Except Fault α × σ) : Effect Fault (Gateway σ) α :=
  .call fun g => ((f g.store).1, { g with store := (f g.store).2 })

def onEntry (agentId : PyKey) (f : AgentEntry → AgentEntry) (g : Gateway σ) : Gateway σ :=
  match g.agents.get agentId with
  | some conn => { g with agents := g.agents.set agentId (f conn) }
  | none => g

variable (svc : Services σ) (ws : ConnId)

def register (agentId : PyKey) (g : Gateway σ) : Gateway σ :=
  let now := svc.now g.store
  { g with agents := g.agents.set agentId ⟨agentId, ws, now, now, 0⟩ }

def touch (agentId : PyKey) (g : Gateway σ) : Gateway σ :=
  onEntry agentId (fun conn => { conn with lastHeartbeatAt := svc.now g.store }) g

def markFree (agentId : PyKey) : Gateway σ → Gateway σ :=
  onEntry agentId fun conn => { conn with inFlight := conn.inFlight - 1 }

def logExtra (jobId : JsonDoc) : Effect Fault (Gateway σ) Unit := do
  let _ ← onStore (svc.getJob jobId)

def onRegister (message : Fields) (_ : PyKey) : Effect Fault (Gateway σ) Handled := do
  let newAgentId ← hashed (← item "agent_id" message)
  .update (register svc ws newAgentId)
  return .dispatching newAgentId

def onAck (message : Fields) (agentId : PyKey) : Effect Fault (Gateway σ) Handled := do
  let jobId ← item "job_id" message
  onStore (svc.appendEvent jobId "ack" (.obj []))
  logExtra svc jobId
  return .returned agentId

def onStarted (message : Fields) (agentId : PyKey) : Effect Fault (Gateway σ) Handled := do
  let jobId ← item "job_id" message
  match ← onStore (svc.markRunning jobId) with
  | some job =>
      onStore (svc.appendEvent jobId "started" (.obj [(field "state", .str (field job.state.value))]))
      logExtra svc jobId
      return .returned agentId
  | none => return .returned agentId

def onLog (message : Fields) (agentId : PyKey) : Effect Fault (Gateway σ) Handled := do
  let jobId ← item "job_id" message
  let stream ← item "stream" message
  let chunk ← item "chunk" message
  onStore (svc.publish jobId stream chunk)
  let sequence ← item "sequence" message
  onStore (svc.appendLog jobId stream sequence chunk)
  return .returned agentId

def freeSlot (agentId : PyKey) : Effect Fault (Gateway σ) Handled :=
  if agentId.truthy then do
    .update (markFree agentId)
    return .dispatching agentId
  else return .returned agentId

def complete (jobId exitCode stdout stderr error : JsonDoc) : Effect Fault (Gateway σ) (Option JobRecord) :=
  if error.truthy then onStore (svc.markFailed jobId exitCode stdout stderr error)
  -- `False` and the float zero are equal to 0 as well.
  else if exitCode.key = some (.number 0) then onStore (svc.markSucceeded jobId exitCode stdout stderr)
  else onStore (svc.markFailed jobId exitCode stdout stderr .null)

def onResult (message : Fields) (agentId : PyKey) : Effect Fault (Gateway σ) Handled := do
  let jobId ← item "job_id" message
  let exitCode ← item "exit_code" message
  let stdout := getD "stdout" (.str []) message
  let stderr := getD "stderr" (.str []) message
  let error := getD "error" .null message
  match ← complete svc jobId exitCode stdout stderr error with
  | some job =>
      onStore (svc.appendEvent jobId "result"
        (.obj [(field "state", .str (field job.state.value)), (field "exit_code", job.exitCode.toDoc)]))
      logExtra svc jobId
      freeSlot agentId
  | none => freeSlot agentId

def onHeartbeat (_ : Fields) (agentId : PyKey) : Effect Fault (Gateway σ) Handled :=
  if agentId = .none then return .returned agentId
  else do
    .update (touch svc agentId)
    return .returned agentId

def onReconcile (message : Fields) (agentId : PyKey) : Effect Fault (Gateway σ) Handled := do
  let jobId ← item "job_id" message
  onStore (svc.appendEvent jobId "reconciled" (.obj [(field "status", getD "status" .null message)]))
  logExtra svc jobId
  return .returned agentId

def handlers : List (PyKey × (Fields → PyKey → Effect Fault (Gateway σ) Handled)) :=
  [(.str "register", onRegister svc ws),
    (.str "ack", onAck svc),
    (.str "started", onStarted svc),
    (.str "log", onLog svc),
    (.str "result", onResult svc),
    (.str "heartbeat", onHeartbeat svc),
    (.str "reconcile", onReconcile svc)]

def dispatch (message : JsonDoc) (agentId : PyKey) : Effect Fault (Gateway σ) Handled :=
  match message with
  | .obj fields =>
      match getD "type" .null fields with
      | .null => return .returned agentId
      | messageType => do
          let k ← hashed messageType
          match Dict.lookup k (handlers svc ws) with
          | some handler => handler fields agentId
          | none => return .returned agentId
  | _ => throw .attributeError

def safeDispatch (message : JsonDoc) (agentId : PyKey) (g : Gateway σ) : Handled × Gateway σ :=
  (dispatch svc ws message agentId).guarded (.returned agentId) g

end Gateway

end JobSystem
