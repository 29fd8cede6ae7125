import JobSystem.Agent.Simulation
import JobSystem.Server.Api
import JobSystem.Server.WireRuns

namespace JobSystem

open Lib JsonDoc

namespace OnJob

variable {jobId : String} {id : ContainerId} {run : ContainerRun} {s t : OnJob} {label : OnJobLabel}
  {running : Dict String ContainerId} {sequences : Dict String Nat}

theorem sent_of_raised (h : s.step jobId id run label = some t) (ht : t.ctl.ended = some false) : t.sent = s.sent := by
  unfold step at h
  split at h <;> cases h
  · cases ht
  · rw [startReturned] at ht ⊢
    split <;> rfl
  · cases ht
  · rfl
  · rw [fetched]
    split <;> rfl
  · next seq text rest hx _ =>
      have hwaiting : s.ctl.ended = some false := ht
      rw [hx] at hwaiting
      cases hwaiting
  · rfl
  · have hsent : ({ s with running := s.running.pop jobId }.cancelStreaming jobId).sent = s.sent := sent_cancelStreaming
    rw [waitReturned]
    split <;> exact hsent
  · cases ht

theorem filter_logFrames (jobId : String) (texts : List String) :
    (logFrames jobId texts).filter AgentFrame.isLog = logFrames jobId texts := by
  refine List.filter_eq_self.mpr fun f hf => ?_
  obtain ⟨p, -, rfl⟩ := List.mem_map.mp hf
  rfl

theorem Logged.filter {frames : List AgentFrame} {lost : List String} (h : Logged jobId run frames lost) :
    ∃ texts, frames.filter AgentFrame.isLog = logFrames jobId texts ∧
      texts ++ lost = ContainerRun.streamLogs run.chunks := by
  obtain ⟨texts, hall, rfl⟩ := h
  exact ⟨texts, filter_logFrames jobId texts, hall⟩

def Streams (jobId : String) (run : ContainerRun) (frames : List AgentFrame) (rest : List String) : Prop :=
  ∃ texts, frames.filter AgentFrame.isLog = logFrames jobId texts ∧ texts ++ rest = ContainerRun.streamLogs run.chunks

theorem streams_nil {frames : List AgentFrame} (h : frames.filter AgentFrame.isLog = []) :
    Streams jobId run frames (ContainerRun.streamLogs run.chunks) := ⟨[], h, rfl⟩

theorem Reports.streams {frames : List AgentFrame} {lost : List String} {r : JobResult}
    (h : Reports jobId run frames lost r) :
    (∃ rest, Streams jobId run frames rest) ∧ (run.start = .started → Streams jobId run frames lost) := by
  rcases h with ⟨error, left, hfailed, rfl, -⟩ | ⟨-, hlogged, -⟩
  · refine ⟨⟨_, streams_nil rfl⟩, fun hstart => ?_⟩
    rw [hstart] at hfailed
    cases hfailed
  · exact ⟨⟨lost, hlogged.filter⟩, fun _ => hlogged.filter⟩

theorem Streams.tail {frames : List AgentFrame} {rest : List String} (h : Streams jobId run frames rest)
    (r : JobResult) : Streams jobId run (frames ++ [r.frame]) rest := by
  obtain ⟨texts, hfilter, hall⟩ := h
  refine ⟨texts, ?_, hall⟩
  rw [List.filter_append, hfilter]
  exact List.append_nil _

theorem Progress.streams {lost : List String} (hP : Progress jobId run s lost) (hs : s.ctl.ended ≠ some false) :
    (∃ rest, Streams jobId run s.sent rest) ∧
      (run.start = .started → s.ctl.ended = some true → Streams jobId run s.sent lost) := by
  rw [Progress] at hP
  cases hx : s.ctl with
  | acking | starting =>
      rw [hx] at hP
      refine ⟨⟨_, streams_nil ?_⟩, by rintro - ⟨⟩⟩
      rw [hP]
      rfl
  | announcing =>
      rw [hx] at hP
      refine ⟨⟨_, streams_nil ?_⟩, by rintro - ⟨⟩⟩
      rw [hP.2.1]
      rfl
  | waiting =>
      rw [hx] at hP
      exact ⟨⟨_, hP.2.1.filter⟩, by rintro - ⟨⟩⟩
  | reporting r =>
      rw [hx] at hP
      exact ⟨hP.streams.1, by rintro - ⟨⟩⟩
  | returned =>
      rw [hx] at hP
      obtain ⟨frames, r, hsent, hr⟩ := hP
      rw [hsent]
      obtain ⟨⟨rest, hrest⟩, hlost⟩ := Reports.streams hr
      exact ⟨⟨rest, hrest.tail r⟩, fun hstart _ => (hlost hstart).tail r⟩
  | raised =>
      rw [hx] at hs
      exact absurd rfl hs

theorem streams_of_reachable {p : OnJob × List String} (hp : (recorded jobId id run running sequences).Reachable p) :
    (∃ rest, Streams jobId run p.1.sent rest) ∧
      (run.start = .started → p.1.ctl = .returned → Streams jobId run p.1.sent p.2) := by
  have hI : Progress jobId run p.1 p.2 ∧ ∃ rest, Streams jobId run p.1.sent rest := by
    refine Machine.Run.invariant (I := fun p : OnJob × List String =>
      Progress jobId run p.1 p.2 ∧ ∃ rest, Streams jobId run p.1.sent rest) ?_ hp ⟨rfl, _, streams_nil rfl⟩
    rintro u label v ⟨hP, hS⟩ - hst
    obtain ⟨hst, hghost⟩ := Machine.observed_step.mp hst
    have hPv : Progress jobId run v.1 v.2 := by
      rw [hghost]
      exact progress_step hst hP
    refine ⟨hPv, ?_⟩
    by_cases hraised : v.1.ctl.ended = some false
    · rwa [sent_of_raised hst hraised]
    · exact (hPv.streams hraised).1
  refine ⟨hI.2, fun hstart hend => ?_⟩
  have hended : p.1.ctl.ended = some true := by rw [hend]; rfl
  exact (hI.1.streams (by rw [hended]; rintro ⟨⟩)).2 hstart hended

end OnJob

namespace Gateway

/-- What becomes of the data that the handlers share: the handler of a connection gets a frame, or a
task that writes no logs takes a step. -/
inductive SharedLabel
  | frame (ws : ConnId) (agentId : PyKey) (raw : RawFrame)
  | other (g : Gateway Database)

variable (af : Affinity) (it : Interpreter) (room getDepth depth : Nat)

/-- The body of the loop of `_handle_connection`, as far as its first `await`. -/
def hear (ws : ConnId) (agentId : PyKey) (raw : RawFrame) (g : Gateway Database) : Gateway Database :=
  match raw.parseMessage it depth with
  | .error _ => finish agentId g
  | .ok .null => g
  | .ok message => (safeDispatch (Database.services af it room getDepth) ws message agentId g).2

def sharedStep (l : SharedLabel) (g : Gateway Database) : Option (Gateway Database) :=
  match l with
  | .frame ws agentId raw => some (hear af it room getDepth depth ws agentId raw g)
  | .other g' => if g'.store.logRows = g.store.logRows then some g' else none

/-- The shared data, with the handlers of any number of connections at work on it. -/
def shared (g : Gateway Database) : Machine (Gateway Database) SharedLabel := ⟨g, sharedStep af it room getDepth depth⟩

def got (_ : Gateway Database) (l : SharedLabel) (_ : Gateway Database) (raws : List RawFrame) : List RawFrame :=
  match l with
  | .frame _ _ raw => raws ++ [raw]
  | .other _ => raws

def rowOf (fields : Fields) : Option LogRow := do
  let jobId ← Dict.lookup (field "job_id") fields
  let stream ← Dict.lookup (field "stream") fields
  let chunk ← Dict.lookup (field "chunk") fields
  let sequence ← Dict.lookup (field "sequence") fields
  Database.logRow af jobId stream sequence chunk

def messageRow : JsonDoc → Option LogRow
  | .obj fields => if (getD "type" .null fields).key = some (.str "log") then rowOf af fields else none
  | _ => none

def logOf (raw : RawFrame) : Option LogRow :=
  match raw.parseMessage it depth with
  | .ok message => messageRow af message
  | .error _ => none

def SameRows (g g' : Gateway Database) : Prop := g'.store.logRows = g.store.logRows

instance : Std.Refl SameRows := ⟨fun _ => rfl⟩

instance : IsTrans (Gateway Database) SameRows := ⟨fun _ _ _ h h' => h'.trans h⟩

section Handlers

variable {af : Affinity} {it : Interpreter} {room getDepth depth : Nat} {g : Gateway Database} {fields : Fields}
  {agentId : PyKey} {ws : ConnId}

abbrev Silent {α : Type} (m : Effect Fault (Gateway Database) α) : Prop := m.Keeps SameRows fun _ => True

theorem silent_pure {α : Type} (a : α) : Silent (pure a) := .pure trivial

theorem silent_item {name : String} : Silent (item name fields) := by
  rw [item]
  split
  · exact silent_pure _
  · exact .throw _

theorem silent_hashed {v : JsonDoc} : Silent (hashed v) := by
  rw [hashed]
  split
  · exact silent_pure _
  · exact .throw _

theorem silent_onStore {α : Type} {f : Database → Except Fault α × Database}
    (hf : ∀ d, (f d).2.logRows = d.logRows) : Silent (onStore f) :=
  .call (fun g => hf g.store) fun _ _ _ => trivial

theorem store_onEntry (f : AgentEntry → AgentEntry) (g : Gateway Database) :
    (onEntry agentId f g).store = g.store := by
  rw [onEntry]
  split <;> rfl

theorem silent_update {f : Gateway Database → Gateway Database} (hf : ∀ g, (f g).store = g.store) :
    Silent (Effect.update f) :=
  .update fun g => congrArg Database.logRows (hf g)

theorem rows_onJob (jobId : JsonDoc) (f : String → RowTable → Except StoreError (Option JobRecord) × RowTable)
    (d : Database) : (Database.onJob af jobId f d).2.logRows = d.logRows := by
  rw [Database.onJob]
  split <;> rfl

theorem rows_complete (q : JobState) (jobId exitCode stdout stderr error : JsonDoc) (d : Database) :
    (Database.complete af it getDepth q jobId exitCode stdout stderr error d).2.logRows = d.logRows := by
  rw [Database.complete]
  split
  · exact rows_onJob _ _ _
  · rfl

theorem rows_appendEvent (jobId : JsonDoc) (type : String) (payload : JsonDoc) (d : Database) :
    (Database.appendEvent af it room jobId type payload d).2.logRows = d.logRows := by
  rw [Database.appendEvent]
  split
  · rfl
  · split <;> rfl

theorem rows_publish (jobId stream chunk : JsonDoc) (d : Database) :
    (Database.publish jobId stream chunk d).2.logRows = d.logRows := by
  rw [Database.publish]
  split <;> rfl

theorem silent_getJob (jobId : JsonDoc) : Silent (logExtra (Database.services af it room getDepth) jobId) :=
  (silent_onStore (rows_onJob _ _)).bind fun _ _ => silent_pure _

theorem store_register (svc : Services Database) (k : PyKey) (g : Gateway Database) :
    (register svc ws k g).store = g.store := rfl

theorem silent_register (svc : Services Database) : Silent (onRegister svc ws fields agentId) := by
  rw [onRegister]
  refine silent_item.bind fun _ _ => ?_
  refine silent_hashed.bind fun k _ => ?_
  exact (silent_update (store_register svc k)).bind fun _ _ => silent_pure _

theorem silent_ack : Silent (onAck (Database.services af it room getDepth) fields agentId) :=
  silent_item.bind fun _ _ => (silent_onStore (rows_appendEvent _ _ _)).bind fun _ _ =>
    (silent_getJob _).bind fun _ _ => silent_pure _

theorem rows_markRunning (jobId : JsonDoc) (d : Database) :
    ((Database.services af it room getDepth).markRunning jobId d).2.logRows = d.logRows :=
  rows_onJob jobId (fun j => Columns.transitionIf it getDepth d.clock (.text j) .dispatched .running) d

theorem silent_started : Silent (onStarted (Database.services af it room getDepth) fields agentId) := by
  refine silent_item.bind fun jobId _ => (silent_onStore (rows_markRunning jobId)).bind fun job _ => ?_
  cases job with
  | none => exact silent_pure _
  | some job =>
      exact (silent_onStore (rows_appendEvent _ _ _)).bind fun _ _ => (silent_getJob _).bind fun _ _ => silent_pure _

theorem silent_freeSlot : Silent (freeSlot agentId) := by
  rw [freeSlot]
  split
  · exact (silent_update (store_onEntry _)).bind fun _ _ => silent_pure _
  · exact silent_pure _

theorem silent_result : Silent (onResult (Database.services af it room getDepth) fields agentId) := by
  have hcomplete : ∀ {jobId exitCode stdout stderr error},
      Silent (complete (Database.services af it room getDepth) jobId exitCode stdout stderr error) := by
    intro jobId exitCode stdout stderr error
    rw [complete]
    split
    · exact silent_onStore (rows_complete _ _ _ _ _ _)
    · split <;> exact silent_onStore (rows_complete _ _ _ _ _ _)
  refine silent_item.bind fun _ _ => silent_item.bind fun _ _ => hcomplete.bind fun job _ => ?_
  cases job with
  | none => exact silent_freeSlot
  | some job =>
      exact (silent_onStore (rows_appendEvent _ _ _)).bind fun _ _ => (silent_getJob _).bind fun _ _ => silent_freeSlot

theorem silent_heartbeat : Silent (onHeartbeat (Database.services af it room getDepth) fields agentId) := by
  rw [onHeartbeat]
  split
  · exact silent_pure _
  · exact (silent_update (store_onEntry _ ·)).bind fun _ _ => silent_pure _

theorem silent_reconcile : Silent (onReconcile (Database.services af it room getDepth) fields agentId) :=
  silent_item.bind fun _ _ => (silent_onStore (rows_appendEvent _ _ _)).bind fun _ _ =>
    (silent_getJob _).bind fun _ _ => silent_pure _

/-- Whether it raises or not, the computation adds this row to the table of logs, or none. -/
def Adds {α : Type} (row : Option LogRow) (m : Effect Fault (Gateway Database) α) : Prop :=
  ∀ g, (m.run g).2.store.logRows = g.store.logRows ++ row.toList

theorem Adds.of_silent {α : Type} {m : Effect Fault (Gateway Database) α} (h : Silent m) : Adds none m :=
  fun g => (h g).1.trans (List.append_nil _).symm

theorem Adds.item {α : Type} {name : String} {row : JsonDoc → Option LogRow}
    {f : JsonDoc → Effect Fault (Gateway Database) α} (hf : ∀ v, Adds (row v) (f v)) :
    Adds ((Dict.lookup (field name) fields).bind row) (Gateway.item name fields >>= f) := by
  intro g
  rw [Gateway.item]
  cases Dict.lookup (field name) fields with
  | none => exact (List.append_nil _).symm
  | some v => exact hf v g

theorem bind_of_unhashable {v : JsonDoc} (h : v.key = none) : v.bind = none := by
  cases v with
  | arr | obj => rfl
  | _ => cases h

/-- What is not published is not stored either. -/
theorem Adds.publish {α : Type} {jobId stream chunk : JsonDoc} {row : Option LogRow}
    {m : Effect Fault (Gateway Database) α} (hm : Adds row m)
    (hrow : jobId.bind = none ∨ stream.bind = none → row = none) :
    Adds row (onStore (Database.publish jobId stream chunk) >>= fun _ => m) := by
  intro g
  cases hp : Database.publish jobId stream chunk g.store with
  | mk r d =>
      have hrows : d.logRows = g.store.logRows := by
        have hd := rows_publish jobId stream chunk g.store
        rwa [hp] at hd
      cases r with
      | ok u => rw [Effect.run_bind_ok (run_onStore hp), hm, hrows]
      | error e =>
          have hnone : row = none := by
            refine hrow ?_
            rw [Database.publish] at hp
            cases hj : jobId.key with
            | none => exact .inl (bind_of_unhashable hj)
            | some j =>
                cases hs : stream.key with
                | none => exact .inr (bind_of_unhashable hs)
                | some s => rw [hj, hs] at hp; cases hp
          rw [Effect.run_bind_error (run_onStore hp), hnone]
          exact hrows.trans (List.append_nil _).symm

theorem logRow_unbound {jobId stream : JsonDoc} (h : jobId.bind = none ∨ stream.bind = none) (sequence chunk : JsonDoc) :
    Database.logRow af jobId stream sequence chunk = none := by
  rw [Database.logRow]
  rcases h with h | h
  · rw [h]; rfl
  · rw [h]
    cases jobId.bind <;> rfl

theorem adds_append {α : Type} {jobId stream sequence chunk : JsonDoc} {m : Effect Fault (Gateway Database) α}
    (hm : Silent m) : Adds (Database.logRow af jobId stream sequence chunk)
      (onStore (Database.appendLog af jobId stream sequence chunk) >>= fun _ => m) := by
  intro g
  cases hrow : Database.logRow af jobId stream sequence chunk with
  | none =>
      have happend : Database.appendLog af jobId stream sequence chunk g.store = (.error .raised, g.store) := by
        rw [Database.appendLog, hrow]
      rw [Effect.run_bind_error (run_onStore happend)]
      exact (List.append_nil _).symm
  | some row =>
      have happend : Database.appendLog af jobId stream sequence chunk g.store =
          (.ok (), { g.store with logRows := g.store.logRows ++ [row] }) := by
        rw [Database.appendLog, hrow]
      rw [Effect.run_bind_ok (run_onStore happend)]
      exact (hm _).1

theorem adds_log : Adds (rowOf af fields) (onLog (Database.services af it room getDepth) fields agentId) := by
  refine Adds.item fun jobId => Adds.item fun stream => Adds.item fun chunk => Adds.publish ?_ ?_
  · exact Adds.item fun sequence => adds_append (silent_pure _)
  · intro h
    cases hs : Dict.lookup (field "sequence") fields with
    | none => rfl
    | some sequence => exact logRow_unbound h sequence chunk

theorem silent_handlers {k : PyKey} {handler : Fields → PyKey → Effect Fault (Gateway Database) Handled}
    (hlookup : Dict.lookup k (handlers (Database.services af it room getDepth) ws) = some handler)
    (hlog : k ≠ .str "log") :
    Silent (handler fields agentId) := by
  have hnodup : ((handlers (Database.services af it room getDepth) ws).map Prod.fst).Nodup := by
    simp only [handlers, List.map_cons, List.map_nil]
    decide
  have hmem := (Dict.lookup_eq_some hnodup).mp hlookup
  simp only [handlers, List.mem_cons, Prod.mk.injEq, List.not_mem_nil, or_false] at hmem
  rcases hmem with ⟨-, rfl⟩ | ⟨-, rfl⟩ | ⟨-, rfl⟩ | ⟨hk, -⟩ | ⟨-, rfl⟩ | ⟨-, rfl⟩ | ⟨-, rfl⟩
  · exact silent_register _
  · exact silent_ack
  · exact silent_started
  · exact absurd hk hlog
  · exact silent_result
  · exact silent_heartbeat
  · exact silent_reconcile

theorem adds_dispatch (message : JsonDoc) :
    Adds (messageRow af message) (dispatch (Database.services af it room getDepth) ws message agentId) := by
  rw [dispatch.eq_def]
  split
  · next fields =>
      have hrow : messageRow af (.obj fields) =
          if (getD "type" .null fields).key = some (.str "log") then rowOf af fields else none := rfl
      split
      · next hnull =>
          rw [hrow, hnull]
          exact .of_silent (silent_pure _)
      · next messageType _ =>
          rw [hrow, hashed]
          cases hk : (getD "type" .null fields).key with
          | none => exact .of_silent (.throw _)
          | some k =>
              rw [pure_bind]
              by_cases hlog : k = .str "log"
              · rw [hlog, if_pos rfl]
                exact adds_log
              · rw [if_neg (by rintro ⟨⟩; exact hlog rfl)]
                split
                · next handler hlookup => exact .of_silent (silent_handlers hlookup hlog)
                · exact .of_silent (silent_pure _)
  · next hobj =>
      have hrow : messageRow af message = none := by
        cases message with
        | obj fields => exact absurd rfl (hobj fields)
        | _ => rfl
      rw [hrow]
      exact .of_silent (.throw _)

theorem hear_rows (ws : ConnId) (agentId : PyKey) (raw : RawFrame) (g : Gateway Database) :
    (hear af it room getDepth depth ws agentId raw g).store.logRows =
      g.store.logRows ++ (logOf af it depth raw).toList := by
  rw [hear, logOf]
  cases raw.parseMessage it depth with
  | error e =>
      have hfinish : (finish agentId g).store = g.store := by
        rw [finish]
        split <;> rfl
      exact (congrArg Database.logRows hfinish).trans (List.append_nil _).symm
  | ok message =>
      have hadds : (safeDispatch (Database.services af it room getDepth) ws message agentId g).2.store.logRows =
          g.store.logRows ++ (messageRow af message).toList :=
        (congrArg (·.store.logRows) (Effect.guarded_state _ _ g)).trans (adds_dispatch message g)
      cases message with
      | null => exact (List.append_nil _).symm
      | _ => exact hadds

/-- It is what the loop of a connection does. -/
theorem gateway_receive (ws : ConnId) (agentId : PyKey) (raw : RawFrame) (s : Connection Database) :
    (Connection.receive it depth (Database.services af it room getDepth) ws raw agentId s).gateway =
      hear af it room getDepth depth ws agentId raw s.gateway := by
  rw [Connection.receive, hear]
  cases raw.parseMessage it depth with
  | error e => rfl
  | ok message =>
      cases message with
      | null => rfl
      | _ =>
          dsimp only
          rw [Connection.resume_eq]

/-- The table has grown by the rows of the frames, in the order in which the handlers have got them. -/
theorem shared_rows {p q : Gateway Database × List RawFrame}
    (h : ((shared af it room getDepth depth g).observed [] got).Run (fun _ _ => True) p q)
    (hp : p.1.store.logRows = g.store.logRows ++ p.2.filterMap (logOf af it depth)) :
    q.1.store.logRows = g.store.logRows ++ q.2.filterMap (logOf af it depth) := by
  refine h.invariant (I := fun p : Gateway Database × List RawFrame =>
    p.1.store.logRows = g.store.logRows ++ p.2.filterMap (logOf af it depth)) ?_ hp
  rintro u l v hu - hst
  obtain ⟨hst, hgot⟩ := Machine.observed_step.mp hst
  rw [hgot]
  cases l with
  | frame ws agentId raw =>
      have hv : v.1 = hear af it room getDepth depth ws agentId raw u.1 := (Option.some.inj hst).symm
      rw [hv, hear_rows, hu, got, List.filterMap_append, List.append_assoc]
      cases hraw : logOf af it depth raw <;> simp [hraw]
  | other g' =>
      obtain ⟨hrows, hv⟩ := Option.ite_none_right_eq_some.mp hst
      rw [← Option.some.inj hv, hrows]
      exact hu

end Handlers

section Served

variable {af : Affinity} {it : Interpreter} {depth : Nat} {jobId : String}

def brings (af : Affinity) (it : Interpreter) (depth : Nat) (jobId : String) (raw : RawFrame) : Bool :=
  (logOf af it depth raw).any fun row => row.jobId = jobId

def streamRows (jobId : String) (n : Nat) (texts : List String) : List LogRow :=
  (texts.zipIdx n).map fun p => ⟨jobId, "stdout", .integer p.2, p.1⟩

theorem messageRow_log (jobId stream chunk : String) (n : Int) :
    messageRow af ((AgentFrame.log jobId stream n chunk).document it) =
      Database.logRow af (.str (field jobId)) (.str (field stream)) (.int n) (.str (field chunk)) := by
  have htype : getD "type" .null (ofFields it (AgentFrame.log jobId stream n chunk).fields) = .str (field "log") := by
    rw [getD, lookup_ofFields]
    rfl
  rw [AgentFrame.document, messageRow, htype, if_pos (key_str "log"), rowOf, lookup_ofFields, lookup_ofFields,
    lookup_ofFields, lookup_ofFields]
  rfl

theorem logOf_carried {raw : RawFrame} {stream chunk : String} {n : Int}
    (h : raw.Carries it depth (some (.log jobId stream n chunk))) (hb : brings af it depth jobId raw = true) :
    logOf af it depth raw = some ⟨jobId, stream, .integer n, chunk⟩ := by
  have hparse : raw.parseMessage it depth = .ok ((AgentFrame.log jobId stream n chunk).document it) := h
  have hrow : logOf af it depth raw =
      Database.logRow af (.str (field jobId)) (.str (field stream)) (.int n) (.str (field chunk)) := by
    rw [logOf, hparse]
    exact messageRow_log jobId stream chunk n
  rw [brings, hrow, Database.logRow, bind_str, bind_str, bind_str] at hb
  rw [hrow, Database.logRow, bind_str, bind_str, bind_str]
  cases hn : int64 n with
  | false =>
      rw [JsonDoc.bind, hn] at hb
      cases hb
  | true =>
      rw [JsonDoc.bind, hn]
      exact congrArg (fun v => some (LogRow.mk jobId stream v chunk)) (af.integer_eq n)

theorem rows_carried {texts : List String} {n : Nat} {raws : List RawFrame}
    (h : List.Forall₂ (RawFrame.Carries it depth) raws
      ((texts.zipIdx n).map fun p => some (.log jobId "stdout" p.2 p.1)))
    (hb : ∀ raw ∈ raws, brings af it depth jobId raw = true) :
    raws.filterMap (logOf af it depth) = streamRows jobId n texts := by
  induction texts generalizing n raws with
  | nil =>
      cases h
      rfl
  | cons text texts ih =>
      cases h with
      | cons hraw hrest =>
          obtain ⟨hb₁, hb₂⟩ := List.forall_mem_cons.mp hb
          rw [List.filterMap_cons, logOf_carried hraw hb₁, ih hrest hb₂]
          rfl

theorem filter_filterMap {raws : List RawFrame} :
    (raws.filterMap (logOf af it depth)).filter (fun row => row.jobId = jobId) =
      (raws.filter (brings af it depth jobId)).filterMap (logOf af it depth) := by
  induction raws with
  | nil => rfl
  | cons raw raws ih =>
      cases hraw : logOf af it depth raw with
      | none =>
          have hb : brings af it depth jobId raw = false := by rw [brings, hraw]; rfl
          rw [List.filterMap_cons, hraw, List.filter_cons, hb]
          exact ih
      | some row =>
          have hb : brings af it depth jobId raw = decide (row.jobId = jobId) := by rw [brings, hraw]; rfl
          rw [List.filterMap_cons, hraw, List.filter_cons, List.filter_cons, hb, ih]
          split
          · rw [List.filterMap_cons, hraw]
          · rfl

theorem listForJob_filter (stream : Option String) (rows : List LogRow) :
    SQLiteLogRepository.listForJob jobId stream rows =
      (rows.filter fun row => row.jobId = jobId).filter fun row => stream.all (· = row.stream) := by
  cases stream with
  | none => simp [SQLiteLogRepository.listForJob]
  | some stream =>
      rw [SQLiteLogRepository.listForJob, List.filter_filter]
      refine List.filter_congr fun row _ => ?_
      by_cases hs : row.stream = stream
      · simp [hs]
      · simp [hs, Ne.symm hs]

theorem getLogs_append (jobId : String) (stream : Option String) (rows new : List LogRow) (s : Server) :
    s.getLogs jobId stream (rows ++ new) = (s.getLogs jobId stream rows).map fun body =>
      body ++ String.join ((SQLiteLogRepository.listForJob jobId stream new).map LogRow.chunk) := by
  have hlist : SQLiteLogRepository.listForJob jobId stream (rows ++ new) =
      SQLiteLogRepository.listForJob jobId stream rows ++ SQLiteLogRepository.listForJob jobId stream new := by
    cases stream <;> exact List.filter_append _ _
  rw [Server.getLogs, Server.getLogs, hlist, List.map_append, String.join_append]
  cases s.lookUp jobId <;> rfl

theorem chunks_streamRows (jobId : String) (n : Nat) (texts : List String) (stream : Option String) :
    ((streamRows jobId n texts).filter fun row => stream.all (· = row.stream)).map LogRow.chunk =
      if stream.all (· = "stdout") then texts else [] := by
  induction texts generalizing n with
  | nil => simp [streamRows]
  | cons text texts ih =>
      have hcons : streamRows jobId n (text :: texts) =
          ⟨jobId, "stdout", .integer n, text⟩ :: streamRows jobId (n + 1) texts := rfl
      rw [hcons, List.filter_cons]
      dsimp only
      split
      · next h => rw [List.map_cons, ih, if_pos h]
      · next h => rw [ih, if_neg h]

theorem take_zipIdx (texts : List String) (n k : Nat) : (texts.zipIdx k).take n = (texts.take n).zipIdx k := by
  induction texts generalizing n k with
  | nil => simp
  | cons text texts ih =>
      cases n with
      | zero => rfl
      | succ n => rw [List.zipIdx_cons, List.take_succ_cons, ih, List.take_succ_cons, List.zipIdx_cons]

theorem take_logFrames (texts : List String) (n : Nat) :
    (OnJob.logFrames jobId texts).take n = OnJob.logFrames jobId (texts.take n) := by
  rw [OnJob.logFrames, OnJob.logFrames, ← List.map_take, take_zipIdx]

def newChunks (af : Affinity) (it : Interpreter) (depth : Nat) (jobId : String) (stream : Option String)
    (raws : List RawFrame) : List String :=
  (SQLiteLogRepository.listForJob jobId stream (raws.filterMap (logOf af it depth))).map LogRow.chunk

theorem newChunks_brings (stream : Option String) (raws : List RawFrame) :
    newChunks af it depth jobId stream raws =
      (((raws.filter (brings af it depth jobId)).filterMap (logOf af it depth)).filter
        fun row => stream.all (· = row.stream)).map LogRow.chunk := by
  rw [newChunks, listForJob_filter, filter_filterMap]

/-- The log of a job, while a call of `_on_job` is on and after it: it grows by the texts of all frames that any
connection brings for the job, in the order in which they come in. The texts of the frames of the call are among
them in the order in which the container wrote them, and are all of them if nobody else sends logs of the job. -/
theorem logs_served (af : Affinity) (it : Interpreter) {room getDepth depth : Nat} {g : Gateway Database}
    {q : Gateway Database × List RawFrame}
    (hq : ((shared af it room getDepth depth g).observed [] got).Reachable q) {jobId : String} {id : ContainerId}
    {run : ContainerRun} {running : Dict String ContainerId} {sequences : Dict String Nat} {p : OnJob × List String}
    (hp : (OnJob.recorded jobId id run running sequences).Reachable p) {sent : List AgentFrame}
    (hsent : sent <+: p.1.sent.filter AgentFrame.isLog) {ours : List RawFrame}
    (hours : ours.Sublist (q.2.filter (brings af it depth jobId)))
    (hraws : List.Forall₂ (RawFrame.Carries it depth) ours (sent.map some)) :
    ∃ texts rest, texts.length = sent.length ∧ texts ++ rest = ContainerRun.streamLogs run.chunks ∧
      (∀ (s : Server) stream, s.getLogs jobId stream q.1.store.logRows =
        (s.getLogs jobId stream g.store.logRows).map fun body =>
          body ++ String.join (newChunks af it depth jobId stream q.2)) ∧
      (∀ stream : Option String, stream.all (· = "stdout") = true →
        texts.Sublist (newChunks af it depth jobId stream q.2)) ∧
      (ours = q.2.filter (brings af it depth jobId) → ∀ stream : Option String,
        newChunks af it depth jobId stream q.2 = if stream.all (· = "stdout") then texts else []) ∧
      (run.start = .started → p.1.ctl = .returned → sent = p.1.sent.filter AgentFrame.isLog → rest = p.2) := by
  obtain ⟨⟨rest, texts, hfilter, hall⟩, hlost⟩ := OnJob.streams_of_reachable hp
  rw [hfilter] at hsent
  have hsent' : sent = OnJob.logFrames jobId (texts.take sent.length) := by
    rw [← take_logFrames]
    exact List.prefix_iff_eq_take.mp hsent
  have hlen : sent.length ≤ texts.length := by
    have hle := hsent.length_le
    rwa [OnJob.length_logFrames] at hle
  have hown : ours.filterMap (logOf af it depth) = streamRows jobId 1 (texts.take sent.length) := by
    refine rows_carried ?_ fun raw hraw => (List.mem_filter.mp (hours.subset hraw)).2
    rw [hsent', OnJob.logFrames, List.map_map] at hraws
    exact hraws
  refine ⟨texts.take sent.length, texts.drop sent.length ++ rest, ?_, ?_, fun s stream => ?_, fun stream hstream => ?_,
    fun hwhole stream => ?_, fun hstart hend hsame => ?_⟩
  · rw [List.length_take, Nat.min_eq_left hlen]
  · rw [← List.append_assoc, List.take_append_drop, hall]
  · have hrows : q.1.store.logRows = g.store.logRows ++ q.2.filterMap (logOf af it depth) :=
      shared_rows hq (List.append_nil _).symm
    rw [hrows, getLogs_append, newChunks]
  · have hchunks := chunks_streamRows jobId 1 (texts.take sent.length) stream
    rw [if_pos hstream, ← hown] at hchunks
    rw [newChunks_brings, ← hchunks]
    exact ((hours.filterMap _).filter _).map _
  · rw [newChunks_brings, ← hwhole, hown, chunks_streamRows]
  · obtain ⟨texts', hfilter', hall'⟩ := hlost hstart hend
    have hlength : texts'.length = texts.length := by
      have hframes := congrArg List.length (hfilter'.symm.trans hfilter)
      rwa [OnJob.length_logFrames, OnJob.length_logFrames] at hframes
    obtain ⟨-, hrest⟩ := List.append_inj (hall'.trans hall.symm) hlength
    have hwhole : sent.length = texts.length := by rw [hsame, hfilter, OnJob.length_logFrames]
    rw [hwhole, List.drop_length, hrest, List.nil_append]

def okFrame : RawFrame :=
  .text ("\x7b\"type\": \"log\", \"job_id\": \"job_1\", \"stream\": \"stdout\", \"sequence\": 1, " ++
    "\"chunk\": \"ok\"\x7d")

def foreignFrame : RawFrame :=
  .text ("\x7b\"type\": \"log\", \"job_id\": \"job_1\", \"stream\": \"stdout\", \"sequence\": 7, " ++
    "\"chunk\": \"no\"\x7d")

def servedFrames : List SharedLabel :=
  [.frame 0 .none (.text "\x7b\"type\": \"register\", \"agent_id\": \"agent-1\"\x7d"),
    .frame 1 .none foreignFrame, .frame 0 (.str "agent-1") okFrame]

theorem logs_served_text : ∃ q p,
    ((shared ⟨fun _ => "", id, fun _ => rfl⟩ .default 1 1 1000 Connection.emptyGateway).observed [] got).Reachable q ∧
    (OnJob.recorded "job_1" 0 OnJob.textOutput .empty .empty).Reachable p ∧ p.1.ctl = .returned ∧
    ∃ texts rest, texts.length = 1 ∧ texts ++ rest = ContainerRun.streamLogs OnJob.textOutput.chunks ∧
      (∀ (s : Server) stream, s.getLogs "job_1" stream q.1.store.logRows =
        (s.getLogs "job_1" stream []).map fun body =>
          body ++ String.join (newChunks ⟨fun _ => "", id, fun _ => rfl⟩ .default 1000 "job_1" stream q.2)) ∧
      texts.Sublist ["no", "ok"] ∧ rest = [] := by
  have hqexec : (((shared ⟨fun _ => "", id, fun _ => rfl⟩ .default 1 1 1000 Connection.emptyGateway).observed []
      got).exec (fun _ _ => True) servedFrames (Connection.emptyGateway, [])).any (fun q => decide (
        q.2.filter (brings ⟨fun _ => "", id, fun _ => rfl⟩ .default 1000 "job_1") = [foreignFrame, okFrame] ∧
        newChunks ⟨fun _ => "", id, fun _ => rfl⟩ .default 1000 "job_1" none q.2 = ["no", "ok"])) = true := by
    decide +kernel
  have hpexec : ((OnJob.recorded "job_1" 0 OnJob.textOutput .empty .empty).exec (fun _ _ => True)
      (OnJob.drainedFirst ++ [.resultSent]) (OnJob.recorded "job_1" 0 OnJob.textOutput .empty .empty).init).any
        (fun p => decide (p.1.ctl.ended = some true ∧ p.2 = [] ∧
          p.1.sent.filter AgentFrame.isLog = [.log "job_1" "stdout" 1 "ok"])) = true := by decide +kernel
  obtain ⟨q, hq, hbrings, hchunks⟩ := Machine.exists_run _ _ hqexec
  obtain ⟨p, hp, hend, hlost, hsent⟩ := Machine.exists_run _ _ hpexec
  have hreturned := OnJobCtl.ended_eq.1 hend
  have hcarried : List.Forall₂ (RawFrame.Carries .default 1000) [okFrame]
      ([AgentFrame.log "job_1" "stdout" 1 "ok"].map some) := by
    have hwritten : ((AgentFrame.log "job_1" "stdout" 1 "ok").document .default).dumps .default 1 =
        .ok ("\x7b\"type\": \"log\", \"job_id\": \"job_1\", \"stream\": \"stdout\", \"sequence\": 1, " ++
          "\"chunk\": \"ok\"\x7d") := by decide +kernel
    exact .cons (RawFrame.carries_dumps trivial hwritten (by decide)) .nil
  have hours : [okFrame].Sublist (q.2.filter (brings ⟨fun _ => "", id, fun _ => rfl⟩ .default 1000 "job_1")) := by
    rw [hbrings]
    exact .cons _ (.refl _)
  obtain ⟨texts, rest, hlen, hall, hbody, hsub, -, hrest⟩ := logs_served ⟨fun _ => "", id, fun _ => rfl⟩ .default
    hq hp (by rw [hsent]) hours hcarried
  have hamong := hsub none rfl
  rw [hchunks] at hamong
  exact ⟨q, p, hq, hp, hreturned, texts, rest, hlen, hall, hbody, hamong,
    (hrest rfl hreturned hsent.symm).trans hlost⟩

end Served

end Gateway

end JobSystem
