import JobSystem.Server.Database
import JobSystem.Server.Registry

namespace JobSystem

open Lib JsonDoc

def AgentConnection.entry (conn : AgentConnection) : AgentEntry :=
  ⟨.str conn.agentId, conn.ws, conn.connectedAt, conn.lastHeartbeatAt, conn.inFlight⟩

def handlerKey : Option String → PyKey
  | none => .none
  | some a => .str a

def AgentRegistry.entryOf (r : AgentRegistry) : PyKey → Option AgentEntry
  | .str a => (r.get a).map fun o => (r.conns o).entry
  | _ => none

def DispatchLocks.lockOf (d : DispatchLocks) : PyKey → Option Nat
  | .str a => (d.locks.get a).map LockRef.serial
  | _ => none

namespace Server

def handled (c : ConnId) (b : Option String) (t : Server) : Gateway.Handled :=
  match t.ctl (.handler c) with
  | some (.dispatch a _) => .dispatching (.str a)
  | _ => .returned (handlerKey b)

theorem completion_created (t : Instant) (j : String) (x : Int) (o e : PyStr) (err : Option PyStr) :
    (completion t j x o e err).created = none := by
  rcases completion_cases t j x o e err with ⟨_, h⟩ | h <;> rw [h] <;> rfl

def freed (c : ConnId) (b : Option String) (s : Server) : Server :=
  match b with
  | none => s
  | some a =>
      if a = "" then s
      else { s with agents := freeSlot a s.agents }.goto (.handler c) (.dispatch a .result)

variable {c : ConnId} {b : Option String} {j : String} {x : Int} {o e : PyStr} {err : Option PyStr} {T : JobTable}
  {s : Server}

theorem onResult_error {r : PyError} (h : (s.note (.resultProcessed c j)).complete j x o e err = .error r) :
    s.onResult c b j x o e err = s.note (.resultProcessed c j) := by
  rw [onResult, h]

theorem onResult_none (h : (s.note (.resultProcessed c j)).complete j x o e err = .ok (none, T)) :
    s.onResult c b j x o e err = freed c b { s.note (.resultProcessed c j) with jobs := T } := by
  rw [onResult, h]
  rfl

theorem onResult_some {job : Job} (h : (s.note (.resultProcessed c j)).complete j x o e err = .ok (some job, T)) :
    s.onResult c b j x o e err = freed c b (({ s.note (.resultProcessed c j) with jobs := T } : Server).event j "result"
      [("state", .str job.state.value), ("exit_code", job.exitCode.elim .null .int)]) := by
  rw [onResult, h]
  rfl

end Server

namespace Gateway

structure Shows (it : Interpreter) (s : Server) (g : Gateway Database) : Prop where
  agents : ∀ k, g.agents.get k = s.agents.entryOf k
  locks : ∀ k, g.dispatchLocks.get k = s.dispatchLocks.lockOf k
  store : g.store.Shows it s

section Runs

variable {σ : Type} {svc : Services σ} {ws : ConnId} {agentId : PyKey} {g : Gateway σ}

theorem run_onStore {α : Type} {f : σ → Except Fault α × σ} {r : Except Fault α} {st : σ}
    (h : f g.store = (r, st)) : (onStore f).run g = (r, { g with store := st }) := by
  change ((f g.store).1, { g with store := (f g.store).2 }) = _
  rw [h]

theorem run_item {name : String} {fields : Fields} {v : JsonDoc} (h : Dict.lookup (field name) fields = some v) :
    (item name fields).run g = (.ok v, g) := by
  rw [item, h]
  rfl

theorem run_dispatch {name : String} {fields : Fields} {handler : Fields → PyKey → Effect Fault (Gateway σ) Handled}
    (htype : Dict.lookup (field "type") fields = some (.str (field name)))
    (hh : Dict.lookup (.str name) (handlers svc ws) = some handler) (g : Gateway σ) :
    (dispatch svc ws (.obj fields) agentId).run g = (handler fields agentId).run g := by
  have hget : getD "type" .null fields = .str (field name) := by
    rw [getD, htype]
    rfl
  simp only [dispatch, hget, Effect.run_bind, hashed, key_str, Effect.run_pure, hh]

end Runs

section Frames

variable {af : Affinity} {it : Interpreter} {room depth : Nat} {c : ConnId} {b : Option String} {s t : Server}
  {g : Gateway Database} {fields : Fields} {j : String}

/-- The computation comes to what the handler of `c` comes to in `t`, with `t` in the shared data. -/
def Answers (it : Interpreter) (c : ConnId) (b : Option String) (m : Effect Fault (Gateway Database) Handled)
    (g : Gateway Database) (t : Server) : Prop :=
  ∃ g', m.guarded (.returned (handlerKey b)) g = (t.handled c b, g') ∧ g'.Shows it t

theorem Answers.of_ok {m : Effect Fault (Gateway Database) Handled} {h : Handled} {g' : Gateway Database}
    (hrun : m.run g = (.ok h, g')) (hh : t.handled c b = h) (hS : g'.Shows it t) : Answers it c b m g t :=
  ⟨g', by rw [Effect.guarded, hrun, hh], hS⟩

theorem Answers.of_error {m : Effect Fault (Gateway Database) Handled} {e : Fault} {g' : Gateway Database}
    (hrun : m.run g = (.error e, g')) (hh : t.handled c b = .returned (handlerKey b)) (hS : g'.Shows it t) :
    Answers it c b m g t :=
  ⟨g', by rw [Effect.guarded, hrun, hh], hS⟩

theorem Answers.of_run {m m' : Effect Fault (Gateway Database) Handled} {g' : Gateway Database}
    (hrun : m.run g = m'.run g') (h : Answers it c b m' g' t) : Answers it c b m g t := by
  obtain ⟨g'', hg, hS⟩ := h
  exact ⟨g'', by rwa [Effect.guarded, hrun], hS⟩

theorem handled_of_idle (h : t.ctl (.handler c) = none) : t.handled c b = .returned (handlerKey b) := by
  rw [Server.handled, h]

theorem handled_goto (a : String) (k : Return) (s : Server) :
    (s.goto (.handler c) (.dispatch a k)).handled c b = .dispatching (.str a) := by
  have hctl : (s.goto (.handler c) (.dispatch a k)).ctl (.handler c) = some (.dispatch a k) := Function.update_self _ _ _
  rw [Server.handled, hctl]

theorem Shows.onStore (hS : g.Shows it s) {d : Database} (hd : d.Shows it t) (hagents : t.agents = s.agents)
    (hlocks : t.dispatchLocks = s.dispatchLocks) : Shows it t { g with store := d } where
  agents k := by rw [hS.agents k, hagents]
  locks k := by rw [hS.locks k, hlocks]
  store := hd

theorem getJob_shows (hS : g.Shows it s) (hT : Columns.Readable it room depth s.jobs) (j : String) :
    (Database.services af it room depth).getJob (.str (field j)) g.store =
      (.ok ((record j s.jobs).map (Job.record it)), g.store) := by
  have hget := Columns.get_refines hT j
  rw [← hS.store.jobs] at hget
  refine (Database.onJob_str _ g.store).trans ?_
  rw [hget]
  rfl

theorem run_logExtra (hS : g.Shows it s) (hT : Columns.Readable it room depth s.jobs) (j : String) :
    (logExtra (Database.services af it room depth) (.str (field j))).run g = (.ok (), g) := by
  exact Effect.run_bind_ok (run_onStore (getJob_shows hS hT j))

theorem run_told (hS : g.Shows it s) (hT : Columns.Readable it room depth s.jobs) (j type : String)
    (payload : List (String × Json)) (hp : check it room (.obj (ofFields it payload)) = .ok ())
    (rest : Effect Fault (Gateway Database) Handled) :
    ∃ g', (do
        onStore ((Database.services af it room depth).appendEvent (.str (field j)) type (.obj (ofFields it payload)))
        logExtra (Database.services af it room depth) (.str (field j))
        rest : Effect Fault (Gateway Database) Handled).run g = rest.run g' ∧
      g'.Shows it (s.event j type payload) ∧ g'.agents = g.agents := by
  have happend := Database.appendEvent_str af g.store j type hp
  have hS' : Shows it (s.event j type payload) _ := hS.onStore (Database.shows_event hS.store j type payload) rfl rfl
  refine ⟨_, ?_, hS', rfl⟩
  exact (Effect.run_bind_ok (run_onStore happend)).trans (Effect.run_bind_ok (run_logExtra hS' hT j))

theorem run_hashed (a : String) (g : Gateway Database) : (hashed (.str (field a))).run g = (.ok (.str a), g) := by
  rw [hashed, key_str]
  rfl

theorem shows_onEntry (hS : g.Shows it s) {a : String} {o : ObjId} (ho : s.agents.get a = some o)
    {f : AgentEntry → AgentEntry} {u : AgentConnection → AgentConnection} (hu : ∀ conn, (u conn).agentId = conn.agentId)
    (hf : ∀ conn : AgentConnection, f conn.entry = (u conn).entry) (ha : t.agents = s.agents.onConn o u hu)
    (hl : t.dispatchLocks = s.dispatchLocks) (hd : g.store.Shows it t) : Shows it t (onEntry (.str a) f g) := by
  have hentry : g.agents.get (.str a) = some (s.agents.conns o).entry := by
    rw [hS.agents, AgentRegistry.entryOf, ho]
    rfl
  rw [onEntry, hentry]
  refine ⟨fun k => ?_, fun k => ?_, hd⟩
  · dsimp only
    rw [Dict.get_set, hf]
    cases k with
    | str a' =>
        rw [ha, AgentRegistry.entryOf]
        by_cases hk : a' = a
        · subst a'
          have hget : (s.agents.onConn o u hu).get a = some o := ho
          have hconn : (s.agents.onConn o u hu).conns o = u (s.agents.conns o) := Function.update_self _ _ _
          rw [if_pos rfl, hget, Option.map_some, hconn]
        · rw [if_neg (by simpa using hk), hS.agents, AgentRegistry.entryOf]
          have hget : (s.agents.onConn o u hu).get a' = s.agents.get a' := rfl
          rw [hget]
          cases ho' : s.agents.get a' with
          | none => rfl
          | some o' =>
              have hne : o' ≠ o := by
                rintro rfl
                exact hk ((s.agents.keyed ho').2.symm.trans (s.agents.keyed ho).2)
              have hconn : (s.agents.onConn o u hu).conns o' = s.agents.conns o' := Function.update_of_ne hne _ _
              rw [Option.map_some, Option.map_some, hconn]
    | _ => exact (if_neg (by rintro ⟨⟩)).trans (hS.agents _)
  · rw [hS.locks k, hl]

theorem shows_register (hS : g.Shows it s) (a : String) (ha : t.agents = s.agents.register a c s.clock)
    (hl : t.dispatchLocks = s.dispatchLocks) (hd : g.store.Shows it t) :
    Shows it t (register (Database.services af it room depth) c (.str a) g) := by
  have hnow : (Database.services af it room depth).now g.store = s.clock := hS.store.clock
  refine ⟨fun k => ?_, fun k => ?_, hd⟩
  · rw [register, hnow]
    dsimp only
    rw [Dict.get_set]
    cases k with
    | str a' =>
        rw [ha, AgentRegistry.entryOf, AgentRegistry.get_register]
        by_cases hk : a' = a
        · subst a'
          rw [if_pos rfl, if_pos rfl, Option.map_some, AgentRegistry.conns_register_next]
          rfl
        · rw [if_neg (by simpa using hk), if_neg hk, hS.agents, AgentRegistry.entryOf]
          cases ho : s.agents.get a' with
          | none => rfl
          | some o =>
              rw [Option.map_some, Option.map_some, AgentRegistry.conns_register_lt _ (s.agents.get_lt ho)]
    | _ => exact (if_neg (by rintro ⟨⟩)).trans (hS.agents _)
  · rw [hl]
    exact hS.locks k

theorem answers_register (hS : g.Shows it s) (a : String) :
    Answers it c b (onRegister (Database.services af it room depth) c (ofFields it (AgentFrame.register a).fields)
      (handlerKey b)) g (s.onRegister c a) := by
  have hid : Dict.lookup (field "agent_id") (ofFields it (AgentFrame.register a).fields) = some (.str (field a)) := by
    rw [lookup_ofFields]
    rfl
  have hrun : (onRegister (Database.services af it room depth) c (ofFields it (AgentFrame.register a).fields)
      (handlerKey b)).run g =
      (.ok (.dispatching (.str a)), register (Database.services af it room depth) c (.str a) g) :=
    (Effect.run_bind_ok (run_item hid)).trans (Effect.run_bind_ok (run_hashed a g))
  exact .of_ok hrun (handled_goto a _ _) (shows_register hS a rfl rfl ⟨hS.store.clock, hS.store.jobs, hS.store.events⟩)

theorem answers_heartbeat (hS : g.Shows it s) (hidle : s.ctl (.handler c) = none) (fields : Fields) :
    Answers it c b (onHeartbeat (Database.services af it room depth) fields (handlerKey b)) g (s.onHeartbeat b) := by
  cases b with
  | none => exact .of_ok rfl (handled_of_idle hidle) hS
  | some a =>
      have hrun : (onHeartbeat (Database.services af it room depth) fields (.str a)).run g =
          (.ok (.returned (.str a)), touch (Database.services af it room depth) (.str a) g) := by
        rw [onHeartbeat, if_neg (by rintro ⟨⟩)]
        rfl
      refine .of_ok hrun (handled_of_idle hidle) ?_
      have hnow : (Database.services af it room depth).now g.store = s.clock := hS.store.clock
      rw [touch, hnow, Server.onHeartbeat]
      cases ho : s.agents.get a with
      | none =>
          have hnone : g.agents.get (.str a) = none := by
            rw [hS.agents, AgentRegistry.entryOf, ho]
            rfl
          have htouch : s.agents.touch a s.clock = s.agents := by rw [AgentRegistry.touch, ho]
          rw [onEntry, hnone, htouch]
          exact hS
      | some o =>
          have htouch : s.agents.touch a s.clock = s.agents.onConn o (.touch s.clock) fun _ => rfl := by
            rw [AgentRegistry.touch, ho]
          exact shows_onEntry (u := .touch s.clock) hS ho (fun _ => rfl) (fun _ => rfl) htouch rfl
            ⟨hS.store.clock, hS.store.jobs, hS.store.events⟩

theorem answers_ack (hS : g.Shows it s) (hT : Columns.Readable it room depth s.jobs) (hroom : 1 ≤ room)
    (hidle : s.ctl (.handler c) = none) (j : String) :
    Answers it c b (onAck (Database.services af it room depth) (ofFields it (AgentFrame.ack j).fields) (handlerKey b)) g
      (s.onAck c j) := by
  have hid : Dict.lookup (field "job_id") (ofFields it (AgentFrame.ack j).fields) = some (.str (field j)) := by
    rw [lookup_ofFields]
    rfl
  obtain ⟨g', hrun, hS', -⟩ := run_told hS hT j "ack" [] (check_fields (n := 0) hroom (by simp))
    (pure (.returned (handlerKey b)))
  exact .of_ok ((Effect.run_bind_ok (run_item hid)).trans hrun) (handled_of_idle hidle)
    ⟨hS'.agents, hS'.locks, hS'.store.clock, hS'.store.jobs, hS'.store.events⟩

theorem shows_jobs (hS : g.Shows it s) {T : JobTable} (ht : t = { s with jobs := T }) :
    Shows it t { g with store := { g.store with jobs := (Columns.coding it).table T } } := by
  subst ht
  exact hS.onStore ⟨hS.store.clock, rfl, hS.store.events⟩ rfl rfl

theorem answers_started (hS : g.Shows it s) (hT : Columns.Readable it room depth s.jobs) (hroom : 1 ≤ room)
    (hidle : s.ctl (.handler c) = none) (j : String) :
    Answers it c b (onStarted (Database.services af it room depth) (ofFields it (AgentFrame.started j).fields)
      (handlerKey b)) g (s.onStarted j) := by
  have hid : Dict.lookup (field "job_id") (ofFields it (AgentFrame.started j).fields) = some (.str (field j)) := by
    rw [lookup_ofFields]
    rfl
  have hread : Columns.Readable it room depth (after sqliteJobRepository (.markRunning s.clock j) s.jobs) :=
    Columns.readable_after hT (by rintro _ ⟨⟩)
  obtain ⟨r, T, hrT⟩ : ∃ r T, SQLiteJobRepository.transitionIf s.clock j .dispatched .running s.jobs = (r, T) :=
    ⟨_, _, rfl⟩
  have hexec : JobService.markRunning sqliteJobRepository s.clock j s.jobs = .ok (r, T) := congrArg Except.ok hrT
  have hafter : after sqliteJobRepository (.markRunning s.clock j) s.jobs = T := congrArg Prod.snd hrT
  rw [hafter] at hread
  have hmark : (Database.services af it room depth).markRunning (.str (field j)) g.store =
      (.ok (r.map (Job.record it)), { g.store with jobs := (Columns.coding it).table T }) := by
    have href := Columns.transitionIf_refines hT s.clock j .dispatched .running
    rw [hrT, ← hS.store.jobs, ← hS.store.clock] at href
    refine (Database.onJob_str _ g.store).trans ?_
    rw [href]
    rfl
  have hS' := shows_jobs hS (T := T) rfl
  rw [Server.onStarted, hexec]
  cases r with
  | none =>
      refine .of_ok (h := .returned (handlerKey b)) ?_ (handled_of_idle hidle) hS'
      rw [onStarted, Effect.run_bind_ok (run_item hid), Effect.run_bind_ok (run_onStore hmark)]
      rfl
  | some job =>
      obtain ⟨g', htold, hS'', -⟩ := run_told hS' hread j "started"
        [("state", .str job.state.value)] (check_fields (n := 0) hroom (by simp [ofJson, nesting, digits]))
          (pure (.returned (handlerKey b)))
      refine .of_ok (h := .returned (handlerKey b)) ?_ (handled_of_idle hidle) hS''
      rw [onStarted, Effect.run_bind_ok (run_item hid), Effect.run_bind_ok (run_onStore hmark)]
      exact htold

theorem answers_freed (hS : g.Shows it s) (hidle : s.ctl (.handler c) = none) :
    Answers it c b (freeSlot (handlerKey b)) g (s.freed c b) := by
  cases b with
  | none => exact .of_ok rfl (handled_of_idle hidle) hS
  | some a =>
      rw [Server.freed, freeSlot]
      by_cases ha : a = ""
      · subst a
        exact .of_ok rfl (handled_of_idle hidle) hS
      · have htruthy : (handlerKey (some a)).truthy = true := decide_eq_true ha
        rw [if_neg ha, if_pos htruthy]
        refine .of_ok rfl (handled_goto a _ _) ?_
        rw [handlerKey, markFree, Server.freeSlot]
        cases ho : s.agents.get a with
        | none =>
            have hnone : g.agents.get (.str a) = none := by
              rw [hS.agents, AgentRegistry.entryOf, ho]
              rfl
            rw [onEntry, hnone]
            exact ⟨hS.agents, hS.locks, hS.store.clock, hS.store.jobs, hS.store.events⟩
        | some o =>
            exact shows_onEntry (u := .markFree) hS ho (fun _ => rfl) (fun _ => rfl) rfl rfl
              ⟨hS.store.clock, hS.store.jobs, hS.store.events⟩

theorem bind_int (x : Int) : (JsonDoc.int x).bind = if int64 x then some (.integer x) else none := rfl

theorem bind_ofText (err : Option PyStr) :
    (ofJson it (ofText err)).bind = if err.all PyStr.encodes then some (Columns.ofOptionStr err) else none := by
  cases err with
  | none => rfl
  | some r => exact bind_codes r

theorem text_ofStr {r : PyStr} (h : r.encodes = true) : af.text (Columns.ofStr r) = Columns.ofStr r := by
  cases r with
  | text => rfl
  | surrogate => cases h

theorem text_ofOptionStr {r : Option PyStr} (h : r.all PyStr.encodes = true) :
    af.text (Columns.ofOptionStr r) = Columns.ofOptionStr r := by
  cases r with
  | none => rfl
  | some r => exact text_ofStr h

/-- A method of the service that completes a job, with the texts and numbers of a message. -/
theorem complete_shows (hS : g.Shows it s) (hT : Columns.Readable it room depth s.jobs)
    (n : JobState) (j : String) (x : Int)
    (o e : PyStr) (err : Option PyStr) :
    Database.complete af it depth n (.str (field j)) (.int x) (.str o.codes) (.str e.codes) (ofJson it (ofText err))
        g.store =
      ((Columns.encode it s.jobs (SQLiteJobRepository.completeIfRunning s.clock j n x o e err s.jobs)).1.mapError
          fun _ => .raised,
        { g.store with
          jobs := (Columns.encode it s.jobs
            (SQLiteJobRepository.completeIfRunning s.clock j n x o e err s.jobs)).2 }) := by
  cases hb : bindableResult x o e err with
  | false =>
      obtain ⟨r, hraise⟩ := SQLiteJobRepository.completeIfRunning_error s.clock j n s.jobs hb
      have hraised : Database.complete af it depth n (.str (field j)) (.int x) (.str o.codes) (.str e.codes)
          (ofJson it (ofText err)) g.store = (.error .raised, g.store) := by
        rw [Database.complete, bind_int, bind_codes, bind_codes, bind_ofText]
        rw [bindableResult, encodable] at hb
        generalize int64 x = a, o.encodes = b, e.encodes = c, err.all PyStr.encodes = d at hb ⊢
        cases a <;> cases b <;> cases c <;> cases d <;> first | rfl | cases hb
      rw [hraised, hraise, Columns.encode, ← hS.store.jobs]
      rfl
  | true =>
      have href := Columns.completeIfRunning_refines hT s.clock j n x o e err
      rw [← hS.store.jobs, ← hS.store.clock] at href
      rw [bindableResult, encodable, Bool.and_eq_true, Bool.and_eq_true, Bool.and_eq_true] at hb
      obtain ⟨hx, ⟨ho, he⟩, herr⟩ := hb
      rw [Database.complete, bind_int, bind_codes, bind_codes, bind_ofText, hx, ho, he, herr]
      simp only [if_true]
      rw [Database.onJob_str, af.integer_eq, text_ofStr ho, text_ofStr he, text_ofOptionStr herr, href, hS.store.clock]

theorem truthy_ofText (err : Option PyStr) : (ofJson it (ofText err)).truthy = PyStr.truthy err := by
  cases err with
  | none => rfl
  | some r =>
      change (!r.codes.isEmpty) = decide (r ≠ .text "")
      cases r with
      | text s =>
          cases hs : s.toList with
          | nil =>
              obtain rfl := String.toList_eq_nil_iff.mp hs
              rfl
          | cons c cs =>
              have hne : s ≠ "" := by rintro rfl; cases hs
              simp [codes, hs, hne]
      | surrogate points valid lone =>
          obtain ⟨c, hc, -⟩ := lone
          cases points with
          | nil => cases hc
          | cons d ds => rfl

theorem key_int (x : Int) : (JsonDoc.int x).key = some (.number 0) ↔ x = 0 := by
  change some (PyKey.number (x : Rat)) = some (.number 0) ↔ x = 0
  rw [Option.some.injEq, PyKey.number.injEq]
  exact Rat.intCast_inj

theorem run_complete (af : Affinity) (hS : g.Shows it s)
    (hT : Columns.Readable it room depth s.jobs) (j : String) (x : Int) (o e : PyStr)
    (err : Option PyStr) :
    (complete (Database.services af it room depth) (.str (field j)) (.int x) (.str o.codes) (.str e.codes)
      (ofJson it (ofText err))).run g =
      ((Columns.encode it s.jobs (exec sqliteJobRepository (Server.completion s.clock j x o e err) s.jobs)).1.mapError
          fun _ => .raised,
        { g with store := { g.store with
          jobs := (Columns.encode it s.jobs
            (exec sqliteJobRepository (Server.completion s.clock j x o e err) s.jobs)).2 } }) := by
  rw [complete, truthy_ofText, Server.completion]
  cases ht : PyStr.truthy err with
  | true => exact run_onStore (complete_shows hS hT .failed j x o e err)
  | false =>
      rw [if_neg Bool.false_ne_true, if_neg Bool.false_ne_true]
      by_cases hx : x = 0
      · rw [if_pos ((key_int x).mpr hx), if_pos hx]
        exact run_onStore (complete_shows hS hT .succeeded j x o e none)
      · rw [if_neg (mt (key_int x).mp hx), if_neg hx]
        exact run_onStore (complete_shows hS hT .failed j x o e none)

theorem answers_result (hS : g.Shows it s) (hT : Columns.Readable it room depth s.jobs) (hroom : 1 ≤ room)
    (hdigits : 19 ≤ it.maxDigits) (hidle : s.ctl (.handler c) = none) (j : String) (x : Int) (o e : PyStr)
    (err : Option PyStr) :
    Answers it c b (onResult (Database.services af it room depth) (ofFields it (AgentFrame.result j x o e err).fields)
      (handlerKey b)) g (s.onResult c b j x o e err) := by
  have hlookup : ∀ name, Dict.lookup (field name) (ofFields it (AgentFrame.result j x o e err).fields) =
      (Dict.lookup name (AgentFrame.result j x o e err).fields).map (ofJson it) := fun name => lookup_ofFields name _
  have hid : Dict.lookup (field "job_id") (ofFields it (AgentFrame.result j x o e err).fields) =
      some (.str (field j)) := hlookup "job_id"
  have hcode : Dict.lookup (field "exit_code") (ofFields it (AgentFrame.result j x o e err).fields) =
      some (.int x) := hlookup "exit_code"
  have hout : getD "stdout" (.str []) (ofFields it (AgentFrame.result j x o e err).fields) = .str o.codes :=
    congrArg (Option.getD · _) (hlookup "stdout")
  have hstderr : getD "stderr" (.str []) (ofFields it (AgentFrame.result j x o e err).fields) = .str e.codes :=
    congrArg (Option.getD · _) (hlookup "stderr")
  have herr : getD "error" .null (ofFields it (AgentFrame.result j x o e err).fields) = ofJson it (ofText err) :=
    congrArg (Option.getD · _) (hlookup "error")
  have hnoted : g.Shows it (s.note (.resultProcessed c j)) :=
    ⟨hS.agents, hS.locks, hS.store.clock, hS.store.jobs, hS.store.events⟩
  have hcomplete := run_complete af hS hT j x o e err
  have hexec := Server.complete_eq j x o e err (s.note (.resultProcessed c j))
  change _ = exec sqliteJobRepository (Server.completion s.clock j x o e err) s.jobs at hexec
  rw [← hexec] at hcomplete
  rw [onResult, hout, hstderr, herr]
  cases hx : bindableResult x o e err with
  | false =>
      obtain ⟨r, hr⟩ := Server.exec_completion_error (t := s.clock) (j := j) s.jobs hx
      rw [hr] at hexec
      have hsame :
          ({ g with store := { g.store with jobs := (Columns.coding it).table s.jobs } } : Gateway Database) = g := by
        rw [← hS.store.jobs]
      rw [Server.onResult_error hexec]
      rw [hexec] at hcomplete
      have hraised := hcomplete.trans (congrArg (Prod.mk _) hsame)
      refine .of_error (e := .raised) ?_ (handled_of_idle hidle) hnoted
      rw [Effect.run_bind_ok (run_item hid), Effect.run_bind_ok (run_item hcode)]
      exact Effect.run_bind_error hraised
  | true =>
      rw [Server.exec_completion s.jobs hx] at hexec
      have hS₁ := shows_jobs (T := stored (Server.completion s.clock j x o e err) s.jobs) hnoted rfl
      rw [hexec] at hcomplete
      cases hr : sqliteJobRepository.get j (stored (Server.completion s.clock j x o e err) s.jobs) with
      | none =>
          rw [hr] at hexec hcomplete
          rw [Server.onResult_none hexec]
          refine .of_run ?_ (answers_freed hS₁ hidle)
          rw [Effect.run_bind_ok (run_item hid), Effect.run_bind_ok (run_item hcode)]
          exact Effect.run_bind_ok hcomplete
      | some job =>
          rw [hr] at hexec hcomplete
          rw [Server.onResult_some hexec]
          have hread : Columns.Readable it room depth (stored (Server.completion s.clock j x o e err) s.jobs) :=
            Columns.readable_after hT (by rw [Server.completion_created]; rintro _ ⟨⟩)
          have hbind : job.bindable = true := (hread job (Table.find_mem hr).1).2
          have hcheck : check it room (.obj (ofFields it
              [("state", .str job.state.value), ("exit_code", job.exitCode.elim .null .int)])) = .ok () := by
            have hexit : (ofJson it (job.exitCode.elim .null .int)).nesting = 0 ∧
                (ofJson it (job.exitCode.elim .null .int)).digits ≤ it.maxDigits := by
              simp only [Job.bindable, Job.integersFit, Bool.and_eq_true] at hbind
              have hint := hbind.1.1.2
              cases hcode : job.exitCode with
              | none => exact ⟨rfl, Nat.zero_le _⟩
              | some n =>
                  rw [hcode] at hint
                  exact ⟨rfl, (digits_int64 hint).trans hdigits⟩
            refine check_fields (n := 0) hroom fun kv hkv => ?_
            rcases List.mem_pair.mp hkv with rfl | rfl
            · exact ⟨le_rfl, Nat.zero_le _⟩
            · exact ⟨hexit.1.le, hexit.2⟩
          obtain ⟨g', htold, hS₂, -⟩ := run_told hS₁ hread j "result" _ hcheck (freeSlot (handlerKey b))
          have hdoc : (Job.record it job).exitCode.toDoc = ofJson it (job.exitCode.elim .null .int) := by
            change (Columns.ofOptionInt job.exitCode).toDoc = _
            cases job.exitCode <;> rfl
          refine .of_run ?_ (answers_freed hS₂ hidle)
          rw [Effect.run_bind_ok (run_item hid), Effect.run_bind_ok (run_item hcode)]
          refine (Effect.run_bind_ok hcomplete).trans ?_
          dsimp only [Option.map_some]
          rw [hdoc]
          exact htold

theorem answers_reconcile (hS : g.Shows it s) (hT : Columns.Readable it room depth s.jobs) (hroom : 1 ≤ room)
    (hidle : s.ctl (.handler c) = none) (j status : String) (x : Option Int) :
    Answers it c b (onReconcile (Database.services af it room depth)
      (ofFields it (AgentFrame.reconcile j status x).fields) (handlerKey b)) g (s.onReconcile j status) := by
  have hlookup : ∀ name, Dict.lookup (field name) (ofFields it (AgentFrame.reconcile j status x).fields) =
      (Dict.lookup name (AgentFrame.reconcile j status x).fields).map (ofJson it) := fun name => lookup_ofFields name _
  have hid : Dict.lookup (field "job_id") (ofFields it (AgentFrame.reconcile j status x).fields) =
      some (.str (field j)) := hlookup "job_id"
  have hstatus : getD "status" .null (ofFields it (AgentFrame.reconcile j status x).fields) = .str (field status) :=
    congrArg (Option.getD · _) (hlookup "status")
  have hcheck : check it room (.obj (ofFields it [("status", .str status)])) = .ok () :=
    check_fields (n := 0) hroom (by simp [ofJson, nesting, digits])
  obtain ⟨g', hrun, hS', -⟩ := run_told hS hT j "reconciled" _ hcheck (pure (.returned (handlerKey b)))
  refine .of_ok ((Effect.run_bind_ok (run_item hid)).trans ?_) (handled_of_idle hidle) hS'
  rw [hstatus]
  exact hrun

/-- `_on_log` writes where the server does not look. -/
theorem answers_log (hS : g.Shows it s) (hidle : s.ctl (.handler c) = none) (j stream : String) (n : Int)
    (chunk : String) :
    Answers it c b (onLog (Database.services af it room depth) (ofFields it (AgentFrame.log j stream n chunk).fields)
      (handlerKey b)) g s := by
  have hlookup : ∀ name, Dict.lookup (field name) (ofFields it (AgentFrame.log j stream n chunk).fields) =
      (Dict.lookup name (AgentFrame.log j stream n chunk).fields).map (ofJson it) := fun name => lookup_ofFields name _
  have hid : Dict.lookup (field "job_id") (ofFields it (AgentFrame.log j stream n chunk).fields) =
      some (.str (field j)) := hlookup "job_id"
  have hstream : Dict.lookup (field "stream") (ofFields it (AgentFrame.log j stream n chunk).fields) =
      some (.str (field stream)) := hlookup "stream"
  have hchunk : Dict.lookup (field "chunk") (ofFields it (AgentFrame.log j stream n chunk).fields) =
      some (.str (field chunk)) := hlookup "chunk"
  have hsequence : Dict.lookup (field "sequence") (ofFields it (AgentFrame.log j stream n chunk).fields) =
      some (.int n) := hlookup "sequence"
  obtain ⟨broker, hbroker⟩ : ∃ broker, (g.store.broker.publish (.str j) (.str stream) (.str (field chunk))).2 = broker :=
    ⟨_, rfl⟩
  have hpublish : Database.publish (.str (field j)) (.str (field stream)) (.str (field chunk)) g.store =
      (.ok (), { g.store with broker := broker }) := by
    rw [Database.publish, key_str, key_str, ← hbroker]
  have hS₁ : Shows it s { g with store := { g.store with broker := broker } } :=
    hS.onStore ⟨hS.store.clock, hS.store.jobs, hS.store.events⟩ rfl rfl
  cases hrow : Database.logRow af (.str (field j)) (.str (field stream)) (.int n) (.str (field chunk)) with
  | none =>
      have happend : Database.appendLog af (.str (field j)) (.str (field stream)) (.int n) (.str (field chunk))
          { g.store with broker := broker } = (.error .raised, { g.store with broker := broker }) := by
        rw [Database.appendLog, hrow]
      refine .of_error (e := .raised) ?_ (handled_of_idle hidle) hS₁
      rw [onLog, Effect.run_bind_ok (run_item hid), Effect.run_bind_ok (run_item hstream),
        Effect.run_bind_ok (run_item hchunk)]
      refine (Effect.run_bind_ok (run_onStore hpublish)).trans ?_
      rw [Effect.run_bind_ok (run_item hsequence)]
      exact Effect.run_bind_error (run_onStore happend)
  | some row =>
      have happend : Database.appendLog af (.str (field j)) (.str (field stream)) (.int n) (.str (field chunk))
          { g.store with broker := broker } =
          (.ok (), { g.store with broker := broker, logRows := g.store.logRows ++ [row] }) := by
        rw [Database.appendLog, hrow]
      refine .of_ok (h := .returned (handlerKey b)) ?_ (handled_of_idle hidle)
        (hS₁.onStore (d := { g.store with broker := broker, logRows := g.store.logRows ++ [row] })
          ⟨hS.store.clock, hS.store.jobs, hS.store.events⟩ rfl rfl)
      rw [onLog, Effect.run_bind_ok (run_item hid), Effect.run_bind_ok (run_item hstream),
        Effect.run_bind_ok (run_item hchunk)]
      refine (Effect.run_bind_ok (run_onStore hpublish)).trans ?_
      rw [Effect.run_bind_ok (run_item hsequence)]
      exact Effect.run_bind_ok (run_onStore happend)

/-- The handlers of the gateway do to the registry, the locks and the database what a frame does to the server. -/
theorem answers_frame (hS : g.Shows it s) (hT : Columns.Readable it room depth s.jobs) (hroom : 1 ≤ room)
    (hdigits : 19 ≤ it.maxDigits) (hidle : s.ctl (.handler c) = none) (f : AgentFrame) :
    Answers it c b (dispatch (Database.services af it room depth) c (f.document it) (handlerKey b)) g
      (s.onFrame c b (some f)) := by
  cases f with
  | register a => exact .of_run (run_dispatch (lookup_ofFields _ _) rfl g) (answers_register hS a)
  | ack j => exact .of_run (run_dispatch (lookup_ofFields _ _) rfl g) (answers_ack hS hT hroom hidle j)
  | started j => exact .of_run (run_dispatch (lookup_ofFields _ _) rfl g) (answers_started hS hT hroom hidle j)
  | log j stream n chunk =>
      exact .of_run (run_dispatch (lookup_ofFields _ _) rfl g) (answers_log hS hidle j stream n chunk)
  | result j x o e err =>
      exact .of_run (run_dispatch (lookup_ofFields _ _) rfl g) (answers_result hS hT hroom hdigits hidle j x o e err)
  | heartbeat a => exact .of_run (run_dispatch (lookup_ofFields _ _) rfl g) (answers_heartbeat hS hidle _)
  | reconcile j status x =>
      exact .of_run (run_dispatch (lookup_ofFields _ _) rfl g) (answers_reconcile hS hT hroom hidle j status x)

end Frames

end Gateway

end JobSystem
