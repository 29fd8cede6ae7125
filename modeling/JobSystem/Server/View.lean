import JobSystem.Lifecycle
import JobSystem.Server.Step

namespace JobSystem

open Lib

def Return.next : Return → Option Ctl
  | .register _ _ | .result | .submit _ => none
  | .scan now rest => some (.scanAck now rest)

def Return.running (co : Coro) : Return → Option Coro
  | .register _ _ | .result | .submit _ => none
  | .scan _ _ => some co

def Return.bind (handlers : ConnId → Option (Option String)) : Return → ConnId → Option (Option String)
  | .register c a => Function.update handlers c (some (some a))
  | .result | .submit _ | .scan _ _ => handlers

abbrev stored (op : Op) (jobs : JobTable) : JobTable := after sqliteJobRepository op jobs

def Label.mayBeQuiet : Label → Bool
  | .frame _ none | .frame _ (some (.log ..)) | .frame _ (some (.heartbeat _))
  | .frame _ (some (.reconcile ..)) | .submit .. | .cancel .. => true
  | _ => false

namespace Server

theorem resume_eq (co : Coro) (k : Return) (s : Server) :
    s.resume co k = { s with
      handlers := k.bind s.handlers
      ctl := Function.update s.ctl co k.next
      loop := k.running co } := by
  cases k <;> rfl

theorem leave_eq (co : Coro) (l : LockRef) (k : Return) (s : Server) :
    s.leave co l k = { s with
      dispatchLocks := s.dispatchLocks.update l (s.dispatchLocks.mutexes l).release
      handlers := k.bind s.handlers
      ctl := Function.update s.ctl co k.next
      loop := k.running co } := by
  rw [leave, resume_eq]
  rfl

def completion (t : Instant) (jobId : String) (exitCode : Int) (stdout stderr : PyStr)
    (error : Option PyStr) : Op :=
  if PyStr.truthy error then .markFailed t jobId exitCode stdout stderr error
  else if exitCode = 0 then .markSucceeded t jobId exitCode stdout stderr
  else .markFailed t jobId exitCode stdout stderr none

/-- Everything that one step can do, with the state it leaves. -/
inductive View (cfg : Config) (s : Server) : Label → Server → Prop
  | tick (t) : View cfg s (.tick t) { s with clock := t }
  | connect (hl : s.loop = none) :
      View cfg s .connect { s with
        nextConn := s.nextConn + 1
        sockets := Function.update s.sockets s.nextConn true
        handlers := Function.update s.handlers s.nextConn (some none) }
  | drop (c) (hl : s.loop = none) : View cfg s (.drop c) { s with sockets := Function.update s.sockets c false }
  | ended (c b) (hl : s.loop = none) (hc : s.ctl (.handler c) = none) (hb : s.handlers c = some b)
      (hf : truthy b = false) :
      View cfg s (.handlerEnd c) { s with
        handlers := Function.update s.handlers c none
        sockets := Function.update s.sockets c false }
  | forgot (c a) (hl : s.loop = none) (hc : s.ctl (.handler c) = none) (hb : s.handlers c = some (some a))
      (ha : a ≠ "") :
      View cfg s (.handlerEnd c) { s with
        handlers := Function.update s.handlers c none
        sockets := Function.update s.sockets c false
        agents := s.agents.unregister a
        dispatchLocks := s.dispatchLocks.forget a }
  | quiet (l events) (hl : s.loop = none) (hq : l.mayBeQuiet = true) : View cfg s l { s with events := events }
  | acked (c j events) (hl : s.loop = none) (hb : (s.handlers c).isSome) :
      View cfg s (.frame c (some (.ack j))) { s with events := events, history := .acked c j :: s.history }
  | touched (c a b) (hl : s.loop = none) (hb : s.handlers c = some (some a)) :
      View cfg s (.frame c (some (.heartbeat b))) { s with agents := s.agents.touch a s.clock }
  | registered (c b a) (hl : s.loop = none) (hc : s.ctl (.handler c) = none) (hb : s.handlers c = some b) :
      View cfg s (.frame c (some (.register a))) { s with
        agents := s.agents.register a c s.clock
        history := .registered c a :: s.history
        ctl := Function.update s.ctl (.handler c) (some (.dispatch a (.register c a)))
        loop := some (.handler c) }
  | started (c j events) (hl : s.loop = none) (hb : (s.handlers c).isSome) :
      View cfg s (.frame c (some (.started j))) { s with
        jobs := stored (.markRunning s.clock j) s.jobs
        events := events }
  | resultRaised (c j x o e err) (hl : s.loop = none) (hb : (s.handlers c).isSome)
      (hx : bindableResult x o e err = false) :
      View cfg s (.frame c (some (.result j x o e err))) { s with history := .resultProcessed c j :: s.history }
  | resultKept (c b j x o e err events) (hl : s.loop = none) (hb : s.handlers c = some b)
      (hf : truthy b = false) (hx : bindableResult x o e err = true) :
      View cfg s (.frame c (some (.result j x o e err))) { s with
        jobs := stored (completion s.clock j x o e err) s.jobs
        events := events
        history := .resultProcessed c j :: s.history }
  | resultFreed (c a j x o e err events) (hl : s.loop = none) (hc : s.ctl (.handler c) = none)
      (hb : s.handlers c = some (some a)) (ha : a ≠ "") (hx : bindableResult x o e err = true) :
      View cfg s (.frame c (some (.result j x o e err))) { s with
        jobs := stored (completion s.clock j x o e err) s.jobs
        events := events
        history := .resultProcessed c j :: s.history
        agents := freeSlot a s.agents
        ctl := Function.update s.ctl (.handler c) (some (.dispatch a .result))
        loop := some (.handler c) }
  | submitted (n id cid req r events) (hl : s.loop = none) (hc : s.ctl (.api n) = none)
      (hr : exec sqliteJobRepository (.submit id cid s.clock s.clock req.toRequest) s.jobs =
        .ok (some r, stored (.submit id cid s.clock s.clock req.toRequest) s.jobs)) :
      View cfg s (.submit n id cid req) { s with
        jobs := stored (.submit id cid s.clock s.clock req.toRequest) s.jobs
        events := events
        ctl := Function.update s.ctl (.api n) (some (.dispatch req.agentId (.submit r.jobId)))
        loop := some (.api n) }
  | cancelBegun (n j job) (hl : s.loop = none) (hc : s.ctl (.api n) = none)
      (hj : sqliteJobRepository.get j s.jobs = some job) (ht : job.state.isTerminal = false) :
      View cfg s (.cancel n j) { s with
        ctl := Function.update s.ctl (.api n) (some (.sendCancel job (.user n)))
        loop := some (.api n) }
  | ackScan (hl : s.loop = none) (hc : s.ctl .ackWatcher = none) :
      View cfg s .ackScan { s with
        ctl := Function.update s.ctl .ackWatcher
          (some (.scanAck s.clock (JobService.list sqliteJobRepository none (some .dispatched) s.jobs)))
        loop := some .ackWatcher }
  | timeoutScan (hl : s.loop = none) (hc : s.ctl .timeoutWatcher = none) :
      View cfg s .timeoutScan { s with
        ctl := Function.update s.ctl .timeoutWatcher
          (some (.scanTimeout s.clock (JobService.list sqliteJobRepository none (some .running) s.jobs)))
        loop := some .timeoutWatcher }
  | heartbeatScan (hl : s.loop = none) : View cfg s .heartbeatScan (s.heartbeatScan cfg)
  | woken (co l k m) (hl : s.loop = none) (hc : s.ctl co = some (.acquiring l k))
      (hm : (s.dispatchLocks.mutexes l).wake = some (co, m)) :
      View cfg s (.wake co) { s with
        dispatchLocks := s.dispatchLocks.update l m
        ctl := Function.update s.ctl co (some (.locked l k))
        loop := some co }
  | entered (co a k) (hl : s.loop = some co) (hc : s.ctl co = some (.dispatch a k))
      (hm : ((s.dispatchLocks.lockFor a).2.mutexes (s.dispatchLocks.lockFor a).1).free = true) :
      View cfg s .run { s with
        dispatchLocks := (s.dispatchLocks.lockFor a).2.update (s.dispatchLocks.lockFor a).1
          (((s.dispatchLocks.lockFor a).2.mutexes (s.dispatchLocks.lockFor a).1).hold co)
        ctl := Function.update s.ctl co (some (.locked (s.dispatchLocks.lockFor a).1 k))
        loop := some co }
  | queued (co a k) (hl : s.loop = some co) (hc : s.ctl co = some (.dispatch a k)) :
      View cfg s .run { s with
        dispatchLocks := (s.dispatchLocks.lockFor a).2.update (s.dispatchLocks.lockFor a).1
          (((s.dispatchLocks.lockFor a).2.mutexes (s.dispatchLocks.lockFor a).1).enqueue co)
        ctl := Function.update s.ctl co (some (.acquiring (s.dispatchLocks.lockFor a).1 k))
        loop := none }
  | left (co l k) (hl : s.loop = some co) (hc : s.ctl co = some (.locked l k))
      (why : ∀ o, s.agents.get l.agentId = some o → (s.agents.conns o).inFlight = 0 →
        s.sockets (s.agents.conns o).ws = true → pendingJobs l.agentId s.jobs = []) :
      View cfg s .run { s with
        dispatchLocks := s.dispatchLocks.update l (s.dispatchLocks.mutexes l).release
        handlers := k.bind s.handlers
        ctl := Function.update s.ctl co k.next
        loop := k.running co }
  | sendBegun (co l k o job) (hl : s.loop = some co) (hc : s.ctl co = some (.locked l k))
      (ho : s.agents.get l.agentId = some o) (hidle : (s.agents.conns o).inFlight = 0)
      (hp : (pendingJobs l.agentId s.jobs).head? = some job) (hs : s.sockets (s.agents.conns o).ws = true) :
      View cfg s .run { s with
        outbox := Function.update s.outbox (s.agents.conns o).ws
          (s.outbox (s.agents.conns o).ws ++ [jobMessage job])
        history := .jobWritten (s.agents.conns o).ws job.jobId :: s.history
        ctl := Function.update s.ctl co (some (.sending l o job k))
        loop := none }
  | sent (co l o job k attempt) (hl : s.loop = none) (hc : s.ctl co = some (.sending l o job k))
      (hok : (exec sqliteJobRepository (.markDispatchedWithAttempt s.clock s.clock job.jobId) s.jobs).isOk) :
      View cfg s (.sendReturned co .sent) { s with
        agents := s.agents.markBusy o
        history := .jobSent (s.agents.conns o).ws job.jobId :: s.history
        jobs := stored (.markDispatchedWithAttempt s.clock s.clock job.jobId) s.jobs
        events := s.events ++ [⟨job.jobId, "dispatched", attempt, s.clock⟩]
        dispatchLocks := s.dispatchLocks.update l (s.dispatchLocks.mutexes l).release
        handlers := k.bind s.handlers
        ctl := Function.update s.ctl co k.next
        loop := k.running co }
  | sentUnrecorded (co l o job k out) (hl : s.loop = none) (hc : s.ctl co = some (.sending l o job k))
      (hf : out = .sentStoreFails ∨ (out = .sent ∧
        (exec sqliteJobRepository (.markDispatchedWithAttempt s.clock s.clock job.jobId) s.jobs).isOk = false)) :
      View cfg s (.sendReturned co out) { s with
        agents := s.agents.markBusy o
        history := .jobSent (s.agents.conns o).ws job.jobId :: s.history
        dispatchLocks := s.dispatchLocks.update l (s.dispatchLocks.mutexes l).release
        ctl := Function.update s.ctl co none
        loop := none }
  | sendClosed (co l o job k) (hl : s.loop = none) (hc : s.ctl co = some (.sending l o job k))
      (hs : s.sockets (s.agents.conns o).ws = false) :
      View cfg s (.sendReturned co .closed) { s with
        dispatchLocks := s.dispatchLocks.update l (s.dispatchLocks.mutexes l).release
        handlers := k.bind s.handlers
        ctl := Function.update s.ctl co k.next
        loop := k.running co }
  | scanEnded (now jobs) (hl : s.loop = some .ackWatcher) (hc : s.ctl .ackWatcher = some (.scanAck now jobs)) :
      View cfg s .run { s with ctl := Function.update s.ctl .ackWatcher none, loop := none }
  | scanSkipped (now job rest) (hl : s.loop = some .ackWatcher)
      (hc : s.ctl .ackWatcher = some (.scanAck now (job :: rest))) (ho : ackOverdue cfg now job = false) :
      View cfg s .run { s with
        ctl := Function.update s.ctl .ackWatcher (some (.scanAck now rest))
        loop := some .ackWatcher }
  | staleFailed (now job rest) (error : String) (events) (hl : s.loop = some .ackWatcher)
      (hc : s.ctl .ackWatcher = some (.scanAck now (job :: rest))) (ho : ackOverdue cfg now job = true)
      (hm : cfg.maxDispatchAttempts ≤ job.dispatchAttempts) :
      View cfg s .run { s with
        jobs := stored (.failStaleDispatch s.clock s.clock job.jobId error) s.jobs
        history := if s.isOpen job.jobId then .failedNoAck job.jobId :: s.history else s.history
        events := events
        ctl := Function.update s.ctl .ackWatcher (some (.scanAck now rest))
        loop := some .ackWatcher }
  | requeued (now job rest events) (hl : s.loop = some .ackWatcher)
      (hc : s.ctl .ackWatcher = some (.scanAck now (job :: rest))) (ho : ackOverdue cfg now job = true)
      (hm : job.dispatchAttempts < cfg.maxDispatchAttempts) :
      View cfg s .run { s with
        jobs := stored (.requeue s.clock job.jobId) s.jobs
        history := if s.isDispatched job.jobId then .requeued job.jobId :: s.history else s.history
        events := events
        ctl := Function.update s.ctl .ackWatcher (some (.dispatch job.agentId (.scan now rest)))
        loop := some .ackWatcher }
  | timeoutMoved (x y loop) (hl : s.loop = some .timeoutWatcher) (hc : s.ctl .timeoutWatcher = some x)
      (hx : ∃ now jobs, x = .scanTimeout now jobs)
      (hy : (y = none ∧ loop = none) ∨ (loop = some .timeoutWatcher ∧
        ((∃ now rest, y = some (.scanTimeout now rest)) ∨
          ∃ job now rest, y = some (.sendCancel job (.fire now rest))))) :
      View cfg s .run { s with ctl := Function.update s.ctl .timeoutWatcher y, loop := loop }
  | cancelSending (co job k o) (hl : s.loop = some co) (hc : s.ctl co = some (.sendCancel job k))
      (ho : s.agents.get job.agentId = some o) (hs : s.sockets (s.agents.conns o).ws = true) :
      View cfg s .run { s with
        outbox := Function.update s.outbox (s.agents.conns o).ws
          (s.outbox (s.agents.conns o).ws ++ [.cancel job.jobId k.reason])
        ctl := Function.update s.ctl co (some (.sendingCancel job k))
        loop := none }
  | timedOut (l co job now rest x events) (hx : s.ctl co = some x)
      (hc : (l = .run ∧ s.loop = some co ∧ x = .sendCancel job (.fire now rest)) ∨
        ∃ out, l = .sendReturned co out ∧ s.loop = none ∧ x = .sendingCancel job (.fire now rest)) :
      View cfg s l { s with
        jobs := stored (.markTimedOut s.clock job.jobId) s.jobs
        events := events
        ctl := Function.update s.ctl co (some (.scanTimeout now rest))
        loop := some co }
  | cancelled (l co job n x events state) (hx : s.ctl co = some x)
      (hc : (l = .run ∧ s.loop = some co ∧ x = .sendCancel job (.user n)) ∨
        ∃ out, l = .sendReturned co out ∧ s.loop = none ∧ x = .sendingCancel job (.user n)) :
      View cfg s l { s with
        jobs := stored (.markCancelled s.clock job.jobId) s.jobs
        events := events
        history := .cancelResponse n job.jobId state :: s.history
        ctl := Function.update s.ctl co none
        loop := none }

variable {cfg : Config} {s s' : Server}

theorem of_idle {co : Coro} {t : Server} (h : (if s.idle co then some t else none) = some s') :
    s.loop = none ∧ s.ctl co = none ∧ t = s' := by
  obtain ⟨hi, ht⟩ := Option.ite_none_right_eq_some.mp h
  have hidle : s.loop = none ∧ s.ctl co = none := by simpa [idle] using hi
  exact ⟨hidle.1, hidle.2, Option.some.inj ht⟩

theorem of_loop {x : Option Server} (h : (if s.loop.isNone then x else none) = some s') :
    s.loop = none ∧ x = some s' := by
  obtain ⟨hl, hx⟩ := Option.ite_none_right_eq_some.mp h
  exact ⟨by simpa using hl, hx⟩

theorem stored_eq {op : Op} {jobs jobs' : JobTable} {r : Option Job}
    (h : exec sqliteJobRepository op jobs = .ok (r, jobs')) : stored op jobs = jobs' := by
  rw [stored, after, h]

theorem exec_of_isOk {op : Op} {jobs : JobTable} (h : (exec sqliteJobRepository op jobs).isOk) :
    ∃ r, exec sqliteJobRepository op jobs = .ok (r, stored op jobs) := by
  cases hex : exec sqliteJobRepository op jobs with
  | error e => rw [hex] at h; cases h
  | ok p =>
      obtain ⟨r, jobs'⟩ := p
      exact ⟨r, by rw [stored_eq hex]⟩

theorem transition_eq (op : Op) (t : Instant) (j : String) (e n : JobState) (jobs : JobTable)
    (h : exec sqliteJobRepository op jobs = sqliteJobRepository.transitionIf t j e n jobs) :
    exec sqliteJobRepository op jobs =
      .ok (sqliteJobRepository.get j (stored op jobs), stored op jobs) := by
  obtain ⟨jobs', hs, _⟩ :=
    sqliteJobRepository_lawful.transitionIf (t := t) (j := j) (e := e) (n := n) (s := jobs)
  rw [hs] at h
  rw [stored_eq h, h]

theorem complete_eq (j : String) (x : Int) (o e : PyStr) (err : Option PyStr) (s : Server) :
    s.complete j x o e err = exec sqliteJobRepository (completion s.clock j x o e err) s.jobs := by
  rw [complete, completion]
  split
  · rfl
  · split <;> rfl

theorem completion_cases (t : Instant) (j : String) (x : Int) (o e : PyStr) (err : Option PyStr) :
    (∃ r, completion t j x o e err = .markFailed t j x o e r) ∨
      completion t j x o e err = .markSucceeded t j x o e := by
  rw [completion]
  split
  · exact .inl ⟨_, rfl⟩
  · split
    · exact .inr rfl
    · exact .inl ⟨_, rfl⟩

theorem completion_target (t : Instant) (j : String) (x : Int) (o e : PyStr) (err : Option PyStr) :
    (completion t j x o e err).target = some j := by
  rcases completion_cases t j x o e err with ⟨_, h⟩ | h <;> rw [h] <;> rfl

theorem completion_binds (t : Instant) (j : String) (x : Int) (o e : PyStr) (err : Option PyStr) :
    (completion t j x o e err).binds = bindableResult x o e err := by
  have hfalsy : PyStr.truthy err = false → bindableResult x o e err = bindableResult x o e none := by
    intro h
    cases err with
    | none => rfl
    | some r =>
        obtain rfl : r = .text "" := by simpa using h
        rfl
  rw [completion]
  split
  · rfl
  · next h =>
      rw [hfalsy (Bool.eq_false_iff.mpr h)]
      split <;> rfl

theorem exec_completion {t : Instant} {j : String} {x : Int} {o e : PyStr} {err : Option PyStr} (jobs : JobTable)
    (hx : bindableResult x o e err = true) :
    exec sqliteJobRepository (completion t j x o e err) jobs =
      .ok (sqliteJobRepository.get j (stored (completion t j x o e err) jobs),
        stored (completion t j x o e err) jobs) := by
  have hfits : ∃ r, exec sqliteJobRepository (completion t j x o e err) jobs = .ok r := by
    have hbinds := (completion_binds t j x o e err).trans hx
    rcases completion_cases t j x o e err with ⟨_, h⟩ | h <;> rw [h] at hbinds ⊢ <;>
      exact SQLiteJobRepository.exec_of_fits _ jobs rfl hbinds
  obtain ⟨⟨r, jobs'⟩, hr⟩ := hfits
  obtain ⟨rfl, _⟩ := exec_spec sqliteJobRepository_lawful (completion_target t j x o e err) hr
  rw [stored_eq hr, hr]

theorem exec_completion_error {t : Instant} {j : String} {x : Int} {o e : PyStr} {err : Option PyStr} (jobs : JobTable)
    (hx : bindableResult x o e err = false) :
    ∃ r, exec sqliteJobRepository (completion t j x o e err) jobs = .error r := by
  have hbinds := (completion_binds t j x o e err).trans hx
  rcases completion_cases t j x o e err with ⟨_, h⟩ | h <;> rw [h] at hbinds ⊢ <;>
    exact SQLiteJobRepository.completeIfRunning_error _ _ _ _ hbinds

theorem view_onResult {c : ConnId} {b : Option String} (j : String) (x : Int) (o e : PyStr)
    (err : Option PyStr) (hl : s.loop = none) (hc : s.ctl (.handler c) = none)
    (hb : s.handlers c = some b) :
    View cfg s (.frame c (some (.result j x o e err))) (s.onResult c b j x o e err) := by
  have hsome : (s.handlers c).isSome := by rw [hb]; rfl
  have hcomplete := complete_eq j x o e err (s.note (.resultProcessed c j))
  rw [onResult]
  cases hx : bindableResult x o e err with
  | false =>
      obtain ⟨r, hex⟩ := exec_completion_error (t := s.clock) (j := j) s.jobs hx
      simp only [hcomplete.trans hex]
      exact .resultRaised c j x o e err hl hsome hx
  | true =>
      simp only [hcomplete.trans (exec_completion (t := s.clock) (j := j) s.jobs hx)]
      generalize sqliteJobRepository.get j _ = r
      cases b with
      | none => cases r <;> exact .resultKept c none j x o e err _ hl hb rfl hx
      | some a =>
          by_cases ha : a = ""
          · subst a
            simp only [if_true]
            cases r <;> exact .resultKept c (some "") j x o e err _ hl hb rfl hx
          · simp only [if_neg ha]
            cases r <;> exact .resultFreed c a j x o e err _ hl hc hb ha hx

theorem view_onFrame {c : ConnId} {b : Option String} (f : Option AgentFrame) (hl : s.loop = none)
    (hc : s.ctl (.handler c) = none) (hb : s.handlers c = some b) :
    View cfg s (.frame c f) (s.onFrame c b f) := by
  have hsome : (s.handlers c).isSome := by rw [hb]; rfl
  match f with
  | none | some (.log ..) => exact .quiet _ s.events hl rfl
  | some (.reconcile ..) => exact .quiet _ _ hl rfl
  | some (.register a) => exact .registered c b a hl hc hb
  | some (.ack j) => exact .acked c j _ hl hsome
  | some (.heartbeat a) =>
      cases b with
      | none => exact .quiet _ s.events hl rfl
      | some b => exact .touched c b a hl hb
  | some (.started j) =>
      have hex := transition_eq (.markRunning s.clock j) _ _ _ _ s.jobs rfl
      change JobService.markRunning sqliteJobRepository s.clock j s.jobs = _ at hex
      change View cfg s _ (s.onStarted j)
      rw [onStarted]
      rw [hex]
      cases sqliteJobRepository.get j (stored (.markRunning s.clock j) s.jobs) with
      | none => exact .started c j s.events hl hsome
      | some job => exact .started c j _ hl hsome
  | some (.result j x o e err) => exact view_onResult j x o e err hl hc hb

theorem view_submitJob {n : Nat} (id cid : String) (req : SubmitJobRequest) (hl : s.loop = none)
    (hc : s.ctl (.api n) = none) : View cfg s (.submit n id cid req) (s.submitJob n id cid req) := by
  rw [submitJob]
  cases hr : JobService.submit sqliteJobRepository id cid s.clock s.clock req.toRequest s.jobs with
  | error e => exact .quiet _ s.events hl rfl
  | ok p =>
      obtain ⟨r, jobs⟩ := p
      have hex : exec sqliteJobRepository (.submit id cid s.clock s.clock req.toRequest) s.jobs =
          .ok (some r, jobs) := by
        change (JobService.submit _ _ _ _ _ _ _).map _ = _
        rw [hr]
        rfl
      obtain rfl := stored_eq hex
      exact .submitted n id cid req r _ hl hc hex

theorem view_cancelJob {n : Nat} (j : String) (hl : s.loop = none) (hc : s.ctl (.api n) = none) :
    View cfg s (.cancel n j) (s.cancelJob n j) := by
  rw [cancelJob]
  cases hj : JobService.get sqliteJobRepository j s.jobs with
  | none => exact .quiet _ s.events hl rfl
  | some job =>
      dsimp only
      cases ht : job.state.isTerminal with
      | true => exact .quiet _ s.events hl rfl
      | false => exact .cancelBegun n j job hl hc hj ht

theorem view_dispatchPending {co : Coro} {a : String} {k : Return} (hl : s.loop = some co)
    (hc : s.ctl co = some (.dispatch a k)) : View cfg s .run (s.dispatchPending co a k) := by
  rw [dispatchPending]
  dsimp only
  split
  · next hm => exact .entered co a k hl hc hm
  · exact .queued co a k hl hc

theorem view_critical {co : Coro} {l : LockRef} {k : Return} (hl : s.loop = some co)
    (hc : s.ctl co = some (.locked l k)) : View cfg s .run (s.critical co l k) := by
  rw [critical]
  cases ho : s.agents.get l.agentId with
  | none =>
      dsimp only
      rw [leave_eq]
      exact .left co l k hl hc (by rw [ho]; rintro _ ⟨⟩)
  | some o =>
      dsimp only
      split
      · next hbusy =>
          rw [leave_eq]
          refine .left co l k hl hc fun o' ho' hidle => ?_
          cases ho.symm.trans ho'
          simp [AgentConnection.isIdle, hidle] at hbusy
      · next hidle =>
          cases hp : pendingJobs l.agentId s.jobs with
          | nil =>
              dsimp only
              rw [leave_eq]
              exact .left co l k hl hc fun _ _ _ _ => hp
          | cons job rest =>
              dsimp only
              split
              · next hs =>
                  have hidle : (s.agents.conns o).inFlight = 0 := by
                    simpa [AgentConnection.isIdle] using hidle
                  exact .sendBegun co l k o job hl hc ho hidle (by rw [hp]; rfl) hs
              · next hs =>
                  rw [leave_eq]
                  refine .left co l k hl hc fun o' ho' _ hs' => ?_
                  cases ho.symm.trans ho'
                  exact absurd hs' hs

theorem view_sent {co : Coro} {l : LockRef} {o : ObjId} {job : Job} {k : Return} {out : SendOutcome}
    (fails : Bool) (hout : out = if fails then .sentStoreFails else .sent) (hl : s.loop = none)
    (hc : s.ctl co = some (.sending l o job k)) :
    View cfg s (.sendReturned co out) (s.sent co l o job k fails) := by
  subst hout
  rw [sent]
  cases fails with
  | true => exact .sentUnrecorded co l o job k _ hl hc (.inl rfl)
  | false =>
      simp only [Bool.false_eq_true, if_false]
      split
      · next herr =>
          refine .sentUnrecorded co l o job k _ hl hc (.inr ⟨rfl, ?_⟩)
          change exec sqliteJobRepository (.markDispatchedWithAttempt s.clock s.clock job.jobId) s.jobs = _ at herr
          rw [herr]
          rfl
      · next updated jobs hok =>
          rw [leave_eq]
          change exec sqliteJobRepository (.markDispatchedWithAttempt s.clock s.clock job.jobId) s.jobs = _ at hok
          obtain rfl := stored_eq hok
          exact .sent co l o job k _ hl hc (by rw [hok]; rfl)

theorem view_scanAck {now : Instant} {jobs : List Job} (hl : s.loop = some .ackWatcher)
    (hc : s.ctl .ackWatcher = some (.scanAck now jobs)) : View cfg s .run (s.scanAck cfg now jobs) := by
  unfold scanAck
  cases jobs with
  | nil => exact .scanEnded now [] hl hc
  | cons job rest =>
      dsimp only
      split
      · next ho =>
          rw [onAckTimeout]
          split
          · next hm =>
              dsimp only
              split
              · exact .scanEnded now (job :: rest) hl hc
              · next r jobs hok =>
                  change exec sqliteJobRepository (.failStaleDispatch _ _ _ _) s.jobs = _ at hok
                  obtain rfl := stored_eq hok
                  exact .staleFailed now job rest _ _ hl hc ho hm
          · next hm =>
              have hex := transition_eq (.requeue s.clock job.jobId) _ _ _ _ s.jobs rfl
              change JobService.requeue sqliteJobRepository s.clock job.jobId s.jobs = _ at hex
              simp only [hex]
              exact .requeued now job rest _ hl hc ho (not_le.mp hm)
      · next ho => exact .scanSkipped now job rest hl hc (by simpa using ho)

theorem view_scanTimeout {now : Instant} {jobs : List Job} (hl : s.loop = some .timeoutWatcher)
    (hc : s.ctl .timeoutWatcher = some (.scanTimeout now jobs)) :
    View cfg s .run (s.scanTimeout now jobs) := by
  unfold scanTimeout
  cases jobs with
  | nil => exact .timeoutMoved _ none none hl hc ⟨_, _, rfl⟩ (.inl ⟨rfl, rfl⟩)
  | cons job rest =>
      dsimp only
      split
      · exact .timeoutMoved _ _ _ hl hc ⟨_, _, rfl⟩ (.inr ⟨rfl, .inr ⟨_, _, _, rfl⟩⟩)
      · exact .timeoutMoved _ _ _ hl hc ⟨_, _, rfl⟩ (.inr ⟨rfl, .inl ⟨_, _, rfl⟩⟩)

theorem view_cancelSent {l : Label} {co : Coro} {job : Job} {k : CancelReturn} {x : Ctl}
    (hx : s.ctl co = some x)
    (hc : (l = .run ∧ s.loop = some co ∧ x = .sendCancel job k) ∨
      ∃ out, l = .sendReturned co out ∧ s.loop = none ∧ x = .sendingCancel job k) :
    View cfg s l (s.cancelSent co job k) := by
  cases k with
  | fire now rest =>
      have hex := transition_eq (.markTimedOut s.clock job.jobId) _ _ _ _ s.jobs rfl
      change JobService.markTimedOut sqliteJobRepository s.clock job.jobId s.jobs = _ at hex
      simp only [cancelSent, hex]
      exact .timedOut l co job now rest x _ hx hc
  | user n =>
      obtain ⟨jobs, hex, _⟩ :=
        JobService.markCancelled_spec sqliteJobRepository_lawful s.clock job.jobId s.jobs
      have hst : stored (.markCancelled s.clock job.jobId) s.jobs = jobs := stored_eq hex
      subst hst
      simp only [cancelSent, hex]
      exact .cancelled l co job n x _ _ hx hc

theorem view_sendCancel {co : Coro} {job : Job} {k : CancelReturn} (hl : s.loop = some co)
    (hc : s.ctl co = some (.sendCancel job k)) : View cfg s .run (s.sendCancel co job k) := by
  rw [sendCancel]
  cases ho : s.agents.get job.agentId with
  | none => exact view_cancelSent hc (.inl ⟨rfl, hl, rfl⟩)
  | some o =>
      dsimp only
      split
      · next hs => exact .cancelSending co job k o hl hc ho hs
      · exact view_cancelSent hc (.inl ⟨rfl, hl, rfl⟩)

theorem view_runPiece {co : Coro} {x : Ctl} (hl : s.loop = some co) (hc : s.ctl co = some x)
    (h : s.runPiece cfg co x = some s') : View cfg s .run s' := by
  unfold runPiece at h
  split at h <;> cases h
  · exact view_dispatchPending hl hc
  · exact view_critical hl hc
  · exact view_scanAck hl hc
  · exact view_scanTimeout hl hc
  · exact view_sendCancel hl hc

theorem view_sendReturned {co : Coro} {out : SendOutcome} {x : Ctl} (hl : s.loop = none)
    (hc : s.ctl co = some x) (h : s.sendReturned co out x = some s') :
    View cfg s (.sendReturned co out) s' := by
  unfold sendReturned at h
  split at h
  · cases h; exact view_sent false rfl hl hc
  · cases h; exact view_sent true rfl hl hc
  · next l o job k =>
      split at h
      · cases h
      · next hs =>
          cases h
          rw [leave_eq]
          exact .sendClosed co l o job k hl hc (by simpa using hs)
  · cases h; exact view_cancelSent hc (.inr ⟨_, rfl, hl, rfl⟩)
  · cases h; exact view_cancelSent hc (.inr ⟨_, rfl, hl, rfl⟩)
  · cases h

theorem step_view {label : Label} (h : step cfg label s = some s') : View cfg s label s' := by
  cases label with
  | tick t => cases h; exact .tick t
  | connect =>
      obtain ⟨hl, ⟨⟩⟩ := of_loop h
      exact .connect hl
  | drop c =>
      obtain ⟨hl, ⟨⟩⟩ := of_loop h
      exact .drop c hl
  | handlerEnd c =>
      simp only [step] at h
      split at h
      · next b hb =>
          obtain ⟨hl, hc, rfl⟩ := of_idle h
          cases b with
          | none => exact .ended c none hl hc hb rfl
          | some a =>
              by_cases ha : a = ""
              · subst a
                exact .ended c (some "") hl hc hb rfl
              · simp only [endHandler, if_neg ha]
                exact .forgot c a hl hc hb ha
      · cases h
  | frame c f =>
      simp only [step] at h
      split at h
      · next b hb =>
          obtain ⟨hl, hc, rfl⟩ := of_idle h
          exact view_onFrame f hl hc hb
      · cases h
  | submit n id cid req =>
      obtain ⟨hl, hc, rfl⟩ := of_idle h
      exact view_submitJob id cid req hl hc
  | cancel n j =>
      obtain ⟨hl, hc, rfl⟩ := of_idle h
      exact view_cancelJob j hl hc
  | ackScan =>
      obtain ⟨hl, hc, rfl⟩ := of_idle h
      exact .ackScan hl hc
  | timeoutScan =>
      obtain ⟨hl, hc, rfl⟩ := of_idle h
      exact .timeoutScan hl hc
  | heartbeatScan =>
      obtain ⟨hl, ⟨⟩⟩ := of_loop h
      exact .heartbeatScan hl
  | wake co =>
      simp only [step] at h
      split at h
      · next l k hc =>
          obtain ⟨hl, h⟩ := of_loop h
          rw [acquired] at h
          split at h
          · next first m hm =>
              obtain ⟨rfl, h⟩ := Option.ite_none_right_eq_some.mp h
              cases h
              exact .woken first l k m hl hc hm
          · cases h
      · cases h
  | sendReturned co out =>
      simp only [step] at h
      split at h
      · next x hc =>
          obtain ⟨hl, h⟩ := of_loop h
          exact view_sendReturned hl hc h
      · cases h
  | run =>
      simp only [step] at h
      split at h
      · next co hl =>
          split at h
          · next x hc => exact view_runPiece hl hc h
          · cases h
      · cases h

end Server

end JobSystem
