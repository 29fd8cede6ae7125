import JobSystem.Server.Attempts

namespace JobSystem

open Lib

namespace Op

def eventType : Op → Option String
  | submit .. => some "submitted"
  | markDispatchedWithAttempt .. => some "dispatched"
  | requeue .. => some "requeued"
  | failStaleDispatch .. => some "failed"
  | markTimedOut .. => some "timed_out"
  | markCancelled .. => some "cancelled"
  | _ => none

end Op

namespace Server

def cancelOp (t : Instant) (job : Job) : CancelReturn → Op
  | .fire _ _ => .markTimedOut t job.jobId
  | .user _ => .markCancelled t job.jobId

/-- The operation of which a step appends an event once the call has returned. -/
def tells (cfg : Config) (s : Server) : Label → Option Op
  | .submit _ id cid req => some (.submit id cid s.clock s.clock req.toRequest)
  | .sendReturned co out =>
      match s.ctl co, out with
      | some (.sending _ _ job _), .sent => some (.markDispatchedWithAttempt s.clock s.clock job.jobId)
      | some (.sendingCancel job k), .sent | some (.sendingCancel job k), .closed => some (cancelOp s.clock job k)
      | _, _ => none
  | .run =>
      match s.loop.bind s.ctl with
      | some (.scanAck now (job :: _)) =>
          if ackOverdue cfg now job then
            if cfg.maxDispatchAttempts ≤ job.dispatchAttempts then
              some (.failStaleDispatch s.clock s.clock job.jobId
                ("No ack after " ++ toString cfg.maxDispatchAttempts ++ " dispatch attempts"))
            else some (.requeue s.clock job.jobId)
          else none
      | some (.sendCancel job k) =>
          if (s.agents.get job.agentId).any fun o => s.sockets (s.agents.conns o).ws then none
          else some (cancelOp s.clock job k)
      | _ => none
  | _ => none

@[simp] theorem resume_jobs (co : Coro) (k : Return) (s : Server) : (s.resume co k).jobs = s.jobs := by
  cases k <;> rfl

@[simp] theorem resume_events (co : Coro) (k : Return) (s : Server) : (s.resume co k).events = s.events := by
  cases k <;> rfl

@[simp] theorem leave_jobs (co : Coro) (l : LockRef) (k : Return) (s : Server) : (s.leave co l k).jobs = s.jobs :=
  resume_jobs co k _

@[simp] theorem leave_events (co : Coro) (l : LockRef) (k : Return) (s : Server) :
    (s.leave co l k).events = s.events := resume_events co k _

inductive Logs (cfg : Config) (s : Server) (l : Label) : JobTable → List Event → Prop
  | silent (hc : tells cfg s l = none) : Logs cfg s l s.jobs s.events
  | refused (op : Op) (type : String) (hc : tells cfg s l = some op) (ht : op.eventType = some type)
      (hf : (exec sqliteJobRepository op s.jobs).isOk = false) : Logs cfg s l s.jobs s.events
  | noted (j type : String) (payload : List (String × Json)) (hc : tells cfg s l = none)
      (ht : type = "ack" ∨ type = "reconciled") : Logs cfg s l s.jobs (s.events ++ [⟨j, type, payload, s.clock⟩])
  | reported (op : Op) (j type : String) (payload : Job → List (String × Json)) (hc : tells cfg s l = none)
      (hop : op.target = some j) (ht : type = "started" ∨ type = "result") :
      Logs cfg s l (stored op s.jobs)
        (s.events ++ (record j (stored op s.jobs)).toList.map fun job =>
          ⟨j, type, ("state", .str job.state.value) :: payload job, s.clock⟩)
  | told (op : Op) (r : Option Job) (j type : String) (payload : List (String × Json))
      (hc : tells cfg s l = some op)
      (ht : op.eventType = some type) (hj : op.target.or (r.map (·.jobId)) = some j)
      (hok : exec sqliteJobRepository op s.jobs = .ok (r, stored op s.jobs)) :
      Logs cfg s l (stored op s.jobs) (s.events ++ [⟨j, type, payload, s.clock⟩])

variable {cfg : Config} {s s' : Server} {l : Label}

theorem logs_onStarted (c : ConnId) (j : String) :
    Logs cfg s (.frame c (some (.started j))) (s.onStarted j).jobs (s.onStarted j).events := by
  have hlog : Logs cfg s (.frame c (some (.started j))) _ _ :=
    .reported (.markRunning s.clock j) j "started" (fun _ => []) rfl rfl (.inl rfl)
  have hex := transition_eq (.markRunning s.clock j) _ _ _ _ s.jobs rfl
  change JobService.markRunning sqliteJobRepository s.clock j s.jobs = _ at hex
  rw [onStarted, hex]
  cases hj : sqliteJobRepository.get j (stored (.markRunning s.clock j) s.jobs) with
  | none =>
      rw [record, hj] at hlog
      simpa using hlog
  | some job =>
      rw [record, hj] at hlog
      exact hlog

theorem logs_onResult (c : ConnId) (b : Option String) (j : String) (x : Int) (o e : PyStr)
    (err : Option PyStr) :
    Logs cfg s (.frame c (some (.result j x o e err))) (s.onResult c b j x o e err).jobs
      (s.onResult c b j x o e err).events := by
  have hlog : Logs cfg s (.frame c (some (.result j x o e err))) _ _ :=
    .reported (completion s.clock j x o e err) j "result"
      (fun job => [("exit_code", job.exitCode.elim .null .int)]) rfl
      (completion_target s.clock j x o e err) (.inr rfl)
  have hex : (s.note (.resultProcessed c j)).complete j x o e err =
      exec sqliteJobRepository (completion s.clock j x o e err) s.jobs := complete_eq j x o e err _
  rw [onResult, hex]
  cases hx : bindableResult x o e err with
  | false =>
      obtain ⟨r, hr⟩ := exec_completion_error (t := s.clock) (j := j) s.jobs hx
      rw [hr]
      exact .silent rfl
  | true =>
      rw [exec_completion s.jobs hx]
      cases hj : sqliteJobRepository.get j (stored (completion s.clock j x o e err) s.jobs) with
      | none =>
          rw [record, hj, Option.toList_none, List.map_nil, List.append_nil] at hlog
          cases b with
          | none => exact hlog
          | some a =>
              dsimp only
              split <;> exact hlog
      | some job =>
          rw [record, hj] at hlog
          cases b with
          | none => exact hlog
          | some a =>
              dsimp only
              split <;> exact hlog

theorem logs_onFrame (c : ConnId) (b : Option String) (f : Option AgentFrame) :
    Logs cfg s (.frame c f) (s.onFrame c b f).jobs (s.onFrame c b f).events := by
  cases f with
  | none => exact .silent rfl
  | some f =>
      cases f with
      | register | log => exact .silent rfl
      | ack j => exact .noted j "ack" [] rfl (.inl rfl)
      | reconcile j status => exact .noted j "reconciled" [("status", .str status)] rfl (.inr rfl)
      | heartbeat a => cases b <;> exact .silent rfl
      | started j => exact logs_onStarted c j
      | result j x o e err => exact logs_onResult c b j x o e err

theorem logs_cancelSent {co : Coro} {job : Job} {k : CancelReturn}
    (hc : tells cfg s l = some (cancelOp s.clock job k)) :
    Logs cfg s l (s.cancelSent co job k).jobs (s.cancelSent co job k).events := by
  cases k with
  | fire now rest =>
      have hex := transition_eq (.markTimedOut s.clock job.jobId) _ _ _ _ s.jobs rfl
      have htold := Logs.told (.markTimedOut s.clock job.jobId) _ job.jobId "timed_out"
        [("timeout_ms", .int job.timeoutMs)] hc rfl rfl hex
      change JobService.markTimedOut sqliteJobRepository s.clock job.jobId s.jobs = _ at hex
      rw [cancelSent, hex]
      exact htold
  | user n =>
      obtain ⟨jobs, hex, _⟩ :=
        JobService.markCancelled_spec sqliteJobRepository_lawful s.clock job.jobId s.jobs
      have hst : stored (.markCancelled s.clock job.jobId) s.jobs = jobs := stored_eq hex
      subst hst
      have htold := Logs.told (.markCancelled s.clock job.jobId) _ job.jobId "cancelled"
        [("by", .str "user")] hc rfl rfl hex
      rw [cancelSent, hex]
      exact htold

theorem logs_submitJob (n : Nat) (id cid : String) (req : SubmitJobRequest) :
    Logs cfg s (.submit n id cid req) (s.submitJob n id cid req).jobs (s.submitJob n id cid req).events := by
  have hexec : exec sqliteJobRepository (.submit id cid s.clock s.clock req.toRequest) s.jobs =
      (JobService.submit sqliteJobRepository id cid s.clock s.clock req.toRequest s.jobs).map
        fun (job, s) => (some job, s) := rfl
  rw [submitJob]
  cases he : JobService.submit sqliteJobRepository id cid s.clock s.clock req.toRequest s.jobs with
  | error e =>
      rw [he] at hexec
      exact .refused _ _ rfl rfl (by rw [hexec]; rfl)
  | ok p =>
      obtain ⟨job, jobs⟩ := p
      rw [he] at hexec
      obtain rfl := stored_eq hexec
      exact .told _ (some job) job.jobId "submitted" _ rfl rfl rfl hexec

theorem logs_sent {co : Coro} {lock : LockRef} {o : ObjId} {job : Job} {k : Return}
    (hc : tells cfg s l = some (.markDispatchedWithAttempt s.clock s.clock job.jobId)) :
    Logs cfg s l (s.sent co lock o job k false).jobs (s.sent co lock o job k false).events := by
  rw [sent]
  simp only [Bool.false_eq_true, if_false]
  split
  · next herr =>
      change exec sqliteJobRepository (.markDispatchedWithAttempt s.clock s.clock job.jobId) s.jobs = _ at herr
      exact .refused _ _ hc rfl (by rw [herr]; rfl)
  · next updated jobs hok =>
      change exec sqliteJobRepository (.markDispatchedWithAttempt s.clock s.clock job.jobId) s.jobs = _ at hok
      obtain rfl := stored_eq hok
      rw [leave_jobs, leave_events]
      exact .told _ updated job.jobId "dispatched" _ hc rfl rfl hok

theorem logs_dispatchPending {co : Coro} {a : String} {k : Return} (hc : tells cfg s l = none) :
    Logs cfg s l (s.dispatchPending co a k).jobs (s.dispatchPending co a k).events := by
  rw [dispatchPending]
  dsimp only
  split <;> exact .silent hc

theorem logs_scanTimeout {now : Instant} {jobs : List Job} (hc : tells cfg s l = none) :
    Logs cfg s l (s.scanTimeout now jobs).jobs (s.scanTimeout now jobs).events := by
  cases jobs with
  | nil => exact .silent hc
  | cons job rest =>
      rw [scanTimeout]
      split <;> exact .silent hc

theorem logs_critical {co : Coro} {lock : LockRef} {k : Return} (hc : tells cfg s l = none) :
    Logs cfg s l (s.critical co lock k).jobs (s.critical co lock k).events := by
  have hleave : Logs cfg s l (s.leave co lock k).jobs (s.leave co lock k).events := by
    rw [leave_jobs, leave_events]
    exact .silent hc
  rw [critical]
  split
  · exact hleave
  · dsimp only
    split
    · exact hleave
    · split
      · exact hleave
      · split
        · exact .silent hc
        · exact hleave

theorem logs_scanAck {now : Instant} {jobs : List Job} (hl : s.loop = some .ackWatcher)
    (hc : s.ctl .ackWatcher = some (.scanAck now jobs)) :
    Logs cfg s .run (s.scanAck cfg now jobs).jobs (s.scanAck cfg now jobs).events := by
  have htells : s.loop.bind s.ctl = some (.scanAck now jobs) := by rw [hl]; exact hc
  cases jobs with
  | nil => exact .silent (by rw [tells, htells])
  | cons job rest =>
      rw [scanAck]
      split
      · next ho =>
          rw [onAckTimeout]
          split
          · next hm =>
              have htell : tells cfg s .run = some (.failStaleDispatch s.clock s.clock job.jobId
                  ("No ack after " ++ toString cfg.maxDispatchAttempts ++ " dispatch attempts")) := by
                rw [tells, htells]
                simp only [ho, hm, if_true]
              dsimp only
              split
              · next herr =>
                  change exec sqliteJobRepository (.failStaleDispatch _ _ _ _) s.jobs = _ at herr
                  exact .refused _ _ htell rfl (by rw [herr]; rfl)
              · next r jobs hok =>
                  change exec sqliteJobRepository (.failStaleDispatch _ _ _ _) s.jobs = _ at hok
                  obtain rfl := stored_eq hok
                  exact .told _ r job.jobId "failed" _ htell rfl rfl hok
          · next hm =>
              have htell : tells cfg s .run = some (.requeue s.clock job.jobId) := by
                rw [tells, htells]
                simp only [ho, hm, if_true, if_false]
              have hex := transition_eq (.requeue s.clock job.jobId) _ _ _ _ s.jobs rfl
              have htold := Logs.told (.requeue s.clock job.jobId) _ job.jobId "requeued"
                [("attempt", .int job.dispatchAttempts)] htell rfl rfl hex
              change JobService.requeue sqliteJobRepository s.clock job.jobId s.jobs = _ at hex
              simp only [hex]
              exact htold
      · next ho =>
          refine .silent ?_
          rw [tells, htells]
          exact if_neg ho

theorem logs_sendCancel {co : Coro} {job : Job} {k : CancelReturn} (hl : s.loop = some co)
    (hc : s.ctl co = some (.sendCancel job k)) :
    Logs cfg s .run (s.sendCancel co job k).jobs (s.sendCancel co job k).events := by
  have htells : s.loop.bind s.ctl = some (.sendCancel job k) := by rw [hl]; exact hc
  rw [sendCancel]
  cases ho : s.agents.get job.agentId with
  | none =>
      refine logs_cancelSent ?_
      rw [tells, htells]
      simp [ho]
  | some o =>
      dsimp only
      split
      · next hs =>
          refine .silent ?_
          rw [tells, htells]
          simp [ho, hs]
      · next hs =>
          refine logs_cancelSent ?_
          rw [tells, htells]
          simp [ho, hs]

theorem step_logs (h : step cfg l s = some s') : Logs cfg s l s'.jobs s'.events := by
  cases l with
  | tick t => cases h; exact .silent rfl
  | connect | drop | heartbeatScan =>
      obtain ⟨_, ⟨⟩⟩ := of_loop h
      exact .silent rfl
  | handlerEnd c =>
      simp only [step] at h
      split at h
      · next b hb =>
          obtain ⟨_, _, rfl⟩ := of_idle h
          cases b with
          | none => exact .silent rfl
          | some a =>
              rw [endHandler]
              dsimp only
              split <;> exact .silent rfl
      · cases h
  | frame c f =>
      simp only [step] at h
      split at h
      · obtain ⟨_, _, rfl⟩ := of_idle h
        exact logs_onFrame c _ f
      · cases h
  | submit n id cid req =>
      obtain ⟨_, _, rfl⟩ := of_idle h
      exact logs_submitJob n id cid req
  | cancel n j =>
      obtain ⟨_, _, rfl⟩ := of_idle h
      rw [cancelJob]
      split
      · exact .silent rfl
      · split <;> exact .silent rfl
  | ackScan | timeoutScan =>
      obtain ⟨_, _, rfl⟩ := of_idle h
      exact .silent rfl
  | wake co =>
      simp only [step] at h
      split at h
      · obtain ⟨_, h⟩ := of_loop h
        rw [acquired] at h
        split at h
        · obtain ⟨rfl, h⟩ := Option.ite_none_right_eq_some.mp h
          cases h
          exact .silent rfl
        · cases h
      · cases h
  | sendReturned co out =>
      simp only [step] at h
      split at h
      · next x hc =>
          obtain ⟨_, h⟩ := of_loop h
          unfold sendReturned at h
          split at h
          · cases h; exact logs_sent (by simp only [tells, hc])
          · cases h; exact .silent (by simp only [tells, hc])
          · split at h <;> cases h
            rw [leave_jobs, leave_events]
            exact .silent (by simp only [tells, hc])
          · cases h; exact logs_cancelSent (by simp only [tells, hc])
          · cases h; exact logs_cancelSent (by simp only [tells, hc])
          · cases h
      · cases h
  | run =>
      simp only [step] at h
      split at h
      · next co hl =>
          split at h
          · next x hc =>
              have htells : s.loop.bind s.ctl = some x := by rw [hl]; exact hc
              unfold runPiece at h
              split at h <;> cases h
              · exact logs_dispatchPending (by rw [tells, htells])
              · exact logs_critical (by rw [tells, htells])
              · exact logs_scanAck hl hc
              · exact logs_scanTimeout (by rw [tells, htells])
              · exact logs_sendCancel hl hc
          · cases h
      · cases h

end Server

def Event.announces (e : Event) : Option JobState :=
  match e.eventType with
  | "submitted" | "requeued" => some .pending
  | "dispatched" => some .dispatched
  | "failed" => some .failed
  | "timed_out" => some .timedOut
  | "cancelled" => some .cancelled
  | _ => none

def Op.takesOut : Op → JobState → Bool
  | .submit .., _ => false
  | .markDispatched .., q | .markDispatchedWithAttempt .., q => q = .pending
  | .markRunning .., q | .requeue .., q => q = .dispatched
  | .markSucceeded .., q | .markFailed .., q | .markTimedOut .., q => q = .running
  | .markCancelled .., q | .failStaleDispatch .., q => !q.isTerminal

theorem Op.takesOut_iff (op : Op) (q : JobState) : op.takesOut q = true ↔ op.next q ≠ q := by
  cases op <;> cases q <;> simp [takesOut, next]

/-- Whether an operation finds a job to change. A submission does, unless the store has a record for
its key. -/
def Op.takesEffect (jobs : JobTable) : Op → Bool
  | .submit id cid t t' req =>
      !((req.toJob id cid t t').bindable && req.idempotencyKey.any fun k => (jobs.findIndex k).isSome)
  | op => op.target.any fun j => (stateOf j jobs).any op.takesOut

namespace Server

/-- The operation that the step tells of has taken effect. -/
def truthful (cfg : Config) (s : Server) (l : Label) : Bool :=
  (tells cfg s l).all (Op.takesEffect s.jobs)

def Sound (s s' : Server) : Prop :=
  ∃ es, s'.events = s.events ++ es ∧ ∀ e ∈ es, ∀ q ∈ e.announces,
    stateOf e.jobId s.jobs ≠ some q ∧ stateOf e.jobId s'.jobs = some q

theorem sound_of_append {s s' : Server} {e : Event} (h : s'.events = s.events ++ [e]) :
    Sound s s' ↔
      ∀ q ∈ e.announces, stateOf e.jobId s.jobs ≠ some q ∧ stateOf e.jobId s'.jobs = some q := by
  constructor
  · rintro ⟨es, hes, hall⟩
    cases List.append_cancel_left (h.symm.trans hes)
    exact hall e List.mem_cons_self
  · intro hall
    refine ⟨[e], h, fun e' he' => ?_⟩
    rw [List.mem_singleton] at he'
    rw [he']
    exact hall

theorem sound_of_silent {s s' : Server} (h : s'.events = s.events) : Sound s s' :=
  ⟨[], by rw [h, List.append_nil], by simp⟩

theorem takesEffect_of_target {op : Op} {j : String} (hj : op.target = some j) (jobs : JobTable) :
    op.takesEffect jobs = true ↔ ∃ a, stateOf j jobs = some a ∧ op.next a ≠ a := by
  have hdef : op.takesEffect jobs = op.target.any fun j => (stateOf j jobs).any op.takesOut := by
    cases op <;> first | rfl | cases hj
  rw [hdef, hj, Option.any_some, Option.any_eq_true]
  simp only [Op.takesOut_iff]

/-- An event holds of the record exactly when its operation changed the state. -/
theorem announces_iff {op : Op} {j type : String} (hj : op.target = some j)
    (ht : op.eventType = some type) (payload : List (String × Json)) (t : Instant) (a : JobState) :
    (∀ q ∈ (Event.mk j type payload t).announces, a ≠ q ∧ op.next a = q) ↔ op.next a ≠ a := by
  cases op <;> cases hj <;> cases ht <;> cases a <;> simp [Event.announces, Op.next]

theorem stateOf_stored {op : Op} {j : String} (hj : op.target = some j) {jobs : JobTable}
    {r : Option Job} (hok : exec sqliteJobRepository op jobs = .ok (r, stored op jobs)) :
    stateOf j (stored op jobs) = (stateOf j jobs).map op.next := by
  obtain ⟨_, hu⟩ := exec_spec sqliteJobRepository_lawful hj hok
  have hself : record j (stored op jobs) = (record j jobs).map op.effect := hu.get_self
  rw [stateOf, stateOf, hself, Option.map_map, Option.map_map]
  exact congrArg (fun g => Option.map g (record j jobs)) (funext fun a => op.effect_state a)

theorem add_cases {job r : Job} {T T' : JobTable} (h : SQLiteJobRepository.add job T = .ok (r, T')) :
    job.bindable = true ∧
      ((r = job ∧ record job.jobId T = none ∧ record job.jobId T' = some job ∧
          ∀ k, job.idempotencyKey = some k → T.findIndex k = none) ∨
        (T' = T ∧ ∃ k, job.idempotencyKey = some k ∧ T.findIndex k = some r)) := by
  rw [SQLiteJobRepository.add] at h
  split at h
  · cases h
  · next hb =>
      refine ⟨by simpa using hb, ?_⟩
      cases hins : T.insert job with
      | some T₁ =>
          rw [hins] at h
          cases h
          have hnone : record job.jobId T = none := by
            cases hf : record job.jobId T with
            | none => rfl
            | some x => rw [Table.insert_of_find hf] at hins; cases hins
          refine .inl ⟨rfl, hnone, ?_, fun k hk => Table.insert_index hins hk⟩
          exact (Table.find_insert hins job.jobId).trans (if_pos rfl)
      | none =>
          rw [hins] at h
          dsimp only at h
          cases hk : job.idempotencyKey with
          | none => rw [hk] at h; cases h
          | some k =>
              rw [hk] at h
              dsimp only at h
              cases hrow : T.findIndex k with
              | none => rw [hrow] at h; cases h
              | some row =>
                  rw [hrow] at h
                  cases h
                  exact .inr ⟨rfl, k, rfl, hrow⟩

theorem exec_submit {id cid : String} {t t' : Instant} {req : Request} {r : Option Job} {T T' : JobTable}
    (h : exec sqliteJobRepository (.submit id cid t t' req) T = .ok (r, T')) :
    ∃ row, r = some row ∧ SQLiteJobRepository.add (req.toJob id cid t t') T = .ok (row, T') := by
  have hex : exec sqliteJobRepository (.submit id cid t t' req) T =
    (SQLiteJobRepository.add (req.toJob id cid t t') T).map fun (job, s) => (some job, s) := rfl
  cases hadd : SQLiteJobRepository.add (req.toJob id cid t t') T with
  | error e =>
      rw [hex, hadd] at h
      cases h
  | ok p =>
      rw [hex, hadd] at h
      cases h
      exact ⟨p.1, rfl, rfl⟩

theorem takesEffect_markDispatched {t₁ t₂ : Instant} {j : String} {jobs : JobTable}
    (hf : (exec sqliteJobRepository (.markDispatchedWithAttempt t₁ t₂ j) jobs).isOk = false) :
    Op.takesEffect jobs (.markDispatchedWithAttempt t₁ t₂ j) = true := by
  rw [takesEffect_of_target (j := j) rfl]
  obtain ⟨job, hjob, hs, _⟩ := JobService.readSave_refused hf
  refine ⟨.pending, ?_, by simp [Op.next]⟩
  rw [stateOf, record, hjob, Option.map_some, not_not.mp hs]

theorem takesEffect_failStaleDispatch {t₁ t₂ : Instant} {j : String} {error : PyStr} {jobs : JobTable}
    (hf : (exec sqliteJobRepository (.failStaleDispatch t₁ t₂ j error) jobs).isOk = false) :
    Op.takesEffect jobs (.failStaleDispatch t₁ t₂ j error) = true := by
  rw [takesEffect_of_target (j := j) rfl]
  obtain ⟨job, hjob, hs, _⟩ := JobService.readSave_refused hf
  refine ⟨job.state, by rw [stateOf, record, hjob]; rfl, fun hnext => ?_⟩
  rw [Op.next, if_neg hs] at hnext
  rw [← hnext] at hs
  exact hs rfl

theorem takesEffect_submit {id cid : String} {t t' : Instant} {req : Request} {jobs : JobTable}
    (hf : (exec sqliteJobRepository (.submit id cid t t' req) jobs).isOk = false) :
    Op.takesEffect jobs (.submit id cid t t' req) = true := by
  by_contra hno
  have hdup : (req.toJob id cid t t').bindable = true ∧
      (req.idempotencyKey.any fun k => (jobs.findIndex k).isSome) = true := by
    simpa [Op.takesEffect] using hno
  obtain ⟨hb, hkey⟩ := hdup
  obtain ⟨k, hk, hrow⟩ := (Option.any_eq_true _ _).mp hkey
  obtain ⟨row, hrow⟩ := Option.isSome_iff_exists.mp hrow
  have hk' : (req.toJob id cid t t').idempotencyKey = some k := hk
  have hok : ∃ p, SQLiteJobRepository.add (req.toJob id cid t t') jobs = .ok p := by
    rw [SQLiteJobRepository.add, hb]
    cases hins : jobs.insert (req.toJob id cid t t') with
    | some T' => exact ⟨_, rfl⟩
    | none => exact ⟨(row, jobs), by simp only [hk', hrow]; rfl⟩
  obtain ⟨p, hp⟩ := hok
  have hex : exec sqliteJobRepository (.submit id cid t t' req) jobs =
    (SQLiteJobRepository.add (req.toJob id cid t t') jobs).map fun p => (some p.1, p.2) := rfl
  rw [hex, hp] at hf
  cases hf

theorem takesEffect_of_refused {op : Op} {type : String} (ht : op.eventType = some type)
    {jobs : JobTable} (hf : (exec sqliteJobRepository op jobs).isOk = false) :
    op.takesEffect jobs = true := by
  have habsurd : ∀ {r}, exec sqliteJobRepository op jobs = .ok r → op.takesEffect jobs = true := by
    intro r hr
    rw [hr] at hf
    cases hf
  cases op with
  | markDispatched | markRunning | markSucceeded | markFailed => cases ht
  | requeue | markTimedOut => exact habsurd rfl
  | markCancelled t j =>
      obtain ⟨s', hs', _⟩ := JobService.markCancelled_spec sqliteJobRepository_lawful t j jobs
      exact habsurd hs'
  | markDispatchedWithAttempt t₁ t₂ j => exact takesEffect_markDispatched hf
  | failStaleDispatch t₁ t₂ j error => exact takesEffect_failStaleDispatch hf
  | submit id cid t t' req => exact takesEffect_submit hf

theorem told_iff_target {op : Op} {r : Option Job} {j type : String} {jobs : JobTable}
    (ht : op.eventType = some type) (hj : op.target = some j)
    (hok : exec sqliteJobRepository op jobs = .ok (r, stored op jobs))
    (payload : List (String × Json)) (t : Instant) :
    (∀ q ∈ (Event.mk j type payload t).announces,
      stateOf j jobs ≠ some q ∧
        stateOf j (stored op jobs) = some q) ↔ op.takesEffect jobs = true := by
  rw [takesEffect_of_target hj, stateOf_stored hj hok]
  cases hs : stateOf j jobs with
  | none =>
      obtain ⟨q, hq⟩ : ∃ q, q ∈ (Event.mk j type payload t).announces := by
        cases op <;> cases ht <;> cases hj <;> exact ⟨_, rfl⟩
      refine iff_of_false (fun hall => ?_) (by simp)
      cases (hall q hq).2
  | some a =>
      have hiff := announces_iff hj ht payload t a
      simpa using hiff

theorem told_iff_submit {id cid : String} {t₁ t₂ : Instant} {req : Request} {job : Job} {jobs : JobTable}
    (hok : exec sqliteJobRepository (.submit id cid t₁ t₂ req) jobs =
      .ok (some job, stored (.submit id cid t₁ t₂ req) jobs)) :
    (stateOf job.jobId jobs ≠ some .pending ∧
      stateOf job.jobId (stored (.submit id cid t₁ t₂ req) jobs) = some .pending) ↔
        Op.takesEffect jobs (.submit id cid t₁ t₂ req) = true := by
  obtain ⟨_, ⟨⟩, hadd⟩ := exec_submit hok
  obtain ⟨hb, ⟨rfl, hnone, hsome, hkey⟩ | ⟨hsame, k, hk, hrow⟩⟩ := add_cases hadd
  · refine iff_of_true ⟨?_, ?_⟩ ?_
    · rw [stateOf, hnone]
      rintro ⟨⟩
    · rw [stateOf, hsome]
      rfl
    · have hfree : ∀ k, req.idempotencyKey = some k → jobs.findIndex k = none := hkey
      cases hk : req.idempotencyKey with
      | none => simp [Op.takesEffect, hk]
      | some k => simp [Op.takesEffect, hk, hfree k hk]
  · have hk : req.idempotencyKey = some k := hk
    rw [hsame]
    refine iff_of_false (fun hall => hall.1 hall.2) ?_
    simp [Op.takesEffect, hb, hk, hrow]

theorem told_iff {op : Op} {r : Option Job} {j type : String} {jobs : JobTable}
    (ht : op.eventType = some type) (hj : op.target.or (r.map (·.jobId)) = some j)
    (hok : exec sqliteJobRepository op jobs = .ok (r, stored op jobs))
    (payload : List (String × Json)) (t : Instant) :
    (∀ q ∈ (Event.mk j type payload t).announces,
      stateOf j jobs ≠ some q ∧
        stateOf j (stored op jobs) = some q) ↔ op.takesEffect jobs = true := by
  cases htarget : op.target with
  | some i =>
      rw [htarget] at hj
      obtain rfl : i = j := Option.some.inj hj
      exact told_iff_target ht htarget hok payload t
  | none =>
      cases op <;> cases htarget
      next id cid t₁ t₂ req =>
        cases ht
        obtain ⟨job, rfl, _⟩ := exec_submit hok
        cases hj
        rw [← told_iff_submit hok]
        constructor
        · exact fun hall => hall .pending rfl
        · rintro h q ⟨⟩
          exact h

theorem sound_iff_truthful {cfg : Config} {s s' : Server} {l : Label} (h : step cfg l s = some s') :
    Sound s s' ↔ s.truthful cfg l = true := by
  have hlogs := step_logs h
  rw [truthful]
  generalize hjobs : s'.jobs = jobs' at hlogs
  generalize hevents : s'.events = events' at hlogs
  cases hlogs with
  | silent hc =>
      rw [hc]
      exact iff_of_true (sound_of_silent hevents) rfl
  | refused op type hc ht hf =>
      rw [hc, Option.all_some]
      exact iff_of_true (sound_of_silent hevents) (takesEffect_of_refused ht hf)
  | noted j type payload hc ht =>
      rw [hc]
      refine iff_of_true ((sound_of_append hevents).mpr fun q hq => ?_) rfl
      rcases ht with rfl | rfl <;> cases hq
  | reported op j type payload hc hop ht =>
      rw [hc]
      refine iff_of_true ⟨_, hevents, fun e he q hq => ?_⟩ rfl
      obtain ⟨job, -, rfl⟩ := List.mem_map.mp he
      rcases ht with rfl | rfl <;> cases hq
  | told op r j type payload hc ht hj hok =>
      rw [hc, Option.all_some, sound_of_append hevents, hjobs]
      exact told_iff ht hj hok payload s.clock

end Server

/-- What a reader of the log takes from an event: the state it stands for, or the one that a report
came to. -/
def Event.replay (e : Event) (q : Option JobState) : Option JobState :=
  if e.eventType = "started" ∨ e.eventType = "result" then
    match e.payload.lookup "state" with
    | some (.str (.text v)) => JobState.ofValue v
    | _ => q
  else e.announces.or q

def replay (j : String) (events : List Event) : Option JobState :=
  events.foldl (fun q e => if e.jobId = j then e.replay q else q) none

def submissions (j : String) (events : List Event) : Nat :=
  events.countP fun e => e.jobId = j && e.eventType = "submitted"

theorem replay_append (j : String) (events : List Event) (e : Event) :
    replay j (events ++ [e]) = if e.jobId = j then e.replay (replay j events) else replay j events := by
  rw [replay, List.foldl_append]
  rfl

theorem submissions_append (j : String) (events : List Event) (e : Event) :
    submissions j (events ++ [e]) =
      submissions j events + if e.jobId = j ∧ e.eventType = "submitted" then 1 else 0 := by
  rw [submissions, List.countP_append, List.countP_singleton]
  simp [submissions]

namespace Server

/-- The log of every stored job has one submission, and replaying it gives the stored state. -/
def Audited (jobs : JobTable) (events : List Event) : Prop :=
  ∀ j, (submissions j events = if (stateOf j jobs).isSome then 1 else 0) ∧ replay j events = stateOf j jobs

theorem stateOf_other {op : Op} {j k : String} (hj : op.target = some j) (hk : k ≠ j) (jobs : JobTable) :
    stateOf k (stored op jobs) = stateOf k jobs := by
  rcases stored_cases op jobs k with h | ⟨ht, _⟩ | ⟨_, b, hb, _⟩
  · rw [stateOf, stateOf, h]
  · rw [hj] at ht
    exact absurd (Option.some.inj ht).symm hk
  · have hnone : op.created = none := by cases op <;> first | rfl | cases hj
    rw [hnone] at hb
    cases hb

theorem stateOf_isSome {op : Op} {j : String} (hj : op.target = some j) (k : String) (jobs : JobTable) :
    (stateOf k (stored op jobs)).isSome = (stateOf k jobs).isSome := by
  rw [stateOf, stateOf, Option.isSome_map, Option.isSome_map]
  rcases stored_cases op jobs k with h | ⟨_, h⟩ | ⟨_, b, hb, _⟩
  · rw [h]
  · rw [h, Option.isSome_map]
  · have hnone : op.created = none := by cases op <;> first | rfl | cases hj
    rw [hnone] at hb
    cases hb

/-- A submission that takes effect adds a pending job, and changes no other. -/
theorem stateOf_submit {id cid : String} {t t' : Instant} {req : Request} {r : Job}
    {jobs : JobTable}
    (hok : exec sqliteJobRepository (.submit id cid t t' req) jobs =
      .ok (some r, stored (.submit id cid t t' req) jobs))
    (heff : Op.takesEffect jobs (.submit id cid t t' req) = true) :
    r.jobId = id ∧ stateOf id jobs = none ∧
      ∀ k, stateOf k (stored (.submit id cid t t' req) jobs) = if k =
        id then some .pending else stateOf k jobs := by
  obtain ⟨_, ⟨⟩, hadd⟩ := exec_submit hok
  obtain ⟨hb, ⟨rfl, hnone, -⟩ | ⟨-, k, hk, hrow⟩⟩ := add_cases hadd
  · refine ⟨rfl, congrArg (Option.map _) hnone, fun k => ?_⟩
    rcases sqliteJobRepository_lawful.add hadd hnone with ⟨_, hget⟩ | ⟨_, hstored, _⟩
    · have hgetk := hget k
      change record k (stored _ jobs) = _ at hgetk
      rw [stateOf, hgetk]
      change Option.map _ (if k = id then _ else _) = _
      split <;> rfl
    · cases hstored.symm.trans hnone
  · have hk : req.idempotencyKey = some k := hk
    simp [Op.takesEffect, hb, hk, hrow] at heff

theorem announces_some {op : Op} {type : String} (ht : op.eventType = some type) (j : String)
    (payload : List (String × Json)) (t : Instant) :
    ∃ q, (Event.mk j type payload t).announces = some q := by
  cases op <;> cases ht <;> exact ⟨_, rfl⟩

theorem replay_of_eventType {op : Op} {type : String} (ht : op.eventType = some type) (j : String)
    (payload : List (String × Json)) (t : Instant) (q : Option JobState) :
    (Event.mk j type payload t).replay q = (Event.mk j type payload t).announces := by
  cases op <;> cases ht <;> rfl

section Appends

variable {T : JobTable} {es : List Event} {op : Op} {j type : String} {payload : List (String × Json)}
  {t : Instant}

theorem Audited.noted (hA : Audited T es) (htype : type = "ack" ∨ type = "reconciled") :
    Audited T (es ++ [⟨j, type, payload, t⟩]) := by
  intro k
  obtain ⟨hone, hreplay⟩ := hA k
  have hno : (Event.mk j type payload t).replay (replay k es) = replay k es ∧ type ≠ "submitted" := by
    rcases htype with rfl | rfl
    · exact ⟨rfl, by decide⟩
    · exact ⟨rfl, by decide⟩
  rw [submissions_append, replay_append, hno.1, ite_self, if_neg fun hx => hno.2 hx.2]
  exact ⟨hone, hreplay⟩

theorem Audited.unreported (hA : Audited T es) (hop : op.target = some j)
    (hrec : record j (stored op T) = none) : Audited (stored op T) es := by
  intro k
  obtain ⟨hone, hreplay⟩ := hA k
  have hk : stateOf k (stored op T) = stateOf k T := by
    by_cases hkj : k = j
    · have hnone : stateOf k (stored op T) = none := by rw [hkj, stateOf, hrec, Option.map_none]
      have hwas := stateOf_isSome hop k T
      rw [hnone, Option.isSome_none] at hwas
      rw [hnone, Option.not_isSome_iff_eq_none.mp (ne_true_of_eq_false hwas.symm)]
    · exact stateOf_other hop hkj T
  rw [hk]
  exact ⟨hone, hreplay⟩

/-- An event about a stored job, from which a reader takes the state that the job has come to. -/
theorem Audited.moved {q : JobState} (hA : Audited T es) (hop : op.target = some j)
    (hto : stateOf j (stored op T) = some q) (hno : type ≠ "submitted")
    (hreplayed : ∀ q', (Event.mk j type payload t).replay q' = some q) :
    Audited (stored op T) (es ++ [⟨j, type, payload, t⟩]) := by
  intro k
  obtain ⟨hone, hreplay⟩ := hA k
  rw [submissions_append, replay_append, hreplayed, stateOf_isSome hop, if_neg fun hx => hno hx.2,
    Nat.add_zero]
  refine ⟨hone, ?_⟩
  by_cases hkj : j = k
  · rw [if_pos hkj, ← hkj, hto]
  · rw [if_neg hkj, stateOf_other hop (Ne.symm hkj)]
    exact hreplay

theorem Audited.submitted {id cid : String} {t₁ t₂ : Instant} {req : Request} {job : Job} (hA : Audited T es)
    (hok : exec sqliteJobRepository (.submit id cid t₁ t₂ req) T =
      .ok (some job, stored (.submit id cid t₁ t₂ req) T))
    (heff : Op.takesEffect T (.submit id cid t₁ t₂ req) = true) :
    Audited (stored (.submit id cid t₁ t₂ req) T) (es ++ [⟨job.jobId, "submitted", payload, t⟩]) := by
  obtain ⟨rfl, hnone, hall⟩ := stateOf_submit hok heff
  intro k
  obtain ⟨hone, hreplay⟩ := hA k
  rw [submissions_append, replay_append, hall k]
  by_cases hk : k = job.jobId
  · subst k
    rw [hnone] at hone
    rw [if_pos rfl, if_pos ⟨rfl, rfl⟩, if_pos rfl, hone]
    exact ⟨rfl, rfl⟩
  · have hk' : ¬job.jobId = k := fun hx => hk hx.symm
    rw [if_neg hk, if_neg hk', if_neg fun hx => hk' hx.1, Nat.add_zero]
    exact ⟨hone, hreplay⟩

end Appends

theorem audited_step {cfg : Config} {s s' : Server} {l : Label} (hA : Audited s.jobs s.events)
    (h : step cfg l s = some s') (ht : s.truthful cfg l = true) : Audited s'.jobs s'.events := by
  have hlogs := step_logs h
  rw [truthful] at ht
  generalize s'.jobs = jobs' at hlogs ⊢
  generalize s'.events = events' at hlogs ⊢
  cases hlogs with
  | silent | refused => exact hA
  | noted j type payload hc htype => exact hA.noted htype
  | reported op j type payload hc hop htype =>
      cases hrec : record j (stored op s.jobs) with
      | none =>
          rw [Option.toList_none, List.map_nil, List.append_nil]
          exact hA.unreported hop hrec
      | some job =>
          have hno : type ≠ "submitted" := by rcases htype with rfl | rfl <;> decide
          refine hA.moved (q := job.state) hop (by rw [stateOf, hrec, Option.map_some]) hno fun q' => ?_
          rw [Event.replay, if_pos htype]
          exact JobState.ofValue_value job.state
  | told op r j type payload hc htype hj hok =>
      rw [hc, Option.all_some] at ht
      cases htarget : op.target with
      | some i =>
          rw [htarget] at hj
          obtain rfl : i = j := Option.some.inj hj
          obtain ⟨q, hq⟩ := announces_some htype i payload s.clock
          have hto := ((told_iff_target htype htarget hok payload s.clock).mpr ht q hq).2
          have hno : type ≠ "submitted" := by cases op <;> cases htype <;> cases htarget <;> decide
          exact hA.moved htarget hto hno fun q' => (replay_of_eventType htype i payload s.clock q').trans hq
      | none =>
          cases op <;> cases htarget
          next id cid t₁ t₂ req =>
            cases htype
            obtain ⟨job, rfl, _⟩ := exec_submit hok
            cases hj
            exact hA.submitted hok ht

/-- The audit trail: a step tells the truth exactly when the operation of which it tells finds a job
to change, and in a run of such steps the log of every job has one submission and leads to the
stored state. -/
theorem audit_trail (cfg : Config) (jobs : JobTable) (events : List Event) (h0 : Audited jobs events) :
    (∀ s l s', step cfg l s = some s' → (Sound s s' ↔ s.truthful cfg l = true)) ∧
      ∀ t, (machine cfg jobs).Run (fun s l => s.truthful cfg l = true) { start jobs with events := events } t →
        Audited t.jobs t.events := by
  refine ⟨fun s l s' h => sound_iff_truthful h, fun t ht => ?_⟩
  refine Machine.Run.invariant (I := fun s => Audited s.jobs s.events) ?_ ht h0
  intro s l s' hA htrue h
  exact audited_step hA h htrue

def startedThenResult : List Label :=
  [.frame 0 (some (.started "job_1")), .frame 0 (some (.result "job_1" 0 "" "" none))]

theorem audit_trail_succeeded :
    ∃ t, (machine .default .empty).Run (fun s l => s.truthful .default l = true)
      { start .empty with events := [] } t ∧
    t.events.map (·.eventType) = ["submitted", "dispatched", "ack", "started", "result"] ∧
    stateOf "job_1" t.jobs = some .succeeded ∧ Audited t.jobs t.events := by
  have h0 : Audited .empty [] := fun j => ⟨rfl, rfl⟩
  have hexec : ((machine .default .empty).exec (fun s l => s.truthful .default l = true)
      (ackedDispatch ++ startedThenResult) { start .empty with events := [] }).any
      (fun t => decide (t.events.map (·.eventType) = ["submitted", "dispatched", "ack", "started", "result"] ∧
        stateOf "job_1" t.jobs = some .succeeded)) = true := by decide +kernel
  obtain ⟨t, ht, hev, hst⟩ := Machine.exists_run _ _ hexec
  exact ⟨t, ht, hev, hst, (audit_trail .default .empty [] h0).2 t ht⟩

def resultDuringCancel : List Label :=
  [.frame 0 (some (.started "job_1")), .cancel 1 "job_1", .run, .frame 0 (some (.result "job_1" 0 "" "" none)),
    .run, .run, .sendReturned (.api 1) .sent]

def submittedTwice : List Label :=
  [.submit 0 "job_1" "c1"
      { SubmitJobRequest.alpine "agent-1" agent_1_ne with idempotencyKey := some "k" }, .run, .run,
    .submit 1 "job_2" "c2" { SubmitJobRequest.alpine "agent-1" agent_1_ne with idempotencyKey := some "k" }]

/-- The last step of the one run notes a cancellation of a job that has succeeded, and its log leads
to `CANCELLED`; that of the other notes a second submission. -/
theorem audit_trail_false :
    (∃ s l s', (machine .default .empty).Reachable s ∧ step .default l s = some s' ∧ ¬ Sound s s' ∧
      stateOf "job_1" s'.jobs = some .succeeded ∧ replay "job_1" s'.events = some .cancelled ∧
      ¬ Audited s'.jobs s'.events) ∧
    ∃ s, (machine .default .empty).Reachable s ∧ submissions "job_1" s.events = 2 := by
  constructor
  · have hexec : ((machine .default .empty).exec (fun _ _ => True) (ackedDispatch ++ resultDuringCancel.dropLast)
        (start .empty)).any (fun s => decide (s.truthful .default (.sendReturned (.api 1) .sent) = false ∧
          (step .default (.sendReturned (.api 1) .sent) s).any (fun s' =>
            decide (stateOf "job_1" s'.jobs = some .succeeded ∧ replay "job_1" s'.events = some .cancelled)) = true)) =
        true := by decide +kernel
    obtain ⟨s, hs, hfalse, hst⟩ := Machine.exists_run _ _ hexec
    obtain ⟨s', hst, hdone⟩ := (Option.any_eq_true _ _).mp hst
    obtain ⟨hsucc, hcanc⟩ := of_decide_eq_true hdone
    refine ⟨s, _, s', hs, hst, fun hsound => ?_, hsucc, hcanc, fun hA => ?_⟩
    · rw [(sound_iff_truthful hst).mp hsound] at hfalse
      cases hfalse
    · have hreplay := (hA "job_1").2
      rw [hsucc, hcanc] at hreplay
      cases hreplay
  · have hexec : ((machine .default .empty).exec (fun _ _ => True) submittedTwice (start .empty)).any
        (fun s => decide (submissions "job_1" s.events = 2)) = true := by decide +kernel
    exact Machine.exists_run _ _ hexec

end Server

end JobSystem
