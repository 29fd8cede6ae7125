import JobSystem.Server.Progress

namespace JobSystem

open Lib

def JobState.isAwaited : JobState → Bool
  | dispatched | running | cancelled | timedOut => true
  | pending | succeeded | failed => false

def Obs.isResult (j : String) : Obs → Bool
  | .resultProcessed _ k => k = j
  | _ => false

abbrev Unreported (c : ConnId) (j : String) (history : List Obs) : Prop :=
  Unanswered (fun x => x = .jobWritten c j) (fun x => x.isResult j = true) history

namespace Server

def outstanding (a : String) (c : ConnId) (j : String) (s : Server) : Bool :=
  ((record j s.jobs).any fun job => decide (job.agentId = a) && job.state.isAwaited) &&
    decide (.jobSent c j ∈ s.history) && decide (Unreported c j s.history)

def onlyOutstanding (j : String) (s : Server) : Bool :=
  (record j s.jobs).any fun job => (s.agents.get job.agentId).any fun o =>
    let conn := s.agents.conns o
    s.sockets conn.ws && !conn.isIdle && s.outstanding job.agentId conn.ws j &&
      s.jobs.rows.all fun other => decide (other.jobId = j) || !s.outstanding job.agentId conn.ws other.jobId

def beingSent (j : String) (s : Server) : Bool :=
  (record j s.jobs).any fun job => s.sendingFor job.agentId = some j

/-- A result of job `j` on connection `c` can be bound, and it frees the slot of the agent of `j`. -/
def frees (c : ConnId) (j : String) (exitCode : Int) (stdout stderr : PyStr)
    (error : Option PyStr) (s : Server) : Bool :=
  bindableResult exitCode stdout stderr error && (record j s.jobs).any fun job =>
    decide (job.agentId ≠ "") && decide (s.handlers c = some (some job.agentId))

def retracts (cfg : Config) (s : Server) : Option String :=
  match s.loop.bind s.ctl with
  | some (.scanAck now (job :: _)) =>
      if ackOverdue cfg now job && (if cfg.maxDispatchAttempts ≤ job.dispatchAttempts then s.isOpen job.jobId
        else s.isDispatched job.jobId) then some job.jobId else none
  | _ => none

/-- A result is processed when its job is not in the middle of its send, and it
frees the slot if the slot waits for no other job. An ack timeout takes back no
job that a busy slot waits for alone. -/
def tends (cfg : Config) (s : Server) : Label → Bool
  | .frame c (some (.result j x o e err)) => !s.beingSent j && (!s.onlyOutstanding j || s.frees c j x o e err)
  | .run => (s.retracts cfg).all fun j => !s.beingSent j && !s.onlyOutstanding j
  | _ => true

/-- Some job sent on connection `c` occupies the agent, or is cancelled or
timed out with its result not yet processed. -/
def Owed (c : ConnId) (s : Server) : Prop :=
  ∃ j job, .jobSent c j ∈ s.history ∧ record j s.jobs = some job ∧
    (job.state.isActive = true ∨ ((job.state = .cancelled ∨ job.state = .timedOut) ∧ Unreported c j s.history))

/-- Nothing that a `dispatch_pending` could send waits on a connection that nothing will free. -/
structure Tended (s : Server) : Prop where
  locked : Locked s.dispatchLocks s.ctl
  kept : Kept s.dispatchLocks s.ctl
  opened : Opened s
  scanned : Scanned s
  made : ∀ co l o job k, s.ctl co = some (.sending l o job k) →
    o < s.agents.next ∧ (s.agents.conns o).agentId = l.agentId ∧ (s.agents.conns o).inFlight = 0
  stored : ∀ co l o job k, s.ctl co = some (.sending l o job k) →
    ∃ b, record job.jobId s.jobs = some b ∧ b.agentId = l.agentId ∧ (b.state = .pending ∨ b.state = .cancelled)
  unreported : ∀ co l o job k, s.ctl co = some (.sending l o job k) →
    Unreported (s.agents.conns o).ws job.jobId s.history
  replaced : ∀ co l o job k o', s.ctl co = some (.sending l o job k) → s.agents.get l.agentId = some o' → o' ≠ o →
    ∃ co', co' ≠ co ∧ (s.ctl co').bind Ctl.dispatching = some l.agentId
  idle : ∀ a o, s.agents.get a = some o → (s.agents.conns o).inFlight = 0 →
    s.sockets (s.agents.conns o).ws = true → HasPending a s.jobs → InProgress a s
  busy : ∀ a o, s.agents.get a = some o → (s.agents.conns o).inFlight ≠ 0 →
    s.sockets (s.agents.conns o).ws = true →
    (s.agents.conns o).inFlight = 1 ∧ ∃ j, s.outstanding a (s.agents.conns o).ws j = true

variable {cfg : Config} {s s' : Server} {label : Label}

theorem outstanding_iff {a : String} {c : ConnId} {j : String} : s.outstanding a c j = true ↔
    (∃ job, record j s.jobs = some job ∧ job.agentId = a ∧ job.state.isAwaited = true) ∧
      .jobSent c j ∈ s.history ∧ Unreported c j s.history := by
  simp [outstanding, Option.any_eq_true, and_assoc]

theorem other_outstanding {a : String} {o : ObjId} {j : String} (ho : s.agents.get a = some o)
    (hs : s.sockets (s.agents.conns o).ws = true) (hbusy : (s.agents.conns o).inFlight ≠ 0)
    (hj : s.outstanding a (s.agents.conns o).ws j = true) (honly : s.onlyOutstanding j = false) :
    ∃ k, k ≠ j ∧ s.outstanding a (s.agents.conns o).ws k = true := by
  obtain ⟨⟨job, hrec, rfl, _⟩, _⟩ := outstanding_iff.mp hj
  have hall : ¬ ∀ other ∈ s.jobs.rows, other.jobId = j ∨
      s.outstanding job.agentId (s.agents.conns o).ws other.jobId = false := by
    intro hall
    simp [onlyOutstanding, hrec, ho, hs, AgentConnection.isIdle, hbusy, hj] at honly
    obtain ⟨other, hm, hne, hout⟩ := honly
    rcases hall other hm with he | he
    · exact hne he
    · rw [hout] at he
      cases he
  push Not at hall
  obtain ⟨other, _, hne, hout⟩ := hall
  exact ⟨other.jobId, hne, by simpa using hout⟩

theorem view_unreported (h : View cfg s label s') {c : ConnId} {j : String}
    (hu : Unreported c j s.history) :
    Unreported c j s'.history ∨ ∃ c' x o e err, label = .frame c' (some (.result j x o e err)) := by
  have hcons : ∀ x : Obs, x.isResult j = false → Unreported c j (x :: s.history) :=
    fun x hx => unanswered_cons.mpr (.inr ⟨by simp [hx], hu⟩)
  cases h with
  | acked | registered | sendBegun | sent | sentUnrecorded | cancelled => exact .inl (hcons _ rfl)
  | resultRaised c' k x o e err | resultKept c' b k x o e err | resultFreed c' b k x o e err =>
      by_cases hk : k = j
      · subst k
        exact .inr ⟨c', x, o, e, err, rfl⟩
      · exact .inl (hcons _ (decide_eq_false hk))
  | staleFailed | requeued =>
      dsimp only
      split
      · exact .inl (hcons _ rfl)
      · exact .inl hu
  | _ => exact .inl hu

/-- A record whose result may be to come stays one, unless the step processes
its result or takes its dispatch back. -/
theorem view_awaited (h : View cfg s label s') {j : String} {p : Job} (hp : record j s.jobs = some p)
    (hw : p.state.isAwaited = true) :
    (∃ p', record j s'.jobs = some p' ∧ p'.agentId = p.agentId ∧ p'.state.isAwaited = true) ∨
      (∃ c x o e err, label = .frame c (some (.result j x o e err))) ∨
      (label = .run ∧ s.retracts cfg = some j) := by
  rcases view_record h hp with he | ⟨op, ht, hop, he⟩
  · exact .inl ⟨p, he, rfl, hw⟩
  · have hkeep : (op.effect p).state.isAwaited = true →
        ∃ p', record j s'.jobs = some p' ∧ p'.agentId = p.agentId ∧ p'.state.isAwaited = true :=
      fun hw' => ⟨_, he, op.effect_agentId p, hw'⟩
    cases hop with
    | started | timedOut =>
        refine .inl (hkeep ?_)
        rw [Op.effect, Job.transition_state]
        split
        · rfl
        · exact hw
    | result c k x o e err t =>
        rw [completion_target] at ht
        cases ht
        exact .inr (.inl ⟨c, x, o, e, err, rfl⟩)
    | submitted => cases ht
    | sent =>
        refine .inl (hkeep ?_)
        rw [Op.effect, Job.dispatch]
        split
        · rfl
        · exact hw
    | cancelled =>
        refine .inl (hkeep ?_)
        rw [Op.effect, Job.cancel]
        split
        · exact hw
        · rw [Job.transition_state, if_pos rfl]
          rfl
    | staleFailed now job rest t t' error hl hc ho hm =>
        cases ht
        by_cases hterm : p.state.isTerminal = true
        · rw [Op.effect_terminal _ hterm] at he
          exact .inl ⟨p, he, rfl, hw⟩
        · have hopen := isOpen_of hp (Bool.not_eq_true _ ▸ hterm)
          refine .inr (.inr ⟨rfl, ?_⟩)
          simp [retracts, hl, hc, ho, hm, hopen]
    | requeued now job rest t hl hc ho hm =>
        cases ht
        by_cases hd : p.state = .dispatched
        · have hdis := isDispatched_of hp hd
          refine .inr (.inr ⟨rfl, ?_⟩)
          simp [retracts, hl, hc, ho, not_le.mpr hm, hdis]
        · refine .inl (hkeep ?_)
          rw [Op.effect, Job.transition_of_ne hd]
          exact hw

theorem view_outstanding (h : View cfg s label s') {a : String} {c : ConnId} {j : String}
    (hj : s.outstanding a c j = true) :
    s'.outstanding a c j = true ∨ (∃ c x o e err, label = .frame c (some (.result j x o e err))) ∨
      (label = .run ∧ s.retracts cfg = some j) := by
  obtain ⟨⟨job, hrec, ha, hw⟩, hsent, hu⟩ := outstanding_iff.mp hj
  rcases view_unreported h hu with hu' | hresult
  · rcases view_awaited h hrec hw with ⟨p, hp, hpa, hw'⟩ | hgone
    · exact .inl (outstanding_iff.mpr ⟨⟨p, hp, hpa.trans ha, hw'⟩, view_history h hsent, hu'⟩)
    · exact .inr hgone
  · exact .inr (.inl hresult)

theorem view_frees {c : ConnId} {j : String} {x : Int} {out e : PyStr} {err : Option PyStr}
    (h : View cfg s (.frame c (some (.result j x out e err))) s') (hf : s.frees c j x out e err = true) {job : Job}
    (hj : record j s.jobs = some job) {o : ObjId} (ho : s.agents.get job.agentId = some o) :
    (s'.agents.conns o).inFlight = (s.agents.conns o).inFlight - 1 := by
  simp only [frees, hj, Option.any_some, Bool.and_eq_true, decide_eq_true_eq] at hf
  obtain ⟨hx, hne, hb⟩ := hf
  rw [(view_result h hx hb hne).1, conns_freeSlot, if_pos ho]
  rfl

theorem view_busy (h : View cfg s label s') {a : String} {o : ObjId} (ho : s'.agents.get a = some o)
    (hbusy : (s'.agents.conns o).inFlight ≠ 0) :
    (s.agents.get a = some o ∧ (s'.agents.conns o).ws = (s.agents.conns o).ws ∧
      ((s'.agents.conns o).inFlight = (s.agents.conns o).inFlight ∨
        (s'.agents.conns o).inFlight = (s.agents.conns o).inFlight - 1)) ∨
      ∃ co l job k out, label = .sendReturned co out ∧ s.ctl co = some (.sending l o job k) ∧
        s'.agents = s.agents.markBusy o ∧
          s'.history = .jobSent (s.agents.conns o).ws job.jobId :: s.history ∧
        (s.recorded label = true →
          ∃ r,
            exec sqliteJobRepository (.markDispatchedWithAttempt s.clock s.clock job.jobId) s.jobs =
            .ok (r, s'.jobs)) := by
  cases h with
  | registered c b a' =>
      dsimp only at ho hbusy ⊢
      rw [AgentRegistry.get_register] at ho
      split at ho
      · cases ho
        rw [AgentRegistry.conns_register_next] at hbusy
        exact absurd rfl hbusy
      · rw [s.agents.conns_register_lt (s.agents.get_lt ho)]
        exact .inl ⟨ho, rfl, .inl rfl⟩
  | forgot c b =>
      dsimp only at ho
      rw [AgentRegistry.get_unregister] at ho
      split at ho
      · cases ho
      · exact .inl ⟨ho, rfl, .inl rfl⟩
  | heartbeatScan =>
      obtain ⟨hconns, _, hget⟩ := foldl_unregister (s.agents.staleAgents s.clock cfg.maxIdle) s.agents
      have hconn : ((s.heartbeatScan cfg).agents.conns o) = s.agents.conns o := congrFun hconns o
      exact .inl ⟨hget a o ho, by rw [hconn], .inl (by rw [hconn])⟩
  | touched => exact .inl ⟨by simpa using ho, by simp, .inl (by simp)⟩
  | resultFreed c b =>
      refine .inl ⟨by simpa using ho, by simp, ?_⟩
      dsimp only
      rw [conns_freeSlot]
      split
      · exact .inr rfl
      · exact .inl rfl
  | sent co l o' job k _ _ hc hok =>
      by_cases hoo : o = o'
      · subst o'
        exact .inr ⟨co, l, job, k, _, rfl, hc, rfl, rfl, fun _ => exec_of_isOk hok⟩
      · dsimp only
        rw [AgentRegistry.conns_markBusy, if_neg hoo]
        exact .inl ⟨by simpa using ho, rfl, .inl rfl⟩
  | sentUnrecorded co l o' job k out _ hc hf =>
      by_cases hoo : o = o'
      · subst o'
        refine .inr ⟨co, l, job, k, _, rfl, hc, rfl, rfl, fun hrec => ?_⟩
        rcases hf with rfl | ⟨rfl, hf⟩ <;> simp_all [recorded]
      · dsimp only
        rw [AgentRegistry.conns_markBusy, if_neg hoo]
        exact .inl ⟨by simpa using ho, rfl, .inl rfl⟩
  | _ => exact .inl ⟨ho, rfl, .inl rfl⟩

theorem Tended.beingSent (hT : Tended s) {co : Coro} {l : LockRef} {o : ObjId} {job : Job} {k : Return}
    (hc : s.ctl co = some (.sending l o job k)) : s.beingSent job.jobId = true := by
  obtain ⟨b, hb, hbl, _⟩ := hT.stored co l o job k hc
  simp [Server.beingSent, hb, hbl, sendingFor_eq hT.locked hT.kept hc]

section Step

variable (hT : Tended s) (hrec : s.recorded label = true) (htend : s.tends cfg label = true)
  (h : View cfg s label s')

include hT h

theorem Tended.not_returned {co co' : Coro} {l l' : LockRef} {o o' : ObjId} {job job' : Job}
    {k k' : Return} {out : SendOutcome} (hc : s'.ctl co = some (.sending l o job k))
    (hold : s.ctl co = some (.sending l o job k)) (hlabel : label = .sendReturned co' out)
    (hc' : s.ctl co' = some (.sending l' o' job' k')) : l.agentId ≠ l'.agentId := by
  intro ha
  obtain rfl := hT.kept.sender hT.locked hold hc' ha
  subst hlabel
  have hout := view_returned h hc'
  rw [hc] at hout
  cases hout

theorem Tended.made_step {co : Coro} {l : LockRef} {o : ObjId} {job : Job} {k : Return}
    (hc : s'.ctl co = some (.sending l o job k)) :
    o < s'.agents.next ∧ (s'.agents.conns o).agentId = l.agentId ∧ (s'.agents.conns o).inFlight = 0 := by
  rcases view_sending h hc with hold | hbegun
  · obtain ⟨hlt, hla, hidle⟩ := hT.made co l o job k hold
    obtain ⟨hlt', _, hag, hle | ⟨co', l', job', k', out, hlabel, hc'⟩⟩ := view_conn h hlt
    · exact ⟨hlt', hag.trans hla, Nat.le_zero.mp (hidle ▸ hle)⟩
    · have hla' := (hT.made co' l' o job' k' hc').2.1
      exact absurd (hla.symm.trans hla') (hT.not_returned h hc hold hlabel hc')
  · rw [hbegun.agents]
    exact ⟨s.agents.get_lt hbegun.entry, (s.agents.keyed hbegun.entry).2, hbegun.idle⟩

theorem Tended.replaced_step {co : Coro} {l : LockRef} {o o' : ObjId} {job : Job} {k : Return}
    (hc : s'.ctl co = some (.sending l o job k)) (ho : s'.agents.get l.agentId = some o')
    (hne : o' ≠ o) : ∃ co', co' ≠ co ∧ (s'.ctl co').bind Ctl.dispatching = some l.agentId := by
  rcases view_sending h hc with hold | hbegun
  · rcases view_entry h ho with ⟨ho', _⟩ | ⟨c, rfl, _⟩
    · obtain ⟨co', hco, hd⟩ := hT.replaced co l o job k o' hold ho' hne
      rcases view_dispatching h hd with hd' | ⟨l', hin', hl', _⟩
      · exact ⟨co', hco, hd'⟩
      · exact absurd (hT.kept.unique hT.locked hin' (sending_inside hold) hl') hco
    · obtain ⟨hnone, hd⟩ := view_register h
      refine ⟨.handler c, ?_, hd⟩
      rintro rfl
      rw [hold] at hnone
      cases hnone
  · rw [hbegun.agents, hbegun.entry] at ho
    exact absurd (Option.some.inj ho).symm hne

theorem Tended.was_open {a : String} {o : ObjId} (ho : s.agents.get a = some o)
    (hws : (s'.agents.conns o).ws = (s.agents.conns o).ws)
    (hs : s'.sockets (s'.agents.conns o).ws = true) : s.sockets (s.agents.conns o).ws = true := by
  rw [hws] at hs
  rcases view_sockets h hs with hold | hnew
  · exact hold
  · exact absurd hnew (Nat.ne_of_lt (hT.opened.entry o (s.agents.get_lt ho)))

theorem Tended.idle_step {a : String} {o : ObjId} (ho : s'.agents.get a = some o)
    (hidle : (s'.agents.conns o).inFlight = 0) (hs : s'.sockets (s'.agents.conns o).ws = true)
    (hp : HasPending a s'.jobs) : InProgress a s' := by
  by_contra hno
  have hp' := (view_hasPending hT.scanned h hp).resolve_right hno
  rcases view_entry h ho with ⟨ho', hws⟩ | ⟨c, rfl, _⟩
  · have hs' := hT.was_open h ho' hws hs
    rcases view_idle h ho hidle with ⟨_, hidle'⟩ | ⟨c, rfl⟩ | ⟨c, j, x, out, e, err, rfl, hb, hne, hx, _⟩
    · obtain ⟨co, hd⟩ := hT.idle a o ho' hidle' hs' hp'
      rcases view_dispatching h hd with hd' | ⟨l, hin, rfl, hfinds | ⟨o₁, job, k, out, rfl, hc, hret⟩⟩
      · exact hno ⟨co, hd'⟩
      · exact hfinds o ho' hidle' hs' hp'
      · by_cases hoo : o = o₁
        · subst o₁
          rcases hret with hag | hclosed
          · rw [hag, AgentRegistry.conns_markBusy, if_pos rfl] at hidle
            cases hidle
          · rw [hs'] at hclosed
            cases hclosed
        · -- the connection is newer than the one sent on, and its dispatch waits for the lock
          obtain ⟨co', hco, hd'⟩ := hT.replaced co l o₁ job k o hc ho' hoo
          rcases view_dispatching h hd' with hd'' | ⟨l', hin', hl', _⟩
          · exact hno ⟨co', hd''⟩
          · exact hco (hT.kept.unique hT.locked hin' hin hl')
    · exact hno ⟨_, (view_register h).2⟩
    · exact hno ⟨_, (view_result h hx hb hne).2⟩
  · exact hno ⟨_, (view_register h).2⟩

include htend

/-- No result of a job that is being sent is processed, and no ack timeout takes it back. -/
theorem Tended.undisturbed {co : Coro} {l : LockRef} {o : ObjId} {job : Job} {k : Return}
    (hc : s.ctl co = some (.sending l o job k)) :
    (∀ c x out e err, label ≠ .frame c (some (.result job.jobId x out e err))) ∧
      ¬ (label = .run ∧ s.retracts cfg = some job.jobId) := by
  have hsent := hT.beingSent hc
  constructor
  · rintro c x out e err rfl
    simp [tends, hsent] at htend
  · rintro ⟨rfl, hr⟩
    simp [tends, hr, hsent] at htend

theorem Tended.stored_step (hroute : s.routesOwn label = true) {co : Coro} {l : LockRef} {o : ObjId}
    {job : Job} {k : Return} (hc : s'.ctl co = some (.sending l o job k)) :
    ∃ b, record job.jobId s'.jobs = some b ∧ b.agentId = l.agentId ∧
      (b.state = .pending ∨ b.state = .cancelled) := by
  rcases view_sending h hc with hold | hbegun
  · obtain ⟨b, hb, hbl, hst⟩ := hT.stored co l o job k hold
    obtain ⟨hresult, hretract⟩ := hT.undisturbed htend h hold
    rcases view_record h hb with he | ⟨op, ht, hop, he⟩
    · exact ⟨b, he, hbl, hst⟩
    · have hsame : op.effect b = b → ∃ b, record job.jobId s'.jobs = some b ∧ b.agentId = l.agentId ∧
          (b.state = .pending ∨ b.state = .cancelled) := fun heq => ⟨b, by rw [he, heq], hbl, hst⟩
      have hne : ∀ x : JobState, x ≠ .pending → x ≠ .cancelled → b.state ≠ x := by
        rintro x hx hx' rfl
        exact hst.elim hx hx'
      cases hop with
      | started | timedOut | requeued =>
          exact hsame (Job.transition_of_ne (hne _ (by decide) (by decide)))
      | result c j x out e err t =>
          rw [completion_target] at ht
          cases ht
          exact absurd rfl (hresult c x out e err)
      | submitted => cases ht
      | sent co' l' o' job' k' t t' hc' =>
          obtain ⟨b', hb', hbl', _⟩ := hT.stored co' l' o' job' k' hc'
          have hid : job'.jobId = job.jobId := Option.some.inj ht
          rw [hid, hb] at hb'
          cases hb'
          exact absurd (hbl.symm.trans hbl') (hT.not_returned h hc hold rfl hc')
      | cancelled =>
          refine ⟨_, he, (Op.effect_agentId _ b).trans hbl, .inr ?_⟩
          rcases hst with hst | hst <;> simp [Op.effect, Job.cancel, Job.transition_state, hst]
      | staleFailed now job' rest t t' error hl hc' ho hm =>
          have hid : job'.jobId = job.jobId := Option.some.inj ht
          rcases hst with hst | hst
          · refine absurd ⟨rfl, ?_⟩ hretract
            rw [← hid] at hb ⊢
            have hopen := isOpen_of hb (by rw [hst]; rfl)
            simp [retracts, hl, hc', ho, hm, hopen]
          · exact hsame (Op.effect_terminal _ (by rw [hst]; rfl))
  · obtain ⟨hrec, hpend, _⟩ := pending_head hbegun.pending
    rw [hbegun.jobs]
    exact ⟨job, hrec, hbegun.agentId hroute, .inl hpend⟩

theorem Tended.unreported_step {co : Coro} {l : LockRef} {o : ObjId} {job : Job} {k : Return}
    (hc : s'.ctl co = some (.sending l o job k)) :
    Unreported (s'.agents.conns o).ws job.jobId s'.history := by
  rcases view_sending h hc with hold | hbegun
  · rw [(view_conn h (hT.made co l o job k hold).1).2.1]
    rcases view_unreported h (hT.unreported co l o job k hold) with hu | ⟨c, x, out, e, err, hlabel⟩
    · exact hu
    · exact absurd hlabel ((hT.undisturbed htend h hold).1 c x out e err)
  · rw [hbegun.agents, hbegun.history]
    exact unanswered_cons.mpr (.inl rfl)

theorem Tended.still_outstanding {a : String} {o : ObjId} (ho : s.agents.get a = some o)
    (hbusy : (s.agents.conns o).inFlight ≠ 0) (hs : s.sockets (s.agents.conns o).ws = true)
    (hkept : (s'.agents.conns o).inFlight = (s.agents.conns o).inFlight) :
    ∃ j, s'.outstanding a (s.agents.conns o).ws j = true := by
  obtain ⟨hone, j, hj⟩ := hT.busy a o ho hbusy hs
  rcases view_outstanding h hj with hj' | ⟨c, x, out, e, err, rfl⟩ | ⟨rfl, hr⟩
  · exact ⟨j, hj'⟩
  · simp only [tends, Bool.and_eq_true, Bool.or_eq_true, Bool.not_eq_true'] at htend
    rcases htend.2 with honly | hf
    · obtain ⟨k, hne, hk⟩ := other_outstanding ho hs hbusy hj honly
      rcases view_outstanding h hk with hk' | ⟨_, _, _, _, _, he⟩ | ⟨he, _⟩
      · exact ⟨k, hk'⟩
      · cases he
        exact absurd rfl hne
      · cases he
    · obtain ⟨⟨job, hjob, rfl, _⟩, _⟩ := outstanding_iff.mp hj
      have := view_frees h hf hjob ho
      omega
  · simp only [tends, hr, Option.all_some, Bool.and_eq_true, Bool.not_eq_true'] at htend
    obtain ⟨k, hne, hk⟩ := other_outstanding ho hs hbusy hj htend.2
    rcases view_outstanding h hk with hk' | ⟨_, _, _, _, _, he⟩ | ⟨_, he⟩
    · exact ⟨k, hk'⟩
    · cases he
    · rw [hr] at he
      exact absurd (Option.some.inj he).symm hne

theorem Tended.busy_step {a : String} {o : ObjId} (hrec : s.recorded label = true)
    (ho : s'.agents.get a = some o) (hbusy : (s'.agents.conns o).inFlight ≠ 0)
    (hs : s'.sockets (s'.agents.conns o).ws = true) :
    (s'.agents.conns o).inFlight = 1 ∧ ∃ j, s'.outstanding a (s'.agents.conns o).ws j = true := by
  rcases view_busy h ho hbusy with ⟨ho', hws, hkept⟩ | ⟨co, l, job, k, out, hlabel, hc, hag, hh, hjobs⟩
  · have hs' := hT.was_open h ho' hws hs
    have hbusy' : (s.agents.conns o).inFlight ≠ 0 := by
      intro hzero
      rcases hkept with he | he <;> rw [he, hzero] at hbusy <;> exact hbusy rfl
    have hone := (hT.busy a o ho' hbusy' hs').1
    rcases hkept with he | he
    · exact ⟨he.trans hone, hws ▸ hT.still_outstanding htend h ho' hbusy' hs' he⟩
    · rw [he, hone] at hbusy
      exact absurd rfl hbusy
  · obtain ⟨_, hla, hidle⟩ := hT.made co l o job k hc
    obtain ⟨b, hb, hbl, hst⟩ := hT.stored co l o job k hc
    rw [hag] at ho
    have ha : l.agentId = a := hla.symm.trans (s.agents.keyed ho).2
    refine ⟨?_, job.jobId, outstanding_iff.mpr ⟨?_, ?_, ?_⟩⟩
    · rw [hag, AgentRegistry.conns_markBusy, if_pos rfl, AgentConnection.markBusy, hidle]
    · obtain ⟨r, hex⟩ := hjobs hrec
      obtain ⟨_, hu⟩ := JobService.markDispatchedWithAttempt_spec sqliteJobRepository_lawful hex
      have he := hu.get_some hb
      rw [if_pos rfl] at he
      refine ⟨_, he, ?_, ?_⟩ <;> unfold Job.dispatch <;> split
      · exact hbl.trans ha
      · exact hbl.trans ha
      · rfl
      · next hne => rw [hst.resolve_left hne]; rfl
    · rw [hh, hag, AgentRegistry.ws_markBusy]
      exact List.mem_cons_self
    · rw [hh, hag, AgentRegistry.ws_markBusy]
      exact unanswered_cons.mpr (.inr ⟨by simp [Obs.isResult], hT.unreported co l o job k hc⟩)

theorem tended_step (hroute : s.routesOwn label = true) (hrec : s.recorded label = true)
    (hsafe : s.lockSafe label = true) : Tended s' where
  locked := locked_step hT.locked h
  kept := kept_step hT.kept hT.locked hsafe h
  opened := opened_step hT.opened h
  scanned := scanned_step hT.scanned h
  made _ _ _ _ _ hc := hT.made_step h hc
  stored _ _ _ _ _ hc := hT.stored_step htend h hroute hc
  unreported _ _ _ _ _ hc := hT.unreported_step htend h hc
  replaced _ _ _ _ _ _ hc ho hne := hT.replaced_step h hc ho hne
  idle _ _ ho hidle hs hp := hT.idle_step h ho hidle hs hp
  busy _ _ ho hbusy hs := hT.busy_step htend h hrec ho hbusy hs

end Step

theorem tended_start (jobs : JobTable) : Tended (start jobs) where
  locked := locked_start jobs
  kept := kept_start jobs
  opened := opened_start jobs
  scanned := scanned_start jobs
  made co l o job k hc := by simp [start] at hc
  stored co l o job k hc := by simp [start] at hc
  unreported co l o job k hc := by simp [start] at hc
  replaced co l o job k o' hc := by simp [start] at hc
  idle a o ho := by simp [start, AgentRegistry.get, AgentRegistry.empty] at ho
  busy a o ho := by simp [start, AgentRegistry.get, AgentRegistry.empty] at ho

theorem outstanding_owed {a : String} {c : ConnId} {j : String} (h : s.outstanding a c j = true) :
    s.Owed c := by
  obtain ⟨⟨job, hjob, _, hw⟩, hsent, hu⟩ := outstanding_iff.mp h
  refine ⟨j, job, hsent, hjob, ?_⟩
  cases hs : job.state <;> simp [hs, JobState.isAwaited, JobState.isActive] at hw ⊢ <;> exact hu

end Server

end JobSystem
