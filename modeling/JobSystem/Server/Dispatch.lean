import JobSystem.Lib.Separated
import JobSystem.Server.Locks
import JobSystem.Server.Routing

namespace JobSystem

open Lib

theorem update_some {ctl : Coro → Option Ctl} {co u : Coro} {x : Option Ctl} {y : Ctl}
    (h : Function.update ctl co x u = some y) : (u = co ∧ x = some y) ∨ (u ≠ co ∧ ctl u = some y) := by
  by_cases hu : u = co
  · subst u
    exact .inl ⟨rfl, by rwa [Function.update_self] at h⟩
  · exact .inr ⟨hu, by rwa [Function.update_of_ne hu] at h⟩

theorem Op.effect_pending {op : Op} {job : Job} (h : (op.effect job).state = .pending)
    (hne : job.state ≠ .pending) : job.state = .dispatched ∧ ∃ t j, op = .requeue t j := by
  rw [effect_state] at h
  generalize job.state = a at h hne ⊢
  cases op <;> cases a <;> first | exact absurd rfl hne | cases h
  exact ⟨rfl, _, _, rfl⟩

def SentJob (j : String) (x : Obs) : Prop := ∃ c, x = .jobSent c j

def RequeuedJob (j : String) (x : Obs) : Prop := x = .requeued j

namespace Server

variable {cfg : Config} {s s' : Server} {label : Label}

theorem view_sending (h : View cfg s label s') {co : Coro} {l : LockRef} {o : ObjId} {job : Job}
    {k : Return} (hc : s'.ctl co = some (.sending l o job k)) :
    s.ctl co = some (.sending l o job k) ∨ Begun s label s' co l o job k := by
  cases h with
  | sendBegun co' l' k' o' job' hl hc' ho hidle hp hs =>
      rcases update_some hc with ⟨rfl, hx⟩ | ⟨_, hx⟩
      · cases hx
        exact .inr ⟨rfl, hl, hc', ho, hidle, hp, hs, rfl, rfl, rfl, hc⟩
      · exact .inl hx
  | registered | resultFreed | submitted | cancelBegun | ackScan | timeoutScan | woken | entered | queued
    | sentUnrecorded | scanEnded | scanSkipped | staleFailed | requeued | cancelSending | timedOut | cancelled =>
      rcases update_some hc with ⟨_, hx⟩ | ⟨_, hx⟩
      · cases hx
      · exact .inl hx
  | left _ _ k' | sent _ _ _ _ k' | sendClosed _ _ _ _ k' =>
      rcases update_some hc with ⟨_, hx⟩ | ⟨_, hx⟩
      · cases k' <;> cases hx
      · exact .inl hx
  | timeoutMoved _ y _ _ _ _ hy =>
      rcases update_some hc with ⟨_, hx⟩ | ⟨_, hx⟩
      · rcases hy with ⟨rfl, _⟩ | ⟨_, ⟨_, _, rfl⟩ | ⟨_, _, _, rfl⟩⟩ <;> cases hx
      · exact .inl hx
  | _ => exact .inl hc

theorem view_returned {co : Coro} {out : SendOutcome} (h : View cfg s (.sendReturned co out) s')
    {l : LockRef} {o : ObjId} {job : Job} {k : Return} (hc : s.ctl co = some (.sending l o job k)) :
    (s'.ctl co).bind Ctl.inside = none := by
  cases h with
  | quiet _ _ _ hq => cases hq
  | sent _ _ _ _ k' | sendClosed _ _ _ _ k' =>
      dsimp only
      rw [Function.update_self]
      exact k'.next_outside.1
  | sentUnrecorded =>
      dsimp only
      rw [Function.update_self]
      rfl
  | timedOut _ _ _ _ _ _ _ hx hc' | cancelled _ _ _ _ _ _ _ hx hc' =>
      rcases hc' with ⟨⟨⟩, _⟩ | ⟨_, he, _, rfl⟩
      cases he
      rw [hc] at hx
      cases hx

def marks (co : Coro) (out : SendOutcome) (s : Server) : Bool :=
  match s.ctl co with
  | some (.sending _ _ job _) => decide (out = .sent) &&
      (exec sqliteJobRepository (.markDispatchedWithAttempt s.clock s.clock job.jobId) s.jobs).isOk
  | _ => false

theorem view_sending_next (h : View cfg s label s') {co : Coro} {l : LockRef} {o : ObjId}
    {job : Job} {k : Return} (hc : s.ctl co = some (.sending l o job k)) :
    s'.ctl co = some (.sending l o job k) ∨
      ∃ out, label = .sendReturned co out ∧ (s.marks co out = true →
      ∃ r, exec sqliteJobRepository (.markDispatchedWithAttempt s.clock s.clock job.jobId) s.jobs =
        .ok (r, s'.jobs)) := by
  have hkeep :
      ∀ {u x}, s'.ctl = Function.update s.ctl u x → co ≠ u →
        s'.ctl co = some (.sending l o job k) := by
    intro u x hx hne
    rw [hx, Function.update_of_ne hne, hc]
  have hother : ∀ {u x}, s'.ctl = Function.update s.ctl u x → s.ctl u ≠ some (.sending l o job k) →
      s'.ctl co = some (.sending l o job k) :=
    fun hx hne => hkeep hx fun he => hne (he ▸ hc)
  cases h with
  | registered _ _ _ _ hu | resultFreed _ _ _ _ _ _ _ _ _ hu | submitted _ _ _ _ _ _ _ hu
    | cancelBegun _ _ _ _ hu | ackScan _ hu | timeoutScan _ hu =>
        exact .inl (hother rfl (by rw [hu]; nofun))
  | woken _ _ _ _ _ hu | sendBegun _ _ _ _ _ _ hu | left _ _ _ _ hu | scanEnded _ _ _ hu
    | cancelSending _ _ _ _ _ hu => exact .inl (hother rfl (by rw [hu]; nofun))
  | entered _ _ _ _ hu | queued _ _ _ _ hu | scanSkipped _ _ _ _ hu | requeued _ _ _ _ _ hu =>
      exact .inl (hother rfl (by rw [hu]; nofun))
  | staleFailed _ _ _ _ _ _ hu => exact .inl (hother rfl (by rw [hu]; nofun))
  | timeoutMoved _ _ _ _ hu hx =>
      obtain ⟨_, _, rfl⟩ := hx
      exact .inl (hother rfl (by rw [hu]; nofun))
  | timedOut _ _ _ _ _ _ _ hu hx | cancelled _ _ _ _ _ _ _ hu hx =>
      rcases hx with ⟨_, _, rfl⟩ | ⟨_, _, _, rfl⟩ <;> exact .inl (hother rfl (by rw [hu]; nofun))
  | sent u _ _ _ _ _ _ hu hok =>
      by_cases hco : co = u
      · subst u
        rw [hc] at hu
        cases hu
        exact .inr ⟨_, rfl, fun _ => exec_of_isOk hok⟩
      · exact .inl (hkeep rfl hco)
  | sentUnrecorded u _ _ _ _ out _ hu hf =>
      by_cases hco : co = u
      · subst u
        rw [hc] at hu
        cases hu
        refine .inr ⟨_, rfl, fun hm => ?_⟩
        rcases hf with rfl | ⟨rfl, hf⟩ <;> simp_all [marks]
      · exact .inl (hkeep rfl hco)
  | sendClosed u _ _ _ _ _ hu =>
      by_cases hco : co = u
      · subst u
        rw [hc] at hu
        cases hu
        refine .inr ⟨_, rfl, fun hm => ?_⟩
        simp [marks, hc] at hm
      · exact .inl (hkeep rfl hco)
  | _ => exact .inl hc

def sendingFor (a : String) (s : Server) : Option String :=
  (s.dispatchLocks.locks.get a).bind fun l => (s.dispatchLocks.mutexes l).holder.bind fun co =>
    match s.ctl co with
    | some (.sending _ _ job _) => some job.jobId
    | _ => none

theorem sendingFor_eq (hL : Locked s.dispatchLocks s.ctl) (hK : Kept s.dispatchLocks s.ctl)
    {co : Coro} {l : LockRef} {o : ObjId} {job : Job} {k : Return}
    (hc : s.ctl co = some (.sending l o job k)) : s.sendingFor l.agentId = some job.jobId := by
  have hin := sending_inside hc
  have hholder := ((hL l).holder_iff co).mpr hin
  simp [sendingFor, hK co l (.inl hin), hholder, hc]

/-- A record leaves `PENDING` for good, but for a requeue that the history shows. -/
theorem view_pending (h : View cfg s label s') {j : String} {a : Job} (ha : record j s.jobs = some a)
    (hne : a.state ≠ .pending) :
    (∃ b, record j s'.jobs = some b ∧ b.state ≠ .pending) ∨ s'.history = .requeued j :: s.history := by
  have hop :
      ∀ op, (∀ t k, op ≠ .requeue t k) →
        ∃ b, record j (stored op s.jobs) = some b ∧ b.state ≠ .pending := by
    intro op hreq
    rcases stored_some op ha with hb | ⟨_, hb⟩
    · exact ⟨a, hb, hne⟩
    · refine ⟨_, hb, fun hp => ?_⟩
      obtain ⟨_, t, k, rfl⟩ := Op.effect_pending hp hne
      exact hreq t k rfl
  cases h with
  | started | submitted | sent | staleFailed | timedOut | cancelled =>
      exact .inl (hop _ (by rintro _ _ ⟨⟩))
  | resultKept c b k x o e err | resultFreed c b k x o e err =>
      refine .inl (hop _ fun t k' he => ?_)
      rcases completion_cases s.clock k x o e err with ⟨_, h⟩ | h <;> rw [h] at he <;> cases he
  | requeued now job rest =>
      rcases stored_some (.requeue s.clock job.jobId) ha with hb | ⟨ht, hb⟩
      · exact .inl ⟨a, hb, hne⟩
      · cases ht
        by_cases hd : a.state = .dispatched
        · right
          simp [isDispatched_of ha hd]
        · left
          refine ⟨_, hb, fun hp => ?_⟩
          exact hd (Op.effect_pending hp hne).1
  | _ => exact .inl ⟨a, ha, hne⟩

def recorded (s : Server) : Label → Bool
  | .sendReturned co out =>
      match s.ctl co with
      | some (.sending _ _ job _) => decide (out = .closed) || (decide (out = .sent) &&
          (exec sqliteJobRepository (.markDispatchedWithAttempt s.clock s.clock job.jobId) s.jobs).isOk)
      | _ => true
  | _ => true

theorem recorded_sending {s : Server} {co : Coro} {l : LockRef} {o : ObjId} {job : Job} {k : Return}
    (hc : s.ctl co = some (.sending l o job k)) (out : SendOutcome) :
    s.recorded (.sendReturned co out) = (decide (out = .closed) || (decide (out = .sent) &&
      (exec sqliteJobRepository (.markDispatchedWithAttempt s.clock s.clock job.jobId) s.jobs).isOk)) := by
  rw [recorded, hc]

def Returned (s : Server) (label : Label) (s' : Server) (j : String) : Prop :=
  ∃ co l o job k out, label = .sendReturned co out ∧ s.ctl co = some (.sending l o job k) ∧ job.jobId = j ∧
    (s'.ctl co).bind Ctl.inside = none ∧ s'.agents = s.agents.markBusy o ∧ (s.recorded label = true →
      ∃ r, exec sqliteJobRepository (.markDispatchedWithAttempt s.clock s.clock j) s.jobs = .ok (r, s'.jobs))

theorem view_obs (h : View cfg s label s') :
    s'.history = s.history ∨
      ∃ x, s'.history = x :: s.history ∧ ∀ j, SentJob j x → Returned s label s' j := by
  have hquiet : ∀ x : Obs, (∀ c j, x ≠ .jobSent c j) → ∀ j, ¬ SentJob j x := by
    rintro x hx j ⟨c, rfl⟩
    exact hx c j rfl
  cases h with
  | acked | registered | resultRaised | resultKept | resultFreed | sendBegun | cancelled =>
      exact .inr ⟨_, rfl, fun j hj => absurd hj (hquiet _ (by rintro _ _ ⟨⟩) j)⟩
  | staleFailed | requeued =>
      dsimp only
      split
      · exact .inr ⟨_, rfl, fun j hj => absurd hj (hquiet _ (by rintro _ _ ⟨⟩) j)⟩
      · exact .inl rfl
  | sent co l o job k attempt hl hc hok =>
      refine .inr ⟨_, rfl, ?_⟩
      rintro j ⟨c, hx⟩
      cases hx
      refine ⟨co, l, o, job, k, _, rfl, hc, rfl, ?_, rfl, fun _ => exec_of_isOk hok⟩
      dsimp only
      rw [Function.update_self]
      exact k.next_outside.1
  | sentUnrecorded co l o job k out hl hc hf =>
      refine .inr ⟨_, rfl, ?_⟩
      rintro j ⟨c, hx⟩
      cases hx
      refine ⟨co, l, o, job, k, _, rfl, hc, rfl, ?_, rfl, fun hrec => ?_⟩
      · dsimp only
        rw [Function.update_self]
        rfl
      · rcases hf with rfl | ⟨rfl, hf⟩ <;> simp_all [recorded]
  | _ => exact .inl rfl

/-- A job that has been sent since its last requeue is not pending, so that it
is not sent again, and a job that is being sent has not been. -/
structure Once (s : Server) : Prop where
  locked : Locked s.dispatchLocks s.ctl
  kept : Kept s.dispatchLocks s.ctl
  settled : ∀ j, Unanswered (SentJob j) (RequeuedJob j) s.history →
    ∃ a, record j s.jobs = some a ∧ a.state ≠ .pending
  sending : ∀ co l o job k, s.ctl co = some (.sending l o job k) →
    (∃ a, record job.jobId s.jobs = some a ∧ a.agentId = l.agentId) ∧
      ¬ Unanswered (SentJob job.jobId) (RequeuedJob job.jobId) s.history
  separated : ∀ j, Separated (SentJob j) (RequeuedJob j) s.history

theorem Once.alone (hI : Once s) {co co' : Coro} {l l' : LockRef} {o o' : ObjId} {job job' : Job}
    {k k' : Return} (hc : s.ctl co = some (.sending l o job k))
    (hc' : s.ctl co' = some (.sending l' o' job' k')) (hj : job.jobId = job'.jobId) : co = co' := by
  obtain ⟨⟨a, ha, hag⟩, _⟩ := hI.sending co l o job k hc
  obtain ⟨⟨b, hb, hbg⟩, _⟩ := hI.sending co' l' o' job' k' hc'
  rw [hj, hb] at ha
  cases ha
  exact hI.kept.sender hI.locked hc hc' (hag.symm.trans hbg)

theorem view_unanswered (h : View cfg s label s') {j : String}
    (hu : Unanswered (SentJob j) (RequeuedJob j) s'.history) :
    Unanswered (SentJob j) (RequeuedJob j) s.history ∨ Returned s label s' j := by
  rcases view_obs h with he | ⟨x, he, hx⟩
  · exact .inl (he ▸ hu)
  · rw [he, unanswered_cons] at hu
    rcases hu with hs | ⟨_, hu⟩
    · exact .inr (hx j hs)
    · exact .inl hu

theorem Once.settled_step (hI : Once s) (hrec : s.recorded label = true) (h : View cfg s label s')
    {j : String} (hu : Unanswered (SentJob j) (RequeuedJob j) s'.history) :
    ∃ a, record j s'.jobs = some a ∧ a.state ≠ .pending := by
  rcases view_unanswered h hu with hu' | ⟨co, l, o, job, k, out, _, hc, rfl, _, _, hex⟩
  · obtain ⟨a, ha, hne⟩ := hI.settled j hu'
    rcases view_pending h ha hne with hb | he
    · exact hb
    · rw [he, unanswered_cons] at hu
      rcases hu with ⟨c, hx⟩ | ⟨hx, _⟩
      · cases hx
      · exact absurd rfl hx
  · obtain ⟨⟨a, ha, _⟩, _⟩ := hI.sending co l o job k hc
    obtain ⟨r, hex⟩ := hex hrec
    obtain ⟨_, hu⟩ := JobService.markDispatchedWithAttempt_spec sqliteJobRepository_lawful hex
    refine ⟨_, hu.get_some ha, ?_⟩
    rw [if_pos rfl]
    exact Job.dispatch_not_pending _ _

theorem Once.sending_step (hI : Once s) (hroute : s.routesOwn label = true)
    (h : View cfg s label s') {co : Coro} {l : LockRef} {o : ObjId} {job : Job} {k : Return}
    (hc : s'.ctl co = some (.sending l o job k)) :
    (∃ a, record job.jobId s'.jobs = some a ∧ a.agentId = l.agentId) ∧
      ¬ Unanswered (SentJob job.jobId) (RequeuedJob job.jobId) s'.history := by
  rcases view_sending h hc with hc' | hbegun
  · obtain ⟨⟨a, ha, hag⟩, hnot⟩ := hI.sending co l o job k hc'
    obtain ⟨b, hb, hbg⟩ := view_agentId h ha
    refine ⟨⟨b, hb, hbg.trans hag⟩, fun hu => ?_⟩
    rcases view_unanswered h hu with hu' | ⟨co', l', o', job', k', out, _, hc'', hj, hout, _⟩
    · exact hnot hu'
    · obtain rfl := hI.alone hc' hc'' hj.symm
      rw [hc] at hout
      cases hout
  · have hpend := pending_head hbegun.pending
    obtain ⟨b, hb, hbg⟩ := view_agentId h hpend.1
    refine ⟨⟨b, hb, hbg.trans (hbegun.agentId hroute)⟩, fun hu => ?_⟩
    rcases view_unanswered h hu with hu' | ⟨_, _, _, _, _, _, he, _⟩
    · obtain ⟨a, ha, hne⟩ := hI.settled _ hu'
      rw [hpend.1] at ha
      cases ha
      exact hne hpend.2.1
    · rw [hbegun.label] at he
      cases he

theorem once_step (hI : Once s) (hsafe : s.lockSafe label = true) (hroute : s.routesOwn label = true)
    (hrec : s.recorded label = true) (h : View cfg s label s') : Once s' where
  locked := locked_step hI.locked h
  kept := kept_step hI.kept hI.locked hsafe h
  settled _ hu := hI.settled_step hrec h hu
  sending _ _ _ _ _ hc := hI.sending_step hroute h hc
  separated := by
    intro j
    rcases view_obs h with he | ⟨x, he, hx⟩
    · rw [he]
      exact hI.separated j
    · rw [he, separated_cons]
      refine ⟨fun hs => ?_, hI.separated j⟩
      obtain ⟨co, l, o, job, k, out, _, hc, rfl, _⟩ := hx j hs
      exact (hI.sending co l o job k hc).2

theorem once_start (jobs : JobTable) : Once (start jobs) where
  locked := locked_start jobs
  kept := kept_start jobs
  settled j hu := absurd hu unanswered_nil
  sending co l o job k hc := by simp [start] at hc
  separated j := separated_nil

/-- One send of a job for each of its requeues, and one task at a time in the
critical section of an agent. -/
theorem no_duplicate_send (cfg : Config) (jobs : JobTable) {t : Server}
    (h : (machine cfg jobs).Run
      (fun s l => s.lockSafe l = true ∧ s.routesOwn l = true ∧ s.recorded l = true) (start jobs) t) :
    (∀ j, Separated (SentJob j) (RequeuedJob j) t.history) ∧
      ∀ co co' l l', (t.ctl co).bind Ctl.inside = some l → (t.ctl co').bind Ctl.inside = some l' →
        l.agentId = l'.agentId → co = co' := by
  have hI := h.invariant (I := Once)
    (fun s l t hI hP hs => once_step hI hP.1 hP.2.1 hP.2.2 (step_view hs)) (once_start jobs)
  exact ⟨hI.separated, fun co co' l l' hc hc' ha => hI.kept.unique hI.locked hc hc' ha⟩

/-- The connection is lost after the send, and the agent comes back. -/
theorem no_duplicate_send_reconnect : ∃ t, (machine .default .empty).Run
      (fun s l => s.lockSafe l = true ∧ s.routesOwn l = true ∧ s.recorded l = true) (start .empty) t ∧
    t.history.head? = some (.registered 1 "agent-1") ∧ .jobSent 0 "job_1" ∈ t.history ∧
    (∀ j, Separated (SentJob j) (RequeuedJob j) t.history) ∧
      ∀ co co' l l', (t.ctl co).bind Ctl.inside = some l → (t.ctl co').bind Ctl.inside = some l' →
        l.agentId = l'.agentId → co = co' := by
  have hexec : ((machine .default .empty).exec
      (fun s l => s.lockSafe l = true ∧ s.routesOwn l = true ∧ s.recorded l = true)
      [.connect, .frame 0 (some (.register "agent-1")), .run, .run,
        .submit 0 "job_1" "c1" (.alpine "agent-1" (by decide)), .run, .run, .sendReturned (.api 0) .sent,
        .drop 0, .handlerEnd 0, .connect, .frame 1 (some (.register "agent-1")), .run, .run] (start .empty)).any
      (fun t => decide (t.history.head? = some (.registered 1 "agent-1") ∧
        .jobSent 0 "job_1" ∈ t.history)) = true := by decide +kernel
  obtain ⟨t, hrun, hreg, hsent⟩ := Machine.exists_run _ _ hexec
  exact ⟨t, hrun, hreg, hsent, no_duplicate_send .default .empty hrun⟩

/-- The connection is lost during the send. Its handler throws the held lock
away, and the new registration sends the job a second time. -/
theorem no_duplicate_send_unrestricted_false :
    ∃ t, (machine .default .empty).Reachable t ∧
      ¬ Separated (SentJob "job_1") (RequeuedJob "job_1") t.history := by
  have hexec : ((machine .default .empty).exec (fun _ _ => True)
      [.connect, .frame 0 (some (.register "agent-1")), .run, .run,
        .submit 0 "job_1" "c1" (.alpine "agent-1" (by decide)), .run, .run, .drop 0, .handlerEnd 0,
        .connect, .frame 1 (some (.register "agent-1")), .run, .run, .sendReturned (.api 0) .sent,
        .sendReturned (.handler 1) .sent] (start .empty)).any
      (fun t => decide (t.history = [.jobSent 1 "job_1", .jobSent 0 "job_1", .jobWritten 1 "job_1",
        .registered 1 "agent-1", .jobWritten 0 "job_1", .registered 0 "agent-1"])) = true := by decide +kernel
  obtain ⟨t, hrun, hh⟩ := Machine.exists_run _ _ hexec
  refine ⟨t, hrun, fun hs => ?_⟩
  obtain ⟨z, hz, _⟩ := hs [] _ [] _ _ hh ⟨1, rfl⟩ ⟨0, rfl⟩
  cases hz

end Server

end JobSystem
