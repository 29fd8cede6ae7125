import JobSystem.Server.Dispatch

namespace JobSystem

open Lib

theorem Op.effect_active {op : Op} {job : Job} (hd : ∀ t j, op ≠ .markDispatched t j)
    (hd' : ∀ t t' j, op ≠ .markDispatchedWithAttempt t t' j)
    (h : (op.effect job).state.isActive = true) : job.state.isActive = true := by
  rw [effect_state] at h
  generalize job.state = a at h ⊢
  cases op with
  | markDispatched t j => exact absurd rfl (hd t j)
  | markDispatchedWithAttempt t t' j => exact absurd rfl (hd' t t' j)
  | _ => cases a <;> first | rfl | cases h

def activeJobs (a : String) (jobs : JobTable) : List Job :=
  jobs.rows.filter fun job => decide (job.agentId = a) && job.state.isActive

theorem mem_activeJobs {a : String} {jobs : JobTable} {job : Job} :
    job ∈ activeJobs a jobs ↔
      record job.jobId jobs = some job ∧ job.agentId = a ∧ job.state.isActive = true := by
  have hrow : job ∈ jobs.rows ↔ record job.jobId jobs = some job :=
    ⟨Table.find_of_mem, fun h => (Table.find_mem h).1⟩
  simp [activeJobs, hrow]

def Occupies (jobs : JobTable) (k a : String) : Prop :=
  ∃ job, record k jobs = some job ∧ job.agentId = a ∧ job.state.isActive = true

theorem stored_occupies {op : Op} {jobs : JobTable} {k a : String} (hd : ∀ t j, op ≠ .markDispatched t j)
    (hd' : ∀ t t' j, op ≠ .markDispatchedWithAttempt t t' j) (h : Occupies (stored op jobs) k a) :
    Occupies jobs k a := by
  obtain ⟨b, hb, ha, hact⟩ := h
  rcases stored_cases op jobs k with hk | ⟨_, hk⟩ | ⟨_, c, hcr, _, hc⟩
  · exact ⟨b, hk ▸ hb, ha, hact⟩
  · rw [hk] at hb
    obtain ⟨job, hjob, rfl⟩ := Option.map_eq_some_iff.mp hb
    exact ⟨job, hjob, (op.effect_agentId job).symm.trans ha, Op.effect_active hd hd' hact⟩
  · rw [hc] at hb
    cases hb
    rw [Op.created_pending hcr] at hact
    cases hact

/-- Job ids are primary keys, so at most one job occupies an agent when any two
that do have the same id. -/
theorem single_iff {jobs : JobTable} :
    (∀ a, (activeJobs a jobs).length ≤ 1) ↔ ∀ a j k, Occupies jobs j a → Occupies jobs k a → j = k := by
  have hmem : ∀ {j a}, Occupies jobs j a → ∃ job ∈ activeJobs a jobs, job.jobId = j := by
    rintro j a ⟨job, hj, ha, hact⟩
    have hid := record_jobId hj
    exact ⟨job, mem_activeJobs.mpr ⟨by rw [hid]; exact hj, ha, hact⟩, hid⟩
  constructor
  · intro h a j k hj hk
    obtain ⟨x, hx, rfl⟩ := hmem hj
    obtain ⟨y, hy, rfl⟩ := hmem hk
    have hlen := h a
    cases hl : activeJobs a jobs with
    | nil => rw [hl] at hx; cases hx
    | cons z zs =>
        rw [hl, List.length_cons] at hlen
        obtain rfl : zs = [] := List.length_eq_zero_iff.mp (by omega)
        rw [hl, List.mem_singleton] at hx hy
        rw [hx, hy]
  · intro h a
    have hocc : ∀ job ∈ activeJobs a jobs, Occupies jobs job.jobId a := fun job hj =>
      ⟨job, mem_activeJobs.mp hj⟩
    have hnodup : ((activeJobs a jobs).map Job.jobId).Nodup :=
      jobs.primary.sublist (List.filter_sublist.map _)
    cases hl : activeJobs a jobs with
    | nil => exact Nat.zero_le 1
    | cons x xs =>
        cases xs with
        | nil => exact le_rfl
        | cons y ys =>
            rw [hl] at hocc hnodup
            have hxy := h a _ _ (hocc x List.mem_cons_self) (hocc y (by simp))
            simp [hxy] at hnodup

namespace Server

variable {cfg : Config} {s s' : Server} {label : Label}

theorem view_occupies (h : View cfg s label s') {k a : String} (ho : Occupies s'.jobs k a) :
    Occupies s.jobs k a ∨ Returned s label s' k := by
  have hobs := view_obs h
  cases h with
  | started | submitted | staleFailed | requeued | timedOut | cancelled =>
      exact .inl (stored_occupies (by rintro _ _ ⟨⟩) (by rintro _ _ _ ⟨⟩) ho)
  | resultKept c b j x o e err | resultFreed c b j x o e err =>
      rcases completion_cases s.clock j x o e err with ⟨_, h⟩ | h <;> dsimp only at ho <;>
        rw [h] at ho <;>
        exact .inl (stored_occupies (by rintro _ _ ⟨⟩) (by rintro _ _ _ ⟨⟩) ho)
  | sent co l o job k' attempt hl hc hok =>
      obtain ⟨b, hb, ha, hact⟩ := ho
      rcases stored_cases (.markDispatchedWithAttempt s.clock s.clock job.jobId) s.jobs k with
        hk | ⟨ht, _⟩ | ⟨_, _, ⟨⟩, _⟩
      · exact .inl ⟨b, hk ▸ hb, ha, hact⟩
      · cases ht
        rcases hobs with he | ⟨x, he, hx⟩
        · exact absurd he (List.cons_ne_self _ _)
        · cases he
          exact .inr (hx _ ⟨_, rfl⟩)
  | _ => exact .inl ho

def notSending (a : String) (s : Server) : Bool :=
  (s.dispatchLocks.locks.get a).all fun l => (s.dispatchLocks.mutexes l).holder.isNone

/-- An agent registers only when no job occupies it and none is being sent to
it, and a result frees the slot of its connection only when no other job than
the one that it completes occupies the agent. -/
def keepsCount (s : Server) : Label → Bool
  | .frame _ (some (.register a)) => (activeJobs a s.jobs).isEmpty && s.notSending a
  | .frame c (some (.result j x o e err)) =>
      match s.handlers c with
      | some (some a) => decide (a = "") || !bindableResult x o e err ||
          (activeJobs a s.jobs).all fun job => decide (job.jobId = j) && decide (job.state = .running)
      | _ => true
  | _ => true

structure Capped (s : Server) : Prop where
  locked : Locked s.dispatchLocks s.ctl
  kept : Kept s.dispatchLocks s.ctl
  one : ∀ a j k, Occupies s.jobs j a → Occupies s.jobs k a → j = k
  idle : ∀ a o, s.agents.get a = some o → (s.agents.conns o).inFlight = 0 → ∀ j, ¬ Occupies s.jobs j a
  sending : ∀ co l o job k, s.ctl co = some (.sending l o job k) →
    (∃ a, record job.jobId s.jobs = some a ∧ a.agentId = l.agentId) ∧
      (∀ j, ¬ Occupies s.jobs j l.agentId) ∧ ∀ o', s.agents.get l.agentId = some o' → o' = o

theorem Capped.not_sending (hI : Capped s) {a : String} (hns : s.notSending a = true) {co : Coro}
    {l : LockRef} {o : ObjId} {job : Job} {k : Return} (hc : s.ctl co = some (.sending l o job k)) :
    l.agentId ≠ a := by
  rintro rfl
  have hin := sending_inside hc
  have hh := ((hI.locked l).holder_iff co).mpr hin
  simp [notSending, hI.kept co l (.inl hin), hh] at hns

theorem Capped.returned (hI : Capped s) (h : View cfg s label s') {j a : String}
    (hr : Returned s label s' j) (ho : Occupies s'.jobs j a) :
    ∃ co l o job k out, label = .sendReturned co out ∧
      s.ctl co = some (.sending l o job k) ∧ job.jobId = j ∧ (s'.ctl co).bind Ctl.inside = none ∧
      s'.agents = s.agents.markBusy o ∧ l.agentId = a := by
  obtain ⟨co, l, o, job, k, out, hlabel, hc, rfl, hout, hag, _⟩ := hr
  refine ⟨co, l, o, job, k, out, hlabel, hc, rfl, hout, hag, ?_⟩
  obtain ⟨⟨b, hb, hbl⟩, _⟩ := hI.sending co l o job k hc
  obtain ⟨b', hb', hba⟩ := view_agentId h hb
  obtain ⟨b'', hb'', ha, _⟩ := ho
  rw [hb'] at hb''
  cases hb''
  rw [← hbl, ← hba, ha]

theorem completed_not_active {t : Instant} {j : String} {x : Int} {o e : PyStr} {err : Option PyStr}
    {jobs : JobTable} {job : Job} (hx : bindableResult x o e err = true) (hj : record j jobs = some job)
    (hr : job.state = .running) {b : Job}
    (hb : record j (stored (completion t j x o e err) jobs) = some b) : b.state.isActive = false := by
  cases (record_completion hx hj).symm.trans hb
  rcases completion_cases t j x o e err with ⟨_, h⟩ | h <;> rw [h] <;>
    simp [Op.effect, Job.complete_state, hr, JobState.isActive]

theorem Capped.one_step (hI : Capped s) (h : View cfg s label s') {a j k : String}
    (hj : Occupies s'.jobs j a) (hk : Occupies s'.jobs k a) : j = k := by
  rcases view_occupies h hj with hj' | hj'
  · rcases view_occupies h hk with hk' | hk'
    · exact hI.one a j k hj' hk'
    · obtain ⟨co, l, o, job, _, _, _, hc, _, _, _, rfl⟩ := hI.returned h hk' hk
      exact absurd hj' ((hI.sending co l o job _ hc).2.1 j)
  · obtain ⟨co, l, o, job, _, out, hlabel, hc, rfl, _, _, rfl⟩ := hI.returned h hj' hj
    rcases view_occupies h hk with hk' | hk'
    · exact absurd hk' ((hI.sending co l o job _ hc).2.1 k)
    · obtain ⟨co', l', o', job', _, out', hlabel', hc', rfl, _⟩ := hI.returned h hk' hk
      cases hlabel.symm.trans hlabel'
      cases hc.symm.trans hc'
      rfl

theorem Capped.idle_step (hI : Capped s) (hcount : s.keepsCount label = true)
    (h : View cfg s label s') {a : String} {o : ObjId} (ho : s'.agents.get a = some o)
    (hidle : (s'.agents.conns o).inFlight = 0) (j : String) : ¬ Occupies s'.jobs j a := by
  intro hj
  rcases view_occupies h hj with hj' | hj'
  · have hmem : ∃ job ∈ activeJobs a s.jobs, job.jobId = j ∧ record j s.jobs = some job := by
      obtain ⟨job, hjob, ha, hact⟩ := hj'
      exact ⟨job, mem_activeJobs.mpr ⟨by rw [record_jobId hjob]; exact hjob, ha, hact⟩, record_jobId hjob, hjob⟩
    rcases view_idle h ho hidle with ⟨ho', hidle'⟩ | ⟨c, rfl⟩ | ⟨c, k, x, out, e, err, rfl, hb, hne, hx, hjobs⟩
    · exact hI.idle a o ho' hidle' j hj'
    · obtain ⟨job, hmem, _⟩ := hmem
      simp only [keepsCount, Bool.and_eq_true, List.isEmpty_iff] at hcount
      rw [hcount.1] at hmem
      cases hmem
    · obtain ⟨job, hmem, rfl, hjob⟩ := hmem
      simp only [keepsCount, hb, hne, hx, decide_false, Bool.not_true, Bool.or_self, Bool.false_or,
        List.all_eq_true, Bool.and_eq_true, decide_eq_true_eq] at hcount
      obtain ⟨rfl, hrun⟩ := hcount job hmem
      obtain ⟨b, hb', _, hbact⟩ := hj
      rw [hjobs] at hb'
      rw [completed_not_active hx hjob hrun hb'] at hbact
      cases hbact
  · obtain ⟨co, l, o', job, k, _, _, hc, _, _, hag, rfl⟩ := hI.returned h hj' hj
    rw [hag] at ho hidle
    obtain rfl := (hI.sending co l o' job k hc).2.2 o (by simpa using ho)
    rw [AgentRegistry.conns_markBusy, if_pos rfl] at hidle
    cases hidle

theorem Capped.sending_step (hI : Capped s) (hroute : s.routesOwn label = true)
    (hcount : s.keepsCount label = true) (h : View cfg s label s') {co : Coro} {l : LockRef}
    {o : ObjId} {job : Job} {k : Return} (hc : s'.ctl co = some (.sending l o job k)) :
    (∃ a, record job.jobId s'.jobs = some a ∧ a.agentId = l.agentId) ∧
      (∀ j, ¬ Occupies s'.jobs j l.agentId) ∧ ∀ o', s'.agents.get l.agentId = some o' → o' = o := by
  rcases view_sending h hc with hc' | hbegun
  · obtain ⟨⟨a, ha, hag⟩, hnone, hreg⟩ := hI.sending co l o job k hc'
    obtain ⟨b, hb, hbg⟩ := view_agentId h ha
    refine ⟨⟨b, hb, hbg.trans hag⟩, fun j hj => ?_, fun o' ho' => ?_⟩
    · rcases view_occupies h hj with hj' | hj'
      · exact hnone j hj'
      · obtain ⟨co', l', o', job', k', _, _, hc'', _, hout, _, hla⟩ := hI.returned h hj' hj
        obtain rfl := hI.kept.sender hI.locked hc' hc'' hla.symm
        rw [hc] at hout
        cases hout
    · rcases view_entry h ho' with ⟨ho'', _⟩ | ⟨c, rfl, _⟩
      · exact hreg o' ho''
      · simp only [keepsCount, Bool.and_eq_true] at hcount
        exact absurd rfl (hI.not_sending hcount.2 hc')
  · have hpend := pending_head hbegun.pending
    obtain ⟨b, hb, hbg⟩ := view_agentId h hpend.1
    refine ⟨⟨b, hb, hbg.trans (hbegun.agentId hroute)⟩, fun j hj => ?_, fun o' ho' => ?_⟩
    · rcases view_occupies h hj with hj' | ⟨_, _, _, _, _, _, he, _⟩
      · exact hI.idle _ o hbegun.entry hbegun.idle j hj'
      · rw [hbegun.label] at he
        cases he
    · rw [hbegun.agents] at ho'
      exact Option.some.inj (ho'.symm.trans hbegun.entry)

theorem capped_step (hI : Capped s) (hsafe : s.lockSafe label = true) (hroute : s.routesOwn label = true)
    (hcount : s.keepsCount label = true) (h : View cfg s label s') : Capped s' where
  locked := locked_step hI.locked h
  kept := kept_step hI.kept hI.locked hsafe h
  one _ _ _ hj hk := hI.one_step h hj hk
  idle _ _ ho hidle j := hI.idle_step hcount h ho hidle j
  sending _ _ _ _ _ hc := hI.sending_step hroute hcount h hc

theorem capped_start {jobs : JobTable} (h : ∀ a, (activeJobs a jobs).length ≤ 1) :
    Capped (start jobs) where
  locked := locked_start jobs
  kept := kept_start jobs
  one := single_iff.mp h
  idle a o ho := by simp [start, AgentRegistry.get, AgentRegistry.empty] at ho
  sending co l o job k hc := by simp [start] at hc

/-- Every agent has at most one job that is dispatched or running. -/
theorem in_flight_limit (cfg : Config) (jobs : JobTable) (hjobs : ∀ a, (activeJobs a jobs).length ≤ 1)
    {t : Server} (h : (machine cfg jobs).Run
      (fun s l => s.lockSafe l = true ∧ s.routesOwn l = true ∧ s.keepsCount l = true) (start jobs) t) :
    ∀ a, (activeJobs a t.jobs).length ≤ 1 := by
  have hI := h.invariant (I := Capped)
    (fun s l t hI hP hs => capped_step hI hP.1 hP.2.1 hP.2.2 (step_view hs)) (capped_start hjobs)
  exact single_iff.mpr hI.one

/-- The agent runs its job, loses the connection, reports on the next one, and
is sent its second job. -/
theorem in_flight_limit_reconnect : ∃ t, (machine .default .empty).Run
      (fun s l => s.lockSafe l = true ∧ s.routesOwn l = true ∧ s.keepsCount l = true) (start .empty) t ∧
    t.history.head? = some (.jobSent 1 "job_2") ∧ ∀ a, (activeJobs a t.jobs).length ≤ 1 := by
  have hexec : ((machine .default .empty).exec
      (fun s l => s.lockSafe l = true ∧ s.routesOwn l = true ∧ s.keepsCount l = true)
      [.connect, .frame 0 (some (.register "agent-1")), .run, .run,
        .submit 0 "job_1" "c1" (.alpine "agent-1" (by decide)), .run, .run, .sendReturned (.api 0) .sent,
        .frame 0 (some (.started "job_1")), .frame 0 (some (.result "job_1" 0 "" "" none)), .run, .run,
        .drop 0, .handlerEnd 0, .submit 0 "job_2" "c2" (.alpine "agent-1" (by decide)), .run, .run,
        .connect, .frame 1 (some (.register "agent-1")), .run, .run, .sendReturned (.handler 1) .sent]
      (start .empty)).any (fun t => decide (t.history.head? = some (.jobSent 1 "job_2"))) = true := by
    decide +kernel
  obtain ⟨t, hrun, hh⟩ := Machine.exists_run _ _ hexec
  exact ⟨t, hrun, hh, in_flight_limit .default .empty (fun a => Nat.zero_le 1) hrun⟩

/-- The agent reconnects while its job is running, and its new connection
counts from zero. -/
theorem in_flight_limit_unrestricted_false :
    ∃ t, (machine .default .empty).Reachable t ∧ (activeJobs "agent-1" t.jobs).length = 2 := by
  have hexec : ((machine .default .empty).exec (fun _ _ => True)
      [.connect, .frame 0 (some (.register "agent-1")), .run, .run,
        .submit 0 "job_1" "c1" (.alpine "agent-1" (by decide)), .run, .run, .sendReturned (.api 0) .sent,
        .frame 0 (some (.started "job_1")),
        .submit 0 "job_2" "c2" (.alpine "agent-1" (by decide)), .run, .run, .drop 0, .handlerEnd 0,
        .connect, .frame 1 (some (.register "agent-1")), .run, .run, .sendReturned (.handler 1) .sent]
      (start .empty)).any (fun t => decide ((activeJobs "agent-1" t.jobs).length = 2)) = true := by
    decide +kernel
  exact Machine.exists_run _ _ hexec

end Server

end JobSystem
