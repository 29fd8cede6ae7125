import JobSystem.Server.View

namespace JobSystem

open Lib

abbrev record (jobId : String) (jobs : JobTable) : Option Job := sqliteJobRepository.get jobId jobs

theorem record_jobId {jobs : JobTable} {j : String} {job : Job} (h : record j jobs = some job) :
    job.jobId = j :=
  sqliteJobRepository_lawful.get_jobId h

theorem stored_cases (op : Op) (jobs : JobTable) (k : String) :
    record k (stored op jobs) = record k jobs ∨
      (op.target = some k ∧ record k (stored op jobs) = (record k jobs).map op.effect) ∨
      (record k jobs = none ∧ ∃ b ∈ op.created, b.jobId = k ∧ record k (stored op jobs) = some b) :=
  after_refines sqliteJobRepository_lawful (SQLiteJobRepository.onlyAdds op jobs) k

theorem stored_some (op : Op) {jobs : JobTable} {k : String} {a : Job} (h : record k jobs = some a) :
    record k (stored op jobs) = some a ∨
      (op.target = some k ∧ record k (stored op jobs) = some (op.effect a)) := by
  rcases stored_cases op jobs k with hk | ⟨ht, hk⟩ | ⟨hk, _⟩
  · exact .inl (hk.trans h)
  · exact .inr ⟨ht, by rw [hk, h]; rfl⟩
  · rw [h] at hk
    cases hk

theorem stored_effect {op : Op} {j : String} (ht : op.target = some j) {jobs : JobTable}
    (hok : (exec sqliteJobRepository op jobs).isOk) {a : Job} (ha : record j jobs = some a) :
    record j (stored op jobs) = some (op.effect a) := by
  obtain ⟨r, hex⟩ := Server.exec_of_isOk hok
  obtain ⟨_, hu⟩ := exec_spec sqliteJobRepository_lawful ht hex
  exact (hu.get_some ha).trans (by rw [if_pos rfl])

theorem mem_list {a : Option String} {q : Option JobState} {jobs : JobTable} {job : Job} :
    job ∈ JobService.list sqliteJobRepository a q jobs ↔
      record job.jobId jobs = some job ∧ job.matches a q := sqliteJobRepository_lawful.mem_list

theorem list_nodup (a : Option String) (q : Option JobState) (jobs : JobTable) :
    ((JobService.list sqliteJobRepository a q jobs).map (·.jobId)).Nodup := by
  have hperm : (JobService.list sqliteJobRepository a q jobs).Perm
      (jobs.rows.filter (SQLiteJobRepository.whereClause a q)) := SQLiteJobRepository.list_perm a q jobs
  exact (hperm.map _).nodup_iff.mpr ((List.filter_sublist.map _).nodup jobs.primary)

theorem mem_pendingJobs {a : String} {jobs : JobTable} {job : Job} :
    job ∈ Server.pendingJobs a jobs ↔
      record job.jobId jobs = some job ∧ job.state = .pending ∧ (a ≠ "" → job.agentId = a) := by
  rw [Server.pendingJobs, mem_sorted, mem_list]
  have hm :
      job.matches (some a) (some .pending) = true ↔
        (a = "" ∨ a = job.agentId) ∧ .pending = job.state := by
    simp [Job.matches]
  rw [hm]
  constructor
  · rintro ⟨hr, ha, hs⟩
    exact ⟨hr, hs.symm, fun hne => (ha.resolve_left hne).symm⟩
  · rintro ⟨hr, hs, ha⟩
    exact ⟨hr, or_iff_not_imp_left.mpr fun hne => (ha hne).symm, hs.symm⟩

namespace Server

def ready (a : String) (s : Server) : Bool :=
  (s.agents.get a).any fun o => (s.agents.conns o).isIdle && s.sockets (s.agents.conns o).ws

variable {cfg : Config} {s s' : Server} {label : Label}

theorem isDispatched_of {j : String} {a : Job} (ha : record j s.jobs = some a)
    (hd : a.state = .dispatched) : s.isDispatched j = true := by
  change (record j s.jobs).any _ = true
  simp [ha, hd]

theorem isOpen_of {j : String} {a : Job} (ha : record j s.jobs = some a)
    (ht : a.state.isTerminal = false) : s.isOpen j = true := by
  change (record j s.jobs).any _ = true
  simp [ha, ht]

theorem record_completion {t : Instant} {j : String} {x : Int} {o e : PyStr} {err : Option PyStr}
    {jobs : JobTable} {job : Job} (hx : bindableResult x o e err = true) (hj : record j jobs = some job) :
    record j (stored (completion t j x o e err) jobs) =
      some ((completion t j x o e err).effect job) := by
  refine stored_effect (completion_target t j x o e err) ?_ hj
  rw [exec_completion jobs hx]
  rfl

inductive Performs (cfg : Config) (s : Server) : Label → Op → Prop
  | started (c j t) : Performs cfg s (.frame c (some (.started j))) (.markRunning t j)
  | result (c j x o e err t) : Performs cfg s (.frame c (some (.result j x o e err))) (completion t j x o e err)
  | submitted (n id cid req t t') : Performs cfg s (.submit n id cid req) (.submit id cid t t' req.toRequest)
  | sent (co l o job k t t') (hc : s.ctl co = some (.sending l o job k)) :
      Performs cfg s (.sendReturned co .sent) (.markDispatchedWithAttempt t t' job.jobId)
  | staleFailed (now job rest t t') (error : String) (hl : s.loop = some .ackWatcher)
      (hc : s.ctl .ackWatcher = some (.scanAck now (job :: rest))) (ho : ackOverdue cfg now job = true)
      (hm : cfg.maxDispatchAttempts ≤ job.dispatchAttempts) :
      Performs cfg s .run (.failStaleDispatch t t' job.jobId error)
  | requeued (now job rest t) (hl : s.loop = some .ackWatcher)
      (hc : s.ctl .ackWatcher = some (.scanAck now (job :: rest))) (ho : ackOverdue cfg now job = true)
      (hm : job.dispatchAttempts < cfg.maxDispatchAttempts) : Performs cfg s .run (.requeue t job.jobId)
  | timedOut (l t j) : Performs cfg s l (.markTimedOut t j)
  | cancelled (l t j) : Performs cfg s l (.markCancelled t j)

theorem view_jobs (h : View cfg s label s') :
    s'.jobs = s.jobs ∨ ∃ op, s'.jobs = stored op s.jobs ∧ Performs cfg s label op := by
  cases h with
  | started c j => exact .inr ⟨_, rfl, .started c j _⟩
  | resultKept c b j x o e err | resultFreed c b j x o e err =>
      exact .inr ⟨_, rfl, .result c j x o e err _⟩
  | submitted n id cid req => exact .inr ⟨_, rfl, .submitted n id cid req _ _⟩
  | sent co l o job k _ _ hc => exact .inr ⟨_, rfl, .sent co l o job k _ _ hc⟩
  | staleFailed now job rest error _ hl hc ho hm =>
      exact .inr ⟨_, rfl, .staleFailed now job rest _ _ error hl hc ho hm⟩
  | requeued now job rest _ hl hc ho hm => exact .inr ⟨_, rfl, .requeued now job rest _ hl hc ho hm⟩
  | timedOut l co job => exact .inr ⟨_, rfl, .timedOut _ _ _⟩
  | cancelled l co job => exact .inr ⟨_, rfl, .cancelled _ _ _⟩
  | _ => exact .inl rfl

theorem performs_requeue {t : Instant} {j : String} (h : Performs cfg s label (.requeue t j)) :
    label = .run ∧ ∃ now job rest, s.loop = some .ackWatcher ∧
      s.ctl .ackWatcher = some (.scanAck now (job :: rest)) ∧
      ackOverdue cfg now job = true ∧ job.dispatchAttempts < cfg.maxDispatchAttempts ∧
        job.jobId = j := by
  generalize hop : Op.requeue t j = op at h
  cases h with
  | result _ k x o e err t' =>
      rcases completion_cases t' k x o e err with ⟨_, he⟩ | he <;> rw [he] at hop <;> cases hop
  | requeued now job rest _ hl hc ho hm =>
      cases hop
      exact ⟨rfl, now, job, rest, hl, hc, ho, hm, rfl⟩
  | _ => cases hop

theorem view_record (h : View cfg s label s') {j : String} {a : Job} (ha : record j s.jobs = some a) :
    record j s'.jobs = some a ∨
      ∃ op, op.target = some j ∧ Performs cfg s label op ∧ record j s'.jobs = some (op.effect a) := by
  rcases view_jobs h with hj | ⟨op, hj, hp⟩
  · exact .inl (by rw [hj, ha])
  · rw [hj]
    rcases stored_some op ha with hk | ⟨ht, hk⟩
    · exact .inl hk
    · exact .inr ⟨op, ht, hp, hk⟩

theorem view_terminal (h : View cfg s label s') {j : String} {a : Job} (ha : record j s.jobs = some a)
    (ht : a.state.isTerminal = true) : record j s'.jobs = some a := by
  rcases view_record h ha with hk | ⟨op, -, -, hk⟩
  · exact hk
  · rw [hk, op.effect_terminal ht]

/-- No step removes a record or hands it to another agent. -/
theorem view_agentId (h : View cfg s label s') {k : String} {a : Job} (hk : record k s.jobs = some a) :
    ∃ b, record k s'.jobs = some b ∧ b.agentId = a.agentId := by
  rcases view_record h hk with hb | ⟨op, _, _, hb⟩
  · exact ⟨a, hb, rfl⟩
  · exact ⟨_, hb, op.effect_agentId a⟩

theorem view_history (h : View cfg s label s') {x : Obs} (hx : x ∈ s.history) : x ∈ s'.history := by
  cases h <;> first | exact hx | exact List.mem_cons_of_mem _ hx | skip
  all_goals
    dsimp only
    split
    · exact List.mem_cons_of_mem _ hx
    · exact hx

end Server

end JobSystem
