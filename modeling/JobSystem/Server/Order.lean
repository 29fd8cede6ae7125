import JobSystem.Server.Records

namespace JobSystem

open Lib

namespace Job

def Ahead (x y : Job) : Prop :=
  x.priority < y.priority ∨ (x.priority = y.priority ∧ x.createdAt ≤ y.createdAt)

/-- The texts of the creation times are compared as the times are. -/
theorem ahead_iff {x y : Job} : x.Ahead y ↔
    toLex (x.priority, x.createdAt.isoformat) ≤ toLex (y.priority, y.createdAt.isoformat) := by
  rw [Prod.Lex.toLex_le_toLex, Ahead, Instant.isoformat_strictMono.le_iff_le]

end Job

section Selection

variable {σ : Type} (R : JobRepository σ)

def pendingOf (agentId : String) (s : σ) : List Job :=
  sorted (fun j => toLex (j.priority, j.createdAt.isoformat)) (JobService.list R (some agentId) (some .pending) s)

theorem Server.pendingJobs_eq : Server.pendingJobs = pendingOf sqliteJobRepository := rfl

def IsPending (agentId : String) (s : σ) (job : Job) : Prop :=
  R.get job.jobId s = some job ∧ job.agentId = agentId ∧ job.state = .pending

def IsNext (agentId : String) (s : σ) (job : Job) : Prop :=
  IsPending R agentId s job ∧ ∀ other, IsPending R agentId s other → job.Ahead other

/-- No job that `ops` submit is dispatched before `x`, a job of the same priority that is in the store
before them, as long as `earlier` relates the creation time of `x` to theirs. -/
def KeepsPlace (earlier : Instant → Instant → Prop) (ops : List Op) (s : σ) : Prop :=
  ∀ a x y z, a ≠ "" → R.get x.jobId s = some x → R.get z.jobId s = none →
    (∀ op ∈ ops, ∀ b ∈ op.created, earlier x.createdAt b.createdAt) →
    IsPending R a (run R ops s) y → y.jobId = x.jobId → IsPending R a (run R ops s) z →
    y.priority = z.priority → (pendingOf R a (run R ops s)).head? ≠ some z

variable {R}

theorem mem_pendingOf (hR : R.Lawful) {a : String} (ha : a ≠ "") {s : σ} {job : Job} :
    job ∈ pendingOf R a s ↔ IsPending R a s job := by
  have hm : job.matches (some a) (some .pending) = true ↔ job.agentId = a ∧ job.state = .pending := by
    simp [Job.matches, ha, eq_comm (a := a), eq_comm (a := JobState.pending)]
  rw [pendingOf, mem_sorted, JobService.list, hR.mem_list, hm, IsPending]

theorem pendingOf_head (hR : R.Lawful) {a : String} (ha : a ≠ "") {s : σ} {job : Job}
    (h : (pendingOf R a s).head? = some job) : IsNext R a s job := by
  refine ⟨(mem_pendingOf hR ha).mp (List.mem_of_head? h), fun other hother => ?_⟩
  have hmem : other ∈ JobService.list R (some a) (some .pending) s :=
    mem_sorted.mp ((mem_pendingOf hR ha).mpr hother)
  exact Job.ahead_iff.mpr (sorted_head_le h other hmem)

/-- A record keeps its place in the order whatever happens to it. -/
theorem run_place (hR : R.Lawful) {ops : List Op} {s : σ} (hadd : AllOnlyAdd R ops s) {j : String} {x : Job}
    (hx : R.get j s = some x) : ∃ y, R.get j (run R ops s) = some y ∧ y.createdAt = x.createdAt := by
  induction ops generalizing s x with
  | nil => exact ⟨x, hx, rfl⟩
  | cons op ops ih =>
      rcases after_refines hR hadd.1 j with h | ⟨-, h⟩ | ⟨h, -⟩
      · exact ih hadd.2 (h.trans hx)
      · obtain ⟨y, hy, hc⟩ := ih hadd.2 (h.trans (congrArg (Option.map op.effect) hx))
        exact ⟨y, hy, hc.trans (op.effect_createdAt x)⟩
      · cases h.symm.trans hx

theorem run_created (hR : R.Lawful) {ops : List Op} {s : σ} (hadd : AllOnlyAdd R ops s) {k : String} {z : Job}
    (hk : R.get k s = none) (hz : R.get k (run R ops s) = some z) :
    ∃ op ∈ ops, ∃ b ∈ op.created, z.createdAt = b.createdAt := by
  induction ops generalizing s with
  | nil => cases hk.symm.trans hz
  | cons op ops ih =>
      have hskip : R.get k (after R op s) = none →
          ∃ op' ∈ op :: ops, ∃ b ∈ op'.created, z.createdAt = b.createdAt := by
        intro h
        obtain ⟨op', hop', hb⟩ := ih hadd.2 h hz
        exact ⟨op', List.mem_cons_of_mem _ hop', hb⟩
      rcases after_refines hR hadd.1 k with h | ⟨-, h⟩ | ⟨-, b, hb, -, h⟩
      · exact hskip (h.trans hk)
      · exact hskip (h.trans (by rw [hk]; rfl))
      · obtain ⟨y, hy, hc⟩ := run_place hR hadd.2 h
        cases hy.symm.trans hz
        exact ⟨op, List.mem_cons_self, b, hb, hc⟩

theorem run_earlier (hR : R.Lawful) {ops : List Op} {s : σ} (hadd : AllOnlyAdd R ops s)
    {earlier : Instant → Instant → Prop} {x y z : Job} (hx : R.get x.jobId s = some x)
    (hz : R.get z.jobId s = none) (hcreated : ∀ op ∈ ops, ∀ b ∈ op.created, earlier x.createdAt b.createdAt)
    (hy : R.get x.jobId (run R ops s) = some y) (hz' : R.get z.jobId (run R ops s) = some z) :
    earlier y.createdAt z.createdAt := by
  obtain ⟨y', hy', hyc⟩ := run_place hR hadd hx
  obtain rfl : y' = y := Option.some.inj (hy'.symm.trans hy)
  obtain ⟨op, hop, b, hb, hzc⟩ := run_created hR hadd hz hz'
  rw [hyc, hzc]
  exact hcreated op hop b hb

end Selection

theorem SQLiteJobRepository.keepsPlace (ops : List Op) (T : JobTable) :
    KeepsPlace sqliteJobRepository (· < ·) ops T := by
  intro a x y z ha hx hz hcreated hy hyx hpz hprio hhead
  have hlt : y.createdAt < z.createdAt :=
    run_earlier sqliteJobRepository_lawful (SQLiteJobRepository.allOnlyAdd ops T) hx hz hcreated
      (hyx ▸ hy.1) hpz.1
  rcases (pendingOf_head sqliteJobRepository_lawful ha hhead).2 y hy with hp | ⟨-, hle⟩
  · exact absurd hprio (ne_of_gt hp)
  · exact absurd hle (not_le.mpr hlt)

namespace InMemoryJobRepository

theorem keys_add (job : Job) (s : MemoryStore) : s.jobs.keys <+: (add job s).2.jobs.keys := by
  rw [add]
  split
  · exact Dict.keys_set _ _ _
  · split
    · exact List.prefix_rfl
    · exact Dict.keys_set _ _ _

theorem keys_transitionIf (t : Instant) (j : String) (e n : JobState) (s : MemoryStore) :
    s.jobs.keys <+: (transitionIf t j e n s).2.jobs.keys := by
  rw [transitionIf]
  split
  · exact List.prefix_rfl
  · split
    · exact List.prefix_rfl
    · exact Dict.keys_set _ _ _

theorem keys_completeIfRunning (t : Instant) (j : String) (n : JobState) (x : Int) (o e : PyStr)
    (err : Option PyStr) (s : MemoryStore) :
    s.jobs.keys <+: (completeIfRunning t j n x o e err s).2.jobs.keys := by
  rw [completeIfRunning]
  split
  · exact List.prefix_rfl
  · split
    · exact List.prefix_rfl
    · exact Dict.keys_set _ _ _

theorem keys_run (ops : List Op) (s : MemoryStore) :
    s.jobs.keys <+: (run inMemoryJobRepository ops s).jobs.keys := by
  induction ops generalizing s with
  | nil => exact List.prefix_rfl
  | cons op ops ih =>
      refine List.IsPrefix.trans ?_ (ih (after inMemoryJobRepository op s))
      refine after_invariant (I := fun t : MemoryStore => s.jobs.keys <+: t.jobs.keys) ?_ ?_ ?_ ?_ op
        List.prefix_rfl
      · intro job t r t' hI h
        obtain ⟨rfl, rfl⟩ := Prod.mk.inj (Except.ok.inj h)
        exact hI.trans (keys_add job t)
      · intro time job t r t' hI h
        obtain ⟨rfl, rfl⟩ := Prod.mk.inj (Except.ok.inj h)
        exact hI.trans (Dict.keys_set _ _ _)
      · intro time j e n t r t' hI h
        obtain ⟨rfl, rfl⟩ := Prod.mk.inj (Except.ok.inj h)
        exact hI.trans (keys_transitionIf time j e n t)
      · intro time j n x o e err t r t' hI h
        obtain ⟨rfl, rfl⟩ := Prod.mk.inj (Except.ok.inj h)
        exact hI.trans (keys_completeIfRunning time j n x o e err t)

/-- A job that is in the store before another is added comes before it in the dictionary. -/
theorem run_keys {ops : List Op} {s : MemoryStore} {j k : String} (hj : (get j s).isSome) (hk : get k s = none)
    (hk' : (get k (run inMemoryJobRepository ops s)).isSome) :
    [j, k].Sublist (run inMemoryJobRepository ops s).jobs.keys := by
  obtain ⟨new, hnew⟩ := keys_run ops s
  have hmem : k ∈ s.jobs.keys ++ new := hnew ▸ Dict.mem_keys.mpr hk'
  have hnot : k ∉ s.jobs.keys := by
    intro h
    have hsome := Dict.mem_keys.mp h
    rw [show s.jobs.get k = none from hk] at hsome
    cases hsome
  rw [← hnew]
  exact (List.singleton_sublist.mpr (Dict.mem_keys.mpr hj)).append
    (List.singleton_sublist.mpr ((List.mem_append.mp hmem).resolve_left hnot))

/-- Of two jobs with the same priority, the one that was added first goes first, unless it has the later
creation time. -/
theorem pendingOf_head_ne {a : String} (ha : a ≠ "") {s : MemoryStore} {x z : Job}
    (hx : IsPending inMemoryJobRepository a s x) (hz : IsPending inMemoryJobRepository a s z)
    (hprio : x.priority = z.priority) (hle : x.createdAt ≤ z.createdAt)
    (hsub : [x.jobId, z.jobId].Sublist s.jobs.keys) :
    (pendingOf inMemoryJobRepository a s).head? ≠ some z := by
  intro h
  have heq : x.createdAt = z.createdAt := by
    refine le_antisymm hle ?_
    rcases (pendingOf_head inMemoryJobRepository_lawful ha h).2 x hx with hlt | ⟨-, hle'⟩
    · exact absurd hprio (ne_of_gt hlt)
    · exact hle'
  -- the pair stands in this order in the dictionary, so in both sorted lists
  have hvalues : [x, z].Sublist s.jobs.values := by
    have hpair : [x.jobId, z.jobId].filterMap s.jobs.get = [x, z] := by
      have hx' : s.jobs.get x.jobId = some x := hx.1
      have hz' : s.jobs.get z.jobId = some z := hz.1
      simp [hx', hz']
    rw [Dict.values_eq, ← hpair]
    exact hsub.filterMap _
  have hnd : s.jobs.values.Nodup := by
    rw [Dict.values_eq]
    refine List.Nodup.filterMap ?_ s.jobs.nodup
    intro j k y hj hk
    rw [← s.keyed hj, ← s.keyed hk]
  have hlist : JobService.list inMemoryJobRepository (some a) (some .pending) s =
      sortedReverse (fun j => j.createdAt.isoformat)
        ((s.jobs.values.filter fun j => some a = some j.agentId).filter
          fun j => some .pending = some j.state) := by
    have ht : truthy (some a) = true := by simp [ha]
    change list (some a) (some .pending) s = _
    simp only [list, ht, if_true, Option.isSome_some]
  have hfilter : [x, z].Sublist ((s.jobs.values.filter fun j => some a = some j.agentId).filter
      fun j => some .pending = some j.state) := by
    have hsub' := (hvalues.filter fun j => some a = some j.agentId).filter fun j => some .pending = some j.state
    simpa [hx.2.1, hz.2.1, hx.2.2, hz.2.2] using hsub'
  refine sorted_head_first h ?_ ?_ (Job.ahead_iff.mp (.inr ⟨hprio, hle⟩))
  · rw [hlist]
    exact (sortedReverse_perm _ _).nodup_iff.mpr ((hnd.filter _).filter _)
  · rw [hlist]
    exact pair_sublist_sortedReverse (le_of_eq (by rw [heq])) hfilter

theorem keepsPlace {ops : List Op} {s : MemoryStore} (hfresh : FreshIds inMemoryJobRepository ops s) :
    KeepsPlace inMemoryJobRepository (· ≤ ·) ops s := by
  intro a x y z ha hx hz hcreated hy hyx hpz hprio
  have hle : y.createdAt ≤ z.createdAt := run_earlier inMemoryJobRepository_lawful
    (allOnlyAdd_of_fresh inMemoryJobRepository_lawful hfresh) hx hz hcreated (hyx ▸ hy.1) hpz.1
  refine pendingOf_head_ne ha hy hpz hprio hle ?_
  rw [hyx]
  exact run_keys (Option.isSome_iff_exists.mpr ⟨x, hx⟩) hz (Option.isSome_iff_exists.mpr ⟨z, hpz.1⟩)

end InMemoryJobRepository

namespace Server

variable {cfg : Config} {s : Server} {co : Coro} {l : LockRef} {k : Return} {o : ObjId}

/-- In the critical section of an idle agent `dispatch_pending` sends the head of its sorted list. -/
theorem step_critical (hl : s.loop = some co) (hc : s.ctl co = some (.locked l k))
    (ho : s.agents.get l.agentId = some o) (hidle : (s.agents.conns o).inFlight = 0)
    (hs : s.sockets (s.agents.conns o).ws = true) :
    ∃ s', step cfg .run s = some s' ∧
      match (pendingJobs l.agentId s.jobs).head? with
      | some job => s'.outbox = Function.update s.outbox (s.agents.conns o).ws
          (s.outbox (s.agents.conns o).ws ++ [jobMessage job])
      | none => s'.outbox = s.outbox := by
  refine ⟨s.critical co l k, by simp only [step, hl, hc, runPiece], ?_⟩
  have hfree : (s.agents.conns o).isIdle = true := by simp [AgentConnection.isIdle, hidle]
  simp only [critical, ho, hfree, hs, Bool.not_true, Bool.false_eq_true, if_false, if_true]
  cases hp : pendingJobs l.agentId s.jobs with
  | nil =>
      rw [leave_eq]
      rfl
  | cons job rest => rfl

end Server

/-- Dispatch order: `dispatch_pending` sends the pending job with the smallest priority number and, among
those, the earliest creation time, if there is a pending job. A job that is requeued, or waits, is not
overtaken by one of the same priority that is submitted later; in the in-memory repository not even by one
with the same creation time. -/
theorem dispatch_order :
    (∀ (cfg : Config) (s : Server) (co : Coro) (l : LockRef) (k : Return) (o : ObjId), s.loop = some co →
      s.ctl co = some (.locked l k) → l.agentId ≠ "" → s.agents.get l.agentId = some o →
      (s.agents.conns o).inFlight = 0 → s.sockets (s.agents.conns o).ws = true →
      ∃ s', Server.step cfg .run s = some s' ∧
        ((∃ job, IsNext sqliteJobRepository l.agentId s.jobs job ∧
          s'.outbox = Function.update s.outbox (s.agents.conns o).ws
            (s.outbox (s.agents.conns o).ws ++ [Server.jobMessage job])) ∨
        ((∀ job, ¬ IsPending sqliteJobRepository l.agentId s.jobs job) ∧ s'.outbox = s.outbox))) ∧
    (∀ (a : String) (s : MemoryStore) (job : Job), a ≠ "" → IsPending inMemoryJobRepository a s job →
      ∃ first, (pendingOf inMemoryJobRepository a s).head? = some first ∧
        IsNext inMemoryJobRepository a s first) ∧
    (∀ (ops : List Op) (T : JobTable), KeepsPlace sqliteJobRepository (· < ·) ops T) ∧
    ∀ (ops : List Op) (s : MemoryStore), FreshIds inMemoryJobRepository ops s →
      KeepsPlace inMemoryJobRepository (· ≤ ·) ops s := by
  refine ⟨?_, ?_, SQLiteJobRepository.keepsPlace, fun ops s => InMemoryJobRepository.keepsPlace⟩
  · intro cfg s co l k o hl hc ha ho hidle hs
    obtain ⟨s', hst, hout⟩ := Server.step_critical hl hc ho hidle hs
    refine ⟨s', hst, ?_⟩
    rw [Server.pendingJobs_eq] at hout
    cases hp : (pendingOf sqliteJobRepository l.agentId s.jobs).head? with
    | some job =>
        rw [hp] at hout
        exact .inl ⟨job, pendingOf_head sqliteJobRepository_lawful ha hp, hout⟩
    | none =>
        rw [hp] at hout
        refine .inr ⟨fun job hjob => ?_, hout⟩
        have hmem := (mem_pendingOf sqliteJobRepository_lawful ha).mpr hjob
        rw [List.head?_eq_none_iff.mp hp] at hmem
        cases hmem
  · intro a s job ha hjob
    have hmem := (mem_pendingOf inMemoryJobRepository_lawful ha).mpr hjob
    obtain ⟨first, hfirst⟩ := Option.isSome_iff_exists.mp
      (List.isSome_head?.mpr (List.ne_nil_of_mem hmem))
    exact ⟨first, hfirst, pendingOf_head inMemoryJobRepository_lawful ha hfirst⟩

def requeuedBehind : List Op :=
  [.markDispatchedWithAttempt .epoch .epoch "job_1", .requeue .epoch "job_1", submitAlpine "job_2"]

def inCritical : Server :=
  { Server.start (stored (submitAlpine "job_1") .empty) with
    sockets := fun _ => true
    agents := AgentRegistry.empty.register "agent-1" 0 .epoch
    ctl := Function.update (fun _ => none) (.handler 0) (some (.locked ⟨"agent-1", 0⟩ (.register 0 "agent-1")))
    loop := some (.handler 0) }

def alpineJob (jobId : String) : Job :=
  Request.toJob ⟨"agent-1", "alpine", ["true"], 1000, none, 0, none⟩ jobId "c0" .epoch .epoch

theorem dispatch_order_requeued :
    (∃ s', Server.step .default .run inCritical = some s' ∧
      ((∃ job, IsNext sqliteJobRepository "agent-1" inCritical.jobs job ∧
        s'.outbox = Function.update inCritical.outbox 0 (inCritical.outbox 0 ++ [Server.jobMessage job])) ∨
      ((∀ job, ¬ IsPending sqliteJobRepository "agent-1" inCritical.jobs job) ∧
        s'.outbox = inCritical.outbox))) ∧
    (pendingOf inMemoryJobRepository "agent-1" (run inMemoryJobRepository requeuedBehind
      (run inMemoryJobRepository [submitAlpine "job_1"] .empty))).head? ≠ some (alpineJob "job_2") := by
  refine ⟨dispatch_order.1 .default inCritical (.handler 0) ⟨"agent-1", 0⟩ (.register 0 "agent-1") 0 rfl rfl
    (by decide) rfl rfl rfl, ?_⟩
  refine dispatch_order.2.2.2 requeuedBehind _ (by decide) "agent-1" (alpineJob "job_1")
    ((Op.requeue .epoch "job_1").effect ((Op.markDispatchedWithAttempt .epoch .epoch "job_1").effect
      (alpineJob "job_1"))) (alpineJob "job_2") (by decide) rfl rfl ?_ ⟨rfl, rfl, rfl⟩ rfl ⟨rfl, rfl, rfl⟩ rfl
  intro op hop b hb
  rcases List.mem_cons.mp hop with rfl | hop
  · cases hb
  · rcases List.mem_cons.mp hop with rfl | hop
    · cases hb
    · obtain rfl := List.mem_singleton.mp hop
      cases hb
      exact le_rfl

end JobSystem
