import JobSystem.System.Execution

namespace JobSystem

open Lib

theorem Op.effect_running {op : Op} {job : Job} (h : (op.effect job).state = .running)
    (hne : job.state ≠ .running) : job.state = .dispatched ∧ ∃ t j, op = .markRunning t j := by
  rw [effect_state] at h
  generalize job.state = a at h hne ⊢
  cases op <;> cases a <;> first | exact absurd rfl hne | cases h
  exact ⟨rfl, _, _, rfl⟩

namespace Server

variable {cfg : Config} {s s' : Server} {label : Label} {j : String}

theorem performs_markRunning {t : Instant} (h : Performs cfg s label (.markRunning t j)) :
    ∃ c, label = .frame c (some (.started j)) := by
  generalize hop : Op.markRunning t j = op at h
  cases h with
  | result _ k x o e err t' =>
      rcases completion_cases t' k x o e err with ⟨_, he⟩ | he <;> rw [he] at hop <;> cases hop
  | started c => cases hop; exact ⟨c, rfl⟩
  | _ => cases hop

theorem view_not_running (h : View cfg s label s') {a : Job} (ha : record j s.jobs = some a)
    (hne : a.state ≠ .running) (hl : ∀ c, label ≠ .frame c (some (.started j))) :
    ∃ b, record j s'.jobs = some b ∧ b.state ≠ .running := by
  rcases view_record h ha with hb | ⟨op, ht, hop, hb⟩
  · exact ⟨a, hb, hne⟩
  · refine ⟨_, hb, fun hr => ?_⟩
    obtain ⟨_, t, k, rfl⟩ := Op.effect_running hr hne
    obtain rfl : k = j := Option.some.inj ht
    obtain ⟨c, rfl⟩ := performs_markRunning hop
    exact hl c rfl

theorem view_started {c : ConnId} (h : View cfg s (.frame c (some (.started j))) s') :
    (s.handlers c).isSome ∧ s'.jobs = stored (.markRunning s.clock j) s.jobs := by
  cases h with
  | quiet _ _ _ hq => cases hq
  | started _ _ _ _ hb => exact ⟨hb, rfl⟩
  | timedOut _ _ _ _ _ _ _ _ hc | cancelled _ _ _ _ _ _ _ _ hc => rcases hc with ⟨⟨⟩, _⟩ | ⟨_, ⟨⟩, _⟩

end Server

namespace System

variable {cfg : Config} {agentId : String} {s s' : System} {label : SystemLabel}

def announcements (j : String) (s : System) : Nat :=
  Agent.unannounced (fun c => (s.server.handlers c).isSome) j s.agent.main s.agent.wire

def tokens (j : String) (s : System) : Nat :=
  Agent.unread s.server.outbox j s.agent.main s.agent.read + announcements j s

/-- The agent reads the message for a job only when its send has returned. -/
def readsSettled (agentId : String) (s : System) : SystemLabel → Bool
  | .agent .read =>
      match s.agent.main with
      | .listening c =>
          match (s.server.outbox c)[s.agent.read]? with
          | some (.job j _ _ _ _) => decide (s.server.sendingFor agentId ≠ some j)
          | _ => true
      | _ => true
  | _ => true

/-- A message for a job finds its record out of `PENDING`, and an announcement
of its container takes effect, unless the job is over by then. -/
def WriteFirst (s : System) (label : SystemLabel) (s' : System) : Prop :=
  match label with
  | .agent .read => ∀ c j cid image command timeoutMs, s.agent.main = .listening c →
      (s.server.outbox c)[s.agent.read]? = some (.job j cid image command timeoutMs) →
      ∃ job, record j s.server.jobs = some job ∧ job.state ≠ .pending
  | .deliver c => ∀ j wire, s.agent.wire.receive c = some (.started j, wire) →
      ∃ job, record j s.server.jobs = some job ∧
        (job.state.isTerminal = true ∨ (job.state = .dispatched ∧
          (record j s'.server.jobs).map (·.state) = some .running))
  | _ => True

theorem announcements_server (hP : Paired agentId s) {l : Label} {t : Server}
    (hv : Server.View cfg s.server l t) (j : String) {wire : Channel ConnId AgentFrame}
    (hw : ∀ e ∈ wire, e ∈ s.agent.wire) (x : AgentCtl) :
    Agent.unannounced (fun c => (t.handlers c).isSome) j x wire ≤
      Agent.unannounced (fun c => (s.server.handlers c).isSome) j x wire := by
  refine Nat.add_le_add_left (List.countP_mono_left fun e he hp => ?_) _
  obtain ⟨c, f⟩ := e
  simp only [Bool.and_eq_true] at hp ⊢
  cases f with
  | started k => exact ⟨hp.1, hP.opened.handlers_old hv (hP.told c k (hw _ he)) hp.2⟩
  | _ => cases hp.1

theorem announcements_deliver {c : ConnId} {f : AgentFrame} {wire : Channel ConnId AgentFrame}
    {j : String} (hr : s.agent.wire.receive c = some (f, wire)) (alive : ConnId → Bool)
    (x : AgentCtl) :
    Agent.unannounced alive j x s.agent.wire =
      Agent.unannounced alive j x wire + if f.isStarted j && alive c then 1 else 0 := by
  rw [Agent.unannounced, Agent.unannounced, Channel.countP_receive hr]
  exact (Nat.add_assoc _ _ _).symm

theorem announcements_connect (hP : Paired agentId s) {t : Server} (hv : Server.View cfg s.server .connect t)
    (j : String) (c : ConnId) :
    Agent.unannounced (fun c => (t.handlers c).isSome) j (.registering c) s.agent.wire ≤ announcements j s :=
  (Agent.unannounced_congr _ (.inl rfl) (.inl rfl) (Agent.adds_refl agentId _)).trans
    (announcements_server hP hv j (fun _ he => he) _)

theorem tokens_step (hP : Paired agentId s) (h : SystemView cfg agentId s label s') (j : String) :
    tokens j s' ≤ tokens j s ∨ (tokens j s' ≤ tokens j s + 1 ∧ s.server.Begins j s'.server) := by
  cases h with
  | server l t _ hv =>
      have hn := announcements_server hP hv j (fun _ he => he) s.agent.main
      unfold tokens announcements
      rcases Server.view_unread hv (j := j) s.agent.main s.agent.read with hu | ⟨hu, hb⟩
      · exact .inl (Nat.add_le_add hu hn)
      · refine .inr ⟨?_, hb⟩
        dsimp only
        omega
  | deliver c f wire t hr hv =>
      have hn := announcements_server hP hv j (fun _ he => Channel.receive_subset hr he) s.agent.main
      have hd := announcements_deliver (j := j) hr (fun c => (s.server.handlers c).isSome) s.agent.main
      unfold tokens announcements
      rcases Server.view_unread hv (j := j) s.agent.main s.agent.read with hu | ⟨hu, hb⟩
      · refine .inl ?_
        dsimp only
        omega
      · refine .inr ⟨?_, hb⟩
        dsimp only
        omega
  | connect t hm hv =>
      refine .inl (Nat.add_le_add ?_ (announcements_connect hP hv j _))
      rw [unread_connect hP hv j]
      exact Nat.zero_le _
  | agent l a hf =>
      obtain ⟨n, hu, hn, _⟩ := hf.announces (fun c => (s.server.handlers c).isSome) j
      refine .inl ?_
      unfold tokens announcements
      dsimp only
      omega

/-- A job that the agent is to announce has left `PENDING`, and one that it
knows of is not running. -/
structure Announced (agentId : String) (s : System) : Prop where
  tracked : Tracked agentId tokens s
  settled : ∀ j, announcements j s ≠ 0 → ∃ job, record j s.server.jobs = some job ∧ job.state ≠ .pending
  waiting : ∀ j, tokens j s ≠ 0 → ∃ job, record j s.server.jobs = some job ∧ job.state ≠ .running

theorem announcements_le (j : String) (s : System) : announcements j s ≤ tokens j s :=
  Nat.le_add_left _ _

theorem Announced.reads (hA : Announced agentId s)
    (hread : s.readsSettled agentId (.agent .read) = true) {c : ConnId} {j cid image : String}
    {command : List String} {timeoutMs : Int} (hm : s.agent.main = .listening c)
    (hf : (s.server.outbox c)[s.agent.read]? = some (.job j cid image command timeoutMs)) :
    ∃ job, record j s.server.jobs = some job ∧ job.state ≠ .pending := by
  have hr := Agent.unread_read (j := j) (x := .listening c) (y := s.agent.main) rfl (by rw [hm]; rfl) hf
  have htok : tokens j s ≠ 0 := by
    rw [tokens, ← hr]
    simp [ServerFrame.isJob]
  obtain ⟨job, hjob, hne | ⟨co, l, o, job', k, hc, rfl⟩⟩ := hA.tracked.known j htok
  · exact ⟨job, hjob, hne⟩
  · have hsend := Server.sendingFor_eq hA.tracked.paired.locked hA.tracked.paired.kept hc
    rw [hA.tracked.paired.sender co l o job' k hc] at hsend
    simp [readsSettled, hm, hf, hsend] at hread

theorem Announced.settled_step (hA : Announced agentId s)
    (hclean : s.returnsClean cfg tokens label = true) (hread : s.readsSettled agentId label = true)
    (h : SystemView cfg agentId s label s') {j : String} (hne : announcements j s' ≠ 0) :
    ∃ job, record j s'.server.jobs = some job ∧ job.state ≠ .pending := by
  have hP := hA.tracked.paired
  have hkeep :
      announcements j s ≠ 0 → ∃ job, record j s'.server.jobs = some job ∧ job.state ≠ .pending := by
    intro hold
    obtain ⟨job, hjob, hpend⟩ := hA.settled j hold
    rcases view_own h with he | ⟨l, hv, hl⟩
    · rw [he]
      exact ⟨job, hjob, hpend⟩
    · apply Server.view_not_pending hv hjob hpend
      rintro ⟨rfl, hreq⟩
      obtain rfl := hl rfl
      have hzero : tokens j s = 0 := by simpa [returnsClean, hreq] using hclean
      have hle := announcements_le j s
      omega
  cases h with
  | server l t _ hv =>
      have hn := announcements_server hP hv j (fun _ he => he) s.agent.main
      refine hkeep fun hzero => hne (Nat.le_zero.mp (hn.trans ?_))
      exact hzero.le
  | deliver c f wire t hr hv =>
      have hn := announcements_server hP hv j (fun _ he => Channel.receive_subset hr he) s.agent.main
      have hd := announcements_deliver (j := j) hr (fun c => (s.server.handlers c).isSome) s.agent.main
      refine hkeep fun hzero => hne ?_
      rw [announcements] at hzero ⊢
      dsimp only
      omega
  | connect t hm hv =>
      exact hkeep fun hzero => hne (Nat.le_zero.mp ((announcements_connect hP hv j _).trans hzero.le))
  | agent l a hf =>
      obtain ⟨n, _, hn, hmsg⟩ := hf.announces (fun c => (s.server.handlers c).isSome) j
      by_cases hzero : announcements j s = 0
      · have hn0 : n ≠ 0 := by
          rw [announcements] at hne hzero
          dsimp only at hne
          omega
        obtain ⟨rfl, c, cid, image, command, timeoutMs, hm, hf'⟩ := hmsg hn0
        exact hA.reads hread hm hf'
      · exact hkeep hzero

theorem Announced.last (hA : Announced agentId s) {c : ConnId} {j : String}
    {wire : Channel ConnId AgentFrame} {t : Server}
    (hr : s.agent.wire.receive c = some (.started j, wire))
    (hv : Server.View cfg s.server (.frame c (some (.started j))) t) :
    announcements j s ≠ 0 ∧ tokens j ⟨t, { s.agent with wire := wire }⟩ = 0 := by
  have halive := (Server.view_started hv).1
  have hn := announcements_server hA.tracked.paired hv j (fun _ he => Channel.receive_subset hr he) s.agent.main
  have hd := announcements_deliver (j := j) hr (fun c => (s.server.handlers c).isSome) s.agent.main
  have hone := hA.tracked.one j
  simp only [AgentFrame.isStarted, halive, decide_true, Bool.and_self, if_true] at hd
  have hpos : announcements j s ≠ 0 := by
    rw [announcements, hd]
    exact Nat.succ_ne_zero _
  refine ⟨hpos, ?_⟩
  rw [tokens, announcements] at hone ⊢
  rcases Server.view_unread hv (j := j) s.agent.main s.agent.read with hu | ⟨_, hb⟩
  · dsimp only
    omega
  · have hzero := hA.tracked.begins hb
    have hle := announcements_le j s
    omega

theorem Announced.waiting_step (hA : Announced agentId s) (h : SystemView cfg agentId s label s')
    {j : String} (hne : tokens j s' ≠ 0) :
    ∃ job, record j s'.server.jobs = some job ∧ job.state ≠ .running := by
  rcases tokens_step hA.tracked.paired h j with hle | ⟨_, co, l, o, job, k, _, _, hp, rfl, hjobs, _⟩
  · obtain ⟨job, hjob, hrun⟩ := hA.waiting j (by omega)
    cases h with
    | server l t ho hv => exact Server.view_not_running hv hjob hrun (by rintro c rfl; cases ho)
    | connect t _ hv => exact Server.view_not_running hv hjob hrun (by rintro c ⟨⟩)
    | agent => exact ⟨job, hjob, hrun⟩
    | deliver c f wire t hr hv =>
        by_cases hf : f = .started j
        · subst f
          exact absurd (hA.last hr hv).2 hne
        · refine Server.view_not_running hv hjob hrun fun c' he => ?_
          cases he
          exact hf rfl
  · obtain ⟨hjob, hpend, _⟩ := Server.pending_head hp
    exact ⟨job, by rw [hjobs]; exact hjob, by rw [hpend]; decide⟩

theorem announced_step (hA : Announced agentId s) (hsafe : s.lockSafe label = true)
    (hclean : s.returnsClean cfg tokens label = true) (hread : s.readsSettled agentId label = true)
    (h : SystemView cfg agentId s label s') : Announced agentId s' where
  tracked := tracked_step hA.tracked hsafe hclean h (tokens_step hA.tracked.paired h)
  settled _ hne := hA.settled_step hclean hread h hne
  waiting _ hne := hA.waiting_step h hne

theorem announced_start (agentId : String) (jobs : JobTable) : Announced agentId (start jobs) where
  tracked := ⟨paired_start agentId jobs, fun _ => Nat.zero_le 1, fun _ hne => absurd rfl hne⟩
  settled _ hne := absurd rfl hne
  waiting _ hne := absurd rfl hne

/-- A `started` frame that is processed for a dispatched job makes it running. -/
theorem Announced.delivers (hA : Announced agentId s) {c : ConnId} {j : String}
    {wire : Channel ConnId AgentFrame} {t : Server}
    (hr : s.agent.wire.receive c = some (.started j, wire))
    (hv : Server.View cfg s.server (.frame c (some (.started j))) t) :
    ∃ job, record j s.server.jobs = some job ∧ (job.state.isTerminal = true ∨
      (job.state = .dispatched ∧ (record j t.jobs).map (·.state) = some .running)) := by
  have hpos := (hA.last hr hv).1
  obtain ⟨job, hjob, hpend⟩ := hA.settled j hpos
  obtain ⟨_, hjob', hrun⟩ := hA.waiting j (by have := announcements_le j s; omega)
  cases hjob.symm.trans hjob'
  refine ⟨job, hjob, ?_⟩
  cases hst : job.state with
  | pending => exact absurd hst hpend
  | running => exact absurd hst hrun
  | dispatched =>
      have hex := Server.transition_eq (.markRunning s.server.clock j) _ _ _ _ s.server.jobs rfl
      obtain ⟨_, hu⟩ := exec_spec sqliteJobRepository_lawful (j := j) rfl hex
      have hget := hu.get_some hjob
      rw [if_pos rfl] at hget
      rw [(Server.view_started hv).2]
      refine .inr ⟨rfl, ?_⟩
      rw [record, hget, Option.map_some, Op.effect, Job.transition_state, if_pos hst]
  | succeeded | failed | timedOut | cancelled => exact .inl rfl

/-- The record of a job is written before the agent reads its message, and the
announcement of its container is never lost on a pending record. -/
theorem write_before_act (cfg : Config) (agentId : String) (jobs : JobTable) {s s' : System}
    {label : SystemLabel}
    (h : (machine cfg agentId jobs).Run (fun s l => s.lockSafe l = true ∧
      s.returnsClean cfg tokens l = true ∧ s.readsSettled agentId l = true) (start jobs) s)
    (hread : s.readsSettled agentId label = true) (hs : step cfg agentId label s = some s') :
    WriteFirst s label s' := by
  have hA := h.invariant (I := Announced agentId)
    (fun s l t hI hP hs => announced_step hI hP.1 hP.2.1 hP.2.2 (step_view hs)) (announced_start agentId jobs)
  cases step_view hs with
  | server | connect => trivial
  | deliver c f wire t hr hv =>
      intro j wire' hframe
      cases hr.symm.trans hframe
      exact hA.delivers hr hv
  | agent l a hf =>
      cases l with
      | read => exact fun c j cid image command timeoutMs hm hf => hA.reads hread hm hf
      | _ => trivial

theorem write_before_act_answer : ∃ s s' wire, (machine .default "agent-1" .empty).Run
      (fun s l => s.lockSafe l = true ∧ s.returnsClean .default tokens l = true ∧
        s.readsSettled "agent-1" l = true) (start .empty) s ∧
    s.agent.wire.receive 0 = some (.started "job_1", wire) ∧
      step .default "agent-1" (.deliver 0) s = some s' ∧
    WriteFirst s (.deliver 0) s' := by
  have hexec : ((machine .default "agent-1" .empty).exec
      (fun s l => s.lockSafe l = true ∧ s.returnsClean .default tokens l = true ∧ s.readsSettled "agent-1" l = true)
      (dispatched ++ [.agent .read, .agent .sent, .agent (.startReturned .started), .agent .sent, .deliver 0])
      (start .empty)).any
      (fun s => decide (s.agent.wire.receive 0 = some (.started "job_1", []) ∧
        (step .default "agent-1" (.deliver 0) s).isSome = true)) = true := by decide +kernel
  obtain ⟨s, hrun, hframe, hstep⟩ := Machine.exists_run _ _ hexec
  obtain ⟨s', hs⟩ := Option.isSome_iff_exists.mp hstep
  exact ⟨s, s', [], hrun, hframe, hs, write_before_act .default "agent-1" .empty hrun rfl hs⟩

/-- The agent answers while the send is still suspended. Its announcement finds
the record pending and is dropped. -/
theorem write_before_act_unrestricted_false : ∃ s s', (machine .default "agent-1" .empty).Reachable s ∧
    step .default "agent-1" (.deliver 0) s = some s' ∧
    (record "job_1" s.server.jobs).map (·.state) = some .pending ∧
    (record "job_1" s'.server.jobs).map (·.state) = some .pending ∧ ¬ WriteFirst s (.deliver 0) s' := by
  have hexec : ((machine .default "agent-1" .empty).exec (fun _ _ => True)
      (dispatched.dropLast ++ [.agent .read, .agent .sent, .agent (.startReturned .started), .agent .sent,
        .deliver 0]) (start .empty)).any
      (fun s => decide (s.agent.wire.receive 0 = some (.started "job_1", []) ∧
        (record "job_1" s.server.jobs).map (·.state) = some .pending ∧
        (step .default "agent-1" (.deliver 0) s).any fun s' =>
          decide ((record "job_1" s'.server.jobs).map (·.state) = some .pending))) = true := by decide +kernel
  obtain ⟨s, hrun, hframe, hst, hstep⟩ := Machine.exists_run _ _ hexec
  obtain ⟨s', hs, hst'⟩ := (Option.any_eq_true _ _).mp hstep
  refine ⟨s, s', hrun, hs, hst, of_decide_eq_true hst', fun hw => ?_⟩
  obtain ⟨job, hjob, hor⟩ := hw "job_1" [] hframe
  rw [hjob, Option.map_some] at hst
  rw [Option.some.inj hst] at hor
  rcases hor with hor | ⟨hor, _⟩ <;> cases hor

end System

end JobSystem
