import JobSystem.System.Step

namespace JobSystem

open Lib

def AgentFrame.isStarted (j : String) : AgentFrame → Bool
  | .started k => k = j
  | _ => false

def atHand (j : String) (o : Option String) : Nat := if o = some j then 1 else 0

@[simp] theorem atHand_none (j : String) : atHand j none = 0 := rfl

@[simp] theorem atHand_some (j k : String) : atHand j (some k) = if k = j then 1 else 0 := by
  simp [atHand]

namespace Agent

variable {agentId : String} {inbox : ConnId → List ServerFrame} {label : AgentLabel} {a : Agent} {x : AgentCtl}
  {read : Nat} {started : List String} {wire : Channel ConnId AgentFrame} {j : String}

def unread (inbox : ConnId → List ServerFrame) (j : String) (x : AgentCtl) (read : Nat) : Nat :=
  match x.session with
  | none => 0
  | some c => ((inbox c).drop read).countP (·.isJob j)

theorem unread_congr {y : AgentCtl} (hs : x.session = none ∨ x.session = y.session) :
    unread inbox j x read ≤ unread inbox j y read := by
  rcases hs with hs | hs
  · rw [unread, hs]
    exact Nat.zero_le _
  · rw [unread, unread, hs]

theorem unread_read {c : ConnId} {f : ServerFrame} {y : AgentCtl} (hx : x.session = some c)
    (hy : y.session = some c) (hf : (inbox c)[read]? = some f) :
    unread inbox j x (read + 1) + (if f.isJob j then 1 else 0) = unread inbox j y read := by
  obtain ⟨hlt, hf⟩ := List.getElem?_eq_some_iff.mp hf
  rw [unread, unread, hx, hy]
  dsimp only
  rw [List.drop_eq_getElem_cons hlt, List.countP_cons, hf]

def unstarted (inbox : ConnId → List ServerFrame) (j : String) (x : AgentCtl) (read : Nat) : Nat :=
  unread inbox j x read + atHand j x.toStart

theorem unstarted_congr {y : AgentCtl} (hs : x.session = none ∨ x.session = y.session)
    (hx : x.toStart = none ∨ x.toStart = y.toStart) :
    unstarted inbox j x read ≤ unstarted inbox j y read := by
  apply Nat.add_le_add (unread_congr hs)
  rcases hx with hx | hx <;> rw [hx]
  exact Nat.zero_le _

theorem unstarted_took {c : ConnId} {k cid image : String} {command : List String} {timeoutMs : Int}
    (hm : a.main = .listening c) (hf : (inbox c)[read]? = some (.job k cid image command timeoutMs)) :
    unstarted inbox j (.acking c k image command) (read + 1) ≤ unstarted inbox j a.main read := by
  have hr := unread_read (j := j) (x := .acking c k image command) (y := a.main) rfl (by rw [hm]; rfl) hf
  rw [unstarted, unstarted, ← hr, hm]
  simp [AgentCtl.toStart, ServerFrame.isJob]

theorem countP_adds {w w' : Channel ConnId AgentFrame} (h : Adds agentId w w')
    (alive : ConnId → Bool) :
    w'.countP (fun e => e.2.isStarted j && alive e.1) =
      w.countP (fun e => e.2.isStarted j && alive e.1) := by
  rcases h with rfl | ⟨c, f, hf, rfl⟩
  · rfl
  · have hno : f.isStarted j = false := by cases f <;> first | rfl | cases hf
    simp [List.countP_append, hno]

theorem countP_started (w : Channel ConnId AgentFrame) (c : ConnId) (k : String)
    (alive : ConnId → Bool) :
    (w ++ [(c, AgentFrame.started k)]).countP (fun e => e.2.isStarted j && alive e.1) ≤
      w.countP (fun e => e.2.isStarted j && alive e.1) + if k = j then 1 else 0 := by
  rw [List.countP_append, List.countP_singleton]
  by_cases hk : k = j <;> simp [AgentFrame.isStarted, hk]
  split <;> omega

/-- A step turns messages into containers, one into one at most. -/
theorem Flow.starts (h : Flow agentId inbox label a x read started wire) :
    unstarted inbox j x read + started.count j ≤ unstarted inbox j a.main a.read + a.started.count j := by
  cases h with
  | same => exact le_rfl
  | moved _ _ hs hx => exact Nat.add_le_add_right (unstarted_congr (.inr hs) (.inl hx.1)) _
  | ended | endedAnnouncing => exact Nat.add_le_add_right (unstarted_congr (.inl rfl) (.inl rfl)) _
  | tookJob c k _ _ _ _ hm hf => exact Nat.add_le_add_right (unstarted_took hm hf) _
  | tookCancel c k _ _ hm hf hs hx =>
      have hr := unread_read (j := j) (y := a.main) hs (by rw [hm]; rfl) hf
      refine Nat.add_le_add_right ?_ _
      rw [unstarted, unstarted, ← hr, hx.1]
      simp [ServerFrame.isJob]
  | acked _ _ _ _ hm =>
      exact Nat.add_le_add_right (unstarted_congr (.inr (by rw [hm]; rfl)) (.inr (by rw [hm]; rfl))) _
  | announced _ _ _ hm =>
      exact Nat.add_le_add_right (unstarted_congr (.inr (by rw [hm]; rfl)) (.inl rfl)) _
  | failed _ _ _ _ _ hm hs hx =>
      refine Nat.add_le_add_right (unstarted_congr ?_ (.inl hx.1)) _
      exact hs.symm.imp_right fun hs => by rw [hs, hm]; rfl
  | begun c k image command id hm =>
      have hu : unread inbox j (.announcing c k id) a.read ≤ unread inbox j a.main a.read :=
        unread_congr (.inr (by rw [hm]; rfl))
      rw [unstarted, unstarted, List.count_cons, hm]
      rw [hm] at hu
      simp only [AgentCtl.toStart, atHand_none, atHand_some, beq_iff_eq]
      omega
  | leftRunning c k image command x hm hs hx =>
      have hu : unread inbox j x a.read ≤ unread inbox j a.main a.read :=
        unread_congr (hs.symm.imp_right fun hs => by rw [hs, hm]; rfl)
      rw [unstarted, unstarted, List.count_cons, hx.1, hm]
      rw [hm] at hu
      simp only [AgentCtl.toStart, atHand_none, atHand_some, beq_iff_eq]
      omega

/-- The announcements of job `j` that are still to be made or on their way to a live handler. -/
def unannounced (alive : ConnId → Bool) (j : String) (x : AgentCtl)
    (wire : Channel ConnId AgentFrame) : Nat :=
  atHand j x.toStart + atHand j x.toAnnounce + wire.countP (fun e => e.2.isStarted j && alive e.1)

theorem unannounced_congr {y : AgentCtl} {w w' : Channel ConnId AgentFrame} (alive : ConnId → Bool)
    (hx : x.toStart = none ∨ x.toStart = y.toStart)
    (hx' : x.toAnnounce = none ∨ x.toAnnounce = y.toAnnounce) (hw : Adds agentId w w') :
    unannounced alive j x w' ≤ unannounced alive j y w := by
  rw [unannounced, unannounced, countP_adds hw]
  refine Nat.add_le_add_right (Nat.add_le_add ?_ ?_) _
  · rcases hx with hx | hx <;> rw [hx]
    exact Nat.zero_le _
  · rcases hx' with hx | hx <;> rw [hx]
    exact Nat.zero_le _

/-- A step turns messages into announcements, one into one at most: `n` is the
number of messages for job `j` that it reads. -/
theorem Flow.announces (h : Flow agentId inbox label a x read started wire) (alive : ConnId → Bool)
    (j : String) :
    ∃ n, unread inbox j x read + n ≤ unread inbox j a.main a.read ∧
      unannounced alive j x wire ≤ unannounced alive j a.main a.wire + n ∧
      (n ≠ 0 → label = .read ∧ ∃ c cid image command timeoutMs, a.main = .listening c ∧
        (inbox c)[a.read]? = some (.job j cid image command timeoutMs)) := by
  have hquiet : unread inbox j x read ≤ unread inbox j a.main a.read →
      unannounced alive j x wire ≤ unannounced alive j a.main a.wire →
      ∃ n, unread inbox j x read + n ≤ unread inbox j a.main a.read ∧
        unannounced alive j x wire ≤ unannounced alive j a.main a.wire + n ∧
        (n ≠ 0 → label = .read ∧ ∃ c cid image command timeoutMs, a.main = .listening c ∧
          (inbox c)[a.read]? = some (.job j cid image command timeoutMs)) :=
    fun hu hn => ⟨0, hu, hn, fun h => absurd rfl h⟩
  cases h with
  | same _ hw => exact hquiet le_rfl (unannounced_congr alive (.inr rfl) (.inr rfl) hw)
  | moved _ _ hs hx _ hw =>
      exact hquiet (unread_congr (.inr hs)) (unannounced_congr alive (.inl hx.1) (.inl hx.2) hw)
  | ended _ hw =>
      exact hquiet (unread_congr (.inl rfl)) (unannounced_congr alive (.inl rfl) (.inl rfl) hw)
  | endedAnnouncing c k id hm =>
      have hw := countP_started (j := j) a.wire c k alive
      apply hquiet (unread_congr (.inl rfl))
      rw [unannounced, unannounced, hm]
      simp only [AgentCtl.toStart, AgentCtl.toAnnounce, atHand_none, atHand_some]
      omega
  | announced c k id hm =>
      have hw := countP_started (j := j) a.wire c k alive
      apply hquiet (unread_congr (.inr (by rw [hm]; rfl)))
      rw [unannounced, unannounced, hm]
      simp only [AgentCtl.toStart, AgentCtl.toAnnounce, atHand_none, atHand_some]
      omega
  | tookJob c k cid image command timeoutMs hm hf hl =>
      have hr :=
        unread_read (j := j) (x := .acking c k image command) (y := a.main) rfl (by rw [hm]; rfl) hf
      refine ⟨if k = j then 1 else 0, ?_, ?_, fun hn => ?_⟩
      · rw [← hr]
        simp [ServerFrame.isJob]
      · rw [unannounced, unannounced, hm]
        simp only [AgentCtl.toStart, AgentCtl.toAnnounce, atHand_none, atHand_some]
        omega
      · obtain rfl : k = j := by
          by_contra hk
          exact hn (if_neg hk)
        exact ⟨hl, c, cid, image, command, timeoutMs, hm, hf⟩
  | tookCancel c k _ _ hm hf hs hx =>
      have hr := unread_read (j := j) (y := a.main) hs (by rw [hm]; rfl) hf
      exact hquiet (by omega) (unannounced_congr alive (.inl hx.1) (.inl hx.2) (adds_refl agentId _))
  | acked c k _ _ hm =>
      have hplain : Adds agentId a.wire (a.wire ++ [(c, .ack k)]) := .inr ⟨c, _, rfl, rfl⟩
      exact hquiet (unread_congr (.inr (by rw [hm]; rfl)))
        (unannounced_congr alive (.inr (by rw [hm]; rfl)) (.inl rfl) hplain)
  | failed _ _ _ _ _ hm hs hx | leftRunning _ _ _ _ _ hm hs hx =>
      exact hquiet (unread_congr (hs.symm.imp_right fun hs => by rw [hs, hm]; rfl))
        (unannounced_congr alive (.inl hx.1) (.inl hx.2) (adds_refl agentId _))
  | begun c k image command id hm =>
      apply hquiet (unread_congr (.inr (by rw [hm]; rfl)))
      rw [unannounced, unannounced, hm]
      simp only [AgentCtl.toStart, AgentCtl.toAnnounce, atHand_none, atHand_some]
      omega

end Agent

namespace Server

variable {cfg : Config} {s s' : Server} {label : Label} {j : String}

def Sending (j : String) (s : Server) : Prop :=
  ∃ co l o job k, s.ctl co = some (.sending l o job k) ∧ job.jobId = j

def Begins (j : String) (s s' : Server) : Prop :=
  ∃ co l o job k, s.ctl co = some (.locked l k) ∧ s.agents.get l.agentId = some o ∧
    (pendingJobs l.agentId s.jobs).head? = some job ∧ job.jobId = j ∧ s'.jobs = s.jobs ∧
      s'.ctl co = some (.sending l o job k)

/-- The job whose requeue takes effect in the next piece of the `AckWatcher`. -/
def requeues (cfg : Config) (s : Server) : Option String :=
  match s.loop.bind s.ctl with
  | some (.scanAck now (job :: _)) =>
      if ackOverdue cfg now job && decide (job.dispatchAttempts < cfg.maxDispatchAttempts) &&
        s.isDispatched job.jobId then some job.jobId else none
  | _ => none

theorem view_written (h : View cfg s label s') (c : ConnId) :
    s'.outbox c = s.outbox c ∨
      ∃ f, s'.outbox c = s.outbox c ++ [f] ∧ (f.isJob j = true → Begins j s s') := by
  rcases view_outbox h c with he | ⟨a, o, f, he, _, _, hwhy⟩
  · exact .inl he
  · refine .inr ⟨f, he, fun hj => ?_⟩
    rcases hwhy with ⟨k, reason, rfl⟩ | ⟨co, l, job, k, rfl, _, hb⟩
    · cases hj
    · exact ⟨co, l, o, job, k, hb.locked, hb.entry, hb.pending, of_decide_eq_true hj, hb.jobs, hb.sending⟩

theorem view_unread (h : View cfg s label s') (x : AgentCtl) (read : Nat) :
    Agent.unread s'.outbox j x read ≤ Agent.unread s.outbox j x read ∨
      (Agent.unread s'.outbox j x read ≤ Agent.unread s.outbox j x read + 1 ∧ Begins j s s') := by
  unfold Agent.unread
  cases x.session with
  | none => exact .inl le_rfl
  | some c =>
      dsimp only
      rcases view_written h c (j := j) with he | ⟨f, he, hf⟩
      · exact .inl (by rw [he])
      · rw [he, List.drop_append, List.countP_append]
        have hone : ((([f] : List ServerFrame).drop (read - (s.outbox c).length)).countP (·.isJob j)) ≤
            if f.isJob j then 1 else 0 := by
          apply ((List.drop_sublist _ _).countP_le).trans
          rw [List.countP_singleton]
        cases hj : f.isJob j with
        | false =>
            rw [hj] at hone
            exact .inl (by simpa using hone)
        | true =>
            rw [hj] at hone
            exact .inr ⟨Nat.add_le_add_left hone _, hf hj⟩

theorem view_not_pending (h : View cfg s label s') {a : Job} (ha : record j s.jobs = some a)
    (hne : a.state ≠ .pending) (hreq : ¬ (label = .run ∧ s.requeues cfg = some j)) :
    ∃ b, record j s'.jobs = some b ∧ b.state ≠ .pending := by
  rcases view_record h ha with hb | ⟨op, ht, hop, hb⟩
  · exact ⟨a, hb, hne⟩
  · refine ⟨_, hb, fun hp => hreq ?_⟩
    obtain ⟨hd, t, k, rfl⟩ := Op.effect_pending hp hne
    obtain ⟨rfl, now, job, rest, hl, hc, ho, hm, rfl⟩ := performs_requeue hop
    obtain rfl : job.jobId = j := Option.some.inj ht
    exact ⟨rfl, by simp [requeues, hl, hc, ho, hm, isDispatched_of ha hd]⟩

end Server

namespace System

variable {cfg : Config} {agentId : String} {s s' : System} {label : SystemLabel} {m : String → System → Nat}

/-- The server puts a job back into `PENDING`, or leaves it there after its
send, only when the agent has nothing of it: `m` counts what the agent has. -/
def returnsClean (cfg : Config) (m : String → System → Nat) (s : System) : SystemLabel → Bool
  | .server .run => (s.server.requeues cfg).all fun j => m j s = 0
  | .server (.sendReturned co out) =>
      match s.server.ctl co with
      | some (.sending _ _ job _) => s.server.marks co out || decide (m job.jobId s = 0)
      | _ => true
  | _ => true

/-- The agent has at most one of each job, and then the record of the job is
not pending, but for a send that has not returned. -/
structure Tracked (agentId : String) (m : String → System → Nat) (s : System) : Prop where
  paired : Paired agentId s
  one : ∀ j, m j s ≤ 1
  known : ∀ j, m j s ≠ 0 →
    ∃ job, record j s.server.jobs = some job ∧ (job.state ≠ .pending ∨ s.server.Sending j)

/-- A job that is about to be sent is not being sent, and the agent has nothing of it. -/
theorem Tracked.begins (hT : Tracked agentId m s) {t : Server} {j : String} (hb : s.server.Begins j t) :
    m j s = 0 := by
  by_contra hne
  obtain ⟨co, l, o, job, k, hc, ho, hp, rfl, _, _⟩ := hb
  obtain ⟨hrec, hpend, _⟩ := Server.pending_head hp
  obtain ⟨a, ha, hor⟩ := hT.known _ hne
  rw [hrec] at ha
  cases ha
  rcases hor with hor | ⟨co', l', o', job', k', hc', _⟩
  · exact hor hpend
  · have hl : l.agentId = l'.agentId :=
      (hT.paired.own _ o ho).trans (hT.paired.sender co' l' o' job' k' hc').symm
    have hin : (s.server.ctl co).bind Ctl.inside = some l := by rw [hc]; rfl
    obtain rfl := hT.paired.kept.unique hT.paired.locked hin (sending_inside hc') hl
    rw [hc] at hc'
    cases hc'

theorem Tracked.known_step (hT : Tracked agentId m s) (hclean : s.returnsClean cfg m label = true)
    (h : SystemView cfg agentId s label s') {j : String} (hne : m j s ≠ 0) :
    ∃ job, record j s'.server.jobs = some job ∧ (job.state ≠ .pending ∨ s'.server.Sending j) := by
  obtain ⟨job, hjob, hor⟩ := hT.known j hne
  rcases view_own h with he | ⟨l, hv, hl⟩
  · rw [he]
    exact ⟨job, hjob, hor⟩
  · rcases hor with hor | ⟨co, lock, o, job', k, hc, rfl⟩
    · obtain ⟨b, hb, hbne⟩ := Server.view_not_pending hv hjob hor (by
        rintro ⟨rfl, hreq⟩
        obtain rfl := hl rfl
        simp [returnsClean, hreq, hne] at hclean)
      exact ⟨b, hb, .inl hbne⟩
    · rcases Server.view_sending_next hv hc with hc' | ⟨out, rfl, hmark⟩
      · obtain ⟨b, hb, _⟩ := Server.view_agentId hv hjob
        exact ⟨b, hb, .inr ⟨co, lock, o, job', k, hc', rfl⟩⟩
      · obtain rfl := hl rfl
        simp only [returnsClean, hc, Bool.or_eq_true, decide_eq_true_eq] at hclean
        obtain ⟨r, hex⟩ := hmark (hclean.resolve_right hne)
        obtain ⟨_, hu⟩ := JobService.markDispatchedWithAttempt_spec sqliteJobRepository_lawful hex
        refine ⟨_, hu.get_some hjob, .inl ?_⟩
        rw [if_pos rfl]
        exact Job.dispatch_not_pending _ _

theorem tracked_step (hT : Tracked agentId m s) (hsafe : s.lockSafe label = true)
    (hclean : s.returnsClean cfg m label = true) (h : SystemView cfg agentId s label s')
    (hm : ∀ j, m j s' ≤ m j s ∨ (m j s' ≤ m j s + 1 ∧ s.server.Begins j s'.server)) :
    Tracked agentId m s' where
  paired := paired_step hT.paired hsafe h
  one := by
    intro j
    rcases hm j with hle | ⟨hle, hb⟩
    · exact hle.trans (hT.one j)
    · rw [hT.begins hb] at hle
      exact hle
  known := by
    intro j hne
    rcases hm j with hle | ⟨_, co, l, o, job, k, _, _, hp, rfl, hjobs, hc⟩
    · exact hT.known_step hclean h (by omega)
    · exact ⟨job, by rw [hjobs]; exact (Server.pending_head hp).1, .inr ⟨co, l, o, job, k, hc, rfl⟩⟩

end System

end JobSystem
