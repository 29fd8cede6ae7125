import JobSystem.Server.Attempts
import JobSystem.Server.Stranded

namespace JobSystem

open Lib

abbrev Uncancelled (j : String) (frames : List ServerFrame) : Prop :=
  Unanswered (fun f => f.isJob j = true) (fun f => f.isCancel j = true) frames.reverse

theorem Op.next_stopped {op : Op} {q : JobState}
    (h : op.next q = .cancelled ∨ op.next q = .timedOut) (hc : ∀ t j, op ≠ .markCancelled t j)
    (ht : ∀ t j, op ≠ .markTimedOut t j) : q = .cancelled ∨ q = .timedOut := by
  cases op with
  | markCancelled t j => exact absurd rfl (hc t j)
  | markTimedOut t j => exact absurd rfl (ht t j)
  | _ => cases q <;> simp [Op.next] at h ⊢

namespace Server

def attached (c : ConnId) (s : Server) : Bool :=
  s.sockets c && s.agents.agents.values.any fun o => (s.agents.conns o).ws = c

/-- Job `j` was sent on connection `c` with no cancel after it, and no result of `j` was processed
since. -/
def holds (j : String) (c : ConnId) (s : Server) : Bool :=
  decide (Uncancelled j (s.outbox c)) && decide (Unreported c j s.history)

def cancelWritten (j : String) (s : Server) : Bool :=
  (List.range s.nextConn).any fun c => (s.outbox c).any (·.isCancel j)

def stopping (j : String) (s : Server) : Bool :=
  (record j s.jobs).any fun job => decide (job.state = .cancelled ∨ job.state = .timedOut) ||
    (!job.state.isTerminal && s.cancelWritten j)

/-- A job is not sent once a cancel of it has been. When a cancel of an open job is sent, no
connection holds the job but the one of its agent. A connection that holds a job that is being
stopped does not register. -/
def cancelsInOrder (s : Server) : Label → Bool
  | .frame c (some (.register _)) =>
      !s.sockets c || (s.outbox c).all fun f =>
        match f with
        | .job j _ _ _ _ => !(s.holds j c && s.stopping j)
        | .cancel _ _ => true
  | .run =>
      match s.loop.bind s.ctl with
      | some (.locked l _) =>
          !s.ready l.agentId || (pendingJobs l.agentId s.jobs).head?.all fun job => !s.cancelWritten job.jobId
      | some (.sendCancel job _) =>
          !s.isOpen job.jobId || (List.range s.nextConn).all fun c =>
            !(s.attached c && s.holds job.jobId c) ||
              (s.agents.get job.agentId).any fun o => (s.agents.conns o).ws = c
      | _ => true
  | _ => true

variable {cfg : Config} {s s' : Server} {label : Label}

theorem attached_iff {c : ConnId} : s.attached c = true ↔
    s.sockets c = true ∧ ∃ a o, s.agents.get a = some o ∧ (s.agents.conns o).ws = c := by
  simp only [attached, Bool.and_eq_true, List.any_eq_true, decide_eq_true_eq, Dict.mem_values,
    AgentRegistry.get]
  constructor
  · rintro ⟨hs, o, ⟨a, ha⟩, hc⟩
    exact ⟨hs, a, o, ha, hc⟩
  · rintro ⟨hs, a, o, ha, hc⟩
    exact ⟨hs, o, ⟨a, ha⟩, hc⟩

theorem holds_iff {j : String} {c : ConnId} :
    s.holds j c = true ↔ Uncancelled j (s.outbox c) ∧ Unreported c j s.history := by
  simp [holds]

theorem cancelWritten_iff {j : String} :
    s.cancelWritten j = true ↔ ∃ c, c < s.nextConn ∧ ∃ f ∈ s.outbox c, f.isCancel j = true := by
  simp [cancelWritten]

theorem stopping_iff {j : String} : s.stopping j = true ↔ ∃ a, record j s.jobs = some a ∧
    ((a.state = .cancelled ∨ a.state = .timedOut) ∨
      (a.state.isTerminal = false ∧ s.cancelWritten j = true)) := by
  simp [stopping, Option.any_eq_true]

/-- A connection comes to hold a job when a task begins to send it there. -/
theorem view_holds (h : View cfg s label s') {j : String} {c : ConnId} (hh : s'.holds j c = true) :
    s.holds j c = true ∨ ∃ co l o job k, Begun s label s' co l o job k ∧ job.jobId = j := by
  obtain ⟨hframes, hrep⟩ := holds_iff.mp hh
  have hold :
      Uncancelled j (s.outbox c) ∨
        ∃ co l o job k, Begun s label s' co l o job k ∧ job.jobId = j := by
    rcases view_outbox h c with he | ⟨a, o, f, he, _, _, hf⟩
    · exact .inl (he ▸ hframes)
    · rw [Uncancelled, he, List.reverse_append, List.reverse_singleton, List.singleton_append,
        unanswered_cons] at hframes
      rcases hframes with hjob | ⟨_, hframes⟩
      · rcases hf with ⟨_, _, rfl⟩ | ⟨co, l, job, k, rfl, _, hb⟩
        · cases hjob
        · exact .inr ⟨co, l, o, job, k, hb, of_decide_eq_true hjob⟩
      · exact .inl hframes
  have hcons :
      ∀ x : Obs, Unreported c j (x :: s.history) → x ≠ .jobWritten c j → Unreported c j s.history :=
    fun x hu hx => ((unanswered_cons.mp hu).resolve_left hx).2
  rcases hold with hold | hb
  · suffices hrep : Unreported c j s.history ∨
        ∃ co l o job k, Begun s label s' co l o job k ∧ job.jobId = j from
      hrep.imp_left fun hu => holds_iff.mpr ⟨hold, hu⟩
    cases h with
    | acked | registered | sent | sentUnrecorded | cancelled => exact .inl (hcons _ hrep nofun)
    | resultRaised | resultKept | resultFreed => exact .inl (hcons _ hrep nofun)
    | sendBegun co l k o job hl hc ho hidle hp hs =>
        rcases unanswered_cons.mp hrep with hx | ⟨_, hu⟩
        · cases hx
          refine .inr ⟨co, l, o, job, k, ?_, rfl⟩
          exact ⟨rfl, hl, hc, ho, hidle, hp, hs, rfl, rfl, rfl, Function.update_self _ _ _⟩
        · exact .inl hu
    | staleFailed | requeued =>
        dsimp only at hrep
        split at hrep
        · exact .inl (hcons _ hrep nofun)
        · exact .inl hrep
    | _ => exact .inl hrep
  · exact .inr hb

theorem view_attached (hO : Opened s) (h : View cfg s label s') {c : ConnId}
    (ha : s'.attached c = true) :
    s.attached c = true ∨ (s.sockets c = true ∧ ∃ a, label = .frame c (some (.register a))) := by
  obtain ⟨hs, a, o, ho, hc⟩ := attached_iff.mp ha
  rcases view_entry h ho with ⟨ho', hws⟩ | ⟨c', rfl, _, hws, _⟩
  · rcases view_sockets h hs with hs | rfl
    · exact .inl (attached_iff.mpr ⟨hs, a, o, ho', hws.symm.trans hc⟩)
    · have hlt := hO.entry o (s.agents.get_lt ho')
      rw [← hws, hc] at hlt
      exact absurd hlt (Nat.lt_irrefl _)
  · obtain rfl : c' = c := hws.symm.trans hc
    have hsame : s'.sockets = s.sockets := by
      cases h with
      | quiet _ _ _ hq => cases hq
      | registered => rfl
      | timedOut _ _ _ _ _ _ _ _ hcase | cancelled _ _ _ _ _ _ _ _ hcase =>
          rcases hcase with ⟨he, _⟩ | ⟨_, he, _⟩ <;> cases he
    exact .inr ⟨hsame ▸ hs, a, rfl⟩

theorem stored_stopped (op : Op) {T : JobTable} {j : String} {b : Job}
    (hb : record j (stored op T) = some b) (hs : b.state = .cancelled ∨ b.state = .timedOut) :
    (∃ a, record j T = some a ∧ (a.state = .cancelled ∨ a.state = .timedOut)) ∨
      ∃ a, record j T = some a ∧ op.target = some j ∧
        (op.next a.state = .cancelled ∨ op.next a.state = .timedOut) := by
  rcases stored_cases op T j with hk | ⟨ht, hk⟩ | ⟨_, x, hx, _, hk⟩
  · exact .inl ⟨b, hk.symm.trans hb, hs⟩
  · rw [hk] at hb
    obtain ⟨a, ha, rfl⟩ := Option.map_eq_some_iff.mp hb
    rw [Op.effect_state] at hs
    exact .inr ⟨a, ha, ht, hs⟩
  · cases hb.symm.trans hk
    cases op <;> cases hx
    rcases hs with hs | hs <;> cases hs

theorem stored_stopped_of_ne {op : Op} {T : JobTable} {j : String} {b : Job}
    (hc : ∀ t k, op ≠ .markCancelled t k) (ht : ∀ t k, op ≠ .markTimedOut t k)
    (hb : record j (stored op T) = some b) (hs : b.state = .cancelled ∨ b.state = .timedOut) :
    ∃ a, record j T = some a ∧ (a.state = .cancelled ∨ a.state = .timedOut) := by
  rcases stored_stopped op hb hs with hold | ⟨a, ha, _, hnext⟩
  · exact hold
  · exact ⟨a, ha, Op.next_stopped hnext hc ht⟩

theorem view_stopped (h : View cfg s label s') {j : String} {b : Job} (hb : record j s'.jobs = some b)
    (hs : b.state = .cancelled ∨ b.state = .timedOut) :
    (∃ a, record j s.jobs = some a ∧ (a.state = .cancelled ∨ a.state = .timedOut)) ∨
      (s.isOpen j = true ∧ ∃ co job k, job.jobId = j ∧
        ((label = .run ∧ s.loop = some co ∧ s.ctl co = some (.sendCancel job k)) ∨
          s.ctl co = some (.sendingCancel job k))) := by
  cases h with
  | started | submitted | sent | staleFailed | requeued =>
      exact .inl (stored_stopped_of_ne (by rintro _ _ ⟨⟩) (by rintro _ _ ⟨⟩) hb hs)
  | resultKept _ _ k x o e err | resultFreed _ _ k x o e err =>
      rcases completion_cases s.clock k x o e err with ⟨_, he⟩ | he <;> dsimp only at hb <;>
        rw [he] at hb <;>
        exact .inl (stored_stopped_of_ne (by rintro _ _ ⟨⟩) (by rintro _ _ ⟨⟩) hb hs)
  | timedOut l co job now rest x events hx hcase =>
      rcases stored_stopped (.markTimedOut s.clock job.jobId) hb hs with hold | ⟨a, ha, ht, hnext⟩
      · exact .inl hold
      · cases ht
        by_cases hrun : a.state = .running
        · refine .inr ⟨isOpen_of ha (by rw [hrun]; rfl), co, job, .fire now rest, rfl, ?_⟩
          rcases hcase with ⟨rfl, hl, rfl⟩ | ⟨_, _, _, rfl⟩
          · exact .inl ⟨rfl, hl, hx⟩
          · exact .inr hx
        · refine .inl ⟨a, ha, ?_⟩
          revert hrun hnext
          generalize a.state = q
          cases q <;> simp [Op.next]
  | cancelled l co job n x events state hx hcase =>
      rcases stored_stopped (.markCancelled s.clock job.jobId) hb hs with hold | ⟨a, ha, ht, hnext⟩
      · exact .inl hold
      · cases ht
        cases hterm : a.state.isTerminal with
        | false =>
            refine .inr ⟨isOpen_of ha hterm, co, job, .user n, rfl, ?_⟩
            rcases hcase with ⟨rfl, hl, rfl⟩ | ⟨_, _, _, rfl⟩
            · exact .inl ⟨rfl, hl, hx⟩
            · exact .inr hx
        | true =>
            rw [Op.next, if_pos hterm] at hnext
            exact .inl ⟨a, ha, hnext⟩
  | _ => exact .inl ⟨b, hb, hs⟩

theorem step_sendCancel (h : step cfg .run s = some s') {co : Coro} {job : Job} {k : CancelReturn}
    (hl : s.loop = some co) (hc : s.ctl co = some (.sendCancel job k)) :
    s'.jobs = s.jobs ∨ ∀ o, s.agents.get job.agentId = some o →
      s.sockets (s.agents.conns o).ws = false := by
  have hpiece : s.runPiece cfg co (.sendCancel job k) = some (s.sendCancel co job k) := by
    cases co <;> rfl
  simp only [step, hl, hc, hpiece] at h
  cases h
  rw [sendCancel]
  cases ho : s.agents.get job.agentId with
  | none => exact .inr fun o ho => (by cases ho)
  | some o =>
      dsimp only
      cases hs : s.sockets (s.agents.conns o).ws with
      | true => exact .inl rfl
      | false =>
          right
          rintro _ ⟨⟩
          exact hs

structure CancelBegun (s : Server) (label : Label) (s' : Server) (co : Coro) (job : Job) (k : CancelReturn)
    (o : ObjId) : Prop where
  label : label = .run
  loop : s.loop = some co
  ctl : s.ctl co = some (.sendCancel job k)
  entry : s.agents.get job.agentId = some o
  jobs : s'.jobs = s.jobs
  attached : s'.attached = s.attached
  outbox : s'.outbox (s.agents.conns o).ws = s.outbox (s.agents.conns o).ws ++ [.cancel job.jobId k.reason]

theorem cancelWritten_mono (h : View cfg s label s') {j : String} (hw : s.cancelWritten j = true) :
    s'.cancelWritten j = true := by
  obtain ⟨c, hc, f, hf, hj⟩ := cancelWritten_iff.mp hw
  refine cancelWritten_iff.mpr ⟨c, hc.trans_le (view_nextConn h), f, ?_, hj⟩
  rcases view_outbox h c with he | ⟨_, _, _, he, _⟩ <;> rw [he]
  · exact hf
  · exact List.mem_append_left _ hf

theorem view_cancelWritten (hO : Opened s) (h : View cfg s label s') {j : String}
    (hw : s'.cancelWritten j = true) :
    s.cancelWritten j = true ∨ ∃ co job k o, CancelBegun s label s' co job k o ∧ job.jobId = j := by
  obtain ⟨c, _, f, hf, hj⟩ := cancelWritten_iff.mp hw
  have hold : f ∈ s.outbox c → s.cancelWritten j = true := by
    intro hf
    refine cancelWritten_iff.mpr ⟨c, ?_, f, hf, hj⟩
    by_contra hc
    rw [hO.outbox c (not_lt.mp hc)] at hf
    cases hf
  cases h with
  | sendBegun _ _ _ o job =>
      dsimp only at hf
      by_cases hc : c = (s.agents.conns o).ws
      · rw [← hc, Function.update_self, List.mem_append, List.mem_singleton] at hf
        rcases hf with hf | rfl
        · exact .inl (hold hf)
        · cases hj
      · rw [Function.update_of_ne hc] at hf
        exact .inl (hold hf)
  | cancelSending co job k o hl hx ho =>
      dsimp only at hf
      by_cases hc : c = (s.agents.conns o).ws
      · rw [← hc, Function.update_self, List.mem_append, List.mem_singleton] at hf
        rcases hf with hf | rfl
        · exact .inl (hold hf)
        · refine .inr ⟨co, job, k, o, ?_, of_decide_eq_true hj⟩
          exact ⟨rfl, hl, hx, ho, rfl, rfl, Function.update_self _ _ _⟩
      · rw [Function.update_of_ne hc] at hf
        exact .inl (hold hf)
  | _ => exact .inl (hold hf)

theorem view_sendingCancel (hO : Opened s) (h : View cfg s label s') {co : Coro} {job : Job}
    {k : CancelReturn} (hc : s'.ctl co = some (.sendingCancel job k)) :
    s.ctl co = some (.sendingCancel job k) ∨ s'.cancelWritten job.jobId = true := by
  cases h with
  | cancelSending co' job' k' o' hl hx ho hs =>
      rcases update_some hc with ⟨rfl, hk⟩ | ⟨_, hk⟩
      · cases hk
        have hlt := hO.entry o' (s.agents.get_lt ho)
        refine .inr (cancelWritten_iff.mpr ⟨_, hlt, .cancel job.jobId k.reason, ?_, ?_⟩)
        · dsimp only
          rw [Function.update_self]
          exact List.mem_append_right _ List.mem_cons_self
        · exact decide_eq_true rfl
      · exact .inl hk
  | registered | resultFreed | submitted | cancelBegun | ackScan | timeoutScan | woken | entered | queued
    | sendBegun | sentUnrecorded | scanEnded | scanSkipped | staleFailed | requeued | timedOut | cancelled =>
      rcases update_some hc with ⟨_, hx⟩ | ⟨_, hx⟩
      · cases hx
      · exact .inl hx
  | left _ _ k' | sent _ _ _ _ k' | sendClosed _ _ _ _ k' =>
      rcases update_some hc with ⟨_, hx⟩ | ⟨_, hx⟩
      · cases k' <;> cases hx
      · exact .inl hx
  | timeoutMoved _ y _ _ _ _ hy =>
      rcases update_some hc with ⟨_, hx⟩ | ⟨_, hx⟩
      · rcases hy with ⟨rfl, _⟩ | ⟨_, ⟨_, _, rfl⟩ | ⟨_, _, _, rfl⟩⟩ <;> cases hx
      · exact .inl hx
  | _ => exact .inl hc

/-- A job that is being stopped was so before, or the step is in a cancel of it, or a new record is
stored. -/
theorem view_stopping (hO : Opened s) (h : View cfg s label s') {j : String}
    (hs : s'.stopping j = true) :
    s.stopping j = true ∨ record j s.jobs = none ∨
      (s.isOpen j = true ∧ ∃ co job k, job.jobId = j ∧
        ((label = .run ∧ s.loop = some co ∧ s.ctl co = some (.sendCancel job k) ∧
          s'.jobs ≠ s.jobs) ∨
          s.ctl co = some (.sendingCancel job k) ∨ ∃ o, CancelBegun s label s' co job k o)) := by
  obtain ⟨b, hb, hs⟩ := stopping_iff.mp hs
  cases ha : record j s.jobs with
  | none => exact .inr (.inl rfl)
  | some a =>
      rcases hs with hs | ⟨hterm, hw⟩
      · rcases view_stopped h hb hs with ⟨a, ha, hs⟩ | ⟨hopen, co, job, k, hj, hcase⟩
        · exact .inl (stopping_iff.mpr ⟨a, ha, .inl hs⟩)
        · refine .inr (.inr ⟨hopen, co, job, k, hj, hcase.imp (fun hrun => ?_) .inl⟩)
          refine ⟨hrun.1, hrun.2.1, hrun.2.2, fun he => ?_⟩
          rw [he] at hb
          change (record j s.jobs).any _ = true at hopen
          rw [hb] at hopen
          rcases hs with hs | hs <;> simp [hs] at hopen
      · have hopen : a.state.isTerminal = false := by
          by_contra ht
          have ht : a.state.isTerminal = true := by simpa using ht
          cases hb.symm.trans (view_terminal h ha ht)
          exact Bool.false_ne_true (hterm.symm.trans ht)
        rcases view_cancelWritten hO h hw with hw | ⟨co, job, k, o, hbegun, hj⟩
        · exact .inl (stopping_iff.mpr ⟨a, ha, .inr ⟨hopen, hw⟩⟩)
        · exact .inr (.inr ⟨isOpen_of ha hopen, co, job, k, hj, .inr (.inr ⟨o, hbegun⟩)⟩)

structure Followed (s : Server) : Prop where
  opened : Opened s
  known : ∀ c j, .jobWritten c j ∈ s.history → (record j s.jobs).isSome ∧ ∃ f ∈ s.outbox c, f.isJob j = true
  written : ∀ co job k, s.ctl co = some (.sendingCancel job k) → s.cancelWritten job.jobId = true
  released : ∀ j c, s.stopping j = true → s.attached c = true → s.holds j c = false

theorem stopping_of_open {j : String} (ho : s.isOpen j = true) (hw : s.cancelWritten j = true) :
    s.stopping j = true := by
  obtain ⟨a, ha, ht⟩ := (Option.any_eq_true _ _).mp ho
  exact stopping_iff.mpr ⟨a, ha, .inr ⟨by simpa using ht, hw⟩⟩

theorem Followed.known_step (hF : Followed s) (h : View cfg s label s') {c : ConnId} {j : String}
    (hj : .jobWritten c j ∈ s'.history) :
    (record j s'.jobs).isSome ∧ ∃ f ∈ s'.outbox c, f.isJob j = true := by
  have hcons :
      ∀ x : Obs, .jobWritten c j ∈ x :: s.history → x ≠ .jobWritten c j →
        .jobWritten c j ∈ s.history :=
    fun x hm hx => (List.mem_cons.mp hm).resolve_left (Ne.symm hx)
  have hold :
      .jobWritten c j ∈ s.history →
        (record j s'.jobs).isSome ∧ ∃ f ∈ s'.outbox c, f.isJob j = true := by
    intro hm
    obtain ⟨hrec, f, hf, hjob⟩ := hF.known c j hm
    obtain ⟨a, ha⟩ := Option.isSome_iff_exists.mp hrec
    obtain ⟨b, hb, _⟩ := view_agentId h ha
    refine ⟨by rw [hb]; rfl, f, ?_, hjob⟩
    rcases view_outbox h c with he | ⟨_, _, _, he, _⟩ <;> rw [he]
    · exact hf
    · exact List.mem_append_left _ hf
  cases h with
  | acked | registered | sent | sentUnrecorded | cancelled => exact hold (hcons _ hj nofun)
  | resultRaised | resultKept | resultFreed => exact hold (hcons _ hj nofun)
  | sendBegun co l k o job _ _ _ _ hp =>
      rcases List.mem_cons.mp hj with hx | hm
      · cases hx
        refine ⟨by rw [(pending_head hp).1]; rfl, jobMessage job, ?_, decide_eq_true rfl⟩
        dsimp only
        rw [Function.update_self]
        exact List.mem_append_right _ List.mem_cons_self
      · exact hold hm
  | staleFailed | requeued =>
      dsimp only at hj
      split at hj
      · exact hold (hcons _ hj nofun)
      · exact hold hj
  | _ => exact hold hj

theorem written_of_unreported {j : String} {c : ConnId} {h : List Obs} (hu : Unreported c j h) :
    .jobWritten c j ∈ h := by
  obtain ⟨h₁, x, h₂, rfl, rfl, _⟩ := hu
  exact List.mem_append_right _ List.mem_cons_self

theorem Followed.stopping_cases (hF : Followed s) (h : View cfg s label s') {j : String}
    (hrec : (record j s.jobs).isSome) (hs : s'.stopping j = true) :
    s.stopping j = true ∨ (label = .run ∧ s.isOpen j = true ∧ ∃ co job k, job.jobId = j ∧
      s.loop = some co ∧ s.ctl co = some (.sendCancel job k) ∧
        (s'.jobs ≠ s.jobs ∨ ∃ o, CancelBegun s label s' co job k o)) := by
  rcases view_stopping hF.opened h hs with hold | hnone | ⟨hopen, co, job, k, rfl, hcase⟩
  · exact .inl hold
  · rw [hnone] at hrec
    cases hrec
  · rcases hcase with ⟨hrun, hl, hc, hne⟩ | hc | ⟨o, hb⟩
    · exact .inr ⟨hrun, hopen, co, job, k, rfl, hl, hc, .inl hne⟩
    · exact .inl (stopping_of_open hopen (hF.written co job k hc))
    · exact .inr ⟨hb.label, hopen, co, job, k, rfl, hb.loop, hb.ctl, .inr ⟨o, hb⟩⟩

theorem Followed.released_cancel (hF : Followed s) {co : Coro} {job : Job} {k : CancelReturn}
    {c : ConnId} (hcond : s.cancelsInOrder .run = true) (hst : step cfg .run s = some s')
    (hopen : s.isOpen job.jobId = true) (hl : s.loop = some co)
    (hc : s.ctl co = some (.sendCancel job k))
    (hwhy : s'.jobs ≠ s.jobs ∨ ∃ o, CancelBegun s .run s' co job k o) (hatt : s.attached c = true)
    (hheld : s.holds job.jobId c = true) : s'.holds job.jobId c = false := by
  obtain ⟨hsock, a, o, ho, hws⟩ := attached_iff.mp hatt
  have hlt : c < s.nextConn := by
    rw [← hws]
    exact hF.opened.entry o (s.agents.get_lt ho)
  have hown : ∃ o, s.agents.get job.agentId = some o ∧ (s.agents.conns o).ws = c := by
    simp only [cancelsInOrder, hl, Option.bind_some, hc, hopen, Bool.not_true, Bool.false_or,
      List.all_eq_true,
      List.mem_range] at hcond
    have hthis := hcond c hlt
    rw [hatt, hheld] at hthis
    simpa [Option.any_eq_true] using hthis
  obtain ⟨o, ho, hws⟩ := hown
  rcases hwhy with hne | ⟨o', hb⟩
  · rcases step_sendCancel hst hl hc with he | hclosed
    · exact absurd he hne
    · have hdown := hclosed o ho
      rw [hws, hsock] at hdown
      cases hdown
  · -- the cancel is the last frame of the connection
    cases ho.symm.trans hb.entry
    by_contra hh
    rw [Bool.not_eq_false] at hh
    have hframes := (holds_iff.mp hh).1
    rw [← hws, Uncancelled, hb.outbox, List.reverse_append, List.reverse_singleton,
      List.singleton_append,
      unanswered_cons] at hframes
    rcases hframes with hjob | ⟨hno, _⟩
    · cases hjob
    · exact hno (decide_eq_true rfl)

/-- A connection that holds a job that is being stopped does not register. -/
theorem Followed.released_register (hF : Followed s) {a j : String} {c : ConnId}
    (hcond : s.cancelsInOrder (.frame c (some (.register a))) = true) (hsock : s.sockets c = true)
    (hs : s.stopping j = true) : s.holds j c = false := by
  by_contra hh
  rw [Bool.not_eq_false] at hh
  obtain ⟨_, f, hf, hjob⟩ := hF.known c j (written_of_unreported (holds_iff.mp hh).2)
  simp only [cancelsInOrder, hsock, Bool.not_true, Bool.false_or, List.all_eq_true] at hcond
  have hf := hcond f hf
  cases f with
  | cancel => cases hjob
  | job k =>
      obtain rfl : k = j := of_decide_eq_true hjob
      simp [hh, hs] at hf

/-- A job that a task begins to send is not being stopped. -/
theorem Followed.not_stopping_begun (hF : Followed s) (h : View cfg s label s') {co : Coro}
    {l : LockRef} {o : ObjId} {job : Job} {k : Return} (hcond : s.cancelsInOrder label = true)
    (hb : Begun s label s' co l o job k) : s'.stopping job.jobId = false := by
  obtain ⟨rfl, hl, hc, ho, hidle, hp, hsock, hjobs, _⟩ := hb
  have hready : s.ready l.agentId = true := by simp [ready, ho, AgentConnection.isIdle, hidle, hsock]
  have hno : s.cancelWritten job.jobId = false := by
    simpa [cancelsInOrder, hl, hc, hready, hp] using hcond
  obtain ⟨hrec, hpend, _⟩ := pending_head hp
  by_contra hs
  rw [Bool.not_eq_false] at hs
  obtain ⟨b, hb, hs⟩ := stopping_iff.mp hs
  rw [hjobs, hrec] at hb
  cases hb
  rcases hs with hs | ⟨_, hw⟩
  · rcases hs with hs | hs <;> cases hpend.symm.trans hs
  · rcases view_cancelWritten hF.opened h hw with hw | ⟨co', job', k', o', hb, _⟩
    · rw [hno] at hw
      cases hw
    · cases hl.symm.trans hb.loop
      cases hc.symm.trans hb.ctl

theorem Followed.released_step (hF : Followed s) (hcond : s.cancelsInOrder label = true)
    (hst : step cfg label s = some s') {j : String} {c : ConnId} (hs : s'.stopping j = true)
    (ha : s'.attached c = true) : s'.holds j c = false := by
  have h := step_view hst
  by_contra hh
  rw [Bool.not_eq_false] at hh
  rcases view_holds h hh with hheld | ⟨co, l, o, job, k, hb, rfl⟩
  · have hrec := (hF.known c j (written_of_unreported (holds_iff.mp hheld).2)).1
    rcases hF.stopping_cases h hrec hs with hold | ⟨rfl, hopen, co, job, k, rfl, hl, hc, hwhy⟩
    · rcases view_attached hF.opened h ha with hatt | ⟨hsock, a, rfl⟩
      · rw [hF.released j c hold hatt] at hheld
        cases hheld
      · rw [hF.released_register hcond hsock hold] at hheld
        cases hheld
    · rcases view_attached hF.opened h ha with hatt | ⟨_, _, he⟩
      · rw [hF.released_cancel hcond hst hopen hl hc hwhy hatt hheld] at hh
        cases hh
      · cases he
  · rw [hF.not_stopping_begun h hcond hb] at hs
    cases hs

theorem followed_step (hF : Followed s) (hcond : s.cancelsInOrder label = true)
    (hst : step cfg label s = some s') : Followed s' where
  opened := opened_step hF.opened (step_view hst)
  known _ _ := hF.known_step (step_view hst)
  written co job k hc := by
    rcases view_sendingCancel hF.opened (step_view hst) hc with hold | hnew
    · exact cancelWritten_mono (step_view hst) (hF.written co job k hold)
    · exact hnew
  released _ _ := hF.released_step hcond hst

theorem followed_start (jobs : JobTable) : Followed (start jobs) where
  opened := opened_start jobs
  known c j hj := by cases hj
  written co job k hc := by cases hc
  released j c _ ha := by cases ha

/-- Cancel follows the job: where a job is cancelled or timed out, every message for it on an
attached connection has a cancel after it, unless its result has been processed. -/
theorem cancel_follows (cfg : Config) (jobs : JobTable) {t : Server}
    (h : (machine cfg jobs).Run (fun s l => s.cancelsInOrder l = true) (start jobs) t) {j : String}
    {c : ConnId} (hj : stateOf j t.jobs = some .cancelled ∨ stateOf j t.jobs = some .timedOut)
    (hs : t.sockets c = true) (hr : ∃ a o, t.agents.get a = some o ∧ (t.agents.conns o).ws = c)
    (hu : Unreported c j t.history) :
    (∃ f ∈ t.outbox c, f.isJob j = true) ∧ ∀ before f after, t.outbox c = before ++ f :: after →
      f.isJob j = true →
      ∃ f' ∈ after, f'.isCancel j = true := by
  have hF := h.invariant (I := Followed) (fun _ _ _ hI hcond hst => followed_step hI hcond hst)
    (followed_start jobs)
  have hstop : t.stopping j = true := by
    rcases hj with hj | hj <;> obtain ⟨a, ha, hs⟩ := Option.map_eq_some_iff.mp hj
    · exact stopping_iff.mpr ⟨a, ha, .inl (.inl hs)⟩
    · exact stopping_iff.mpr ⟨a, ha, .inl (.inr hs)⟩
  refine ⟨(hF.known c j (written_of_unreported hu)).2, not_unanswered_reverse.mp fun hun => ?_⟩
  have hheld := hF.released j c hstop (attached_iff.mpr ⟨hs, hr⟩)
  rw [holds_iff.mpr ⟨hun, hu⟩] at hheld
  cases hheld

def cancelledByUser : List Label :=
  ackedDispatch ++ [.cancel 1 "job_1", .run, .sendReturned (.api 1) .sent]

theorem cancel_follows_user :
    ∃ t, (machine .default .empty).Run (fun s l => s.cancelsInOrder l = true) (start .empty) t ∧
      t.sockets 0 = true ∧ stateOf "job_1" t.jobs = some .cancelled ∧
      (∃ f ∈ t.outbox 0, f.isJob "job_1" = true) ∧
        ∀ before f after, t.outbox 0 = before ++ f :: after →
      f.isJob "job_1" = true → ∃ f' ∈ after, f'.isCancel "job_1" = true := by
  have hexec : ((machine .default .empty).exec (fun s l => s.cancelsInOrder l = true) cancelledByUser
      (start .empty)).any
      (fun t => decide (t.attached 0 = true ∧ stateOf "job_1" t.jobs = some .cancelled ∧
        Unreported 0 "job_1" t.history)) = true := by decide +kernel
  obtain ⟨t, ht, hatt, hj, hu⟩ := Machine.exists_run _ _ hexec
  obtain ⟨hs, hr⟩ := attached_iff.mp hatt
  exact ⟨t, ht, hs, hj, cancel_follows .default .empty ht (.inl hj) hs hr hu⟩

def sentAfterCancel : List Label :=
  [.connect, .frame 0 (some (.register "agent-1")), .run, .run,
    .submit 0 "job_0" "c0" (.alpine "agent-1" agent_1_ne), .run, .run, .sendReturned (.api 0) .sent,
    .frame 0 (some (.started "job_0")), .submit 1 "job_1" "c1" (.alpine "agent-1" agent_1_ne), .run, .run,
    .cancel 2 "job_1", .run, .frame 0 (some (.result "job_0" 0 "" "" none)), .run, .run,
    .sendReturned (.handler 0) .sent, .sendReturned (.api 2) .sent]

/-- In the end nothing is under way, and the agent has the cancelled job with no cancel after it. -/
theorem cancel_follows_false : ∃ t, (machine .default .empty).Reachable t ∧ t.loop = none ∧
    (∀ co ∈ ([.handler 0, .api 0, .api 1, .api 2, .ackWatcher, .timeoutWatcher] : List Coro),
      (t.ctl co).isNone = true) ∧
    stateOf "job_1" t.jobs = some .cancelled ∧ Obs.jobSent 0 "job_1" ∈ t.history ∧
    Unreported 0 "job_1" t.history ∧
    t.sockets 0 = true ∧ (t.agents.get "agent-1").map (fun o => (t.agents.conns o).ws) = some 0 ∧
    ∃ before f, t.outbox 0 = before ++ [f] ∧ f.isJob "job_1" = true := by
  have hexec : ((machine .default .empty).exec (fun _ _ => True) sentAfterCancel (start .empty)).any
      (fun t => decide (t.loop = none ∧
        (∀ co ∈ ([.handler 0, .api 0, .api 1, .api 2, .ackWatcher, .timeoutWatcher] : List Coro),
          (t.ctl co).isNone = true) ∧
        stateOf "job_1" t.jobs = some .cancelled ∧ Obs.jobSent 0 "job_1" ∈ t.history ∧
        Unreported 0 "job_1" t.history ∧
        t.sockets 0 = true ∧ (t.agents.get "agent-1").map (fun o => (t.agents.conns o).ws) = some 0 ∧
        (t.outbox 0).getLast?.any (·.isJob "job_1") = true)) = true := by decide +kernel
  obtain ⟨t, ht, hl, hctl, hj, hsent, hu, hs, hr, hlast⟩ := Machine.exists_run _ _ hexec
  obtain ⟨f, hf, hjob⟩ := (Option.any_eq_true _ _).mp hlast
  obtain ⟨before, hout⟩ := List.getLast?_eq_some_iff.mp hf
  exact ⟨t, ht, hl, hctl, hj, hsent, hu, hs, hr, before, f, hout, hjob⟩

end Server

end JobSystem
