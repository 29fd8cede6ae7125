import JobSystem.Server.Attempts
import JobSystem.Server.Tasks

namespace JobSystem

open Lib

def CancelReturn.firing (job : Job) : CancelReturn → Option (Instant × Job)
  | .fire now _ => some (now, job)
  | .user _ => none

def Ctl.firing : Ctl → Option (Instant × Job)
  | .sendCancel job k | .sendingCancel job k => k.firing job
  | _ => none

def Ctl.watching : Ctl → Option (Instant × List Job)
  | .scanTimeout now jobs => some (now, jobs)
  | .sendCancel job (.fire now rest) | .sendingCancel job (.fire now rest) => some (now, job :: rest)
  | _ => none

theorem Return.next_watching (k : Return) : k.next.bind Ctl.watching = none := by cases k <;> rfl

theorem Return.next_firing (k : Return) : k.next.bind Ctl.firing = none := by cases k <;> rfl

theorem Op.effect_of_running (op : Op) {job : Job} (h : job.state = .running) :
    op.effect job = job ∨ (op.effect job).state.isTerminal = true := by
  cases op with
  | submit => exact .inl rfl
  | markDispatched | markRunning | requeue => exact .inl (Job.transition_of_ne (by rw [h]; nofun))
  | markDispatchedWithAttempt => exact .inl (if_neg (by rw [h]; nofun))
  | markSucceeded | markFailed | markTimedOut | markCancelled | failStaleDispatch =>
      right
      rw [Op.effect_state, h]
      rfl

theorem Op.effect_timedOut {op : Op} {job : Job} (h : (op.effect job).state = .timedOut)
    (hne : job.state ≠ .timedOut) : job.state = .running ∧ ∃ t j, op = .markTimedOut t j := by
  rw [effect_state] at h
  generalize job.state = q at h hne ⊢
  cases op <;> cases q <;> first | exact absurd rfl hne | cases h
  exact ⟨rfl, _, _, rfl⟩

namespace Server

def FinishedLate (job : Job) : Prop :=
  ∃ started finished, job.startedAt = some started ∧ job.finishedAt = some finished ∧
    job.timeoutMs * 1000 < finished.elapsed started

def TimedOutLate (jobs : JobTable) : Prop :=
  ∀ j x, record j jobs = some x → x.state = .timedOut → FinishedLate x

def clockForward (s : Server) : Label → Bool
  | .tick t => s.clock ≤ t
  | _ => true

/-- Job `job`, as a scan read it, was running, and its record still has the same start and timeout. -/
def Timed (jobs : JobTable) (job : Job) : Prop :=
  ∃ y, record job.jobId jobs = some y ∧ y.timeoutMs = job.timeoutMs ∧
    ((y.state = .running ∧ y.startedAt = job.startedAt) ∨ y.state.isTerminal = true)

variable {cfg : Config} {s s' : Server} {label : Label}

theorem Timed.step {job : Job} (hT : Timed s.jobs job) (h : View cfg s label s') : Timed s'.jobs job := by
  obtain ⟨y, hy, ht, hstate⟩ := hT
  rcases view_record h hy with hy' | ⟨op, -, -, hy'⟩
  · exact ⟨y, hy', ht, hstate⟩
  · have ht' : (op.effect y).timeoutMs = job.timeoutMs := by
      obtain ⟨_, _, _, _, _, _, _, _, _, he⟩ := op.effect_eq y
      rw [he]
      exact ht
    refine ⟨_, hy', ht', ?_⟩
    rcases hstate with ⟨hrun, hs⟩ | hterm
    · rcases op.effect_of_running hrun with he | hterm
      · rw [he]
        exact .inl ⟨hrun, hs⟩
      · exact .inr hterm
    · rw [op.effect_terminal hterm]
      exact .inr hterm

/-- What becomes of the list of a scan: it stays, its head is off and done with, or the scan is over. -/
theorem step_watching (hst : step cfg label s = some s') {now : Instant} {jobs : List Job}
    (hw : (s.ctl .timeoutWatcher).bind Ctl.watching = some (now, jobs)) :
    (s'.ctl .timeoutWatcher).bind Ctl.watching = some (now, jobs) ∨
      (∃ job rest, jobs = job :: rest ∧ (s'.ctl .timeoutWatcher).bind Ctl.watching = some (now, rest) ∧
        (timeoutOverdue now job = false ∨ s'.jobs = stored (.markTimedOut s.clock job.jobId) s.jobs)) ∨
      (jobs = [] ∧ s'.ctl .timeoutWatcher = none) := by
  have hstay : ∀ {u y}, s'.ctl = Function.update s.ctl u y → (s.ctl u).bind Ctl.watching = none →
      (s'.ctl .timeoutWatcher).bind Ctl.watching = some (now, jobs) := by
    intro u y hctl hu
    rw [hctl]
    exact bind_update hw (.inl hu)
  cases step_view hst with
  | registered _ _ _ _ hu | resultFreed _ _ _ _ _ _ _ _ _ hu | submitted _ _ _ _ _ _ _ hu
    | cancelBegun _ _ _ _ hu | ackScan _ hu | timeoutScan _ hu => exact .inl (hstay rfl (by rw [hu]; rfl))
  | woken _ _ _ _ _ hu | entered _ _ _ _ hu | queued _ _ _ _ hu | left _ _ _ _ hu | sendBegun _ _ _ _ _ _ hu
    | sent _ _ _ _ _ _ _ hu | sentUnrecorded _ _ _ _ _ _ _ hu | sendClosed _ _ _ _ _ _ hu
    | scanEnded _ _ _ hu | scanSkipped _ _ _ _ hu | staleFailed _ _ _ _ _ _ hu | requeued _ _ _ _ _ hu =>
      exact .inl (hstay rfl (by rw [hu]; rfl))
  | cancelled _ _ _ _ x _ _ hx hc =>
      refine .inl (hstay rfl ?_)
      rcases hc with ⟨_, _, rfl⟩ | ⟨_, _, _, rfl⟩ <;> rw [hx] <;> rfl
  | cancelSending co job k o _ hu =>
      refine .inl (bind_update hw (.inr ?_))
      rw [hu]
      cases k <;> rfl
  | timedOut _ co job now' rest x events hx hc =>
      by_cases hco : co = .timeoutWatcher
      · subst co
        right
        left
        have hjobs : (now', job :: rest) = (now, jobs) := by
          rw [hx] at hw
          rcases hc with ⟨_, _, rfl⟩ | ⟨_, _, _, rfl⟩ <;> exact Option.some.inj hw
        cases hjobs
        refine ⟨job, rest, rfl, ?_, .inr rfl⟩
        dsimp only
        rw [Function.update_self]
        rfl
      · left
        dsimp only
        rw [Function.update_of_ne (Ne.symm hco)]
        exact hw
  | timeoutMoved x y loop hl hc hx hy =>
      -- the view does not say which job the scan moves to
      obtain ⟨now', jobs', rfl⟩ := hx
      rw [hc] at hw
      cases hw
      simp only [step, hl, hc, runPiece] at hst
      rw [← Option.some.inj hst]
      cases jobs with
      | nil => exact .inr (.inr ⟨rfl, by simp [scanTimeout, finish]⟩)
      | cons job rest =>
          rw [scanTimeout]
          split
          · exact .inl (by simp [goto, Ctl.watching])
          · next ho => exact .inr (.inl ⟨job, rest, rfl, by simp [goto, Ctl.watching], .inl (by simpa using ho)⟩)
  | _ => exact .inl hw

theorem view_watching (h : View cfg s label s') {now : Instant} {jobs : List Job}
    (hw : (s.ctl .timeoutWatcher).bind Ctl.watching = none)
    (hc : (s'.ctl .timeoutWatcher).bind Ctl.watching = some (now, jobs)) :
    now = s.clock ∧ jobs = JobService.list sqliteJobRepository none (some .running) s.jobs ∧
      s'.jobs = s.jobs ∧ s'.clock = s.clock := by
  have hnone : ∀ {u y}, s'.ctl = Function.update s.ctl u y →
      y.bind Ctl.watching = none ∨ y.bind Ctl.watching = (s.ctl u).bind Ctl.watching → False := by
    intro u y hctl hy
    rw [hctl] at hc
    rw [bind_of_update hc hy] at hw
    cases hw
  cases h with
  | timeoutScan =>
      dsimp only at hc
      rw [Function.update_self] at hc
      cases hc
      exact ⟨rfl, rfl, rfl, rfl⟩
  | registered | resultFreed | submitted | cancelBegun | ackScan | woken | entered | queued | sendBegun
    | sentUnrecorded | scanEnded | scanSkipped | staleFailed | requeued | cancelled =>
      exact (hnone rfl (.inl rfl)).elim
  | left _ _ k | sent _ _ _ _ k | sendClosed _ _ _ _ k => exact (hnone rfl (.inl k.next_watching)).elim
  | cancelSending co job k o _ hu =>
      refine (hnone rfl (.inr ?_)).elim
      rw [hu]
      cases k <;> rfl
  | timeoutMoved x y loop _ hu hx =>
      obtain ⟨now', jobs', rfl⟩ := hx
      rw [hu] at hw
      cases hw
  | timedOut _ co job now' rest x events hx hcase =>
      by_cases hco : co = .timeoutWatcher
      · subst co
        rw [hx] at hw
        rcases hcase with ⟨_, _, rfl⟩ | ⟨_, _, _, rfl⟩ <;> cases hw
      · dsimp only at hc
        rw [Function.update_of_ne (Ne.symm hco), hw] at hc
        cases hc
  | _ => cases hw.symm.trans hc

theorem step_firing (hst : step cfg label s = some s') {co : Coro} {now : Instant} {job : Job}
    (hf : (s'.ctl co).bind Ctl.firing = some (now, job)) :
    (s.ctl co).bind Ctl.firing = some (now, job) ∨ timeoutOverdue now job = true := by
  cases step_view hst with
  | registered | resultFreed | submitted | cancelBegun | ackScan | timeoutScan | woken | entered | queued
    | sendBegun | sentUnrecorded | scanEnded | scanSkipped | staleFailed | requeued | cancelled | timedOut =>
      exact .inl (bind_of_update hf (.inl rfl))
  | left _ _ k | sent _ _ _ _ k | sendClosed _ _ _ _ k => exact .inl (bind_of_update hf (.inl k.next_firing))
  | cancelSending co job' k o _ hu => exact .inl (bind_of_update hf (.inr (by rw [hu]; rfl)))
  | timeoutMoved x y loop hl hc hx hy =>
      obtain ⟨now', jobs', rfl⟩ := hx
      simp only [step, hl, hc, runPiece] at hst
      rw [← Option.some.inj hst] at hf
      cases jobs' with
      | nil => exact .inl (bind_of_update hf (.inl rfl))
      | cons job' rest =>
          rw [scanTimeout] at hf
          split at hf
          · next ho =>
              rw [goto, update_bind] at hf
              split at hf
              · cases hf
                exact .inr ho
              · exact .inl hf
          · exact .inl (bind_of_update hf (.inl rfl))
  | _ => exact .inl hf

theorem view_clock (h : View cfg s label s') (hclock : s.clockForward label = true) : s.clock ≤ s'.clock := by
  cases h with
  | tick t => exact of_decide_eq_true hclock
  | _ => exact le_rfl

/-- Every job that was overdue in `s` is over, or the scan that began there has still to deal with it. -/
def Covers (s t : Server) : Prop :=
  ∀ j x, record j s.jobs = some x → x.state = .running → timeoutOverdue s.clock x = true →
    ∃ y, record j t.jobs = some y ∧ (y.state.isTerminal = true ∨ (y.state = .running ∧
      ∃ rest, (t.ctl .timeoutWatcher).bind Ctl.watching = some (s.clock, rest) ∧ x ∈ rest))

theorem covers_scan (hst : step cfg .timeoutScan s = some s') : Covers s s' := by
  intro j x hx hrun _
  obtain ⟨hl, hc, rfl⟩ := of_idle hst
  have hmem : x ∈ JobService.list sqliteJobRepository none (some .running) s.jobs :=
    mem_list.mpr ⟨by rw [record_jobId hx]; exact hx, by simp [Job.matches, hrun]⟩
  exact ⟨x, hx, .inr ⟨hrun, _, by simp [goto, Ctl.watching], hmem⟩⟩

theorem covers_step {t t' : Server} (hC : Covers s t) (hst : step cfg label t = some t') : Covers s t' := by
  intro j x hx hrun hover
  have hv := step_view hst
  obtain ⟨y, hy, hstate⟩ := hC j x hx hrun hover
  rcases hstate with ht | ⟨hyrun, rest, hw, hmem⟩
  · exact ⟨y, view_terminal hv hy ht, .inl ht⟩
  · obtain ⟨y', hy', hend⟩ :
        ∃ y', record j t'.jobs = some y' ∧ (y'.state.isTerminal = true ∨ y'.state = .running) := by
      rcases view_record hv hy with hy' | ⟨op, -, -, hy'⟩
      · exact ⟨y, hy', .inr hyrun⟩
      · rcases op.effect_of_running hyrun with he | ht
        · exact ⟨_, hy', .inr (by rw [he, hyrun])⟩
        · exact ⟨_, hy', .inl ht⟩
    rcases hend with ht | hrun'
    · exact ⟨y', hy', .inl ht⟩
    · rcases step_watching hst hw with hw' | ⟨job, rest', rfl, hw', hdone⟩ | ⟨rfl, -⟩
      · exact ⟨y', hy', .inr ⟨hrun', rest, hw', hmem⟩⟩
      · rcases List.mem_cons.mp hmem with rfl | hmem
        · -- the scan fires at it, and a job that is still running is taken off
          rcases hdone with hnot | hjobs
          · rw [hover] at hnot
            cases hnot
          · rw [record_jobId hx] at hjobs
            have hy'' := stored_effect (show (Op.markTimedOut t.clock j).target = some j from rfl) rfl hy
            rw [← hjobs, hy'] at hy''
            cases hy''
            rw [Op.effect_state, hyrun] at hrun'
            cases hrun'
        · exact ⟨y', hy', .inr ⟨hrun', rest', hw', hmem⟩⟩
      · cases hmem

structure Enforced (s : Server) : Prop where
  placed : Placed s
  late : TimedOutLate s.jobs
  watched : ∀ now jobs, (s.ctl .timeoutWatcher).bind Ctl.watching = some (now, jobs) →
    now ≤ s.clock ∧ ∀ job ∈ jobs, Timed s.jobs job
  firing : ∀ now job, (s.ctl .timeoutWatcher).bind Ctl.firing = some (now, job) → timeoutOverdue now job = true

/-- A step times out a job that runs, and has run for more than its timeout. -/
theorem Enforced.timedOut_step (hE : Enforced s) (hv : View cfg s label s') {j : String} {x y : Job}
    (hx : record j s.jobs = some x) (hy : record j s'.jobs = some y) (hne : x.state ≠ .timedOut)
    (hto : y.state = .timedOut) : x.state = .running ∧ FinishedLate y := by
  have hop : ∀ op : Op, s'.jobs = stored op s.jobs → op.target = some j ∧ y = op.effect x ∧
      x.state = .running ∧ ∃ t k, op = .markTimedOut t k := by
    intro op hjobs
    rw [hjobs] at hy
    rcases stored_some op hx with hk | ⟨ht, hk⟩
    · cases hy.symm.trans hk
      exact absurd hto hne
    · cases hy.symm.trans hk
      exact ⟨ht, rfl, Op.effect_timedOut hto hne⟩
  have hother : ∀ op : Op, s'.jobs = stored op s.jobs → (∀ t k, op ≠ .markTimedOut t k) →
      x.state = .running ∧ FinishedLate y := by
    intro op hjobs hnot
    obtain ⟨-, -, -, t, k, he⟩ := hop op hjobs
    exact absurd he (hnot t k)
  cases hv with
  | started c k => exact hother (.markRunning s.clock k) rfl (by rintro _ _ ⟨⟩)
  | requeued now job => exact hother (.requeue s.clock job.jobId) rfl (by rintro _ _ ⟨⟩)
  | submitted | sent | staleFailed | cancelled =>
      refine hother _ rfl ?_
      rintro _ _ ⟨⟩
  | resultKept c b k i o e err | resultFreed c b k i o e err =>
      refine hother _ rfl fun t k' he => ?_
      rcases completion_cases s.clock k i o e err with ⟨_, h⟩ | h <;> rw [h] at he <;> cases he
  | timedOut _ co job now rest z events hz hcase =>
      obtain ⟨ht, rfl, hrun, -⟩ := hop (.markTimedOut s.clock job.jobId) rfl
      obtain rfl : job.jobId = j := Option.some.inj ht
      have hat : (s.ctl .timeoutWatcher).bind Ctl.firing = some (now, job) ∧
          (s.ctl .timeoutWatcher).bind Ctl.watching = some (now, job :: rest) := by
        have hof := hE.placed co z hz
        rcases hcase with ⟨_, _, rfl⟩ | ⟨_, _, _, rfl⟩ <;> obtain rfl : co = .timeoutWatcher := hof <;>
          exact ⟨by rw [hz]; rfl, by rw [hz]; rfl⟩
      obtain ⟨hnow, htimed⟩ := hE.watched now _ hat.2
      obtain ⟨x', hx', hms, hstate⟩ := htimed job List.mem_cons_self
      cases hx.symm.trans hx'
      have hstart : x.startedAt = job.startedAt := by
        rcases hstate with ⟨-, hs⟩ | hterm
        · exact hs
        · rw [hrun] at hterm
          cases hterm
      obtain ⟨started, hs, hover⟩ := (Option.any_eq_true _ _).mp (hE.firing now job hat.1)
      have hlate : x.timeoutMs * 1000 < s.clock.elapsed started := by
        have hover : job.timeoutMs * 1000 < now.elapsed started := of_decide_eq_true hover
        have hle : now.micros ≤ s.clock.micros := hnow
        rw [hms]
        simp only [Instant.elapsed] at hover ⊢
        omega
      refine ⟨hrun, started, s.clock, ?_, ?_, ?_⟩
      · rw [Op.effect, Job.transition, if_pos hrun]
        exact hstart.trans hs
      · rw [Op.effect, Job.transition, if_pos hrun]
        rfl
      · rw [Op.effect, Job.transition, if_pos hrun]
        exact hlate
  | _ =>
      cases hx.symm.trans hy
      exact absurd hto hne

theorem enforced_step (hE : Enforced s) (hclock : s.clockForward label) (hst : step cfg label s = some s') :
    Enforced s' := by
  have hv := step_view hst
  refine ⟨placed_step hE.placed hv, ?_, ?_, ?_⟩
  · intro j y hy hto
    cases hx : record j s.jobs with
    | none =>
        rcases view_jobs hv with hjobs | ⟨op, hjobs, -⟩
        · rw [hjobs, hx] at hy
          cases hy
        · rw [hjobs] at hy
          rcases stored_cases op s.jobs j with hk | ⟨-, hk⟩ | ⟨-, b, hb, -, hk⟩
          · cases hx.symm.trans (hk.symm.trans hy)
          · rw [hk, hx] at hy
            cases hy
          · cases hy.symm.trans hk
            rw [Op.created_pending hb] at hto
            cases hto
    | some x =>
        by_cases hne : x.state = .timedOut
        · have hold := hE.late j x hx hne
          cases hy.symm.trans (view_terminal hv hx (by rw [hne]; rfl))
          exact hold
        · exact (hE.timedOut_step hv hx hy hne hto).2
  · intro now jobs hw'
    have hforward := view_clock hv hclock
    cases hw : (s.ctl .timeoutWatcher).bind Ctl.watching with
    | none =>
        obtain ⟨rfl, rfl, hjobs, hsame⟩ := view_watching hv hw hw'
        refine ⟨hforward, fun job hjob => ?_⟩
        obtain ⟨hrec, hm⟩ := mem_list.mp hjob
        have hrun : job.state = .running := by
          simpa [Job.matches, eq_comm (a := JobState.running)] using hm
        exact ⟨job, hjobs ▸ hrec, rfl, .inl ⟨hrun, rfl⟩⟩
    | some p =>
        obtain ⟨now₀, jobs₀⟩ := p
        obtain ⟨hle, htimed⟩ := hE.watched now₀ jobs₀ hw
        rcases step_watching hst hw with hsame | ⟨job, rest, rfl, hrest, -⟩ | ⟨-, hnone⟩
        · cases hsame.symm.trans hw'
          exact ⟨hle.trans hforward, fun job hjob => (htimed job hjob).step hv⟩
        · cases hrest.symm.trans hw'
          exact ⟨hle.trans hforward, fun e he => (htimed e (List.mem_cons_of_mem _ he)).step hv⟩
        · rw [hnone] at hw'
          cases hw'
  · intro now job hf
    rcases step_firing hst hf with hold | hover
    · exact hE.firing now job hold
    · exact hover

/-- Timeout enforcement: when a scan is over, the jobs that were overdue at its start are over too, and
no job is timed out unless it runs and has run for more than its timeout. -/
theorem timeout_enforced (cfg : Config) (jobs : JobTable) :
    (∀ s s' t, step cfg .timeoutScan s = some s' → (machine cfg jobs).Run (fun _ _ => True) s' t →
      t.ctl .timeoutWatcher = none →
      ∀ j x, record j s.jobs = some x → x.state = .running → timeoutOverdue s.clock x = true →
        ∃ y, record j t.jobs = some y ∧ y.state.isTerminal = true) ∧
    (TimedOutLate jobs → ∀ t, (machine cfg jobs).Run (fun s l => s.clockForward l = true) (start jobs) t →
      TimedOutLate t.jobs ∧ ∀ label t', step cfg label t = some t' →
        ∀ j x y, record j t.jobs = some x → record j t'.jobs = some y → x.state ≠ .timedOut →
          y.state = .timedOut → x.state = .running ∧ FinishedLate y) := by
  constructor
  · intro s s' t hst ht hdone j x hx hrun hover
    have hC := ht.invariant (I := Covers s) (fun _ _ _ hI _ hst => covers_step hI hst) (covers_scan hst)
    obtain ⟨y, hy, hterm | ⟨-, rest, hw, -⟩⟩ := hC j x hx hrun hover
    · exact ⟨y, hy, hterm⟩
    · rw [hdone] at hw
      cases hw
  · intro hjobs t ht
    have hE : Enforced t := ht.invariant (I := Enforced) (fun _ _ _ hI hP hst => enforced_step hI hP hst)
      ⟨fun _ _ hc => by (cases hc), hjobs, fun _ _ hc => by (cases hc), fun _ _ hc => by (cases hc)⟩
    exact ⟨hE.late, fun label t' hst j x y hx hy hne hto => hE.timedOut_step (step_view hst) hx hy hne hto⟩

def runsLong : List Label :=
  [.connect, .frame 0 (some (.register "agent-1")), .run, .run,
    .submit 0 "job_1" "c1" (.alpine "agent-1" agent_1_ne), .run, .run, .sendReturned (.api 0) .sent,
    .frame 0 (some (.started "job_1")), .tick ⟨120000000, by decide⟩]

theorem timeout_enforced_once : ∃ s s' t y, (machine .default .empty).Run
      (fun s l => s.clockForward l = true) (start .empty) s ∧ step .default .timeoutScan s = some s' ∧
    (machine .default .empty).Run (fun s l => s.clockForward l = true) s' t ∧
    record "job_1" t.jobs = some y ∧ y.state = .timedOut ∧ y.state.isTerminal = true ∧ FinishedLate y := by
  have hexec : ((machine .default .empty).exec (fun s l => s.clockForward l = true) runsLong
      (start .empty)).any (fun s => decide ((record "job_1" s.jobs).any (fun x =>
        decide (x.state = .running) && timeoutOverdue s.clock x) = true ∧
      (step .default .timeoutScan s).any (fun s' => decide (((machine .default .empty).exec
        (fun s l => s.clockForward l = true) [.run, .run, .sendReturned .timeoutWatcher .sent, .run] s').any
          (fun t => decide ((t.ctl .timeoutWatcher).isNone = true ∧
            stateOf "job_1" t.jobs = some .timedOut)) = true)) = true)) = true := by decide +kernel
  obtain ⟨s, hs, hover, hst⟩ := Machine.exists_run _ _ hexec
  obtain ⟨s', hst, ht⟩ := (Option.any_eq_true _ _).mp hst
  obtain ⟨t, ht, hdone, hto⟩ := Machine.exists_run _ _ (of_decide_eq_true ht)
  obtain ⟨x, hx, hx'⟩ := (Option.any_eq_true _ _).mp hover
  obtain ⟨hrun, hover⟩ := (Bool.and_eq_true _ _).mp hx'
  obtain ⟨y, hy, hterm⟩ := (timeout_enforced .default .empty).1 s s' t hst
    (ht.mono fun _ _ _ => trivial) (Option.isNone_iff_eq_none.mp hdone) "job_1" x hx (of_decide_eq_true hrun) hover
  have hyto : y.state = .timedOut := by
    rw [stateOf, hy] at hto
    exact Option.some.inj hto
  have hall := (hs.tail ⟨.timeoutScan, rfl, hst⟩).trans ht
  obtain ⟨hlate, -⟩ := (timeout_enforced .default .empty).2 (by rintro j a ⟨⟩) t hall
  exact ⟨s, s', t, y, hs, hst, ht, hy, hyto, hterm, hlate "job_1" y hy hyto⟩

end Server

end JobSystem
