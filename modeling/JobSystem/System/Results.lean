import JobSystem.Agent.Backed
import JobSystem.Server.Restart
import JobSystem.System.WriteFirst

namespace JobSystem

open Lib

/-- The record of job `j` is final, with the outcome and the data of a result frame. -/
def HasResult (j : String) (exitCode : Int) (stdout stderr : PyStr) (error : Option PyStr)
    (jobs : JobTable) : Prop :=
  ∃ job, record j jobs = some job ∧
    job.state = (if exitCode = 0 ∧ PyStr.truthy error = false then .succeeded else .failed) ∧
    job.exitCode = some exitCode ∧ job.stdout = stdout ∧ job.stderr = stderr ∧ job.error = error

namespace Server

variable {cfg : Config} {s s' : Server} {c : ConnId} {j : String} {x : Int} {out e : PyStr} {err : Option PyStr}

theorem view_result_jobs (h : View cfg s (.frame c (some (.result j x out e err))) s') :
    s'.jobs = if bindableResult x out e err then stored (completion s.clock j x out e err) s.jobs else s.jobs := by
  cases h with
  | quiet _ _ _ hq => cases hq
  | resultRaised _ _ _ _ _ _ _ _ hx => rw [hx]; rfl
  | resultKept _ _ _ _ _ _ _ _ _ _ _ hx | resultFreed _ _ _ _ _ _ _ _ _ _ _ _ hx => rw [hx]; rfl
  | timedOut _ _ _ _ _ _ _ _ hc | cancelled _ _ _ _ _ _ _ _ hc => rcases hc with ⟨⟨⟩, _⟩ | ⟨_, ⟨⟩, _⟩

theorem completion_effect (t : Instant) (j : String) (x : Int) (out e : PyStr) (err : Option PyStr) :
    (completion t j x out e err).effect =
      Job.complete t (if x = 0 ∧ PyStr.truthy err = false then .succeeded else .failed) x out e
        (if PyStr.truthy err then err else none) := by
  rw [completion]
  cases herr : PyStr.truthy err with
  | true => simp [Op.effect]
  | false => by_cases hx : x = 0 <;> simp [hx, Op.effect]

theorem truthy_error (err : Option PyStr) :
    (if PyStr.truthy err then err else none) = err ↔ err ≠ some (.text "") := by
  cases err with
  | none => simp
  | some e => by_cases he : e = .text "" <;> simp [he]

/-- A bindable result is stored with all its data if and only if the job is
running and the error is not the empty text. -/
theorem completion_hasResult {t : Instant} {jobs : JobTable} {job : Job} (hj : record j jobs = some job)
    (hx : bindableResult x out e err = true) (hopen : job.state.isTerminal = false) :
    HasResult j x out e err (stored (completion t j x out e err) jobs) ↔
      job.state = .running ∧ err ≠ some (.text "") := by
  have hrec :
      record j (stored (completion t j x out e err) jobs) =
        some ((completion t j x out e err).effect job) :=
    record_completion hx hj
  rw [completion_effect] at hrec
  by_cases hrun : job.state = .running
  · rw [Job.complete, if_pos hrun] at hrec
    constructor
    · rintro ⟨b, hb, _, _, _, _, herr⟩
      cases hrec.symm.trans hb
      exact ⟨hrun, (truthy_error err).mp herr⟩
    · rintro ⟨_, herr⟩
      exact ⟨_, hrec, rfl, rfl, rfl, rfl, (truthy_error err).mpr herr⟩
  · rw [Job.complete_of_ne hrun] at hrec
    refine ⟨?_, fun h => absurd h.1 hrun⟩
    rintro ⟨b, hb, hst, _⟩
    cases hrec.symm.trans hb
    rw [hst] at hopen
    split at hopen <;> cases hopen

end Server

def Known (j : String) (jobs : JobTable) : Prop :=
  ∃ job, record j jobs = some job ∧ (job.state = .running ∨ job.state.isTerminal = true)

theorem Op.effect_known {job : Job} (op : Op) (h : job.state = .running ∨ job.state.isTerminal = true) :
    (op.effect job).state = .running ∨ (op.effect job).state.isTerminal = true := by
  rw [effect_state]
  generalize job.state = a at h ⊢
  cases op <;> cases a <;> simp_all [next]

theorem Server.known_step {cfg : Config} {s t : Server} {label : Label} {j : String} (hv : View cfg s label t)
    (h : Known j s.jobs) : Known j t.jobs := by
  obtain ⟨a, ha, hstate⟩ := h
  rcases view_record hv ha with hb | ⟨op, _, _, hb⟩
  · exact ⟨a, hb, hstate⟩
  · exact ⟨_, hb, op.effect_known hstate⟩

def AgentFrame.announced : AgentFrame → Option String
  | .started j => some j
  | _ => none

namespace System

variable {cfg : Config} {agentId : String} {s s' : System} {label : SystemLabel} {j : String}

/-- The announcement that the container of job `j` was started is still to be sent, or it is on its way to a handler
that has not ended. -/
def Heralded (j : String) (s : System) : Prop :=
  s.agent.main.toAnnounce = some j ∨ ∃ c, (c, .started j) ∈ s.agent.wire ∧ (s.server.handlers c).isSome = true

def isOver (s : System) (j : String) : Bool := (record j s.server.jobs).any (·.state.isTerminal)

/-- Every container that is started is announced to a handler that processes it: a start fails, a process or a session
ends before the announcement is out, and a handler ends before it has come in, only when the job is over. -/
def announcesStarts (s : System) (label : SystemLabel) : Bool :=
  match label, s.agent.main with
  | .agent (.startReturned (.failed _ _)), .starting _ j _ _ => s.isOver j
  | .agent (.crashed left), .starting _ j _ _ => left.all (fun status => status = .created) || s.isOver j
  | .agent (.crashed _), .announcing _ j _ | .agent (.sendFailed false), .announcing _ j _ => s.isOver j
  | .agent .sent, .announcing c j _ | .agent (.sendFailed true), .announcing c j _ =>
      (s.server.handlers c).isSome || s.isOver j
  | .server (.handlerEnd c), _ => s.agent.wire.all fun e => e.1 ≠ c || e.2.announced.all s.isOver
  | _, _ => true

theorem known_of_isOver (h : s.isOver j = true) : Known j s.server.jobs := by
  obtain ⟨job, hjob, hstate⟩ := (Option.any_eq_true _ _).mp h
  exact ⟨job, hjob, .inr hstate⟩

theorem known_of_delivers (hA : Announced agentId s) {c : ConnId} {wire : Channel ConnId AgentFrame} {t : Server}
    (hr : s.agent.wire.receive c = some (.started j, wire))
    (hv : Server.View cfg s.server (.frame c (some (.started j))) t) : Known j t.jobs := by
  obtain ⟨job, hjob, hover | ⟨_, hrun⟩⟩ := hA.delivers hr hv
  · exact Server.known_step hv ⟨job, hjob, .inr hover⟩
  · obtain ⟨b, hb, hstate⟩ := Option.map_eq_some_iff.mp hrun
    exact ⟨b, hb, .inl hstate⟩

theorem heralded_main (hann : s.announcesStarts label = true) (h : step cfg agentId label s = some s')
    (hj : s.agent.main.toAnnounce = some j) : Heralded j s' ∨ Known j s'.server.jobs := by
  obtain ⟨c, id, hm⟩ : ∃ c id, s.agent.main = .announcing c j id := by
    cases hm : s.agent.main <;> rw [hm] at hj <;> cases hj
    exact ⟨_, _, rfl⟩
  cases step_view h with
  | server | deliver => exact .inl (.inl hj)
  | connect t hoff =>
      cases hm.symm.trans hoff
  | agent l a =>
      obtain ⟨b, hstep, hb⟩ := Option.map_eq_some_iff.mp h
      obtain rfl : b = a := congrArg System.agent hb
      rcases Agent.step_announcing hm hstep with hsame | ⟨rfl | rfl, hmem⟩ | rfl | ⟨left, rfl⟩
      · exact .inl (.inl (by rw [hsame]; exact hj))
      · simp only [announcesStarts, hm, Bool.or_eq_true] at hann
        exact hann.imp (fun halive => .inr ⟨c, hmem, halive⟩) known_of_isOver
      · simp only [announcesStarts, hm, Bool.or_eq_true] at hann
        exact hann.imp (fun halive => .inr ⟨c, hmem, halive⟩) known_of_isOver
      · simp only [announcesStarts, hm] at hann
        exact .inr (known_of_isOver hann)
      · simp only [announcesStarts, hm] at hann
        exact .inr (known_of_isOver hann)

theorem heralded_wire (hA : Announced agentId s) (hann : s.announcesStarts label = true)
    (h : SystemView cfg agentId s label s') {c : ConnId} (hmem : (c, .started j) ∈ s.agent.wire)
    (halive : (s.server.handlers c).isSome = true) : Heralded j s' ∨ Known j s'.server.jobs := by
  cases h with
  | server l t ho hv =>
      rcases Server.view_handlers_end hv halive with halive | rfl
      · exact .inl (.inr ⟨c, hmem, halive⟩)
      · have hover := List.all_eq_true.mp hann _ hmem
        rw [AgentFrame.announced, Option.all_some] at hover
        exact .inr (Server.known_step hv (known_of_isOver (by simpa using hover)))
  | connect t hm hv =>
      rcases Server.view_handlers_end hv halive with halive | hl
      · exact .inl (.inr ⟨c, hmem, halive⟩)
      · cases hl
  | deliver c' f wire t hr hv =>
      rcases Channel.eq_or_mem_of_receive hr hmem with he | hmem
      · cases he
        exact .inr (known_of_delivers hA hr hv)
      · rcases Server.view_handlers_end hv halive with halive | hl
        · exact .inl (.inr ⟨c, hmem, halive⟩)
        · cases hl
  | agent l a hf => exact .inl (.inr ⟨c, hf.keeps hmem, halive⟩)

/-- Every job of which the agent can still report something is announced, or the server knows of it. -/
structure Reported (agentId : String) (s : System) : Prop where
  announced : Announced agentId s
  backed : s.agent.Backed fun j => Heralded j s ∨ Known j s.server.jobs

/-- An announcement is on its way until it is processed, and what the server knows it does not forget. -/
theorem Reported.follows (hR : Reported agentId s) (hann : s.announcesStarts label = true)
    (h : step cfg agentId label s = some s') (hj : Heralded j s ∨ Known j s.server.jobs) :
    Heralded j s' ∨ Known j s'.server.jobs := by
  rcases hj with (hmain | ⟨c, hmem, halive⟩) | hknown
  · exact heralded_main hann h hmain
  · exact heralded_wire hR.announced hann (step_view h) hmem halive
  · right
    rcases view_own (step_view h) with he | ⟨l, hv, _⟩
    · rw [he]
      exact hknown
    · exact Server.known_step hv hknown

theorem begins_heralded {l : AgentLabel} (hann : s.announcesStarts (.agent l) = true)
    (h : step cfg agentId (.agent l) s = some s') (hj : s.agent.begins l = some j) :
    Heralded j s' ∨ Known j s'.server.jobs := by
  obtain ⟨a, ha, rfl⟩ := Option.map_eq_some_iff.mp h
  cases l with
  | startReturned outcome =>
      obtain ⟨c, image, command, hm⟩ : ∃ c image command, s.agent.main = .starting c j image command := by
        rw [Agent.begins] at hj
        cases hm : s.agent.main <;> rw [hm] at hj <;> cases hj
        · simp [Agent.step, hm] at ha
        · exact ⟨_, _, _, rfl⟩
      cases outcome with
      | started =>
          have hmain : a.main = .announcing c j s.agent.nextContainer := by
            simp only [Agent.step, hm, Agent.startReturned] at ha
            cases ha
            rfl
          exact .inl (.inl (by rw [hmain]; rfl))
      | failed error left =>
          simp only [announcesStarts, hm] at hann
          exact .inr (known_of_isOver hann)
  | crashed left =>
      rw [Agent.begins] at hj
      split at hj
      · next c k image command hm =>
          obtain ⟨hleft, ⟨⟩⟩ := Option.ite_none_right_eq_some.mp hj
          simp only [announcesStarts, hm] at hann
          obtain ⟨status, rfl, hlive⟩ := (Option.any_eq_true _ _).mp hleft
          have hover : s.isOver j = true := by simpa [of_decide_eq_true hlive] using hann
          exact .inr (known_of_isOver hover)
      · cases hj
  | _ => cases hj

theorem reported_step (hR : Reported agentId s) (hsafe : s.lockSafe label = true)
    (hclean : s.returnsClean cfg tokens label = true) (hread : s.readsSettled agentId label = true)
    (hann : s.announcesStarts label = true) (h : step cfg agentId label s = some s') : Reported agentId s' where
  announced := announced_step hR.announced hsafe hclean hread (step_view h)
  backed := by
    have hfollows := fun j => hR.follows (j := j) hann h
    cases label with
    | server l =>
        cases step_view h with
        | server => exact hR.backed.mono hfollows
    | connect =>
        cases step_view h with
        | connect => exact (hR.backed.mono hfollows).connected _
    | deliver c =>
        cases step_view h with
        | deliver _ f wire t hr => exact (hR.backed.mono hfollows).received fun e he => Channel.receive_subset hr he
    | agent l =>
        have hbegins := fun j => begins_heralded (j := j) hann h
        obtain ⟨a, ha, rfl⟩ := Option.map_eq_some_iff.mp h
        exact Agent.backed_step hR.backed ha hfollows hbegins

theorem reported_start (agentId : String) (jobs : JobTable) : Reported agentId (start jobs) :=
  ⟨announced_start agentId jobs, Agent.backed_start _⟩

/-- An announcement that is not processed yet finds its job dispatched. -/
theorem Announced.not_running (hA : Announced agentId s) (hj : Heralded j s) :
    ∃ job, record j s.server.jobs = some job ∧ job.state ≠ .running := by
  apply hA.waiting
  have hle := announcements_le j s
  have hpos : announcements j s ≠ 0 := by
    rw [announcements, Agent.unannounced]
    rcases hj with hm | ⟨c, hmem, halive⟩
    · rw [hm, atHand_some, if_pos rfl]
      omega
    · have hcount : 0 < s.agent.wire.countP (fun e => e.2.isStarted j && (s.server.handlers e.1).isSome) :=
        List.countP_pos_iff.mpr ⟨_, hmem, by simp [AgentFrame.isStarted, halive]⟩
      omega
  omega

theorem deliver_hasResult {c : ConnId} {x : Int} {out e : PyStr} {err : Option PyStr}
    {wire : Channel ConnId AgentFrame} {job : Job} (hframe : s.agent.wire.receive c = some (.result j x out e err, wire))
    (hjob : record j s.server.jobs = some job) (hopen : job.state.isTerminal = false)
    (hs : step cfg agentId (.deliver c) s = some s') :
    HasResult j x out e err s'.server.jobs ↔
      job.state = .running ∧ bindableResult x out e err = true ∧ err ≠ some (.text "") := by
  cases step_view hs with
  | deliver _ f wire' t hr hv =>
      cases hframe.symm.trans hr
      dsimp only
      rw [Server.view_result_jobs hv]
      cases hx : bindableResult x out e err with
      | true => simpa using Server.completion_hasResult hjob hx hopen
      | false =>
          refine ⟨?_, by simp⟩
          rintro ⟨b, hb, hst, _⟩
          cases hjob.symm.trans hb
          rw [hst] at hopen
          split at hopen <;> cases hopen

/-- In every run in which a requeue or a send that is not recorded takes back no job that the agent has, the agent
reads a job when its send has returned, and containers that are started are announced, a result that is processed for
an open job is recorded if and only if the announcement of its container has been processed before and the frame can be
stored as it is. -/
theorem results_recorded (cfg : Config) (agentId : String) (jobs : JobTable) {s s' : System}
    (h : (machine cfg agentId jobs).Run (fun s l => s.lockSafe l = true ∧ s.returnsClean cfg tokens l = true ∧
      s.readsSettled agentId l = true ∧ s.announcesStarts l = true) (start jobs) s)
    {c : ConnId} {j : String} {x : Int} {out e : PyStr} {err : Option PyStr} {wire : Channel ConnId AgentFrame}
    {job : Job} (hframe : s.agent.wire.receive c = some (.result j x out e err, wire))
    (hjob : record j s.server.jobs = some job) (hopen : job.state.isTerminal = false)
    (hs : step cfg agentId (.deliver c) s = some s') :
    HasResult j x out e err s'.server.jobs ↔
      ¬ Heralded j s ∧ bindableResult x out e err = true ∧ err ≠ some (.text "") := by
  have hR := h.invariant (I := Reported agentId)
    (fun s l t hI hP hs => reported_step hI hP.1 hP.2.1 hP.2.2.1 hP.2.2.2 hs) (reported_start agentId jobs)
  have hrun : job.state = .running ↔ ¬ Heralded j s := by
    constructor
    · rintro hrun hj
      obtain ⟨job', hjob', hne⟩ := hR.announced.not_running hj
      cases hjob.symm.trans hjob'
      exact hne hrun
    · intro hj
      obtain ⟨job', hjob', hor⟩ := (hR.backed.wire c j x out e err (Channel.mem_of_receive hframe)).resolve_left hj
      cases hjob.symm.trans hjob'
      exact hor.resolve_right (by rw [hopen]; exact Bool.false_ne_true)
  rw [← hrun]
  exact deliver_hasResult hframe hjob hopen hs

def announcedFirst : List SystemLabel :=
  dispatched ++ [.agent .read, .agent .sent, .agent (.startReturned .started), .agent .sent, .deliver 0, .deliver 0]

def foundLater : List SystemLabel :=
  [.agent (.crashed none), .agent (.exited 0 0 "done" ""), .connect, .agent .sent, .deliver 1, .server .run,
    .server .run, .agent (.listed true), .agent .examine, .agent (.inspected true), .agent .sent, .deliver 1]

/-- The container is announced, and its result is found by the next process of the agent. -/
theorem results_recorded_later : ∃ s s' wire job, (machine .default "agent-1" .empty).Run
      (fun s l => s.lockSafe l = true ∧ s.returnsClean .default tokens l = true ∧
        s.readsSettled "agent-1" l = true ∧ s.announcesStarts l = true) (start .empty) s ∧
    s.agent.wire.receive 1 = some (.result "job_1" 0 "done" "" none, wire) ∧
      record "job_1" s.server.jobs = some job ∧ job.state.isTerminal = false ∧
      step .default "agent-1" (.deliver 1) s = some s' ∧ HasResult "job_1" 0 "done" "" none s'.server.jobs := by
  have hexec : ((machine .default "agent-1" .empty).exec
      (fun s l => s.lockSafe l = true ∧ s.returnsClean .default tokens l = true ∧
        s.readsSettled "agent-1" l = true ∧ s.announcesStarts l = true)
      (announcedFirst ++ foundLater.dropLast) (start .empty)).any
      (fun s => decide (s.agent.wire.receive 1 = some (.result "job_1" 0 "done" "" none, []) ∧
        (record "job_1" s.server.jobs).map (·.state) = some .running ∧ s.agent.main.toAnnounce = none ∧
        (∀ e ∈ s.agent.wire, e.2.announced = none) ∧
        (step .default "agent-1" (.deliver 1) s).isSome = true)) = true := by decide +kernel
  obtain ⟨s, hrun, hframe, hst, hmain, hwire, hstep⟩ := Machine.exists_run _ _ hexec
  obtain ⟨job, hjob, hst⟩ := Option.map_eq_some_iff.mp hst
  obtain ⟨s', hs⟩ := Option.isSome_iff_exists.mp hstep
  have hopen : job.state.isTerminal = false := by rw [hst]; rfl
  have hiff := results_recorded .default "agent-1" .empty hrun hframe hjob hopen hs
  have hheralded : ¬ Heralded "job_1" s := by
    rintro (hm | ⟨c, hmem, _⟩)
    · cases hmain.symm.trans hm
    · cases hwire _ hmem
  exact ⟨s, s', [], job, hrun, hframe, hjob, hopen, hs, hiff.mpr ⟨hheralded, by decide, by decide⟩⟩

/-- The container of `job_1` cannot be started. The agent reports so without a
`started` before it, and the report finds the job dispatched. -/
theorem results_recorded_unrestricted_false :
    ∃ s s' wire, (machine .default "agent-1" .empty).Reachable s ∧
      .jobSent 0 "job_1" ∈ s.server.history ∧ .registered 0 "agent-1" ∈ s.server.history ∧
      s.agent.wire.receive 0 =
        some (.result "job_1" 1 "" "no such image" (some "no such image"), wire) ∧
      (record "job_1" s.server.jobs).map (·.state) = some .dispatched ∧
      step .default "agent-1" (.deliver 0) s = some s' ∧
      ¬ HasResult "job_1" 1 "" "no such image" (some "no such image") s'.server.jobs := by
  have hexec : ((machine .default "agent-1" .empty).exec (fun _ _ => True)
      (dispatched ++ [.agent .read, .agent .sent, .agent (.startReturned (.failed "no such image" none)),
        .agent .sent, .deliver 0]) (start .empty)).any
      (fun s => decide (.jobSent 0 "job_1" ∈ s.server.history ∧ .registered 0 "agent-1" ∈ s.server.history ∧
        s.agent.wire.receive 0 = some (.result "job_1" 1 "" "no such image" (some "no such image"), []) ∧
        (record "job_1" s.server.jobs).map (·.state) = some .dispatched ∧
        (step .default "agent-1" (.deliver 0) s).any fun s' =>
          decide ((record "job_1" s'.server.jobs).map (·.state) = some .dispatched))) = true := by decide +kernel
  obtain ⟨s, hrun, hsent, hreg, hframe, hst, hstep⟩ := Machine.exists_run _ _ hexec
  obtain ⟨s', hs, hst'⟩ := (Option.any_eq_true _ _).mp hstep
  refine ⟨s, s', [], hrun, hsent, hreg, hframe, hst, hs, ?_⟩
  rintro ⟨job, hjob, hfailed, _⟩
  have hst' := of_decide_eq_true hst'
  rw [hjob, Option.map_some, hfailed] at hst'
  exact absurd (Option.some.inj hst') (by decide)

end System

end JobSystem
