import JobSystem.Agent.Endings
import JobSystem.Repository.WellFormed
import JobSystem.System.Containers
import JobSystem.System.Results

namespace JobSystem

open Lib

namespace Job

def work (job : Job) : Work := ⟨job.jobId, job.image, job.command⟩

structure Blank (job : Job) : Prop where
  state : ¬ (job.state = .succeeded ∨ job.state = .failed)
  exitCode : job.exitCode = none
  stdout : job.stdout = ""
  stderr : job.stderr = ""
  error : job.error = none

structure Tells (job : Job) (r : JobResult) : Prop where
  state : job.state = if r.exitCode = 0 ∧ PyStr.truthy (r.error.map .text) = false then .succeeded else .failed
  exitCode : job.exitCode = some r.exitCode
  stdout : job.stdout = .text r.stdout
  stderr : job.stderr = .text r.stderr
  error : job.error = if PyStr.truthy (r.error.map .text) then r.error.map .text else none

/-- What a record may say of the outcome of its job, after the endings `g` at the agent. -/
inductive Accounted (g : List Ending) (job : Job) : Prop
  | blank (h : job.Blank)
  | ended (e : Ending) (he : e ∈ g) (hw : e.work = job.work) (h : job.Tells e.result)
  | unacknowledged (hs : job.state = .failed) (hx : job.exitCode = some 1) (ho : job.stdout = "")
      (he : job.stderr = "")

variable {g g' : List Ending} {job : Job}

theorem Accounted.mono (h : job.Accounted g) (hg : ∀ e ∈ g, e ∈ g') : job.Accounted g' := by
  cases h with
  | blank h => exact .blank h
  | ended e he hw h => exact .ended e (hg e he) hw h
  | unacknowledged hs hx ho he => exact .unacknowledged hs hx ho he

theorem Accounted.open_blank (h : job.Accounted g) (hopen : job.state.isTerminal = false) : job.Blank := by
  cases h with
  | blank h => exact h
  | ended e he hw h =>
      rw [h.state] at hopen
      split at hopen <;> cases hopen
  | unacknowledged hs =>
      rw [hs] at hopen
      cases hopen

/-- A job has succeeded only when a container of it has exited with 0, and shows what that container wrote. -/
theorem Accounted.succeeded (h : job.Accounted g) (hs : job.state = .succeeded) :
    ∃ out err, job.stdout = .text out ∧ job.stderr = .text err ∧ .exited job.work 0 out err ∈ g := by
  cases h with
  | blank h => exact absurd (.inl hs) h.state
  | ended e he hw h =>
      have hstate := hs.symm.trans h.state
      split at hstate
      · next hzero =>
          cases e with
          | exited w x out err =>
              have hresult : (Ending.exited w x out err).result = jobResult w.jobId x out err none := rfl
              have hx : x = 0 := by
                have hcode := hzero.1
                rw [hresult, jobResult] at hcode
                split at hcode <;> exact hcode
              have hplain : (Ending.exited w x out err).result = ⟨w.jobId, 0, out, err, none⟩ := by
                rw [hresult, hx]
                rfl
              have hout : job.stdout = .text out := by rw [h.stdout, hplain]
              have herr : job.stderr = .text err := by rw [h.stderr, hplain]
              refine ⟨out, err, hout, herr, ?_⟩
              rw [← hx, ← hw]
              exact he
          | notStarted w error => cases hzero.1
      · cases hstate
  | unacknowledged hf => cases hs.symm.trans hf

theorem Blank.transition (h : job.Blank) (t : Instant) (a : JobState) {n : JobState}
    (hn : ¬ (n = .succeeded ∨ n = .failed)) : (job.transition t a n).Blank := by
  rw [Job.transition]
  split
  · exact ⟨hn, h.exitCode, h.stdout, h.stderr, h.error⟩
  · exact h

theorem tells_complete (hrun : job.state = .running) (t : Instant) (r : JobResult) :
    ((Server.completion t r.jobId r.exitCode r.stdout r.stderr (r.error.map .text)).effect job).Tells r := by
  rw [Server.completion_effect, Job.complete, if_pos hrun]
  exact ⟨rfl, rfl, rfl, rfl, rfl⟩

end Job
namespace Op

variable {g : List Ending} {op : Op} {job : Job}

theorem effect_work (op : Op) (job : Job) : (op.effect job).work = job.work := by
  obtain ⟨_, _, _, _, _, _, _, _, _, h⟩ := op.effect_eq job
  rw [h]
  rfl

theorem created_blank {b : Job} (h : b ∈ op.created) : b.Blank := by
  cases op <;> cases h
  refine ⟨?_, rfl, rfl, rfl, rfl⟩
  rintro (h | h) <;> cases h

/-- Operations other than the completions write no outcome of their own, but for a job that is given up. -/
theorem effect_accounted (hop : op.exitCode = none) (h : job.Accounted g) : (op.effect job).Accounted g := by
  cases hopen : job.state.isTerminal with
  | true =>
      rw [op.effect_terminal hopen]
      exact h
  | false =>
      have hblank := h.open_blank hopen
      cases op with
      | submit => exact h
      | markDispatched t | markRunning t | markTimedOut t | requeue t =>
          exact .blank (hblank.transition t _ (by rintro (h | h) <;> cases h))
      | markDispatchedWithAttempt t₁ t₂ j =>
          rw [effect, Job.dispatch]
          split
          · refine .blank ⟨?_, hblank.exitCode, hblank.stdout, hblank.stderr, hblank.error⟩
            rintro (h | h) <;> cases h
          · exact h
      | markSucceeded | markFailed => cases hop
      | markCancelled t j =>
          rw [effect, Job.cancel]
          split
          · exact h
          · exact .blank (hblank.transition t _ (by rintro (h | h) <;> cases h))
      | failStaleDispatch t₁ t₂ j error =>
          rw [effect, Job.failStale]
          split
          · exact h
          · exact .unacknowledged rfl rfl hblank.stdout hblank.stderr

end Op

def Ordered (jobs : JobTable) (w : Work) : Prop := ∃ job, record w.jobId jobs = some job ∧ job.work = w

namespace Server

variable {cfg : Config} {s t : Server} {label : Label} {g : List Ending} {w : Work}

theorem work_of_leads {a b : Job} (h : a.Leads b) : b.work = a.work := by
  have hwork : ∀ job : Job, job.submitted.work = job.work := fun job => rfl
  rw [← hwork b, h.submitted, hwork a]

theorem ordered_step (h : View cfg s label t) (hw : Ordered s.jobs w) : Ordered t.jobs w := by
  obtain ⟨a, ha, rfl⟩ := hw
  obtain ⟨b, hb, hab⟩ := view_leads h ha
  exact ⟨b, hb, work_of_leads hab⟩

/-- The agent is told to run what was submitted. -/
def Orders (s : Server) : Prop := ∀ c f w, f ∈ s.outbox c → f.work = some w → Ordered s.jobs w

theorem orders_step (hO : Orders s) (h : View cfg s label t) : Orders t := by
  intro c f w hf hw
  rcases view_outbox h c with he | ⟨a, o, f', he, -, -, hnew⟩
  · rw [he] at hf
    exact ordered_step h (hO c f w hf hw)
  · rw [he] at hf
    rcases List.mem_append.mp hf with hold | hf
    · exact ordered_step h (hO c f w hold hw)
    · rw [List.mem_singleton.mp hf] at hw
      rcases hnew with ⟨j, reason, rfl⟩ | ⟨co, l, job, k, rfl, -, hbegun⟩
      · cases hw
      · cases hw
        exact ordered_step h ⟨job, (pending_head hbegun.pending).1, rfl⟩

theorem performs_exitCode {op : Op} (h : Performs cfg s label op) (hx : op.exitCode ≠ none) :
    ∃ c j x o e err, label = .frame c (some (.result j x o e err)) ∧ ∃ u, op = completion u j x o e err := by
  cases h with
  | result c j x o e err u => exact ⟨c, j, x, o, e, err, rfl, u, rfl⟩
  | _ => exact absurd rfl hx

theorem accounted_step (h : View cfg s label t) (hA : ∀ j job, record j s.jobs = some job → job.Accounted g)
    (hres : ∀ c j x o e err, label = .frame c (some (.result j x o e err)) →
      ∃ en ∈ g, en.result.frame = .result j x o e err ∧ Ordered s.jobs en.work) :
    ∀ j job, record j t.jobs = some job → job.Accounted g := by
  intro j b hb
  rcases view_jobs h with hjobs | ⟨op, hjobs, hperf⟩
  · rw [hjobs] at hb
    exact hA j b hb
  · rw [hjobs] at hb
    rcases SQLiteJobRepository.after_origin op s.jobs j b hb with ha | ⟨htarget, a, ha, rfl⟩ | ⟨hnew, -⟩
    · exact hA j b ha
    · by_cases hx : op.exitCode = none
      · exact op.effect_accounted hx (hA j a ha)
      · obtain ⟨c, k, x, o, err, error, hl, u, rfl⟩ := performs_exitCode hperf hx
        obtain ⟨e, he, hframe, a', ha', hwork⟩ := hres c k x o err error hl
        cases hframe
        obtain rfl : e.result.jobId = j := Option.some.inj ((completion_target u _ _ _ _ _).symm.trans htarget)
        rw [← e.result_jobId] at ha'
        cases ha.symm.trans ha'
        by_cases hrun : a.state = .running
        · exact .ended e he (hwork.symm.trans (Op.effect_work _ a).symm) (Job.tells_complete hrun u e.result)
        · rw [completion_effect, Job.complete_of_ne hrun]
          exact hA _ a ha
    · exact .blank (Op.created_blank hnew)

end Server

namespace System

variable {cfg : Config} {agentId : String} {s t : System} {label : SystemLabel} {g : List Ending}

def witnesses (s : System) (label : LifeLabel) (t : System) (g : List Ending) : List Ending :=
  match label with
  | .step (.agent l) => s.agent.endings l t.agent ++ g
  | _ => g

def witnessing (cfg : Config) (agentId : String) (jobs : JobTable) : Machine (System × List Ending) LifeLabel :=
  (lives cfg agentId jobs).observed [] witnesses

/-- From a submission to the agent and back, nothing is made up. -/
structure Witnessed (g : List Ending) (s : System) : Prop where
  agent : s.agent.Genuine (Ordered s.server.jobs) g
  orders : s.server.Orders
  records : ∀ j job, record j s.server.jobs = some job → job.Accounted g

theorem witnessed_server (hW : Witnessed g s) {l : Label} {u : Server} (hv : Server.View cfg s.server l u)
    (hres : ∀ c j x o e err, l = .frame c (some (.result j x o e err)) → (c, .result j x o e err) ∈ s.agent.wire) :
    Witnessed g { s with server := u } where
  agent := hW.agent.mono fun w hw => Server.ordered_step hv hw
  orders := Server.orders_step hW.orders hv
  records := by
    refine Server.accounted_step hv hW.records fun c j x o err error hl => ?_
    obtain ⟨e, he, her⟩ := hW.agent.wire c j x o err error (hres c j x o err error hl)
    exact ⟨e, he, her, hW.agent.endings e he⟩

theorem witnessed_step (hW : Witnessed g s) (h : step cfg agentId label s = some t) :
    Witnessed (witnesses s (.step label) t g) t := by
  cases label with
  | server l =>
      obtain ⟨hown, h⟩ := Option.ite_none_right_eq_some.mp h
      obtain ⟨u, hu, rfl⟩ := Option.map_eq_some_iff.mp h
      refine witnessed_server hW (Server.step_view hu) ?_
      rintro c j x o e err rfl
      cases hown
  | connect =>
      cases step_view h with
      | connect u hm hv =>
          have hserver : Witnessed g { s with server := u } :=
            witnessed_server hW hv (by rintro c j x o e err ⟨⟩)
          exact ⟨hserver.agent.connected _, hserver.orders, hserver.records⟩
  | deliver c =>
      cases step_view h with
      | deliver _ f wire u hr hv =>
          have hserver : Witnessed g { s with server := u } := by
            refine witnessed_server hW hv ?_
            rintro c' j x o e err hl
            cases hl
            exact Channel.mem_of_receive hr
          refine ⟨hserver.agent.received fun e he => Channel.receive_subset hr he, hserver.orders, hserver.records⟩
  | agent l =>
      obtain ⟨a, ha, rfl⟩ := Option.map_eq_some_iff.mp h
      have hin : ∀ c f w, (s.server.outbox c)[s.agent.read]? = some f → f.work = some w → Ordered s.server.jobs w :=
        fun c f w hf hw => hW.orders c f w (List.mem_of_getElem? hf) hw
      refine ⟨Agent.genuine_step hW.agent hin ha, hW.orders, fun j job hj => ?_⟩
      exact (hW.records j job hj).mono fun e he => List.mem_append_right _ he

theorem witnessed_lifeStep {label : LifeLabel} (hW : Witnessed g s) (h : lifeStep cfg agentId label s = some t) :
    Witnessed (witnesses s label t g) t := by
  cases label with
  | step l => exact witnessed_step hW h
  | died =>
      cases h
      exact ⟨hW.agent, hW.orders, hW.records⟩

/-- Through any interleaving, all reconnects and crashes and all lives of the server, a record tells of its job only
what happened to a container that ran the image and the command submitted for it, or that none was started, or that
the server has given it up. A job has `SUCCEEDED` only when such a container exited with 0, and its output is that
container's. -/
theorem outcomes_witnessed (cfg : Config) (agentId : String) {jobs : JobTable}
    (hjobs : ∀ j job, record j jobs = some job → job.Blank) {p : System × List Ending}
    (hp : (witnessing cfg agentId jobs).Reachable p) {j : String} {job : Job}
    (hj : record j p.1.server.jobs = some job) :
    job.Accounted p.2 ∧ (job.state = .succeeded →
      ∃ out err, job.stdout = .text out ∧ job.stderr = .text err ∧ .exited job.work 0 out err ∈ p.2) := by
  have hstart : Witnessed [] (start jobs) := by
    refine ⟨Agent.genuine_start _, ?_, fun j job hj => .blank (hjobs j job hj)⟩
    rintro c f w ⟨⟩
  have hW : Witnessed p.2 p.1 := by
    refine Machine.Run.invariant (I := fun p : System × List Ending => Witnessed p.2 p.1) ?_ hp hstart
    rintro u l v hu - hst
    obtain ⟨hst, hghost⟩ := Machine.observed_step.mp hst
    rw [hghost]
    exact witnessed_lifeStep hu hst
  exact ⟨hW.records j job hj, (hW.records j job hj).succeeded⟩

def reportedLater : List LifeLabel := announcedFirst.map .step ++ [.died] ++ foundLater.map .step

theorem outcomes_witnessed_later : ∃ p job, (witnessing .default "agent-1" .empty).Reachable p ∧
    record "job_1" p.1.server.jobs = some job ∧ job.state = .succeeded ∧ job.stdout = "done" ∧ job.Accounted p.2 ∧
      (job.state = .succeeded →
        ∃ out err, job.stdout = .text out ∧ job.stderr = .text err ∧ .exited job.work 0 out err ∈ p.2) := by
  have hexec : ((witnessing .default "agent-1" .empty).exec (fun _ _ => True) reportedLater
      (witnessing .default "agent-1" .empty).init).any (fun p => decide
        ((record "job_1" p.1.server.jobs).map (fun job => (job.state, job.stdout)) =
          some (JobState.succeeded, PyStr.text "done"))) = true := by
    decide +kernel
  obtain ⟨p, hp, hrec⟩ := Machine.exists_run _ _ hexec
  obtain ⟨job, hjob, hdone⟩ := Option.map_eq_some_iff.mp hrec
  obtain ⟨hstate, hout⟩ := Prod.mk.inj hdone
  exact ⟨p, job, hp, hjob, hstate, hout, outcomes_witnessed .default "agent-1" (by rintro j a ⟨⟩) hp hjob⟩

end System

end JobSystem
