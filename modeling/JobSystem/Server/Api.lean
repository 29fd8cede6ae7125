import JobSystem.Logs.Durable
import JobSystem.Server.Audit
import JobSystem.Server.Restart

namespace JobSystem

open Lib

structure HTTPException where
  statusCode : Nat
  detail : String
  deriving DecidableEq

abbrev Body := List (String × Json)

def Job.toResult (job : Job) : Body :=
  [("jobId", .str job.jobId), ("state", .str job.state.value), ("exitCode", job.exitCode.elim .null .int),
    ("error", job.error.elim .null .str), ("stdout", .str job.stdout), ("stderr", .str job.stderr)]

def Event.entry (e : Event) : Body :=
  [("eventType", .str e.eventType), ("payload", .obj e.payload), ("createdAt", .str e.createdAt.isoformat)]

namespace Body

def progress : List String :=
  ["state", "exitCode", "error", "updatedAt", "startedAt", "finishedAt", "dispatchAttempts"]

def request (body : Body) : Body := body.filter fun field => field.1 ∉ progress

def Shows (body : Body) (q : JobState) : Prop := body.lookup "state" = some (.str q.value)

end Body

namespace Server

def lookUp (jobId : String) (s : Server) : Except HTTPException Job :=
  match JobService.get sqliteJobRepository jobId s.jobs with
  | none => .error ⟨404, "Job not found"⟩
  | some job => .ok job

def getJob (jobId : String) (s : Server) : Except HTTPException Body := (s.lookUp jobId).map Job.toDict

def getResult (jobId : String) (s : Server) : Except HTTPException Body := (s.lookUp jobId).map Job.toResult

def getLogs (jobId : String) (stream : Option String) (rows : List LogRow) (s : Server) :
    Except HTTPException String :=
  (s.lookUp jobId).map fun _ =>
    String.join ((SQLiteLogRepository.listForJob jobId stream rows).map LogRow.chunk)

def getEvents (jobId : String) (s : Server) : Except HTTPException (List Body) :=
  (s.lookUp jobId).map fun _ => (s.events.filter fun e => e.jobId = jobId).map Event.entry

def getJobs (agentId : Option String) (s : Server) : Except AttributeError (List Body) :=
  listJobs (fun a q => SQLiteJobRepository.listAny a q s.jobs) agentId none

def checkCancel (jobId : String) (s : Server) : Except HTTPException Job :=
  (s.lookUp jobId).bind fun job =>
    if job.state.isTerminal then .error ⟨409, "Job is already " ++ job.state.value⟩ else .ok job

/-- What a client can rely on who has read the record of `j` from the server in the state `s`, and
asks again in the state `t`. -/
structure ReadAgain (j : String) (s t : Server) (body : Body) : Prop where
  job : ∃ later q q', t.getJob j = .ok later ∧ later.request = body.request ∧ body.Shows q ∧ later.Shows q' ∧
    Relation.ReflTransGen JobState.Edge q q'
  final : ∀ q, body.Shows q → q.isTerminal = true → t.getJob j = .ok body ∧ t.getResult j = s.getResult j ∧
    t.checkCancel j = .error ⟨409, "Job is already " ++ q.value⟩ ∧ ∀ n, t.cancelJob n j = t
  events : ∃ before after, s.getEvents j = .ok before ∧ t.getEvents j = .ok (before ++ after)
  listed : ∀ agentId list, s.getJobs agentId = .ok list → body ∈ list →
    ∃ later list', t.getJob j = .ok later ∧ t.getJobs agentId = .ok list' ∧ later ∈ list'

section Reads

variable {cfg : Config} {jobs : JobTable} {s t : Server} {j : String} {job : Job}

theorem lookUp_iff : s.lookUp j = .ok job ↔ record j s.jobs = some job := by
  rw [lookUp, record, JobService.get]
  cases sqliteJobRepository.get j s.jobs <;> simp

theorem cancelJob_eq (n : Nat) (jobId : String) (s : Server) :
    s.cancelJob n jobId =
      match s.checkCancel jobId with
      | .error _ => s
      | .ok job => s.goto (.api n) (.sendCancel job (.user n)) := by
  rw [cancelJob, checkCancel, lookUp]
  cases JobService.get sqliteJobRepository jobId s.jobs with
  | none => rfl
  | some job => cases h : job.state.isTerminal <;> simp [h, Except.bind]

theorem shows_toDict {q : JobState} : Body.Shows job.toDict q ↔ q = job.state := by
  have hlookup : List.lookup "state" job.toDict = some (.str job.state.value) := rfl
  rw [Body.Shows, hlookup, Option.some_inj, Json.str.injEq, PyStr.text.injEq, JobState.value_injective.eq_iff]
  exact eq_comm

theorem request_toDict (job : Job) : Body.request job.toDict = Body.request job.submitted.toDict := by
  simp [Body.request, Body.progress, Job.toDict, Job.submitted]

theorem request_of_leads {a b : Job} (h : a.Leads b) : Body.request b.toDict = Body.request a.toDict := by
  rw [request_toDict b, request_toDict a, h.submitted]

theorem getJob_eq (h : record j s.jobs = some job) : s.getJob j = .ok job.toDict := by
  rw [getJob, lookUp_iff.mpr h]
  rfl

theorem getJob_iff {body : Body} :
    s.getJob j = .ok body ↔ ∃ job, record j s.jobs = some job ∧ job.toDict = body := by
  constructor
  · intro h
    rw [getJob] at h
    cases hjob : s.lookUp j with
    | error e => rw [hjob] at h; cases h
    | ok job =>
        rw [hjob] at h
        exact ⟨job, lookUp_iff.mp hjob, Except.ok.inj h⟩
  · rintro ⟨job, hjob, rfl⟩
    exact getJob_eq hjob

theorem getResult_eq (h : record j s.jobs = some job) : s.getResult j = .ok job.toResult := by
  rw [getResult, lookUp_iff.mpr h]
  rfl

theorem getEvents_eq (h : record j s.jobs = some job) :
    s.getEvents j = .ok ((s.events.filter fun e => e.jobId = j).map Event.entry) := by
  rw [getEvents, lookUp_iff.mpr h]
  rfl

theorem checkCancel_final (h : record j s.jobs = some job) (hq : job.state.isTerminal = true) :
    s.checkCancel j = .error ⟨409, "Job is already " ++ job.state.value⟩ := by
  rw [checkCancel, lookUp_iff.mpr h]
  exact if_pos hq

theorem getJobs_eq (agentId : Option String) (s : Server) :
    s.getJobs agentId = .ok ((JobService.list sqliteJobRepository agentId none s.jobs).map Job.toDict) := by
  rw [getJobs, listJobs, Option.map_none]
  have hlist : SQLiteJobRepository.listAny agentId none s.jobs = .ok (SQLiteJobRepository.list agentId none s.jobs) :=
    SQLiteJobRepository.listAny_member agentId none s.jobs
  rw [hlist]
  rfl

theorem toDict_names {a b : Job} (h : a.toDict = b.toDict) : a.jobId = b.jobId ∧ a.agentId = b.agentId := by
  simp only [Job.toDict, List.cons.injEq, Prod.mk.injEq, Json.str.injEq, PyStr.text.injEq, true_and] at h
  exact ⟨h.1, h.2.1⟩

theorem restart_events {label : RestartLabel} (h : restartStep cfg label s = some t) : s.events <+: t.events := by
  have hstep : ∀ {l : Label} {u : Server}, step cfg l s = some u → s.events <+: u.events := by
    intro l u hst
    have hlogs := step_logs hst
    generalize u.jobs = T, u.events = es at hlogs ⊢
    cases hlogs with
    | silent | refused => exact List.prefix_rfl
    | noted | reported | told => exact List.prefix_append _ _
  rcases restart_cases h with ⟨l, -, hst⟩ | ⟨-, rfl⟩ | ⟨l, u, -, hst, rfl⟩
  · exact hstep hst
  · exact List.prefix_rfl
  · exact List.prefix_rfl

theorem run_events (h : (restarting cfg jobs).Run (fun _ _ => True) s t) : s.events <+: t.events := by
  refine h.invariant (I := fun u => s.events <+: u.events) ?_ List.prefix_rfl
  rintro u l v hu - hst
  exact hu.trans (restart_events hst)

def cancelledLate : List RestartLabel := [.died, .step (.cancel 7 "job_1"), .step (.tick .epoch)]

end Reads

end Server

end JobSystem
