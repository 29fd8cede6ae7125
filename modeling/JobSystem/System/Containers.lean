import JobSystem.Server.Restart
import JobSystem.System.Execution

namespace JobSystem

open Lib

theorem Op.effect_dispatched {op : Op} {job : Job} (hp : job.state = .pending)
    (hd : (op.effect job).state = .dispatched) :
    (∃ t j, op = .markDispatched t j) ∨ ∃ t t' j, op = .markDispatchedWithAttempt t t' j := by
  rw [effect_state, hp] at hd
  cases op with
  | markDispatched t j => exact .inl ⟨t, j, rfl⟩
  | markDispatchedWithAttempt t t' j => exact .inr ⟨t, t', j, rfl⟩
  | _ => cases hd

namespace Server

def returns (s : Server) : Label → Option String
  | .sendReturned co _ =>
      match s.ctl co with
      | some (.sending _ _ job _) => some job.jobId
      | _ => none
  | _ => none

def Dispatches (j : String) (s t : Server) : Prop :=
  stateOf j s.jobs = some .pending ∧ stateOf j t.jobs = some .dispatched

instance (j : String) (s t : Server) : Decidable (Dispatches j s t) := inferInstanceAs (Decidable (_ ∧ _))

def Alone (s : Server) : Prop :=
  ∀ co co' l l' o o' job job' k k', s.ctl co = some (.sending l o job k) → s.ctl co' = some (.sending l' o' job' k') →
    job.jobId = job'.jobId → co = co'

section Steps

variable {cfg : Config} {s t : Server} {label : Label} {j : String}

theorem performs_sent {t₁ t₂ : Instant} (h : Performs cfg s label (.markDispatchedWithAttempt t₁ t₂ j)) :
    ∃ co l o job k, label = .sendReturned co .sent ∧ s.ctl co = some (.sending l o job k) ∧ job.jobId = j := by
  generalize hop : Op.markDispatchedWithAttempt t₁ t₂ j = op at h
  cases h with
  | result _ k x o e err t' =>
      rcases completion_cases t' k x o e err with ⟨_, he⟩ | he <;> rw [he] at hop <;> cases hop
  | sent co l o job k t t' hc =>
      cases hop
      exact ⟨co, l, o, job, k, rfl, hc, rfl⟩
  | _ => cases hop

theorem view_dispatches (h : View cfg s label t) (hd : Dispatches j s t) : s.returns label = some j := by
  obtain ⟨a, ha, hp⟩ := Option.map_eq_some_iff.mp hd.1
  obtain ⟨b, hb, hdisp⟩ := Option.map_eq_some_iff.mp hd.2
  rcases view_record h ha with hk | ⟨op, htarget, hperf, hk⟩
  · cases hb.symm.trans hk
    cases hp.symm.trans hdisp
  · cases hb.symm.trans hk
    rcases Op.effect_dispatched hp hdisp with ⟨_, _, rfl⟩ | ⟨t₁, t₂, k, rfl⟩
    · exact absurd rfl (performs_dispatch hperf _ _)
    · obtain rfl : k = j := Option.some.inj htarget
      obtain ⟨co, l, o, job, k', rfl, hc, rfl⟩ := performs_sent hperf
      rw [returns, hc]

theorem returns_sending {co : Coro} {out : SendOutcome} {l : LockRef} {o : ObjId} {job : Job} {k : Return}
    (hc : s.ctl co = some (.sending l o job k)) : s.returns (.sendReturned co out) = some job.jobId := by
  rw [returns, hc]

theorem sending_of_returns (h : s.returns label = some j) :
    ∃ co out l o job k, label = .sendReturned co out ∧ s.ctl co = some (.sending l o job k) ∧ job.jobId = j := by
  cases label with
  | sendReturned co out =>
      rw [returns] at h
      split at h
      · next l o job k hc => exact ⟨co, out, l, o, job, k, rfl, hc, Option.some.inj h⟩
      · cases h
  | _ => cases h

theorem sending_next (h : View cfg s label t) (hS : Sending j s) : Sending j t ∨ s.returns label = some j := by
  obtain ⟨co, l, o, job, k, hc, rfl⟩ := hS
  rcases view_sending_next h hc with hc' | ⟨out, rfl, -⟩
  · exact .inl ⟨co, l, o, job, k, hc', rfl⟩
  · exact .inr (returns_sending hc)

theorem sending_before (h : View cfg s label t) (hS : Sending j t) : Sending j s ∨ Begins j s t := by
  obtain ⟨co, l, o, job, k, hc, rfl⟩ := hS
  rcases view_sending h hc with hc' | hb
  · exact .inl ⟨co, l, o, job, k, hc', rfl⟩
  · exact .inr ⟨co, l, o, job, k, hb.locked, hb.entry, hb.pending, rfl, hb.jobs, hc⟩

theorem not_sending_of_returns (hA : Alone s) (h : View cfg s label t) (hr : s.returns label = some j) :
    ¬ Sending j t := by
  obtain ⟨u, out, l', o', job', k', rfl, hu, rfl⟩ := sending_of_returns hr
  rintro ⟨co, l, o, job, k, hc, hj⟩
  rcases view_sending h hc with hc' | hb
  · obtain rfl := hA co u l l' o o' job job' k k' hc' hu hj
    cases (view_returned h hu).symm.trans (sending_inside hc)
  · cases hb.label

/-- The attempts in the record of a job, with the sends that went astray, make up for `m`, but for the send
that is on. -/
def Paid (j : String) (stray m : Nat) (s : Server) : Prop :=
  m ≤ dispatchAttempts j s.jobs + stray ∨ Sending j s ∧ m ≤ dispatchAttempts j s.jobs + stray + 1

/-- Each send that is over has raised the counter of its job, or goes astray. -/
def strays (s : Server) (label : Label) (t : Server) (j : String) : Nat :=
  if s.returns label = some j ∧ ¬ Dispatches j s t then 1 else 0

theorem paid_step (h : View cfg s label t) {stray m m' : Nat} (hW : Paid j stray m s)
    (hm : m' ≤ m ∨ m' ≤ m + 1 ∧ Begins j s t) (hbegins : Begins j s t → ¬ Sending j s) :
    Paid j (stray + strays s label t j) m' t := by
  have hattempts : dispatchAttempts j t.jobs = dispatchAttempts j s.jobs + if Dispatches j s t then 1 else 0 :=
    view_attempts h j
  rw [Paid, hattempts, strays]
  by_cases hr : s.returns label = some j
  · -- the send that is over is counted on one side or the other
    have hcounted : dispatchAttempts j s.jobs + (if Dispatches j s t then 1 else 0) +
        (stray + if s.returns label = some j ∧ ¬ Dispatches j s t then 1 else 0) =
        dispatchAttempts j s.jobs + stray + 1 := by
      by_cases hd : Dispatches j s t <;> simp [hr, hd] <;> omega
    rw [hcounted]
    rcases hm with hm | ⟨-, hb⟩
    · refine .inl ?_
      rcases hW with hW | ⟨-, hW⟩ <;> omega
    · obtain ⟨u, out, l, o, job, k, rfl, hu, rfl⟩ := sending_of_returns hr
      exact absurd ⟨u, l, o, job, k, hu, rfl⟩ (hbegins hb)
  · rcases hm with hm | ⟨hm, hb⟩
    · rcases hW with hW | ⟨hS, hW⟩
      · exact .inl (by omega)
      · exact .inr ⟨(sending_next h hS).resolve_right hr, by omega⟩
    · have hle : m ≤ dispatchAttempts j s.jobs + stray := hW.resolve_right fun hS => hbegins hb hS.1
      obtain ⟨co, l, o, job, k, -, -, -, hj, -, hc⟩ := hb
      exact .inr ⟨⟨co, l, o, job, k, hc, hj⟩, by omega⟩

def Affords (cfg : Config) (s : Server) : Prop :=
  ∀ j, Sending j s → dispatchAttempts j s.jobs + 1 ≤ cfg.maxDispatchAttempts

theorem affords_step (hA : Alone s) (hB : Bounded cfg s.jobs) (hF : Affords cfg s) (h : View cfg s label t) :
    Affords cfg t := by
  intro j hS
  have hattempts : dispatchAttempts j t.jobs = dispatchAttempts j s.jobs + if Dispatches j s t then 1 else 0 :=
    view_attempts h j
  rcases sending_before h hS with hS' | ⟨co, l, o, job, k, -, -, hp, rfl, hjobs, -⟩
  · have hd : ¬ Dispatches j s t := fun hd => not_sending_of_returns hA h (view_dispatches h hd) hS
    rw [hattempts, if_neg hd]
    exact hF j hS'
  · obtain ⟨hrec, hpend, -⟩ := pending_head hp
    have hroom := (hB job.jobId job hrec).2 hpend
    rw [hjobs, dispatchAttempts, hrec]
    exact hroom

theorem opened_reboot (hO : Opened s) (jobs : JobTable) : Opened (s.reboot jobs) where
  handler c hc := by cases hc
  binds co c hc := by cases hc
  entry o ho := absurd ho (Nat.not_lt_zero o)
  outbox := hO.outbox

end Steps

end Server

/-- A step of the system, or the end of the server process, which begins anew on its database. -/
inductive LifeLabel
  | step (l : SystemLabel)
  | died

namespace System

variable {cfg : Config} {agentId : String} {s t : System} {label : SystemLabel}

def lifeStep (cfg : Config) (agentId : String) (label : LifeLabel) (s : System) : Option System :=
  match label with
  | .step l => step cfg agentId l s
  | .died => some { s with server := s.server.reboot s.server.jobs }

def lives (cfg : Config) (agentId : String) (jobs : JobTable) : Machine System LifeLabel :=
  ⟨start jobs, lifeStep cfg agentId⟩

/-- The sends that have come back without a dispatch of their job, and those that the server did not live to
record. -/
def strays (agentId : String) (s : System) (label : LifeLabel) (t : System) (count : String → Nat) : String → Nat :=
  fun j =>
  match label with
  | .step (.server l) => count j + s.server.strays l t.server j
  | .step .connect | .step (.deliver _) | .step (.agent _) => count j
  | .died => count j + if s.server.sendingFor agentId = some j then 1 else 0

/-- The agent has no more of a job than there were attempts, and sends that went astray. -/
structure Budgeted (cfg : Config) (agentId : String) (s : System) (stray : String → Nat) : Prop where
  paired : Paired agentId s
  current : s.server.Current
  bounded : Server.Bounded cfg s.server.jobs
  affords : s.server.Affords cfg
  paid : ∀ j, s.server.Paid j (stray j) (copies j s)

theorem Paired.alone (hP : Paired agentId s) : s.server.Alone := by
  intro co co' l l' o o' job job' k k' hc hc' _
  exact hP.kept.unique hP.locked (sending_inside hc) (sending_inside hc')
    ((hP.sender _ _ _ _ _ hc).trans (hP.sender _ _ _ _ _ hc').symm)

theorem Paired.not_sending (hP : Paired agentId s) {j : String} {u : Server} (hb : s.server.Begins j u) :
    ¬ s.server.Sending j := by
  obtain ⟨co, l, o, job, k, hc, ho, -, -, -, -⟩ := hb
  rintro ⟨co', l', o', job', k', hc', -⟩
  have hl : l.agentId = l'.agentId := (hP.own _ o ho).trans (hP.sender co' l' o' job' k' hc').symm
  have hin : (s.server.ctl co).bind Ctl.inside = some l := by rw [hc]; rfl
  obtain rfl := hP.kept.unique hP.locked hin (sending_inside hc') hl
  rw [hc] at hc'
  cases hc'

theorem Budgeted.server_step (hm : 1 ≤ cfg.maxDispatchAttempts) {stray stray' : String → Nat}
    (hI : Budgeted cfg agentId s stray) (hsafe : s.lockSafe label = true) (h : SystemView cfg agentId s label t)
    {l : Label} (hv : Server.View cfg s.server l t.server)
    (hstray : ∀ j, stray' j = stray j + s.server.strays l t.server j) : Budgeted cfg agentId t stray' where
  paired := paired_step hI.paired hsafe h
  current := Server.current_step hI.current hv
  bounded := Server.bounded_step hm hI.bounded hI.current hv
  affords := Server.affords_step hI.paired.alone hI.bounded hI.affords hv
  paid j := by
    rw [hstray]
    exact Server.paid_step hv (hI.paid j) (copies_step hI.paired h j) hI.paired.not_sending

theorem budgeted_step (hm : 1 ≤ cfg.maxDispatchAttempts) {stray : String → Nat} (hI : Budgeted cfg agentId s stray)
    (hsafe : s.lockSafe label = true) (h : SystemView cfg agentId s label t) :
    Budgeted cfg agentId t (strays agentId s (.step label) t stray) := by
  have hnone : ∀ {l : Label} {u : Server} {j : String}, s.server.returns l = none → s.server.strays l u j = 0 := by
    intro l u j hl
    rw [Server.strays, hl]
    exact if_neg (by rintro ⟨⟨⟩, -⟩)
  have hview := h
  cases h with
  | server l u ho hv => exact hI.server_step hm hsafe hview hv fun j => rfl
  | connect u _ hv => exact hI.server_step hm hsafe hview hv fun j => by rw [hnone rfl]; rfl
  | deliver c f wire u _ hv => exact hI.server_step hm hsafe hview hv fun j => by rw [hnone rfl]; rfl
  | agent l a hf =>
      refine ⟨paired_step hI.paired hsafe hview, hI.current, hI.bounded, hI.affords, fun j => ?_⟩
      have hle : copies j { s with agent := a } ≤ copies j s := hf.starts
      rcases hI.paid j with hW | ⟨hS, hW⟩
      · exact .inl (hle.trans hW)
      · exact .inr ⟨hS, hle.trans hW⟩

theorem paired_reboot (hP : Paired agentId s) (jobs : JobTable) :
    Paired agentId { s with server := s.server.reboot jobs } where
  locked := Server.locked_start jobs
  kept := Server.kept_start jobs
  opened := Server.opened_reboot hP.opened jobs
  own a o ho := by cases ho
  sender co l o job k hc := by cases hc
  names := hP.names
  session := hP.session
  told := hP.told

/-- What the server was sending is lost with it. -/
theorem budgeted_reboot {stray : String → Nat} (hI : Budgeted cfg agentId s stray) :
    Budgeted cfg agentId { s with server := s.server.reboot s.server.jobs }
      (strays agentId s .died { s with server := s.server.reboot s.server.jobs } stray) where
  paired := paired_reboot hI.paired _
  current := Server.current_reboot _ _
  bounded := hI.bounded
  affords := by
    rintro j ⟨co, l, o, job, k, hc, -⟩
    cases hc
  paid j := by
    refine .inl ?_
    have hcopies : copies j { s with server := s.server.reboot s.server.jobs } = copies j s := rfl
    have hstrays : strays agentId s .died { s with server := s.server.reboot s.server.jobs } stray j =
      stray j + if s.server.sendingFor agentId = some j then 1 else 0 := rfl
    rw [hcopies, hstrays]
    rcases hI.paid j with hW | ⟨⟨co, l, o, job, k, hc, rfl⟩, hW⟩
    · exact hW.trans (Nat.add_le_add_left (Nat.le_add_right _ _) _)
    · have hsending := Server.sendingFor_eq hI.paired.locked hI.paired.kept hc
      rw [hI.paired.sender co l o job k hc] at hsending
      rw [if_pos hsending]
      exact hW

def straying (cfg : Config) (agentId : String) (jobs : JobTable) : Machine (System × (String → Nat)) LifeLabel :=
  (lives cfg agentId jobs).observed (fun _ => 0) (strays agentId)

def locksSafe (p : System × (String → Nat)) : LifeLabel → Bool
  | .step l => p.1.lockSafe l
  | .died => true

/-- Through all reconnects and retries and all lives of the server, the agent starts no more than
`max_dispatch_attempts` containers for a job, and one for each send of it that ended without its dispatch. -/
theorem containers_bounded (cfg : Config) (hm : 1 ≤ cfg.maxDispatchAttempts) (agentId : String) (jobs : JobTable)
    (hjobs : Server.Bounded cfg jobs) {p : System × (String → Nat)}
    (h : (straying cfg agentId jobs).Run (fun p l => locksSafe p l = true) (straying cfg agentId jobs).init p) :
    ∀ j, (p.1.agent.started.count j : Int) ≤ cfg.maxDispatchAttempts + p.2 j := by
  have hstart : Budgeted cfg agentId (start jobs) fun _ => 0 := by
    refine ⟨paired_start agentId jobs, Server.current_reboot jobs (.start jobs), hjobs, ?_, fun j => .inl (Nat.zero_le _)⟩
    rintro j ⟨co, l, o, job, k, hc, -⟩
    cases hc
  have hI : Budgeted cfg agentId p.1 p.2 := by
    refine h.invariant (I := fun p : System × (String → Nat) => Budgeted cfg agentId p.1 p.2) ?_ hstart
    intro u label v hu hsafe hst
    obtain ⟨hst, hghost⟩ := Machine.observed_step.mp hst
    rw [hghost]
    cases label with
    | step l => exact budgeted_step hm hu hsafe (step_view hst)
    | died =>
        rw [← Option.some.inj hst]
        exact budgeted_reboot hu
  intro j
  have hcopies : p.1.agent.started.count j ≤ copies j p.1 := Nat.le_add_left _ _
  have hattempts : (dispatchAttempts j p.1.server.jobs : Int) ≤ cfg.maxDispatchAttempts := by
    rw [dispatchAttempts]
    cases ha : record j p.1.server.jobs with
    | none =>
        have hzero : ((Option.elim (none : Option Job) 0 (·.dispatchAttempts) : Nat) : Int) = 0 := rfl
        rw [hzero]
        omega
    | some a => exact (hI.bounded j a ha).1
  rcases hI.paid j with hW | ⟨hS, hW⟩
  · omega
  · have hroom := hI.affords j hS
    omega

def startedUnrecorded : List SystemLabel :=
  dispatched.dropLast ++ [.agent .read, .agent .sent, .agent (.startReturned .started)]

def sentAgain : List SystemLabel :=
  [.agent (.sendFailed false), .connect, .agent .sent, .deliver 1, .server .run, .server .run,
    .server (.sendReturned (.handler 1) .sent), .agent (.listed true), .agent .examine, .agent .sent, .agent .examine,
    .agent .read, .agent .sent, .agent (.startReturned .started)]

/-- The server dies in the send of a job, and the job is pending still. -/
def sentTwice : List LifeLabel := startedUnrecorded.map .step ++ [.died] ++ sentAgain.map .step

theorem containers_bounded_twice : ∃ p, (straying .default "agent-1" .empty).Run (fun p l => locksSafe p l = true)
      (straying .default "agent-1" .empty).init p ∧ p.1.agent.started.count "job_1" = 2 ∧ p.2 "job_1" = 1 ∧
    ∀ j, (p.1.agent.started.count j : Int) ≤ Config.default.maxDispatchAttempts + p.2 j := by
  have hexec : ((straying .default "agent-1" .empty).exec (fun p l => locksSafe p l = true) sentTwice
      (straying .default "agent-1" .empty).init).any (fun p => decide
        (p.1.agent.started.count "job_1" = 2 ∧ p.2 "job_1" = 1)) = true := by decide +kernel
  obtain ⟨p, hrun, htwo, hone⟩ := Machine.exists_run _ _ hexec
  exact ⟨p, hrun, htwo, hone, containers_bounded .default (by decide) "agent-1" .empty (by rintro j a ⟨⟩) hrun⟩

end System

end JobSystem
