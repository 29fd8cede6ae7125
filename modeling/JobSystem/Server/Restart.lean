import JobSystem.Repository.Listing
import JobSystem.Server.Attempts
import JobSystem.Server.Quiescence

namespace JobSystem

open Lib

/-- The changes of state of a record, one at a time. -/
inductive JobState.Edge : JobState → JobState → Prop
  | dispatched : Edge .pending .dispatched
  | requeued : Edge .dispatched .pending
  | started : Edge .dispatched .running
  | succeeded : Edge .running .succeeded
  | timedOut : Edge .running .timedOut
  | failed {q : JobState} (h : q.isTerminal = false) : Edge q .failed
  | cancelled {q : JobState} (h : q.isTerminal = false) : Edge q .cancelled

theorem Op.Allowed.edge {op : Op} {a b : JobState} (h : op.Allowed a b) : a.Edge b := by
  rcases h with ⟨rfl, rfl⟩ | ⟨rfl, rfl⟩ | ⟨rfl, rfl⟩ | ⟨rfl, rfl | rfl | rfl⟩ | ⟨ha, rfl, -⟩ | ⟨ha, rfl, -⟩
  · exact .dispatched
  · exact .started
  · exact .requeued
  · exact .succeeded
  · exact .failed rfl
  · exact .timedOut
  · rcases ha with rfl | rfl | rfl <;> exact .cancelled rfl
  · rcases ha with rfl | rfl <;> exact .failed rfl

namespace Job

def submitted (job : Job) : Job :=
  { job with
    state := .pending, updatedAt := job.createdAt, startedAt := none, finishedAt := none, dispatchAttempts := 0,
    exitCode := none, error := none, stdout := "", stderr := "" }

/-- The record `a` may become `b`. What was submitted stays, and what is over stays as it is. -/
structure Leads (a b : Job) : Prop where
  submitted : b.submitted = a.submitted
  state : Relation.ReflTransGen JobState.Edge a.state b.state
  attempts : a.dispatchAttempts ≤ b.dispatchAttempts
  started : a.startedAt.isSome → b.startedAt = a.startedAt
  final : a.state.isTerminal = true → b = a

theorem Leads.refl (a : Job) : a.Leads a := ⟨rfl, .refl, le_rfl, fun _ => rfl, fun _ => rfl⟩

theorem Leads.trans {a b c : Job} (h : a.Leads b) (h' : b.Leads c) : a.Leads c where
  submitted := h'.submitted.trans h.submitted
  state := h.state.trans h'.state
  attempts := h.attempts.trans h'.attempts
  started ha := by
    have hb := h.started ha
    exact (h'.started (by rwa [hb])).trans hb
  final ha := by
    have hb := h.final ha
    exact (h'.final (by rwa [hb])).trans hb

end Job

namespace Op

theorem effect_started (op : Op) {job : Job} (h : job.startedAt.isSome) :
    (op.effect job).startedAt = job.startedAt := by
  obtain ⟨t, ht⟩ := Option.isSome_iff_exists.mp h
  have htrans : ∀ u e n, (job.transition u e n).startedAt = job.startedAt := by
    intro u e n
    rw [Job.transition]
    split
    · simp [ht]
    · rfl
  cases op with
  | submit => rfl
  | markDispatched | markRunning | markTimedOut | requeue => exact htrans _ _ _
  | markDispatchedWithAttempt =>
      rw [effect, Job.dispatch]
      split <;> rfl
  | markSucceeded | markFailed =>
      rw [effect, Job.complete]
      split <;> rfl
  | markCancelled =>
      rw [effect, Job.cancel]
      split
      · rfl
      · exact htrans _ _ _
  | failStaleDispatch =>
      rw [effect, Job.failStale]
      split <;> rfl

theorem effect_leads {op : Op} (hop : ∀ t j, op ≠ .markDispatched t j) (job : Job) : job.Leads (op.effect job) where
  submitted := by
    obtain ⟨_, _, _, _, _, _, _, _, _, h⟩ := op.effect_eq job
    rw [h]
    rfl
  state := by
    by_cases h : job.state = (op.effect job).state
    · rw [← h]
    · exact .single (op.effect_allowed job h).edge
  attempts := by
    rw [effect_attempts hop]
    exact Nat.le_add_right _ _
  started := op.effect_started
  final := op.effect_terminal

end Op

/-- What can happen to a server whose process may die. It can die in the middle of a step, when its
write to the table of jobs is committed and the event that tells of it is not. -/
inductive RestartLabel
  | step (l : Label)
  | died
  | diedIn (l : Label)

namespace Server

/-- `main` begins anew on the database. Time has gone on, connections are not taken for earlier ones,
and what was sent and done before is not undone. -/
def reboot (jobs : JobTable) (s : Server) : Server :=
  { start jobs with
    clock := s.clock, events := s.events, nextConn := s.nextConn, outbox := s.outbox, history := s.history }

def restartStep (cfg : Config) (label : RestartLabel) (s : Server) : Option Server :=
  match label with
  | .step l => step cfg l s
  | .died => some (s.reboot s.jobs)
  | .diedIn l => (step cfg l s).map fun t => s.reboot t.jobs

def restarting (cfg : Config) (jobs : JobTable) : Machine Server RestartLabel := ⟨start jobs, restartStep cfg⟩

variable {cfg : Config} {jobs : JobTable} {s t : Server} {label : RestartLabel}

theorem restart_cases (h : restartStep cfg label s = some t) :
    (∃ l, label = .step l ∧ step cfg l s = some t) ∨ (label = .died ∧ t = s.reboot s.jobs) ∨
      ∃ l u, label = .diedIn l ∧ step cfg l s = some u ∧ t = s.reboot u.jobs := by
  cases label with
  | step l => exact .inl ⟨l, rfl, h⟩
  | died => exact .inr (.inl ⟨rfl, (Option.some.inj h).symm⟩)
  | diedIn l =>
      obtain ⟨u, hu, rfl⟩ := Option.map_eq_some_iff.mp h
      exact .inr (.inr ⟨l, u, rfl, hu, rfl⟩)

theorem view_leads {l : Label} (h : View cfg s l t) {j : String} {a : Job} (ha : record j s.jobs = some a) :
    ∃ b, record j t.jobs = some b ∧ a.Leads b := by
  rcases view_record h ha with hb | ⟨op, -, hp, hb⟩
  · exact ⟨a, hb, .refl a⟩
  · exact ⟨_, hb, op.effect_leads (performs_dispatch hp) a⟩

theorem restart_leads (h : restartStep cfg label s = some t) {j : String} {a : Job} (ha : record j s.jobs = some a) :
    ∃ b, record j t.jobs = some b ∧ a.Leads b := by
  rcases restart_cases h with ⟨l, -, hst⟩ | ⟨-, rfl⟩ | ⟨l, u, -, hst, rfl⟩
  · exact view_leads (step_view hst) ha
  · exact ⟨a, ha, .refl a⟩
  · exact view_leads (step_view hst) ha

/-- A job that was once stored is stored for good, as the job that was submitted. -/
theorem run_leads (h : (restarting cfg jobs).Run (fun _ _ => True) s t) {j : String} {a : Job}
    (ha : record j s.jobs = some a) : ∃ b, record j t.jobs = some b ∧ a.Leads b := by
  refine h.invariant (I := fun u => ∃ b, record j u.jobs = some b ∧ a.Leads b) ?_ ⟨a, ha, .refl a⟩
  rintro u l v ⟨b, hb, hab⟩ - hst
  obtain ⟨c, hc, hbc⟩ := restart_leads hst hb
  exact ⟨c, hc, hab.trans hbc⟩

def diesInScan : List RestartLabel :=
  ackedDispatch.map .step ++ [.step (.tick sixSeconds), .step .ackScan, .diedIn .run]

def finishesAfter : List RestartLabel :=
  [.connect, .frame 1 (some (.register "agent-1")), .run, .run, .sendReturned (.handler 1) .sent,
    .frame 1 (some (.started "job_1")), .frame 1 (some (.result "job_1" 0 "" "" none))].map .step

theorem restart_attempts (h : restartStep cfg label s = some t) (j : String) :
    dispatchAttempts j t.jobs = dispatchAttempts j s.jobs +
      if stateOf j s.jobs = some .pending ∧ stateOf j t.jobs = some .dispatched then 1 else 0 := by
  rcases restart_cases h with ⟨l, -, hst⟩ | ⟨-, rfl⟩ | ⟨l, u, -, hst, rfl⟩
  · exact view_attempts (step_view hst) j
  · have hsame : ¬ (stateOf j s.jobs = some .pending ∧ stateOf j (s.reboot s.jobs).jobs = some .dispatched) := by
      rintro ⟨hp, hd⟩
      cases hp.symm.trans hd
    rw [if_neg hsame]
    rfl
  · exact view_attempts (step_view hst) j

def restartCounted (cfg : Config) (jobs : JobTable) : Machine (Server × (String → Nat)) RestartLabel :=
  (restarting cfg jobs).observed (fun _ => 0) fun s _ t => countDispatches s .run t

theorem current_reboot (jobs : JobTable) (s : Server) : Current (s.reboot jobs) := fun _ _ hc => by cases hc

theorem restart_current (hC : Current s) (h : restartStep cfg label s = some t) : Current t := by
  rcases restart_cases h with ⟨l, -, hst⟩ | ⟨-, rfl⟩ | ⟨l, u, -, hst, rfl⟩
  · exact current_step hC (step_view hst)
  · exact current_reboot _ _
  · exact current_reboot _ _

theorem restart_bounded (hm : 1 ≤ cfg.maxDispatchAttempts) (hB : Bounded cfg s.jobs) (hC : Current s)
    (h : restartStep cfg label s = some t) : Bounded cfg t.jobs := by
  rcases restart_cases h with ⟨l, -, hst⟩ | ⟨-, rfl⟩ | ⟨l, u, -, hst, rfl⟩
  · exact bounded_step hm hB hC (step_view hst)
  · exact hB
  · have hu : Bounded cfg u.jobs := bounded_step hm hB hC (step_view hst)
    exact hu

/-- However often the server is restarted, no job is dispatched more than `max_dispatch_attempts` times,
and its counter is the number of its dispatches over all the lives of the server. -/
theorem restarts_bounded (cfg : Config) (hm : 1 ≤ cfg.maxDispatchAttempts) (jobs : JobTable)
    (hjobs : Bounded cfg jobs) {p : Server × (String → Nat)} (hp : (restartCounted cfg jobs).Reachable p) :
    Bounded cfg p.1.jobs ∧ ∀ j, dispatchAttempts j p.1.jobs = dispatchAttempts j jobs + p.2 j := by
  have hstart : Current (start jobs) := fun _ _ hc => by cases hc
  have hI : Current p.1 ∧ Bounded cfg p.1.jobs ∧
      ∀ j, dispatchAttempts j p.1.jobs = dispatchAttempts j jobs + p.2 j := by
    refine Machine.Run.invariant (I := fun p : Server × (String → Nat) => Current p.1 ∧ Bounded cfg p.1.jobs ∧
      ∀ j, dispatchAttempts j p.1.jobs = dispatchAttempts j jobs + p.2 j) ?_ hp ⟨hstart, hjobs, fun _ => rfl⟩
    rintro u l v ⟨hC, hB, hcount⟩ - hst
    obtain ⟨hst, hghost⟩ := Machine.observed_step.mp hst
    refine ⟨restart_current hC hst, restart_bounded hm hB hC hst, fun j => ?_⟩
    rw [restart_attempts hst j, hcount j, hghost, Nat.add_assoc]
    rfl
  exact hI.2

theorem restarts_bounded_twice : ∃ p, (restartCounted .default .empty).Reachable p ∧ p.2 "job_1" = 2 ∧
    Bounded .default p.1.jobs ∧
      ∀ j, dispatchAttempts j p.1.jobs = dispatchAttempts j Lib.Table.empty + p.2 j := by
  have hexec : ((restartCounted .default .empty).exec (fun _ _ => True) (diesInScan ++ finishesAfter)
      (restartCounted .default .empty).init).any (fun p => decide (p.2 "job_1" = 2)) = true := by decide +kernel
  obtain ⟨p, hp, htwo⟩ := Machine.exists_run _ _ hexec
  exact ⟨p, hp, htwo, restarts_bounded .default (by decide) .empty (by rintro j a ⟨⟩) hp⟩

end Server

end JobSystem
