import JobSystem.Server.Dispatch

namespace JobSystem

open Lib

def Return.scanning : Return → Option (Instant × List Job)
  | .scan now rest => some (now, rest)
  | .register _ _ | .result | .submit _ => none

def Ctl.scanning : Ctl → Option (Instant × List Job)
  | .scanAck now jobs => some (now, jobs)
  | .dispatch _ k | .acquiring _ k | .locked _ k | .sending _ _ _ k => k.scanning
  | .scanTimeout _ _ | .sendCancel _ _ | .sendingCancel _ _ => none

theorem Return.next_scanning (k : Return) : k.next.bind Ctl.scanning = k.scanning := by
  cases k <;> rfl

namespace Server

def isOverdue (cfg : Config) (j : String) (s : Server) : Bool :=
  (record j s.jobs).any fun job => job.state = .dispatched && ackOverdue cfg s.clock job

/-- No scan begins while `j` is an overdue dispatch. -/
def scansInTime (cfg : Config) (j : String) (s : Server) : Label → Bool
  | .ackScan => !s.isOverdue cfg j
  | _ => true

/-- No scan that is under way took `j` up as overdue. -/
def Spared (cfg : Config) (j : String) (s : Server) : Prop :=
  ∀ co now rest, (s.ctl co).bind Ctl.scanning = some (now, rest) →
    ∀ job ∈ rest, job.jobId = j → ackOverdue cfg now job = false

/-- An entry of the history that takes the dispatch of `j` back. -/
def RetriesJob (j : String) (x : Obs) : Prop := x = .requeued j ∨ x = .failedNoAck j

variable {cfg : Config} {s s' : Server} {label : Label} {j : String}

theorem Spared.head (h : Spared cfg j s) {now : Instant} {job : Job} {rest : List Job}
    (hc : s.ctl .ackWatcher = some (.scanAck now (job :: rest))) (ho : ackOverdue cfg now job = true) :
    job.jobId ≠ j := by
  intro hj
  have := h .ackWatcher now (job :: rest) (by rw [hc]; rfl) job List.mem_cons_self hj
  rw [ho] at this
  cases this

inductive Handled (cfg : Config) (s : Server) (label : Label) (s' : Server) (j : String) : Prop
  | failed (now : Instant) (job : Job) (rest : List Job) (error : String) (hl : label = .run)
      (hc : s.ctl .ackWatcher = some (.scanAck now (job :: rest))) (hj : job.jobId = j)
      (hm : cfg.maxDispatchAttempts ≤ job.dispatchAttempts)
      (hjobs : s'.jobs = stored (.failStaleDispatch s.clock s.clock j error) s.jobs)
  | requeued (now : Instant) (job : Job) (rest : List Job) (hl : label = .run)
      (hc : s.ctl .ackWatcher = some (.scanAck now (job :: rest))) (hj : job.jobId = j)
      (hm : job.dispatchAttempts < cfg.maxDispatchAttempts)
      (hjobs : s'.jobs = stored (.requeue s.clock j) s.jobs)

/-- A step keeps the list that a task scans, draws up a new one, or takes its head off, having looked at it. -/
theorem view_list (h : View cfg s label s') {co : Coro} {now : Instant} {rest : List Job}
    (hc : (s'.ctl co).bind Ctl.scanning = some (now, rest)) :
    (s.ctl co).bind Ctl.scanning = some (now, rest) ∨
      (label = .ackScan ∧ now = s.clock ∧
        rest = JobService.list sqliteJobRepository none (some .dispatched) s.jobs ∧ s'.jobs = s.jobs) ∨
      ∃ job, (s.ctl co).bind Ctl.scanning = some (now, job :: rest) ∧
        (ackOverdue cfg now job = true → Handled cfg s label s' job.jobId) := by
  have hpop : ∀ {u x now' job rest'}, s'.ctl = Function.update s.ctl u x →
      s.ctl u = some (.scanAck now' (job :: rest')) → x.bind Ctl.scanning = some (now', rest') →
      (ackOverdue cfg now' job = true → Handled cfg s label s' job.jobId) →
      (s.ctl co).bind Ctl.scanning = some (now, rest) ∨
        ∃ job, (s.ctl co).bind Ctl.scanning = some (now, job :: rest) ∧
          (ackOverdue cfg now job = true → Handled cfg s label s' job.jobId) := by
    intro u x now' job rest' hx hu hxs hdone
    rw [hx, update_bind] at hc
    split at hc
    · next hco =>
        rw [hxs] at hc
        cases hc
        exact .inr ⟨job, by rw [hco, hu]; rfl, hdone⟩
    · exact .inl hc
  cases h with
  | registered | resultFreed | submitted | cancelBegun | timeoutScan | sentUnrecorded | scanEnded
    | cancelSending | timedOut | cancelled => exact .inl (bind_of_update hc (.inl rfl))
  | timeoutMoved _ y _ _ _ _ hy =>
      refine .inl (bind_of_update hc (.inl ?_))
      rcases hy with ⟨rfl, _⟩ | ⟨_, ⟨_, _, rfl⟩ | ⟨_, _, _, rfl⟩⟩ <;> rfl
  | ackScan =>
      dsimp only at hc
      rw [update_bind] at hc
      split at hc
      · cases hc
        exact .inr (.inl ⟨rfl, rfl, rfl, rfl⟩)
      · exact .inl hc
  | woken _ _ _ _ _ hu | sendBegun _ _ _ _ _ _ hu =>
      exact .inl (bind_of_update hc (.inr (by rw [hu]; rfl)))
  | entered _ _ _ _ hu | queued _ _ _ _ hu =>
      exact .inl (bind_of_update hc (.inr (by rw [hu]; rfl)))
  | left _ _ k _ hu | sent _ _ _ _ k _ _ hu | sendClosed _ _ _ _ k _ hu =>
      exact .inl (bind_of_update hc (.inr (by rw [k.next_scanning, hu]; rfl)))
  | scanSkipped now' job rest' hl hu ho =>
      exact (hpop rfl hu rfl fun ht => by rw [ho] at ht; cases ht).imp_right .inr
  | staleFailed now' job rest' error events hl hu ho hm =>
      exact (hpop rfl hu rfl fun _ => .failed now' job rest' error rfl hu rfl hm rfl).imp_right .inr
  | requeued now' job rest' events hl hu ho hm =>
      exact (hpop rfl hu rfl fun _ => .requeued now' job rest' rfl hu rfl hm rfl).imp_right .inr
  | _ => exact .inl hc

theorem view_scanning (h : View cfg s label s') {co : Coro} {now : Instant} {rest : List Job}
    (hc : (s'.ctl co).bind Ctl.scanning = some (now, rest)) :
    (∃ jobs, (s.ctl co).bind Ctl.scanning = some (now, jobs) ∧ rest <:+ jobs) ∨
      (label = .ackScan ∧ now = s.clock ∧
        rest = JobService.list sqliteJobRepository none (some .dispatched) s.jobs) := by
  rcases view_list h hc with hold | ⟨hl, hnow, hrest, -⟩ | ⟨job, hold, -⟩
  · exact .inl ⟨rest, hold, List.suffix_rfl⟩
  · exact .inr ⟨hl, hnow, hrest⟩
  · exact .inl ⟨job :: rest, hold, List.suffix_cons _ _⟩

theorem spared_step (hS : Spared cfg j s) (htime : s.scansInTime cfg j label = true)
    (h : View cfg s label s') : Spared cfg j s' := by
  intro co now rest hc job hjob hj
  rcases view_scanning h hc with ⟨jobs, hjobs, hsub⟩ | ⟨rfl, rfl, rfl⟩
  · exact hS co now jobs hjobs job (hsub.mem hjob) hj
  · obtain ⟨hrec, hm⟩ := mem_list.mp hjob
    have hd : job.state = .dispatched := by
      simpa [Job.matches, eq_comm (a := JobState.dispatched)] using hm
    subst j
    simpa [scansInTime, isOverdue, hrec, hd] using htime

/-- Only an overdue head of a scan is retried. -/
theorem view_retries (hS : Spared cfg j s) (h : View cfg s label s') :
    s'.history = s.history ∨ ∃ x, s'.history = x :: s.history ∧ ¬ RetriesJob j x := by
  cases h with
  | acked | registered | resultRaised | resultKept | resultFreed | cancelled | sendBegun | sent | sentUnrecorded =>
      exact .inr ⟨_, rfl, by rintro (hx | hx) <;> cases hx⟩
  | staleFailed now job rest _ _ _ hc ho =>
      dsimp only
      split
      · refine .inr ⟨_, rfl, ?_⟩
        rintro (hx | hx) <;> cases hx
        exact hS.head hc ho rfl
      · exact .inl rfl
  | requeued now job rest _ _ hc ho =>
      dsimp only
      split
      · refine .inr ⟨_, rfl, ?_⟩
        rintro (hx | hx) <;> cases hx
        exact hS.head hc ho rfl
      · exact .inl rfl
  | _ => exact .inl rfl

/-- From a state on, for instance the one in which the `ack` was processed, no
scan requeues `j` or fails it for want of an ack. -/
theorem acked_not_retried (cfg : Config) (jobs : JobTable) (j : String) (s : Server)
    (hS : Spared cfg j s) {t : Server}
    (h : (machine cfg jobs).Run (fun s l => s.scansInTime cfg j l = true) s t) :
    (∃ new, t.history = new ++ s.history ∧ ∀ x ∈ new, ¬ RetriesJob j x) ∧
      ∀ a, record j s.jobs = some a → a.state ≠ .pending →
        ∃ b, record j t.jobs = some b ∧ b.state ≠ .pending := by
  have hI := h.invariant (I := fun t => Spared cfg j t ∧
    (∃ new, t.history = new ++ s.history ∧ ∀ x ∈ new, ¬ RetriesJob j x) ∧
      ∀ a, record j s.jobs = some a → a.state ≠ .pending →
        ∃ b, record j t.jobs = some b ∧ b.state ≠ .pending) ?_
    ⟨hS, ⟨[], rfl, by simp⟩, fun a ha hne => ⟨a, ha, hne⟩⟩
  · exact hI.2
  · rintro u l v ⟨hu, ⟨new, hnew, hno⟩, hpend⟩ htime hst
    have hv := step_view hst
    have hret := view_retries hu hv
    refine ⟨spared_step hu htime hv, ?_, fun a ha hne => ?_⟩
    · rcases hret with he | ⟨x, he, hx⟩
      · exact ⟨new, he.trans hnew, hno⟩
      · refine ⟨x :: new, by rw [he, hnew]; rfl, ?_⟩
        simpa using ⟨hx, hno⟩
    · obtain ⟨b, hb, hbne⟩ := hpend a ha hne
      rcases view_pending hv hb hbne with hc | hreq
      · exact hc
      · rcases hret with he | ⟨x, he, hx⟩
        · rw [hreq] at he
          exact absurd he (List.cons_ne_self _ _)
        · rw [hreq] at he
          cases he
          exact absurd (.inl rfl) hx

theorem spared_of_run {cfg : Config} {jobs : JobTable} {j : String} {t : Server}
    (h : (machine cfg jobs).Run (fun s l => s.scansInTime cfg j l = true) (start jobs) t) :
    Spared cfg j t :=
  h.invariant (I := Spared cfg j) (fun _ _ _ hI hP hs => spared_step hI hP (step_view hs))
    fun co now rest hc => by simp [start] at hc

def ackedDispatch : List Label :=
  [.connect, .frame 0 (some (.register "agent-1")), .run, .run,
    .submit 0 "job_1" "c1" (.alpine "agent-1" agent_1_ne), .run, .run, .sendReturned (.api 0) .sent,
    .frame 0 (some (.ack "job_1"))]

def sixSeconds : Instant := ⟨6000000, by decide⟩

def twelveSeconds : Instant := ⟨12000000, by decide⟩

def eighteenSeconds : Instant := ⟨18000000, by decide⟩

theorem acked_not_retried_started : ∃ s t, .acked 0 "job_1" ∈ s.history ∧
    (machine .default .empty).Run (fun s l => s.scansInTime .default "job_1" l = true) s t ∧
    (record "job_1" t.jobs).map (·.state) = some .running ∧
    (∃ new, t.history = new ++ s.history ∧ ∀ x ∈ new, ¬ RetriesJob "job_1" x) ∧
      ∀ a, record "job_1" s.jobs = some a → a.state ≠ .pending →
        ∃ b, record "job_1" t.jobs = some b ∧ b.state ≠ .pending := by
  have hexec : ((machine .default .empty).exec (fun s l => s.scansInTime .default "job_1" l = true)
      ackedDispatch (start .empty)).any (fun s => decide (.acked 0 "job_1" ∈ s.history ∧
        ((machine .default .empty).exec (fun s l => s.scansInTime .default "job_1" l = true)
          [.frame 0 (some (.started "job_1")), .tick sixSeconds, .ackScan, .run] s).any
          fun t => decide ((record "job_1" t.jobs).map (·.state) = some .running))) = true := by decide +kernel
  obtain ⟨s, hs, hack, ht⟩ := Machine.exists_run _ _ hexec
  obtain ⟨t, ht, hrun⟩ := Machine.exists_run _ _ ht
  exact ⟨s, t, hack, ht, hrun, acked_not_retried .default .empty "job_1" s (spared_of_run hs) ht⟩

/-- The `ack` is processed while the dispatch is not overdue, but the container is
still starting when a scan finds that it is. -/
theorem acked_not_retried_unrestricted_false :
    ∃ s s' t, (machine .default .empty).Reachable s ∧
      (record "job_1" s.jobs).map (·.state) = some .dispatched ∧ s.isOverdue .default "job_1" = false ∧
      step .default (.frame 0 (some (.ack "job_1"))) s = some s' ∧
      s'.history = [.acked 0 "job_1", .jobSent 0 "job_1", .jobWritten 0 "job_1", .registered 0 "agent-1"] ∧
      (machine .default .empty).Run (fun _ _ => True) s' t ∧
      (record "job_1" t.jobs).map (·.state) = some .pending ∧
      t.history = .requeued "job_1" :: s'.history := by
  have hexec : ((machine .default .empty).exec (fun _ _ => True) ackedDispatch.dropLast (start .empty)).any
      (fun s => decide ((record "job_1" s.jobs).map (·.state) = some .dispatched ∧
        s.isOverdue .default "job_1" = false ∧
        (step .default (.frame 0 (some (.ack "job_1"))) s).any fun s' => decide (s'.history =
            [.acked 0 "job_1", .jobSent 0 "job_1", .jobWritten 0 "job_1", .registered 0 "agent-1"] ∧
          ((machine .default .empty).exec (fun _ _ => True) [.tick sixSeconds, .ackScan, .run] s').any
            fun t => decide ((record "job_1" t.jobs).map (·.state) = some .pending ∧
              t.history = .requeued "job_1" :: s'.history)))) = true := by decide +kernel
  obtain ⟨s, hrun, hd, hearly, hs⟩ := Machine.exists_run _ _ hexec
  obtain ⟨s', hack, hs'⟩ := (Option.any_eq_true _ _).mp hs
  obtain ⟨hhist, ht⟩ := of_decide_eq_true hs'
  obtain ⟨t, hlater, hpend, hreq⟩ := Machine.exists_run _ _ ht
  exact ⟨s, s', t, hrun, hd, hearly, hack, hhist, hlater, hpend, hreq⟩

end Server

end JobSystem
