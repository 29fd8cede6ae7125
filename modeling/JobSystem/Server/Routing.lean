import JobSystem.Server.Registry

namespace JobSystem

open Lib

namespace Server

/-- The query for the pending jobs of agent `""` is not filtered. It is only
made for a ready connection when it brings up no job of another agent. -/
def routesOwn (s : Server) : Label → Bool
  | .run =>
      match s.loop.bind s.ctl with
      | some (.locked l _) =>
          decide (l.agentId ≠ "") || !s.ready "" || (pendingJobs "" s.jobs).all fun job => job.agentId = ""
      | _ => true
  | _ => true

def Delivers (s : Server) (c : ConnId) : ServerFrame → Prop
  | .job j _ _ _ _ => ∃ a job, .registered c a ∈ s.history ∧ record j s.jobs = some job ∧ job.agentId = a
  | .cancel _ _ => True

structure Routed (s : Server) : Prop where
  entry : ∀ a o, s.agents.get a = some o → .registered (s.agents.conns o).ws a ∈ s.history
  delivers : ∀ c f, f ∈ s.outbox c → s.Delivers c f

variable {cfg : Config} {s s' : Server} {label : Label}

theorem Delivers.step (h : View cfg s label s') {c : ConnId} {f : ServerFrame} (hd : s.Delivers c f) :
    s'.Delivers c f := by
  cases f with
  | cancel => trivial
  | job j cid image command timeoutMs =>
      obtain ⟨a, job, hr, hj, ha⟩ := hd
      obtain ⟨job', hj', ha'⟩ := view_agentId h hj
      exact ⟨a, job', view_history h hr, hj', ha'.trans ha⟩

theorem pending_head {l : LockRef} {job : Job} {jobs : JobTable}
    (hp : (pendingJobs l.agentId jobs).head? = some job) :
    record job.jobId jobs = some job ∧ job.state = .pending ∧
      (l.agentId ≠ "" → job.agentId = l.agentId) :=
  mem_pendingJobs.mp (List.mem_of_head? hp)

theorem Begun.agentId {co : Coro} {l : LockRef} {o : ObjId} {job : Job} {k : Return}
    (hb : Begun s label s' co l o job k) (hroute : s.routesOwn label = true) :
    job.agentId = l.agentId := by
  obtain ⟨rfl, hl, hc, ho, hidle, hp, hs, _⟩ := hb
  by_cases hl' : l.agentId = ""
  · rw [hl'] at ho hp ⊢
    have hready : s.ready "" = true := by simp [ready, ho, AgentConnection.isIdle, hidle, hs]
    have hall : (pendingJobs "" s.jobs).all (fun job => job.agentId = "") = true := by
      simpa [routesOwn, hl, hc, hl', hready] using hroute
    exact of_decide_eq_true (List.all_eq_true.mp hall job (List.mem_of_head? hp))
  · exact (pending_head hp).2.2 hl'

theorem routed_step (hR : Routed s) (hroute : s.routesOwn label = true) (h : View cfg s label s') :
    Routed s' where
  entry := by
    intro a o ho
    rcases view_entry h ho with ⟨ho', hws⟩ | ⟨c, _, _, rfl, hr⟩
    · rw [hws]
      exact view_history h (hR.entry a o ho')
    · exact hr
  delivers := by
    intro c f hf
    have hold : f ∈ s.outbox c → s'.Delivers c f := fun hf => (hR.delivers c f hf).step h
    rcases view_outbox h c with he | ⟨a, o, f', he, ho, rfl, hwhy⟩
    · exact hold (he ▸ hf)
    · rw [he, List.mem_append, List.mem_singleton] at hf
      rcases hf with hf | rfl
      · exact hold hf
      · rcases hwhy with ⟨j, reason, rfl⟩ | ⟨co, l, job, k, rfl, rfl, hb⟩
        · trivial
        · refine ⟨_, job, view_history h (hR.entry _ o ho), ?_, hb.agentId hroute⟩
          rw [hb.jobs]
          exact (pending_head hb.pending).1

theorem routed_start (jobs : JobTable) : Routed (start jobs) := by
  refine ⟨fun a o ho => ?_, fun c f hf => ?_⟩
  · simp [start, AgentRegistry.get, AgentRegistry.empty] at ho
  · simp [start] at hf

theorem routing (cfg : Config) (jobs : JobTable) {t : Server}
    (h : (machine cfg jobs).Run (fun s l => s.routesOwn l = true) (start jobs) t) :
    ∀ c f, f ∈ t.outbox c → t.Delivers c f := by
  have hR : Routed t :=
    h.invariant (fun s l t hI hP hs => routed_step hI hP (step_view hs)) (routed_start jobs)
  exact hR.delivers

theorem routing_agent1 :
    ∃ t, (machine .default .empty).Run (fun s l => s.routesOwn l = true) (start .empty) t ∧
      (t.outbox 0).length = 1 ∧ ∀ c f, f ∈ t.outbox c → t.Delivers c f := by
  have hexec : ((machine .default .empty).exec (fun s l => s.routesOwn l = true)
      [.connect, .frame 0 (some (.register "agent-1")), .run, .run,
        .submit 0 "job_1" "c1" (.alpine "agent-1" (by decide)), .run, .run] (start .empty)).any
      (fun t => decide ((t.outbox 0).length = 1)) = true := by decide +kernel
  obtain ⟨t, hrun, hsent⟩ := Machine.exists_run _ _ hexec
  exact ⟨t, hrun, hsent, routing .default .empty hrun⟩

/-- The connection registers with the empty id and is sent the job of `agent-1`. -/
theorem routing_unrestricted_false :
    ∃ t, (machine .default .empty).Reachable t ∧ ¬ ∀ c f, f ∈ t.outbox c → t.Delivers c f := by
  have hexec : ((machine .default .empty).exec (fun _ _ => True)
      [.connect, .submit 0 "job_1" "c1" (.alpine "agent-1" (by decide)), .run, .run,
        .frame 0 (some (.register "")), .run, .run] (start .empty)).any
      (fun t => decide (.job "job_1" "c1" "alpine" ["true"] 60000 ∈ t.outbox 0 ∧
        t.history = [.jobWritten 0 "job_1", .registered 0 ""] ∧
        (record "job_1" t.jobs).map (·.agentId) = some "agent-1")) = true := by
    decide +kernel
  obtain ⟨t, hrun, hf, hh, hj⟩ := Machine.exists_run _ _ hexec
  refine ⟨t, hrun, fun hall => ?_⟩
  obtain ⟨a, job, hr, hrec, ha⟩ := hall 0 _ hf
  rw [hh] at hr
  obtain rfl : a = "" := by simpa using hr
  rw [hrec, Option.map_some, ha] at hj
  exact absurd (Option.some.inj hj) (by decide)

end Server

end JobSystem
