import JobSystem.System.Tracked

namespace JobSystem

open Lib

namespace System

variable {cfg : Config} {agentId : String} {s s' : System} {label : SystemLabel}

def copies (j : String) (s : System) : Nat :=
  Agent.unstarted s.server.outbox j s.agent.main s.agent.read + s.agent.started.count j

theorem unread_connect (hP : Paired agentId s) {t : Server}
    (hv : Server.View cfg s.server .connect t) (j : String) :
    Agent.unread t.outbox j (.registering s.server.nextConn) 0 = 0 := by
  rw [Agent.unread, (Server.view_connect hv).2.2.2]
  dsimp only [AgentCtl.session]
  rw [hP.opened.outbox _ le_rfl]
  rfl

theorem copies_step (hP : Paired agentId s) (h : SystemView cfg agentId s label s') (j : String) :
    copies j s' ≤ copies j s ∨ (copies j s' ≤ copies j s + 1 ∧ s.server.Begins j s'.server) := by
  have hserver : ∀ {l t}, Server.View cfg s.server l t →
      Agent.unstarted t.outbox j s.agent.main s.agent.read + s.agent.started.count j ≤ copies j s ∨
        (Agent.unstarted t.outbox j s.agent.main s.agent.read + s.agent.started.count j ≤ copies j s + 1 ∧
          s.server.Begins j t) := by
    intro l t hv
    unfold copies Agent.unstarted
    rcases Server.view_unread hv (j := j) s.agent.main s.agent.read with hle | ⟨hle, hb⟩
    · exact .inl (by omega)
    · exact .inr ⟨by omega, hb⟩
  cases h with
  | server l t _ hv => exact hserver hv
  | deliver c f wire t _ hv => exact hserver hv
  | connect t hm hv =>
      refine .inl (Nat.add_le_add_right ?_ _)
      rw [Agent.unstarted, unread_connect hP hv j]
      exact Nat.zero_le _
  | agent l a hf => exact .inl hf.starts

theorem tracked_start (agentId : String) (jobs : JobTable) : Tracked agentId copies (start jobs) where
  paired := paired_start agentId jobs
  one _ := Nat.zero_le 1
  known _ hne := absurd rfl hne

/-- At most one container is started for a job, whatever becomes of the
connections, as long as the server takes no job back that the agent has. -/
theorem at_most_once_execution (cfg : Config) (agentId : String) (jobs : JobTable) {t : System}
    (h : (machine cfg agentId jobs).Run
      (fun s l => s.lockSafe l = true ∧ s.returnsClean cfg copies l = true) (start jobs) t) :
    ∀ j, t.agent.started.count j ≤ 1 := by
  have hT := h.invariant (I := Tracked agentId copies)
    (fun s l t hI hP hs => tracked_step hI hP.1 hP.2 (step_view hs) fun j => copies_step hI.paired (step_view hs) j)
    (tracked_start agentId jobs)
  exact fun j => (Nat.le_add_left _ _).trans (hT.one j)

def dispatched : List SystemLabel :=
  [.connect, .agent .sent, .deliver 0, .server .run, .server .run, .agent (.listed true), .agent .examine,
    .server (.submit 0 "job_1" "c1" (.alpine "agent-1" agent_1_ne)), .server .run, .server .run,
    .server (.sendReturned (.api 0) .sent)]

/-- The agent loses its connection while the container runs, and reconciles on
the next one. -/
theorem at_most_once_execution_reconcile : ∃ t, (machine .default "agent-1" .empty).Run
      (fun s l => s.lockSafe l = true ∧ s.returnsClean .default copies l = true) (start .empty) t ∧
    t.agent.started = ["job_1"] ∧ .register "agent-1" ∈ t.agent.wire.map Prod.snd ∧
    ∀ j, t.agent.started.count j ≤ 1 := by
  have hexec : ((machine .default "agent-1" .empty).exec
      (fun s l => s.lockSafe l = true ∧ s.returnsClean .default copies l = true)
      (dispatched ++ [.agent .read, .agent .sent, .agent (.startReturned .started), .server (.drop 0),
        .agent (.sendFailed false), .server (.handlerEnd 0), .connect, .agent .sent, .agent (.listed true),
        .agent .examine, .agent .sent]) (start .empty)).any
      (fun t => decide (t.agent.started = ["job_1"] ∧
        .register "agent-1" ∈ t.agent.wire.map Prod.snd)) = true := by decide +kernel
  obtain ⟨t, hrun, hst, hw⟩ := Machine.exists_run _ _ hexec
  exact ⟨t, hrun, hst, hw, at_most_once_execution .default "agent-1" .empty hrun⟩

/-- The container takes longer to start than the ack timeout. The requeued job
is sent again when its own result has freed the slot. -/
theorem at_most_once_execution_unrestricted_false :
    ∃ t, (machine .default "agent-1" .empty).Reachable t ∧ t.agent.started.count "job_1" = 2 := by
  have hexec : ((machine .default "agent-1" .empty).exec (fun _ _ => True)
      (dispatched ++ [.agent .read, .agent .sent, .deliver 0, .server (.tick ⟨6000000, by decide⟩),
        .server .ackScan, .server .run, .server .run, .server .run, .server .run,
        .agent (.startReturned .started), .agent .sent, .deliver 0, .agent (.exited 0 0 "" ""),
        .agent (.waitReturned true true), .agent .sent, .deliver 0, .server .run, .server .run,
        .server (.sendReturned (.handler 0) .sent), .agent .read, .agent .sent,
        .agent (.startReturned .started)]) (start .empty)).any
      (fun t => decide (t.agent.started.count "job_1" = 2)) = true := by decide +kernel
  exact Machine.exists_run _ _ hexec

end System

end JobSystem
