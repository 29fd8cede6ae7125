import JobSystem.Server.Registry

namespace JobSystem

open Lib

namespace Server

/-- A handler that is bound to `a` ends only if the registry has no other
connection for `a`. -/
def sparesOthers (a : String) (s : Server) : Label → Bool
  | .handlerEnd c =>
      decide (a = "") || decide (s.handlers c ≠ some (some a)) ||
        (s.agents.get a).all fun o => (s.agents.conns o).ws = c
  | _ => true

/-- The registration of `a` on connection `c` is not brought to its end: `c`
stays, `a` does not register anew, and no scan finds its heartbeat missing. -/
def undisturbed (cfg : Config) (a : String) (c : ConnId) (s : Server) : Label → Bool
  | .handlerEnd c' => c' ≠ c
  | .frame _ (some (.register b)) => b ≠ a
  | .heartbeatScan => (s.agents.staleAgents s.clock cfg.maxIdle).all fun conn => conn.agentId ≠ a
  | _ => true

def OnConn (a : String) (c : ConnId) (s : Server) : Prop :=
  ∃ o, s.agents.get a = some o ∧ (s.agents.conns o).ws = c

instance (a : String) (c : ConnId) (s : Server) : Decidable (OnConn a c s) :=
  decidable_of_iff ((s.agents.get a).any fun o => (s.agents.conns o).ws = c)
    (by simp [OnConn, Option.any_eq_true])

/-- A `dispatch_pending` for `a` sends on `c` alone, and does send the first
pending job when the connection is idle and open. -/
def DispatchesTo (cfg : Config) (a : String) (c : ConnId) (s : Server) : Prop :=
  ∀ co l k, s.loop = some co → s.ctl co = some (.locked l k) → l.agentId = a →
    ∃ s', step cfg .run s = some s' ∧ (∀ c', c' ≠ c → s'.outbox c' = s.outbox c') ∧
      ∀ job, s.ready a = true → (pendingJobs a s.jobs).head? = some job →
        s'.outbox c = s.outbox c ++ [jobMessage job]

variable {cfg : Config} {s s' : Server} {label : Label} {a : String} {c : ConnId}

theorem OnConn.isOnline (h : OnConn a c s) : s.agents.isOnline a = true := by
  obtain ⟨o, ho, _⟩ := h
  exact Option.isSome_iff_exists.mpr ⟨o, ho⟩

theorem OnConn.dispatchesTo (h : OnConn a c s) : DispatchesTo cfg a c s := by
  rintro co l k hl hc rfl
  obtain ⟨o, ho, rfl⟩ := h
  have hstep : step cfg .run s = some (s.critical co l k) := by simp only [step, hl, hc, runPiece]
  have hready : s.ready l.agentId = ((s.agents.conns o).isIdle && s.sockets (s.agents.conns o).ws) := by
    rw [ready, ho]
    rfl
  refine ⟨_, hstep, ?_⟩
  rw [hready]
  simp only [critical, ho]
  split
  · next hbusy =>
      rw [leave_eq]
      refine ⟨fun _ _ => rfl, fun job hr _ => ?_⟩
      simp_all
  · split
    · next hnil =>
        rw [leave_eq]
        refine ⟨fun _ _ => rfl, fun job _ hj => ?_⟩
        rw [hnil] at hj
        cases hj
    · next first rest hcons =>
        split
        · next hs =>
            refine ⟨fun c' hne => Function.update_of_ne hne _ _, fun job _ hj => ?_⟩
            rw [hcons] at hj
            cases hj
            exact Function.update_self _ _ _
        · next hs =>
            rw [leave_eq]
            refine ⟨fun _ _ => rfl, fun job hr _ => ?_⟩
            simp_all

theorem onConn_step (h : OnConn a c s) (hspare : s.sparesOthers a label = true)
    (hund : s.undisturbed cfg a c label = true) (hv : View cfg s label s') : OnConn a c s' := by
  obtain ⟨o, ho, hws⟩ := h
  cases hv with
  | forgot c' b _ _ hb hne =>
      have hc : c' ≠ c := by simpa [undisturbed] using hund
      have hba : a ≠ b := by
        rintro rfl
        have := hspare
        simp only [sparesOthers, hb, ho, hne, hws, Option.all_some, decide_false, Bool.false_or, ne_eq,
          not_true_eq_false, decide_eq_true_eq] at this
        exact hc this.symm
      refine ⟨o, ?_, hws⟩
      dsimp only
      rw [AgentRegistry.get_unregister, if_neg hba, ho]
  | registered c' b a' =>
      have hne : a' ≠ a := by simpa [undisturbed] using hund
      refine ⟨o, ?_, ?_⟩
      · dsimp only
        rw [AgentRegistry.get_register, if_neg hne.symm, ho]
      · rw [s.agents.conns_register_lt (s.agents.get_lt ho), hws]
  | heartbeatScan =>
      have hstale : ∀ conn ∈ s.agents.staleAgents s.clock cfg.maxIdle, conn.agentId ≠ a := by
        simpa [undisturbed] using hund
      obtain ⟨hconns, _, _⟩ := foldl_unregister (s.agents.staleAgents s.clock cfg.maxIdle) s.agents
      exact ⟨o, (foldl_unregister_ne hstale).trans ho, (congrArg (fun conns => (conns o).ws) hconns).trans hws⟩
  | touched | resultFreed | sent | sentUnrecorded => exact ⟨o, by simpa using ho, by simpa using hws⟩
  | _ => exact ⟨o, ho, hws⟩

theorem forgotten (h : OnConn a c s) {c' : ConnId} (hst : step cfg (.handlerEnd c') s = some s')
    (hspare : s.sparesOthers a (.handlerEnd c') = false) : ¬ OnConn a c s' := by
  obtain ⟨o, ho, hws⟩ := h
  simp only [sparesOthers, ho, hws, Option.all_some, Bool.or_eq_false_iff, decide_eq_false_iff_not,
    not_not] at hspare
  obtain ⟨⟨ha, hb⟩, _⟩ := hspare
  simp only [step, hb] at hst
  obtain ⟨_, hst⟩ := Option.ite_none_right_eq_some.mp hst
  cases hst
  rintro ⟨o', ho', _⟩
  simp only [endHandler, if_neg ha] at ho'
  rw [AgentRegistry.get_unregister, if_pos rfl] at ho'
  cases ho'

/-- Closing other connections is harmless as long as no superseded handler that
is bound to `a` ends, and such an end always removes the registration. -/
theorem superseded_close (cfg : Config) (jobs : JobTable) (a : String) (c : ConnId) (s : Server)
    (hs : OnConn a c s) :
    (∀ t, (machine cfg jobs).Run (fun s l => s.sparesOthers a l = true ∧
      s.undisturbed cfg a c l = true) s t →
      OnConn a c t ∧ t.agents.isOnline a = true ∧ DispatchesTo cfg a c t) ∧
    ∀ c' s', c' ≠ c → step cfg (.handlerEnd c') s = some s' →
      (OnConn a c s' ↔ s.sparesOthers a (.handlerEnd c') = true) := by
  constructor
  · intro t h
    have ht := h.invariant (I := OnConn a c)
      (fun s l t hI hP hst => onConn_step hI hP.1 hP.2 (step_view hst)) hs
    exact ⟨ht, ht.isOnline, ht.dispatchesTo⟩
  · intro c' s' hne hst
    constructor
    · intro h
      by_contra hspare
      exact forgotten hs hst (Bool.not_eq_true _ ▸ hspare) h
    · intro hspare
      exact onConn_step hs hspare (by simpa [undisturbed] using hne) (step_view hst)

/-- The superseded connection of `agent-1` has since registered `agent-2` too, and closes. -/
theorem superseded_close_agent2 : ∃ s t, .registered 0 "agent-1" ∈ s.history ∧ OnConn "agent-1" 1 s ∧
    (machine .default .empty).Run
      (fun s l => s.sparesOthers "agent-1" l = true ∧
        s.undisturbed .default "agent-1" 1 l = true) s t ∧
    t.handlers 0 = none ∧
    (OnConn "agent-1" 1 t ∧ t.agents.isOnline "agent-1" = true ∧
      DispatchesTo .default "agent-1" 1 t) := by
  have hexec : ((machine .default .empty).exec (fun _ _ => True)
      [.connect, .frame 0 (some (.register "agent-1")), .run, .run,
        .frame 0 (some (.register "agent-2")), .run, .run, .connect,
        .frame 1 (some (.register "agent-1")), .run, .run] (start .empty)).any
      (fun s => decide (.registered 0 "agent-1" ∈ s.history ∧ OnConn "agent-1" 1 s ∧
        ((machine .default .empty).exec
        (fun s l => s.sparesOthers "agent-1" l = true ∧ s.undisturbed .default "agent-1" 1 l = true)
        [.drop 0, .handlerEnd 0] s).any fun t => decide (t.handlers 0 = none))) = true := by decide +kernel
  obtain ⟨s, _, hreg, hon, hs⟩ := Machine.exists_run _ _ hexec
  obtain ⟨t, ht, hend⟩ := Machine.exists_run _ _ hs
  exact ⟨s, t, hreg, hon, ht, hend, (superseded_close .default .empty "agent-1" 1 s hon).1 t ht⟩

/-- `agent-1` reconnects, and the handler of its first connection ends. -/
theorem superseded_close_unrestricted_false :
    ∃ s s', (machine .default .empty).Reachable s ∧ .registered 0 "agent-1" ∈ s.history ∧
      OnConn "agent-1" 1 s ∧ step .default (.handlerEnd 0) s = some s' ∧
      s'.handlers 1 = some (some "agent-1") ∧ s'.sockets 1 = true ∧
        s'.agents.isOnline "agent-1" = false := by
  have hexec : ((machine .default .empty).exec (fun _ _ => True)
      [.connect, .frame 0 (some (.register "agent-1")), .run, .run, .connect,
        .frame 1 (some (.register "agent-1")), .run, .run, .drop 0] (start .empty)).any
      (fun s => decide (.registered 0 "agent-1" ∈ s.history ∧ OnConn "agent-1" 1 s ∧
        (step .default (.handlerEnd 0) s).any fun s' => decide (s'.handlers 1 = some (some "agent-1") ∧
          s'.sockets 1 = true ∧ s'.agents.isOnline "agent-1" = false))) = true := by decide +kernel
  obtain ⟨s, hrun, hreg, hon, hs⟩ := Machine.exists_run _ _ hexec
  obtain ⟨s', hst, hs'⟩ := (Option.any_eq_true _ _).mp hs
  exact ⟨s, s', hrun, hreg, hon, hst, of_decide_eq_true hs'⟩

end Server

end JobSystem
