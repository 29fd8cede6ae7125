import JobSystem.Server.Records

namespace JobSystem

open Lib

namespace AgentRegistry

variable (r : AgentRegistry)

theorem get_register (a : String) (c : ConnId) (t : Instant) (b : String) :
    (r.register a c t).get b = if b = a then some r.next else r.get b := Dict.get_set _ _ _ _

theorem get_unregister (a b : String) : (r.unregister a).get b = if b = a then none else r.get b :=
  Dict.get_pop _ _ _

theorem get_lt {a : String} {o : ObjId} (h : r.get a = some o) : o < r.next := (r.keyed h).1

theorem conns_register_next (a : String) (c : ConnId) (t : Instant) :
    (r.register a c t).conns r.next = ⟨a, c, t, t, 0⟩ := Function.update_self _ _ _

theorem conns_register_lt {a : String} {c : ConnId} {t : Instant} {o : ObjId} (h : o < r.next) :
    (r.register a c t).conns o = r.conns o := Function.update_of_ne (Nat.ne_of_lt h) _ _

@[simp] theorem get_markBusy (o : ObjId) (a : String) : (r.markBusy o).get a = r.get a := rfl

@[simp] theorem get_touch (a : String) (t : Instant) (b : String) : (r.touch a t).get b = r.get b := by
  rw [touch]
  cases r.get a <;> rfl

theorem conns_touch (a : String) (t : Instant) (o : ObjId) :
    (r.touch a t).conns o = r.conns o ∨ (r.touch a t).conns o = (r.conns o).touch t := by
  rw [touch]
  cases r.get a with
  | none => exact .inl rfl
  | some o' =>
      by_cases ho : o = o'
      · subst o'
        exact .inr (Function.update_self _ _ _)
      · exact .inl (Function.update_of_ne ho _ _)

@[simp] theorem inFlight_touch (a : String) (t : Instant) (o : ObjId) :
    ((r.touch a t).conns o).inFlight = (r.conns o).inFlight := by
  rcases r.conns_touch a t o with h | h <;> rw [h]
  rfl

@[simp] theorem ws_touch (a : String) (t : Instant) (o : ObjId) :
    ((r.touch a t).conns o).ws = (r.conns o).ws := by
  rcases r.conns_touch a t o with h | h <;> rw [h]
  rfl

theorem conns_markBusy (o o' : ObjId) :
    (r.markBusy o).conns o' = if o' = o then (r.conns o').markBusy else r.conns o' := by
  split
  · next h => subst o'; exact Function.update_self _ _ _
  · next h => exact Function.update_of_ne h _ _

@[simp] theorem ws_markBusy (o o' : ObjId) : ((r.markBusy o).conns o').ws = (r.conns o').ws := by
  rw [conns_markBusy]
  split <;> rfl

@[simp] theorem next_touch (a : String) (t : Instant) : (r.touch a t).next = r.next := by
  rw [touch]
  cases r.get a <;> rfl

end AgentRegistry

namespace Server

@[simp] theorem get_freeSlot (a : String) (r : AgentRegistry) (b : String) : (freeSlot a r).get b = r.get b := by
  rw [freeSlot]
  cases r.get a <;> rfl

theorem conns_freeSlot (a : String) (r : AgentRegistry) (o : ObjId) :
    (freeSlot a r).conns o = if r.get a = some o then (r.conns o).markFree else r.conns o := by
  rw [freeSlot]
  cases r.get a with
  | none => simp
  | some o' =>
      by_cases ho : o = o'
      · subst o'
        simp [AgentRegistry.markFree, AgentRegistry.onConn]
      · have hne : o' ≠ o := fun h => ho h.symm
        simp [AgentRegistry.markFree, AgentRegistry.onConn, ho, hne]

@[simp] theorem ws_freeSlot (a : String) (r : AgentRegistry) (o : ObjId) :
    ((freeSlot a r).conns o).ws = (r.conns o).ws := by
  rw [conns_freeSlot]
  split <;> rfl

@[simp] theorem next_freeSlot (a : String) (r : AgentRegistry) : (freeSlot a r).next = r.next := by
  rw [freeSlot]
  cases r.get a <;> rfl

theorem foldl_unregister (stale : List AgentConnection) (r : AgentRegistry) :
    (stale.foldl (fun r conn => r.unregister conn.agentId) r).conns = r.conns ∧
      (stale.foldl (fun r conn => r.unregister conn.agentId) r).next = r.next ∧
      ∀ a o, (stale.foldl (fun r conn => r.unregister conn.agentId) r).get a = some o →
        r.get a = some o := by
  induction stale generalizing r with
  | nil => exact ⟨rfl, rfl, fun _ _ h => h⟩
  | cons conn stale ih =>
      obtain ⟨hc, hn, hg⟩ := ih (r.unregister conn.agentId)
      refine ⟨hc, hn, fun a o h => ?_⟩
      have hu := hg a o h
      rw [AgentRegistry.get_unregister] at hu
      split at hu
      · cases hu
      · exact hu

theorem foldl_unregister_ne {stale : List AgentConnection} {r : AgentRegistry} {a : String}
    (h : ∀ conn ∈ stale, conn.agentId ≠ a) :
    (stale.foldl (fun r conn => r.unregister conn.agentId) r).get a = r.get a := by
  induction stale generalizing r with
  | nil => rfl
  | cons conn stale ih =>
      have hne : a ≠ conn.agentId := fun he => h conn List.mem_cons_self he.symm
      rw [List.foldl_cons, ih fun c hc => h c (List.mem_cons_of_mem _ hc), AgentRegistry.get_unregister,
        if_neg hne]

variable {cfg : Config} {s s' : Server} {label : Label}

/-- What becomes of the registry in one step: an entry is new, or it was there
before with the same socket. -/
theorem view_entry (h : View cfg s label s') {a : String} {o : ObjId} (ho : s'.agents.get a = some o) :
    (s.agents.get a = some o ∧ (s'.agents.conns o).ws = (s.agents.conns o).ws) ∨
      ∃ c, label = .frame c (some (.register a)) ∧ o = s.agents.next ∧ (s'.agents.conns o).ws = c ∧
        .registered c a ∈ s'.history := by
  cases h with
  | registered c b a' _ _ _ =>
      dsimp only at ho ⊢
      rw [AgentRegistry.get_register] at ho
      split at ho
      · next ha =>
          cases ho
          subst a'
          exact .inr ⟨c, rfl, rfl, by rw [AgentRegistry.conns_register_next], List.mem_cons_self⟩
      · exact .inl ⟨ho, by rw [s.agents.conns_register_lt (s.agents.get_lt ho)]⟩
  | forgot c b =>
      dsimp only at ho ⊢
      rw [AgentRegistry.get_unregister] at ho
      split at ho
      · cases ho
      · exact .inl ⟨ho, rfl⟩
  | heartbeatScan =>
      obtain ⟨hc, _, hg⟩ := foldl_unregister (s.agents.staleAgents s.clock cfg.maxIdle) s.agents
      exact .inl ⟨hg a o ho, congrArg (fun conns => (conns o).ws) hc⟩
  | touched c b b' => exact .inl ⟨by simpa using ho, by simp⟩
  | resultFreed => exact .inl ⟨by simpa using ho, by simp⟩
  | sent | sentUnrecorded => exact .inl ⟨by simpa using ho, by simp⟩
  | _ => exact .inl ⟨ho, rfl⟩

theorem view_idle (h : View cfg s label s') {a : String} {o : ObjId} (ho : s'.agents.get a = some o)
    (hidle : (s'.agents.conns o).inFlight = 0) :
    (s.agents.get a = some o ∧ (s.agents.conns o).inFlight = 0) ∨
      (∃ c, label = .frame c (some (.register a))) ∨
      ∃ c j x out e err, label = .frame c (some (.result j x out e err)) ∧
        s.handlers c = some (some a) ∧
        a ≠ "" ∧ bindableResult x out e err = true ∧ s'.jobs = stored (completion s.clock j x out e err) s.jobs := by
  cases h with
  | registered c b a' =>
      dsimp only at ho hidle
      rw [AgentRegistry.get_register] at ho
      split at ho
      · next ha =>
          subst a'
          exact .inr (.inl ⟨c, rfl⟩)
      · rw [s.agents.conns_register_lt (s.agents.get_lt ho)] at hidle
        exact .inl ⟨ho, hidle⟩
  | forgot c b =>
      dsimp only at ho
      rw [AgentRegistry.get_unregister] at ho
      split at ho
      · cases ho
      · exact .inl ⟨ho, hidle⟩
  | heartbeatScan =>
      obtain ⟨hconns, _, hget⟩ := foldl_unregister (s.agents.staleAgents s.clock cfg.maxIdle) s.agents
      exact .inl ⟨hget a o ho, (congrArg (fun conns => (conns o).inFlight) hconns).symm.trans hidle⟩
  | touched => exact .inl ⟨by simpa using ho, by simpa using hidle⟩
  | resultFreed c b j x out e err events hl hc hb hne hx =>
      have ho' : s.agents.get a = some o := by simpa using ho
      dsimp only at hidle
      rw [conns_freeSlot] at hidle
      split at hidle
      · next hbo =>
          obtain rfl : a = b := (s.agents.keyed ho').2.symm.trans (s.agents.keyed hbo).2
          exact .inr (.inr ⟨c, j, x, out, e, err, rfl, hb, hne, hx, rfl⟩)
      · exact .inl ⟨ho', hidle⟩
  | sent | sentUnrecorded =>
      dsimp only at ho hidle
      rw [AgentRegistry.conns_markBusy] at hidle
      split at hidle
      · cases hidle
      · exact .inl ⟨by simpa using ho, hidle⟩
  | _ => exact .inl ⟨ho, hidle⟩

structure Begun (s : Server) (label : Label) (s' : Server) (co : Coro) (l : LockRef) (o : ObjId) (job : Job)
    (k : Return) : Prop where
  label : label = .run
  loop : s.loop = some co
  locked : s.ctl co = some (.locked l k)
  entry : s.agents.get l.agentId = some o
  idle : (s.agents.conns o).inFlight = 0
  pending : (pendingJobs l.agentId s.jobs).head? = some job
  socket : s.sockets (s.agents.conns o).ws = true
  jobs : s'.jobs = s.jobs
  agents : s'.agents = s.agents
  history : s'.history = .jobWritten (s.agents.conns o).ws job.jobId :: s.history
  sending : s'.ctl co = some (.sending l o job k)

/-- A frame is written to the connection of a registered agent, to cancel a job
or to send the first pending one. -/
theorem view_outbox (h : View cfg s label s') (c : ConnId) :
    s'.outbox c = s.outbox c ∨ ∃ a o f, s'.outbox c = s.outbox c ++ [f] ∧ s.agents.get a = some o ∧
      (s.agents.conns o).ws = c ∧ ((∃ j reason, f = .cancel j reason) ∨
        ∃ co l job k, f = jobMessage job ∧ l.agentId = a ∧ Begun s label s' co l o job k) := by
  have hwrite : ∀ {ws f}, s'.outbox = Function.update s.outbox ws (s.outbox ws ++ [f]) →
      s'.outbox c = s.outbox c ∨ (ws = c ∧ s'.outbox c = s.outbox c ++ [f]) := by
    intro ws f hout
    rw [hout]
    by_cases he : c = ws
    · subst c
      exact .inr ⟨rfl, Function.update_self _ _ _⟩
    · exact .inl (Function.update_of_ne he _ _)
  cases h with
  | sendBegun co l k o job hl hc ho hidle hp hs =>
      rcases hwrite rfl with he | ⟨rfl, he⟩
      · exact .inl he
      · refine .inr ⟨_, o, _, he, ho, rfl, .inr ⟨co, l, job, k, rfl, rfl, ?_⟩⟩
        exact ⟨rfl, hl, hc, ho, hidle, hp, hs, rfl, rfl, rfl, Function.update_self _ _ _⟩
  | cancelSending co job k o _ _ ho =>
      rcases hwrite rfl with he | ⟨rfl, he⟩
      · exact .inl he
      · exact .inr ⟨_, o, _, he, ho, rfl, .inl ⟨_, _, rfl⟩⟩
  | _ => exact .inl rfl

end Server

end JobSystem
