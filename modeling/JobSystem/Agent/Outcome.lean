import JobSystem.Agent.Open

namespace JobSystem

open Lib

theorem mem_eraseIdx_of {α : Type} {l : List α} {i : ℕ} {x y : α} (hx : x ∈ l) (hi : l[i]? = some y)
    (hne : x ≠ y) : x ∈ l.eraseIdx i := by
  obtain ⟨k, hk⟩ := List.mem_iff_getElem?.mp hx
  refine List.mem_eraseIdx_iff_getElem?.mpr ⟨k, fun he => hne ?_, hk⟩
  subst k
  exact Option.some.inj (hk.symm.trans hi)

theorem mem_set_of {α : Type} {l : List α} {i : ℕ} {x y z : α} (hx : x ∈ l) (hi : l[i]? = some y)
    (hne : x ≠ y) : x ∈ l.set i z := by
  obtain ⟨k, hk⟩ := List.mem_iff_getElem?.mp hx
  refine List.mem_iff_getElem?.mpr ⟨k, ?_⟩
  rw [List.getElem?_set_ne, hk]
  rintro rfl
  exact hne (Option.some.inj (hk.symm.trans hi))

def ContainerStatus.wasStarted : ContainerStatus → Bool
  | running | exited _ _ _ => true
  | created => false

def AgentCtl.result : AgentCtl → Option JobResult
  | reporting _ r | reportingExited _ _ r _ => some r
  | _ => none

namespace Agent

variable {agentId : String} {inbox : ConnId → List ServerFrame} {a a' : Agent} {label : AgentLabel}

/-- The jobs of the containers that a step removes, those that have exited and those that it kills. -/
def destroyed (a a' : Agent) : List String :=
  (a.containers.entries.filter fun e =>
    e.2.status.wasStarted && (a'.containers.get e.1).isNone && decide (e.2.jobId ≠ "")).map (·.2.jobId)

theorem mem_destroyed {j : String} : j ∈ a.destroyed a' ↔ ∃ id k, a.containers.get id = some k ∧
    k.status.wasStarted = true ∧ a'.containers.get id = none ∧ k.jobId = j ∧ j ≠ "" := by
  simp only [destroyed, List.mem_map, List.mem_filter, Bool.and_eq_true, Option.isNone_iff_eq_none,
    decide_eq_true_eq]
  constructor
  · rintro ⟨⟨id, k⟩, ⟨hm, ⟨hx, hn⟩, hj⟩, rfl⟩
    exact ⟨id, k, (Dict.lookup_eq_some a.containers.nodup).mpr hm, hx, hn, rfl, hj⟩
  · rintro ⟨id, k, hk, hx, hn, rfl, hj⟩
    exact ⟨(id, k), ⟨(Dict.lookup_eq_some a.containers.nodup).mp hk, ⟨hx, hn⟩, hj⟩, rfl⟩

theorem destroyed_eq_nil (h : ∀ id, (a.containers.get id).isSome → (a'.containers.get id).isSome) :
    a.destroyed a' = [] := by
  rw [List.eq_nil_iff_forall_not_mem]
  intro j hj
  obtain ⟨id, k, hk, _, hn, _⟩ := mem_destroyed.mp hj
  have := h id (by rw [hk]; rfl)
  rw [hn] at this
  cases this

/-- Whether container `id` of job `j` is one whose removal destroys an outcome. -/
def destroys (a : Agent) (removed : Bool) (id : ContainerId) (j : String) : Bool :=
  removed && ((a.containers.get id).any fun k => k.status.wasStarted) && decide (j ≠ "")

theorem mem_destroyed_remove {b : Agent} {removed : Bool} {id : ContainerId} {j k : String}
    (hN : a.Names id j) (hb : b.containers = a.containers)
    (ha' : a'.containers = (b.removeContainer removed id).containers) :
    k ∈ a.destroyed a' ↔ k = j ∧ a.destroys removed id j = true := by
  have hget :
      ∀ i, a'.containers.get i = if removed = true ∧ i = id then none else a.containers.get i := by
    intro i
    have hpop := Dict.get_pop a.containers id i
    cases removed with
    | false => rw [ha', removeContainer]; simp [hb]
    | true =>
        rw [ha', removeContainer, if_pos rfl]
        dsimp only
        rw [hb, hpop]
        simp
  simp only [mem_destroyed, destroys, Bool.and_eq_true, decide_eq_true_eq, Option.any_eq_true]
  constructor
  · rintro ⟨i, c, hc, hx, hn, rfl, hj⟩
    rw [hget] at hn
    split at hn
    · next hcond =>
        obtain ⟨hr, rfl⟩ := hcond
        have hj' := hN.2 c hc
        exact ⟨hj', ⟨hr, c, hc, hx⟩, by rwa [hj'] at hj⟩
    · cases hc.symm.trans hn
  · rintro ⟨rfl, ⟨hr, c, hc, hx⟩, hj⟩
    exact ⟨id, c, hc, hx, by rw [hget, if_pos ⟨hr, rfl⟩], hN.2 c hc, hj⟩

theorem isSome_leaveContainer (j image : String) (command : List String)
    (left : Option ContainerStatus) (id : ContainerId) (h : (a.containers.get id).isSome) :
    ((a.leaveContainer j image command left).containers.get id).isSome := by
  cases left with
  | none => exact h
  | some status =>
      rw [leaveContainer, get_startContainer]
      split
      · rfl
      · exact h

end Agent

structure Outcomes where
  destroyed : List String
  reported : List String

namespace OpenAgent

/-- Some task of the agent can still send a result of job `j` on an open connection. -/
def holds (j : String) (s : OpenAgent) : Bool :=
  s.up && ((s.agent.main.result.any fun r => r.jobId = j) ||
    s.agent.reattached.any fun r => s.isOpen r.c && r.result.any fun result => result.jobId = j)

def reports (s : OpenAgent) : OpenLabel → List String
  | .agent .sent => (s.agent.main.result.map (·.jobId)).toList
  | .agent (.reattachSent i _) =>
      (s.agent.reattached[i]?.bind fun r => if s.isOpen r.c then r.result.map (·.jobId) else none).toList
  | _ => []

def observe (s : OpenAgent) (l : OpenLabel) (s' : OpenAgent) (g : Outcomes) : Outcomes :=
  ⟨s.agent.destroyed s'.agent ++ g.destroyed, s.reports l ++ g.reported⟩

def reporting (agentId : String) : Machine (OpenAgent × Outcomes) OpenLabel :=
  (machine agentId).observed ⟨[], []⟩ observe

/-- Of every job whose container has run and is gone a result has been sent, or can be. -/
def Kept (p : OpenAgent × Outcomes) : Prop := ∀ j ∈ p.2.destroyed, j ∈ p.2.reported ∨ p.1.holds j = true

def settled (g : Outcomes) : Bool := g.destroyed.all fun j => decide (j ∈ g.reported)

/-- The connection does not break, and the session does not end, before the result of a removed
container has been sent, and a container that has run is removed with its result in hand and its
connection open. -/
def keepsResults (p : OpenAgent × Outcomes) : OpenLabel → Bool
  | .drop | .agent .lost | .agent (.inspected false) | .agent (.crashed _) => settled p.2
  | .agent (.waitReturned ok removed) =>
      match p.1.agent.main with
      | .waiting _ j id =>
          let sent := !p.1.agent.destroys removed id j || decide (j ∈ p.2.reported)
          if ok then sent || p.1.up else sent && settled p.2
      | _ => true
  | .agent (.reattachWaited i ok removed) =>
      match p.1.agent.reattached[i]? with
      | some r =>
          !p.1.agent.destroys removed r.id r.jobId || decide (r.jobId ∈ p.2.reported) || p.1.holds r.jobId ||
          (ok && p.1.isOpen r.c)
      | none => true
  | _ => true

variable {agentId : String} {s s' : OpenAgent} {p q : OpenAgent × Outcomes} {j : String}

theorem holds_iff :
    s.holds j = true ↔ s.up = true ∧ ((∃ r, s.agent.main.result = some r ∧ r.jobId = j) ∨
      ∃ r ∈ s.agent.reattached, s.agent.main.session = some r.c ∧ ∃ result, r.result = some result ∧
        result.jobId = j) := by
  simp only [holds, isOpen, Bool.and_eq_true, Bool.or_eq_true, Option.any_eq_true,
    List.any_eq_true, decide_eq_true_eq]
  constructor
  · rintro ⟨hup, hm | ⟨r, hr, ⟨_, hc⟩, result, hres, hj⟩⟩
    · exact ⟨hup, .inl hm⟩
    · exact ⟨hup, .inr ⟨r, hr, hc, result, hres, hj⟩⟩
  · rintro ⟨hup, hm | ⟨r, hr, hc, result, hres, hj⟩⟩
    · exact ⟨hup, .inl hm⟩
    · exact ⟨hup, .inr ⟨r, hr, ⟨hup, hc⟩, result, hres, hj⟩⟩

theorem holds_of_down (hup : s.up = false) : s.holds j = false := by
  rw [holds, hup, Bool.false_and]

theorem holds_of_offline (hm : s.agent.main = .offline) : s.holds j = false := by
  by_contra hh
  obtain ⟨_, ⟨r, hr, _⟩ | ⟨r, _, hs, _⟩⟩ := holds_iff.mp (by simpa using hh)
  · rw [hm] at hr
    cases hr
  · rw [hm] at hs
    cases hs

theorem settled_iff {g : Outcomes} : settled g = true ↔ ∀ j ∈ g.destroyed, j ∈ g.reported := by
  simp [settled]

/-- Where nothing is held, everything destroyed must have been reported. -/
theorem kept_iff_settled (h : ∀ j, p.1.holds j = false) : Kept p ↔ settled p.2 = true := by
  rw [settled_iff, Kept]
  simp only [h, Bool.false_eq_true, or_false]

/-- The invariants of the agent, and that a container is removed after a reconcile when its result
has been sent. -/
structure Traced (p : OpenAgent × Outcomes) : Prop where
  labelled : p.1.agent.Labelled
  removing : ∀ c id rest, p.1.agent.main = .removing c id rest →
    ∃ j, p.1.agent.Names id j ∧ (j = "" ∨ j ∈ p.2.reported)

theorem act_removing {inbox : ConnId → List ServerFrame} {a a' : Agent} {l : AgentLabel}
    (h : Agent.Act agentId inbox a l a') {c : ConnId} {id : ContainerId}
    {rest : List (ContainerId × Container)} (hm : a'.main = .removing c id rest) :
    a.main = .removing c id rest ∨ (∃ e ∈ a.main.rest, e.1 = id ∧ e.2.jobId = "") ∨
      (l = .sent ∧ ∃ r, a.main = .reportingExited c id r rest) := by
  cases h with
  | sent c' f x ho hr =>
      cases hx : a.main <;> rw [hx] at ho <;> cases ho <;> cases hm
      exact .inr (.inr ⟨rfl, _, rfl⟩)
  | examined c' i k rest' x hm' hx =>
      rcases hx with ⟨hj, rfl⟩ | rfl | rfl | rfl <;> cases hm
      exact .inr (.inl ⟨(id, k), by rw [hm']; exact List.mem_cons_self, rfl, hj⟩)
  | heartbeat | exited | reattachSent => exact .inl hm
  | reattachWaited i removed => cases removed <;> exact .inl hm
  | reattachFailed i removed => cases removed <;> exact .inl hm
  | _ => cases hm

theorem traced_step {l : OpenLabel} (hT : Traced p) (h : (reporting agentId).step l p = some q) :
    Traced q := by
  obtain ⟨hst, hg⟩ := Machine.observed_step.mp h
  have hrep : ∀ j ∈ p.2.reported, j ∈ q.2.reported := by
    intro j hj
    rw [hg]
    exact List.mem_append_right _ hj
  refine ⟨labelled_step hT.labelled hst, fun c id rest hm => ?_⟩
  cases l with
  | arrives f =>
      obtain ⟨_, hq⟩ := Option.ite_none_right_eq_some.mp hst
      have hq : { p.1 with inbox := p.1.inbox ++ [f] } = q.1 := Option.some.inj hq
      rw [← hq] at hm ⊢
      obtain ⟨j, hN, hj⟩ := hT.removing c id rest hm
      exact ⟨j, hN, hj.imp_right (hrep j)⟩
  | connect =>
      rw [(of_connect agentId hst).2] at hm
      cases hm
  | drop =>
      have hq : { p.1 with up := false } = q.1 := Option.some.inj hst
      rw [← hq] at hm ⊢
      obtain ⟨j, hN, hj⟩ := hT.removing c id rest hm
      exact ⟨j, hN, hj.imp_right (hrep j)⟩
  | agent l =>
      obtain ⟨_, a, hq, hact⟩ := of_agent hst
      rw [hq] at hm ⊢
      rcases act_removing hact hm with hm | ⟨e, he, rfl, hj⟩ | ⟨rfl, r, hm⟩
      · obtain ⟨j, hN, hj⟩ := hT.removing c id rest hm
        exact ⟨j, hN.act hact, hj.imp_right (hrep j)⟩
      · exact ⟨"", hj ▸ (hT.labelled.rest e he).act hact, .inl rfl⟩
      · refine ⟨r.jobId, (hT.labelled.main id r.jobId (by rw [hm]; rfl)).act hact, .inr ?_⟩
        rw [hg]
        exact List.mem_append_left _ (by simp [reports, hm, AgentCtl.result])

theorem outgoing_session {x y : AgentCtl} {c : ConnId} {f : AgentFrame}
    (h : x.outgoing agentId = some (c, f, y)) : y.session = x.session ∧ y.result = none := by
  cases x <;> cases h <;> exact ⟨rfl, rfl⟩

/-- What a step leaves to the tasks of the agent: the session, and every result that it does not
send itself. -/
structure Passes (s s' : OpenAgent) (sent : List String) : Prop where
  up : s'.up = s.up
  session : s'.agent.main.session = s.agent.main.session
  main : ∀ r, s.agent.main.result = some r → s'.agent.main.result = some r ∨ r.jobId ∈ sent
  reattached : ∀ r ∈ s.agent.reattached, ∀ result, r.result = some result → s.isOpen r.c = true →
    r ∈ s'.agent.reattached ∨ result.jobId ∈ sent

/-- What the agent held before such a step it holds after it or has sent in it. -/
theorem Passes.holds {sent : List String} (h : Passes s s' sent) (hh : s.holds j = true) :
    s'.holds j = true ∨ j ∈ sent := by
  obtain ⟨hu, ⟨r, hres, rfl⟩ | ⟨r, hmem, hc, result, hres, rfl⟩⟩ := holds_iff.mp hh
  · exact (h.main r hres).imp_left fun hres => holds_iff.mpr ⟨h.up.trans hu, .inl ⟨r, hres, rfl⟩⟩
  · refine (h.reattached r hmem result hres ?_).imp_left fun hmem => ?_
    · rw [isOpen, hu, hc, Bool.true_and]
      exact decide_eq_true rfl
    · exact holds_iff.mpr ⟨h.up.trans hu, .inr ⟨r, hmem, h.session.trans hc, result, hres, rfl⟩⟩

section Steps

variable {l : AgentLabel} {a b : Agent} {removed : Bool} {id : ContainerId} {k : String}

theorem passes_of_main {x : AgentCtl} {sent : List String} (hm : p.1.agent.main = x)
    (hx : x.result = none) (hs : a.main.session = x.session)
    (hr : ∀ r ∈ p.1.agent.reattached, r ∈ a.reattached) :
    Passes p.1 { p.1 with agent := a } sent where
  up := rfl
  session := by rw [hs, hm]
  main := by rw [hm, hx]; nofun
  reattached r h _ _ _ := .inl (hr r h)

theorem passes_of_reattached {sent : List String} (hm : a.main = p.1.agent.main)
    (hr : ∀ r ∈ p.1.agent.reattached, ∀ result, r.result = some result → p.1.isOpen r.c = true →
      r ∈ a.reattached ∨ result.jobId ∈ sent) : Passes p.1 { p.1 with agent := a } sent where
  up := rfl
  session := congrArg AgentCtl.session hm
  main r h := .inl (by rw [hm]; exact h)
  reattached := hr

def acted (p : OpenAgent × Outcomes) (l : AgentLabel) (a : Agent) : OpenAgent × Outcomes :=
  ({ p.1 with agent := a }, observe p.1 (.agent l) { p.1 with agent := a } p.2)

theorem mem_reported_acted :
    j ∈ (acted p l a).2.reported ↔ j ∈ p.1.reports (.agent l) ∨ j ∈ p.2.reported :=
  List.mem_append

/-- Where results are passed on, it is what the step destroys that must be reported or held. -/
theorem kept_iff_destroyed (hK : Kept p) (hP : Passes p.1 { p.1 with agent := a } (p.1.reports (.agent l))) :
    Kept (acted p l a) ↔ ∀ j ∈ p.1.agent.destroyed a, j ∈ p.1.reports (.agent l) ∨ j ∈ p.2.reported ∨
      holds j { p.1 with agent := a } = true := by
  constructor
  · intro hq j hj
    have := hq j (List.mem_append_left _ hj)
    rwa [mem_reported_acted, or_assoc] at this
  · intro hd j hj
    rw [mem_reported_acted, or_assoc]
    rcases List.mem_append.mp hj with hj | hj
    · exact hd j hj
    · rcases hK j hj with hj | hj
      · exact .inr (.inl hj)
      · rcases hP.holds hj with hj | hj
        · exact .inr (.inr hj)
        · exact .inl hj

theorem kept_grown (hK : Kept p)
    (hc : ∀ id, (p.1.agent.containers.get id).isSome → (a.containers.get id).isSome)
    (hP : Passes p.1 { p.1 with agent := a } (p.1.reports (.agent l))) : Kept (acted p l a) := by
  rw [kept_iff_destroyed hK hP, Agent.destroyed_eq_nil hc]
  nofun

theorem kept_iff_removed (hK : Kept p) (hP : Passes p.1 { p.1 with agent := a } (p.1.reports (.agent l)))
    (hN : p.1.agent.Names id k) (hb : b.containers = p.1.agent.containers)
    (ha : a.containers = (b.removeContainer removed id).containers) :
    Kept (acted p l a) ↔ (p.1.agent.destroys removed id k = true →
      k ∈ p.1.reports (.agent l) ∨ k ∈ p.2.reported ∨ holds k { p.1 with agent := a } = true) := by
  rw [kept_iff_destroyed hK hP]
  simp only [Agent.mem_destroyed_remove hN hb ha]
  exact ⟨fun h hd => h k ⟨rfl, hd⟩, fun h j ⟨hj, hd⟩ => hj ▸ h hd⟩

theorem kept_ended (hm : a.main = .offline) (hl : p.1.reports (.agent l) = []) :
    Kept (acted p l a) ↔ (∀ j ∈ p.1.agent.destroyed a, j ∈ p.2.reported) ∧ settled p.2 = true := by
  rw [kept_iff_settled fun j => holds_of_offline hm, settled_iff, settled_iff]
  simp only [acted, observe, hl, List.nil_append, List.mem_append]
  constructor
  · exact fun h => ⟨fun j hj => h j (.inl hj), fun j hj => h j (.inr hj)⟩
  · rintro ⟨hd, ho⟩ j (hj | hj)
    · exact hd j hj
    · exact ho j hj

theorem kept_ended_grown (hm : a.main = .offline) (hl : p.1.reports (.agent l) = [])
    (hc : ∀ id, (p.1.agent.containers.get id).isSome → (a.containers.get id).isSome) :
    Kept (acted p l a) ↔ settled p.2 = true := by
  rw [kept_ended hm hl, Agent.destroyed_eq_nil hc]
  exact and_iff_right nofun

theorem kept_ended_removed (hm : a.main = .offline) (hl : p.1.reports (.agent l) = [])
    (hN : p.1.agent.Names id k) (hb : b.containers = p.1.agent.containers)
    (ha : a.containers = (b.removeContainer removed id).containers) :
    Kept (acted p l a) ↔
      (p.1.agent.destroys removed id k = true → k ∈ p.2.reported) ∧ settled p.2 = true := by
  rw [kept_ended hm hl]
  simp only [Agent.mem_destroyed_remove hN hb ha]
  exact and_congr_left fun _ => ⟨fun h hd => h k ⟨rfl, hd⟩, fun h j ⟨hj, hd⟩ => hj ▸ h hd⟩

end Steps

theorem kept_waited (hT : Traced p) (hK : Kept p) {c : ConnId} {id : ContainerId} {x : Int} {out err : String}
    (removed : Bool) (hm : p.1.agent.main = .waiting c j id) :
    Kept (acted p (.waitReturned true removed)
        ((Agent.removeContainer removed id { p.1.agent with running := p.1.agent.running.pop j }).goto
          (.reporting c (jobResult j x out err none)))) ↔
      keepsResults p (.agent (.waitReturned true removed)) = true := by
  let b : Agent := { p.1.agent with running := p.1.agent.running.pop j }
  let a : Agent := (b.removeContainer removed id).goto (.reporting c (jobResult j x out err none))
  have hheld : holds j { p.1 with agent := a } = p.1.up := by
    cases hup : p.1.up with
    | false => exact holds_of_down hup
    | true => exact holds_iff.mpr ⟨hup, .inl ⟨_, rfl, jobResult_jobId j x out err none⟩⟩
  have hP : Passes p.1 { p.1 with agent := a } (p.1.reports (.agent (.waitReturned true removed))) := by
    refine passes_of_main hm rfl rfl fun r h => ?_
    change r ∈ (b.removeContainer removed id).reattached
    rwa [Agent.reattached_removeContainer]
  have hN : p.1.agent.Names id j := hT.labelled.main id j (by rw [hm]; rfl)
  rw [kept_iff_removed (b := b) hK hP hN rfl rfl, hheld]
  simp only [reports, keepsResults, hm]
  cases p.1.agent.destroys removed id j <;> simp

theorem kept_reattachWaited (hT : Traced p) (hK : Kept p) {i : ℕ} {r : Reattach} {x : Int} {out err : String}
    (removed : Bool) (hr : p.1.agent.reattached[i]? = some r) (hn : r.result = none) :
    Kept (acted p (.reattachWaited i true removed) (Agent.removeContainer removed r.id { p.1.agent with
        reattached := p.1.agent.reattached.set i { r with result := some (jobResult r.jobId x out err none) } })) ↔
      keepsResults p (.agent (.reattachWaited i true removed)) = true := by
  let r' : Reattach := { r with result := some (jobResult r.jobId x out err none) }
  let b : Agent := { p.1.agent with reattached := p.1.agent.reattached.set i r' }
  let a : Agent := b.removeContainer removed r.id
  have hmain : a.main = p.1.agent.main := Agent.main_removeContainer _ _
  have hreattached : a.reattached = p.1.agent.reattached.set i r' := Agent.reattached_removeContainer _ _
  have hP : ∀ sent, Passes p.1 { p.1 with agent := a } sent := by
    intro sent
    refine passes_of_reattached hmain fun u h result hres _ => .inl ?_
    rw [hreattached]
    refine mem_set_of h hr ?_
    rintro rfl
    cases hn.symm.trans hres
  have hheld :
      holds r.jobId { p.1 with agent := a } = true ↔
        p.1.holds r.jobId = true ∨ p.1.isOpen r.c = true := by
    constructor
    · intro hh
      obtain ⟨hup, ⟨res, hres, hj⟩ | ⟨u, hmem, hc, res, hres, hj⟩⟩ := holds_iff.mp hh
      · rw [hmain] at hres
        exact .inl (holds_iff.mpr ⟨hup, .inl ⟨res, hres, hj⟩⟩)
      · rw [hreattached] at hmem
        rw [hmain] at hc
        rcases List.mem_or_eq_of_mem_set hmem with hmem | rfl
        · exact .inl (holds_iff.mpr ⟨hup, .inr ⟨u, hmem, hc, res, hres, hj⟩⟩)
        · exact .inr (Bool.and_eq_true_iff.mpr ⟨hup, decide_eq_true hc⟩)
    · rintro (hh | hopen)
      · exact ((hP []).holds hh).resolve_right nofun
      · -- the task has the result in hand, on the connection of the session
        obtain ⟨hup, hc⟩ := Bool.and_eq_true_iff.mp hopen
        refine holds_iff.mpr ⟨hup, .inr ⟨r', ?_, ?_, _, rfl, jobResult_jobId _ _ _ _ _⟩⟩
        · rw [hreattached]
          exact List.mem_set (List.getElem?_eq_some_iff.mp hr).1 _
        · rw [hmain]
          exact of_decide_eq_true hc
  have hN : p.1.agent.Names r.id r.jobId := (hT.labelled.reattached r (List.mem_of_getElem? hr)).1
  rw [kept_iff_removed (b := b) hK (hP _) hN rfl rfl, hheld]
  simp only [reports, keepsResults, hr]
  cases p.1.agent.destroys removed r.id r.jobId <;> simp [or_assoc]

theorem kept_reattachFailed (hT : Traced p) (hK : Kept p) {i : ℕ} {r : Reattach} (removed : Bool)
    (hr : p.1.agent.reattached[i]? = some r) (hn : r.result = none) :
    Kept (acted p (.reattachWaited i false removed)
        ((p.1.agent.reattachEnd i r.jobId).removeContainer removed r.id)) ↔
      keepsResults p (.agent (.reattachWaited i false removed)) = true := by
  let b : Agent := p.1.agent.reattachEnd i r.jobId
  let a : Agent := b.removeContainer removed r.id
  have hmain : a.main = p.1.agent.main := Agent.main_removeContainer _ _
  have hreattached : a.reattached = p.1.agent.reattached.eraseIdx i :=
    Agent.reattached_removeContainer _ _
  have hP : ∀ sent, Passes p.1 { p.1 with agent := a } sent := by
    intro sent
    refine passes_of_reattached hmain fun u h result hres _ => .inl ?_
    rw [hreattached]
    refine mem_eraseIdx_of h hr ?_
    rintro rfl
    cases hn.symm.trans hres
  -- the task that ends had no result
  have hback : Passes { p.1 with agent := a } p.1 [] :=
    passes_of_reattached (p := ({ p.1 with agent := a }, p.2)) hmain.symm fun u h _ _ _ =>
      .inl (List.mem_of_mem_eraseIdx (hreattached ▸ h))
  have hheld : holds r.jobId { p.1 with agent := a } = true ↔ p.1.holds r.jobId = true :=
    ⟨fun hh => (hback.holds hh).resolve_right nofun, fun hh => ((hP []).holds hh).resolve_right nofun⟩
  have hN : p.1.agent.Names r.id r.jobId := (hT.labelled.reattached r (List.mem_of_getElem? hr)).1
  rw [kept_iff_removed (b := b) hK (hP _) hN rfl rfl, hheld]
  simp only [reports, keepsResults, hr]
  cases p.1.agent.destroys removed r.id r.jobId <;> simp

theorem kept_agent {l : AgentLabel} {a : Agent} (hT : Traced p) (hK : Kept p) (hp : p.1.permits l = true)
    (hact : Agent.Act agentId (fun _ => p.1.inbox) p.1.agent l a) :
    Kept (acted p l a) ↔ keepsResults p (.agent l) = true := by
  -- a step of the task of `run` that removes no container
  have hquiet : ∀ {x}, p.1.agent.main = x → x.result = none → a.main.session = x.session →
      (∀ id, (p.1.agent.containers.get id).isSome → (a.containers.get id).isSome) →
      (∀ r ∈ p.1.agent.reattached, r ∈ a.reattached) → Kept (acted p l a) :=
    fun hm hx hs hc hr => kept_grown hK hc (passes_of_main hm hx hs hr)
  cases hact with
  | sent c f x ho =>
      refine iff_of_true (kept_grown hK (fun _ h => h) ⟨rfl, (outgoing_session ho).1, fun r hr => .inr ?_,
        fun r h _ _ _ => .inl h⟩) rfl
      simp [reports, hr]
  | reattaching c id j rest hm =>
      exact iff_of_true (hquiet hm rfl rfl (fun _ h => h) fun r h => List.mem_append_left _ h) rfl
  | sendFailed written wire =>
      have hup : p.1.up = false := by simpa [permits] using hp
      have hsettled : settled p.2 = true := (kept_iff_settled fun j => holds_of_down hup).mp hK
      refine (kept_ended_grown ?_ rfl ?_).trans (iff_of_true hsettled rfl)
      · rfl
      · exact fun _ h => h
  | ended l hl =>
      have hreports : p.1.reports (.agent l) = [] := by rcases hl with rfl | rfl <;> rfl
      have hcond : keepsResults p (.agent l) = settled p.2 := by rcases hl with rfl | rfl <;> rfl
      rw [hcond]
      refine kept_ended_grown ?_ hreports ?_
      · rfl
      · exact fun _ h => h
  | tookJob _ _ _ _ _ _ hm | ignored _ _ _ hm | killing _ _ _ _ hm | listed _ hm | killed _ _ hm
    | inspected _ _ _ _ _ _ _ hm =>
      exact iff_of_true (hquiet hm rfl rfl (fun _ h => h) fun _ h => h) rfl
  | listens l c hl =>
      rcases hl with ⟨rfl, hm⟩ | ⟨rfl, hm⟩
      · exact iff_of_true (hquiet hm rfl rfl (fun _ h => h) fun _ h => h) rfl
      · exact iff_of_true (hquiet hm rfl rfl (fun _ h => h) fun _ h => h) rfl
  | examined c id container rest x hm hx =>
      refine iff_of_true (hquiet hm rfl ?_ (fun _ h => h) fun _ h => h) rfl
      rcases hx with ⟨_, rfl⟩ | rfl | rfl | rfl <;> rfl
  | removed ok c id rest hm =>
      let a : Agent := (p.1.agent.removeContainer ok id).goto (.reconciling c rest)
      have hP : Passes p.1 { p.1 with agent := a } (p.1.reports (.agent (.removed ok))) := by
        refine passes_of_main hm rfl rfl fun r h => ?_
        change r ∈ (p.1.agent.removeContainer ok id).reattached
        rwa [Agent.reattached_removeContainer]
      obtain ⟨j, hN, hj⟩ := hT.removing c id rest hm
      refine iff_of_true ((kept_iff_removed (b := p.1.agent) hK hP hN rfl rfl).mpr fun hd => ?_) rfl
      rcases hj with rfl | hj
      · simp [Agent.destroys] at hd
      · exact .inr (.inl hj)
  | started c j image command hm =>
      refine iff_of_true (hquiet hm rfl rfl (fun i hi => ?_) fun _ h => h) rfl
      change ((p.1.agent.startContainer j image command .running).containers.get i).isSome
      rw [Agent.get_startContainer]
      split
      · rfl
      · exact hi
  | startFailed c j image command error left hm =>
      have hgrown := Agent.isSome_leaveContainer (a := p.1.agent) j image command left
      refine iff_of_true (hquiet hm rfl rfl hgrown fun r h => ?_) rfl
      change r ∈ (p.1.agent.leaveContainer j image command left).reattached
      rwa [Agent.reattached_leaveContainer]
  | waited c j id removed x out err hm => exact kept_waited hT hK removed hm
  | waitFailed c j id removed hm =>
      let b : Agent := { p.1.agent with running := p.1.agent.running.pop j }
      have hN : p.1.agent.Names id j := hT.labelled.main id j (by rw [hm]; rfl)
      let a : Agent := (b.removeContainer removed id).endSession
      refine (kept_ended_removed (a := a) (b := b) rfl rfl hN rfl rfl).trans ?_
      simp only [keepsResults, hm]
      cases p.1.agent.destroys removed id j <;> simp
  | heartbeat ok written wire heartbeat =>
      exact iff_of_true (kept_grown hK (fun _ h => h) (passes_of_reattached rfl fun r h _ _ _ => .inl h)) rfl
  | reattachWaited i removed r x out err hr hn => exact kept_reattachWaited hT hK removed hr hn
  | reattachFailed i removed r hr hn => exact kept_reattachFailed hT hK removed hr hn
  | reattachSent i written r result wire hr hn =>
      refine iff_of_true (kept_grown hK (fun _ h => h)
        (passes_of_reattached rfl fun u h result' hres hopen => ?_)) rfl
      by_cases he : u = r
      · subst u
        cases hn.symm.trans hres
        right
        simp [reports, hr, hopen, hn]
      · exact .inl (mem_eraseIdx_of h hr he)
  | exited id x out err k hk =>
      refine iff_of_true (kept_grown hK (fun i hi => ?_) (passes_of_reattached rfl fun r h _ _ _ => .inl h)) rfl
      change ((p.1.agent.containers.set id _).get i).isSome
      rw [Dict.get_set]
      split
      · rfl
      · exact hi
  | crashed left =>
      have hmain : (p.1.agent.crashed left).main = .offline := by rw [Agent.crashed]
      refine kept_ended_grown hmain rfl fun id hid => ?_
      rw [Agent.crashed]
      split
      · exact Agent.isSome_leaveContainer _ _ _ left id hid
      · exact hid

theorem observe_same {l : OpenLabel} {g : Outcomes} (hc : s'.agent.containers = s.agent.containers)
    (hl : s.reports l = []) : observe s l s' g = g := by
  rw [observe, hl, Agent.destroyed_eq_nil fun id h => hc ▸ h]
  rfl

theorem kept_step {l : OpenLabel} (hT : Traced p) (hK : Kept p)
    (h : (reporting agentId).step l p = some q) : Kept q ↔ keepsResults p l = true := by
  obtain ⟨hst, hg⟩ := Machine.observed_step.mp h
  obtain ⟨s', g⟩ := q
  dsimp only at hst hg
  subst hg
  cases l with
  | arrives f =>
      obtain ⟨_, ⟨⟩⟩ := Option.ite_none_right_eq_some.mp hst
      rw [observe_same]
      · exact iff_of_true hK rfl
      · rfl
      · rfl
  | connect =>
      obtain ⟨hm, rfl⟩ := of_connect agentId hst
      have hsettled := settled_iff.mp ((kept_iff_settled fun j => holds_of_offline hm).mp hK)
      rw [observe_same]
      · exact iff_of_true (fun j hj => .inl (hsettled j hj)) rfl
      · rfl
      · rfl
  | drop =>
      cases hst
      rw [observe_same]
      · exact kept_iff_settled fun j => holds_of_down rfl
      · rfl
      · rfl
  | agent l =>
      obtain ⟨hp, a, rfl, hact⟩ := of_agent hst
      exact kept_agent hT hK hp hact

/-- The outcome of a job is not destroyed: in a run of such steps a result of every job whose container
has run and is gone has been sent, or can be, and the first other step destroys one. -/
theorem results_kept (agentId : String) {p : OpenAgent × Outcomes}
    (h : (reporting agentId).Run (fun p l => keepsResults p l = true) (reporting agentId).init p) :
    Kept p ∧ ∀ l q, (reporting agentId).step l p = some q → (Kept q ↔ keepsResults p l = true) := by
  have hI := h.invariant (I := fun p => Kept p ∧ Traced p) ?_ ⟨nofun, Agent.labelled_start, nofun⟩
  · exact ⟨hI.1, fun l q hst => kept_step hI.2 hI.1 hst⟩
  · rintro p l q ⟨hK, hT⟩ hcond hst
    exact ⟨(kept_step hT hK hst).mpr hcond, traced_step hT hst⟩

def runsToExit : List OpenLabel :=
  [.connect, .agent .sent, .agent (.listed true), .agent .examine,
    .arrives (.job "job_1" "c1" "alpine" ["true"] 60000),
    .agent .read, .agent .sent, .agent (.startReturned .started), .agent .sent, .agent (.exited 0 0 "done" "")]

theorem results_kept_sent :
    ∃ p,
      (reporting "agent-1").Run (fun p l => keepsResults p l = true) (reporting "agent-1").init p ∧
      p.2.destroyed = ["job_1"] ∧ p.2.reported = ["job_1"] ∧ Kept p ∧
      ∀ l q, (reporting "agent-1").step l p = some q → (Kept q ↔ keepsResults p l = true) := by
  have hexec : ((reporting "agent-1").exec (fun p l => keepsResults p l = true)
      (runsToExit ++ [.agent (.waitReturned true true), .agent .sent]) (reporting "agent-1").init).any
      (fun p => decide (p.2.destroyed = ["job_1"] ∧ p.2.reported = ["job_1"])) = true := by decide +kernel
  obtain ⟨p, hp, hd, hr⟩ := Machine.exists_run _ _ hexec
  exact ⟨p, hp, hd, hr, results_kept "agent-1" hp⟩

/-- The connection drops before the container exits. The result is lost, and the next session finds
no container. -/
theorem results_kept_false :
    ∃ p, (reporting "agent-1").Reachable p ∧ "job_1" ∈ p.2.destroyed ∧ p.2.reported = [] ∧
      p.1.holds "job_1" = false ∧ p.1.agent.containers.entries.length = 0 ∧
      p.1.agent.reattached.length = 0 ∧ p.1.up = true ∧ ¬ Kept p := by
  have hexec : ((reporting "agent-1").exec (fun _ _ => True) (runsToExit ++ [.drop, .agent (.waitReturned true true),
      .agent (.sendFailed false), .connect, .agent .sent, .agent (.listed true), .agent .examine])
      (reporting "agent-1").init).any (fun p => decide ("job_1" ∈ p.2.destroyed ∧ p.2.reported = [] ∧
        p.1.holds "job_1" = false ∧ p.1.agent.containers.entries.length = 0 ∧ p.1.agent.reattached.length = 0 ∧
        p.1.up = true)) = true := by decide +kernel
  obtain ⟨p, hp, hd, hr, hh, hc, hre, hup⟩ := Machine.exists_run _ _ hexec
  refine ⟨p, hp, hd, hr, hh, hc, hre, hup, fun hK => ?_⟩
  rcases hK "job_1" hd with hrep | hheld
  · rw [hr] at hrep
    cases hrep
  · rw [hh] at hheld
    cases hheld

end OpenAgent

end JobSystem
