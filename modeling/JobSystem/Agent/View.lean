import JobSystem.Agent.Step

namespace JobSystem

open Lib

namespace AgentCtl

def toStart : AgentCtl → Option String
  | acking _ j _ _ | starting _ j _ _ => some j
  | _ => none

def toAnnounce : AgentCtl → Option String
  | announcing _ j _ => some j
  | _ => none

end AgentCtl

/-- Frames other than `started`, which say nothing false about the agent's name. -/
def AgentFrame.isPlain (agentId : String) : AgentFrame → Bool
  | .register a => a = agentId
  | .started _ => false
  | _ => true

namespace Agent

def Adds (agentId : String) (wire wire' : Channel ConnId AgentFrame) : Prop :=
  wire' = wire ∨ ∃ c f, f.isPlain agentId = true ∧ wire' = wire ++ [(c, f)]

/-- What one step does to the job in the agent's hands: the task of `run`, the
number of messages read, the containers started and the frames sent. -/
inductive Flow (agentId : String) (inbox : ConnId → List ServerFrame) (label : AgentLabel) (a : Agent) :
    AgentCtl → Nat → List String → Channel ConnId AgentFrame → Prop
  | same (wire) (hw : Adds agentId a.wire wire) : Flow agentId inbox label a a.main a.read a.started wire
  | moved (x wire) (hs : x.session = a.main.session) (hx : x.toStart = none ∧ x.toAnnounce = none)
      (hm : a.main.toStart = none ∧ a.main.toAnnounce = none) (hw : Adds agentId a.wire wire) :
      Flow agentId inbox label a x a.read a.started wire
  | ended (wire) (hw : Adds agentId a.wire wire) : Flow agentId inbox label a .offline a.read a.started wire
  | endedAnnouncing (c j id) (hm : a.main = .announcing c j id) :
      Flow agentId inbox label a .offline a.read a.started (a.wire ++ [(c, .started j)])
  | tookJob (c j cid image command timeoutMs) (hm : a.main = .listening c)
      (hf : (inbox c)[a.read]? = some (.job j cid image command timeoutMs)) (hl : label = .read) :
      Flow agentId inbox label a (.acking c j image command) (a.read + 1) a.started a.wire
  | tookCancel (c j reason x) (hm : a.main = .listening c) (hf : (inbox c)[a.read]? = some (.cancel j reason))
      (hs : x.session = some c) (hx : x.toStart = none ∧ x.toAnnounce = none) :
      Flow agentId inbox label a x (a.read + 1) a.started a.wire
  | acked (c j image command) (hm : a.main = .acking c j image command) :
      Flow agentId inbox label a (.starting c j image command) a.read a.started (a.wire ++ [(c, .ack j)])
  | begun (c j image command id) (hm : a.main = .starting c j image command) :
      Flow agentId inbox label a (.announcing c j id) a.read (j :: a.started) a.wire
  | failed (c j image command x) (hm : a.main = .starting c j image command)
      (hs : x.session = some c ∨ x.session = none) (hx : x.toStart = none ∧ x.toAnnounce = none) :
      Flow agentId inbox label a x a.read a.started a.wire
  | leftRunning (c j image command x) (hm : a.main = .starting c j image command)
      (hs : x.session = some c ∨ x.session = none) (hx : x.toStart = none ∧ x.toAnnounce = none) :
      Flow agentId inbox label a x a.read (j :: a.started) a.wire
  | announced (c j id) (hm : a.main = .announcing c j id) :
      Flow agentId inbox label a (.waiting c j id) a.read a.started (a.wire ++ [(c, .started j)])

variable {agentId : String} {inbox : ConnId → List ServerFrame} {a a' : Agent} {label : AgentLabel}

theorem adds_refl (agentId : String) (wire : Channel ConnId AgentFrame) : Adds agentId wire wire :=
  .inl rfl

theorem flow_sent (h : a.sent agentId = some a') :
    Flow agentId inbox label a a'.main a'.read a'.started a'.wire := by
  rw [sent] at h
  obtain ⟨⟨c, f, next⟩, hout, h⟩ := Option.map_eq_some_iff.mp h
  have hplain : f.isPlain agentId = true → next.session = a.main.session →
      (next.toStart = none ∧ next.toAnnounce = none) → (a.main.toStart = none ∧ a.main.toAnnounce = none) →
      Flow agentId inbox label a next a.read a.started (a.wire ++ [(c, f)]) :=
    fun hf hs hx hm => .moved _ _ hs hx hm (.inr ⟨c, f, hf, rfl⟩)
  cases hm : a.main <;> rw [hm] at hout h hplain <;> cases hout <;> cases h
  case registering => exact hplain (decide_eq_true rfl) rfl ⟨rfl, rfl⟩ ⟨rfl, rfl⟩
  case reattaching | reportingExited | reporting => exact hplain rfl rfl ⟨rfl, rfl⟩ ⟨rfl, rfl⟩
  case acking => exact .acked _ _ _ _ hm
  case announcing => exact .announced _ _ _ hm

theorem outgoing_cases {x next : AgentCtl} {c : ConnId} {f : AgentFrame}
    (h : x.outgoing agentId = some (c, f, next)) :
    f.isPlain agentId = true ∨ ∃ j id, x = .announcing c j id ∧ f = .started j := by
  cases x <;> cases h
  case registering => exact .inl (decide_eq_true rfl)
  case announcing => exact .inr ⟨_, _, rfl, rfl⟩
  all_goals exact .inl rfl

theorem flow_sendFailed {written : Bool} (h : a.sendFailed agentId written = some a') :
    Flow agentId inbox label a a'.main a'.read a'.started a'.wire := by
  rw [sendFailed] at h
  obtain ⟨⟨c, f, next⟩, hout, rfl⟩ := Option.map_eq_some_iff.mp h
  cases written with
  | false => exact .ended _ (adds_refl _ _)
  | true =>
      rcases outgoing_cases hout with hf | ⟨j, id, hm, rfl⟩
      · exact .ended _ (.inr ⟨c, f, hf, rfl⟩)
      · exact .endedAnnouncing c j id hm

theorem flow_reconcile {c : ConnId} {rest : List (ContainerId × Container)} (hm : a.main = .reconciling c rest) :
    Flow agentId inbox label a (a.reconcile c rest).main (a.reconcile c rest).read (a.reconcile c rest).started
      (a.reconcile c rest).wire := by
  have hmoved : ∀ x : AgentCtl, x.session = some c → x.toStart = none ∧ x.toAnnounce = none →
      Flow agentId inbox label a x a.read a.started a.wire :=
    fun x hs hx => .moved x _ (by rw [hs, hm]; rfl) hx (by rw [hm]; exact ⟨rfl, rfl⟩) (adds_refl _ _)
  unfold reconcile
  cases rest with
  | nil => exact hmoved _ rfl ⟨rfl, rfl⟩
  | cons e rest =>
      obtain ⟨id, container⟩ := e
      dsimp only
      split
      · exact hmoved _ rfl ⟨rfl, rfl⟩
      · split <;> exact hmoved _ rfl ⟨rfl, rfl⟩

theorem flow_dispatch {c : ConnId} {f : ServerFrame} (hl : label = .read) (hm : a.main = .listening c)
    (hf : (inbox c)[a.read]? = some f) :
    Flow agentId inbox label a ({ a with read := a.read + 1 }.dispatch c f).main
      ({ a with read := a.read + 1 }.dispatch c f).read
      ({ a with read := a.read + 1 }.dispatch c f).started ({ a with read := a.read + 1 }.dispatch c f).wire := by
  cases f with
  | job j cid image command timeoutMs => exact .tookJob c j cid image command timeoutMs hm hf hl
  | cancel j reason =>
      simp only [dispatch, onCancel]
      split
      · exact .tookCancel c j reason _ hm hf rfl ⟨rfl, rfl⟩
      · exact .tookCancel c j reason _ hm hf rfl ⟨rfl, rfl⟩

theorem flow_left {c : ConnId} {j image : String} {command : List String}
    (hm : a.main = .starting c j image command) (left : Option ContainerStatus) (x : AgentCtl)
    (hs : x.session = some c ∨ x.session = none) (hx : x.toStart = none ∧ x.toAnnounce = none) :
    Flow agentId inbox label a x (a.leaveContainer j image command left).read
      (a.leaveContainer j image command left).started
      (a.leaveContainer j image command left).wire := by
  cases left with
  | none => exact .failed c j image command x hm hs hx
  | some status =>
      by_cases hc : status = .created
      · simp only [leaveContainer, startContainer, if_pos hc]
        exact .failed c j image command x hm hs hx
      · simp only [leaveContainer, startContainer, if_neg hc]
        exact .leftRunning c j image command x hm hs hx

theorem flow_startReturned {c : ConnId} {j image : String} {command : List String}
    (hm : a.main = .starting c j image command) (outcome : StartOutcome) :
    Flow agentId inbox label a (a.startReturned c j image command outcome).main
      (a.startReturned c j image command outcome).read
      (a.startReturned c j image command outcome).started (a.startReturned c j image command outcome).wire := by
  cases outcome with
  | started => exact .begun c j image command _ hm
  | failed error left => exact flow_left hm left _ (.inl rfl) ⟨rfl, rfl⟩

theorem flow_waitReturned {c : ConnId} {j : String} {id : ContainerId} {ok removed : Bool}
    (hm : a.main = .waiting c j id) (h : a.waitReturned c j id ok removed = some a') :
    Flow agentId inbox label a a'.main a'.read a'.started a'.wire := by
  rw [waitReturned] at h
  cases ok with
  | true =>
      obtain ⟨⟨x, out, err⟩, _, h⟩ := Option.map_eq_some_iff.mp h
      cases h
      have hmoved : Flow agentId inbox label a (.reporting c (jobResult j x out err none)) a.read a.started a.wire :=
        .moved _ _ (by rw [hm]; rfl) ⟨rfl, rfl⟩ (by rw [hm]; exact ⟨rfl, rfl⟩) (adds_refl _ _)
      cases removed <;> exact hmoved
  | false =>
      cases h
      cases removed <;> exact .ended _ (adds_refl _ _)

theorem flow_reattachWaited {i : Nat} {ok removed : Bool} {r : Reattach}
    (h : a.reattachWaited i ok removed r = some a') :
    Flow agentId inbox label a a'.main a'.read a'.started a'.wire := by
  rw [reattachWaited] at h
  split at h
  · cases h
  · cases ok with
    | true =>
        obtain ⟨⟨x, out, err⟩, _, rfl⟩ := Option.map_eq_some_iff.mp h
        cases removed <;> exact .same _ (adds_refl _ _)
    | false =>
        cases h
        cases removed <;> exact .same _ (adds_refl _ _)

theorem step_flow (h : a.step agentId inbox label = some a') :
    Flow agentId inbox label a a'.main a'.read a'.started a'.wire := by
  have hmoved :
      ∀ {y x : AgentCtl}, a.main = y → x.session = y.session →
        x.toStart = none ∧ x.toAnnounce = none →
      y.toStart = none ∧ y.toAnnounce = none → Flow agentId inbox label a x a.read a.started a.wire :=
    fun hm hs hx hy => .moved _ _ (by rw [hs, hm]) hx (by rw [hm]; exact hy) (adds_refl _ _)
  unfold step at h
  split at h
  · exact flow_sent h
  · exact flow_sendFailed h
  · cases h
    exact .ended _ (adds_refl _ _)
  · next c hm =>
      obtain ⟨f, hf, rfl⟩ := Option.map_eq_some_iff.mp h
      exact flow_dispatch rfl hm hf
  · next c hm =>
      cases h
      exact hmoved hm rfl ⟨rfl, rfl⟩ ⟨rfl, rfl⟩
  · next c hm =>
      cases h
      exact hmoved hm rfl ⟨rfl, rfl⟩ ⟨rfl, rfl⟩
  · next c rest hm =>
      cases h
      exact flow_reconcile hm
  · next c id j rest hm =>
      obtain ⟨⟨x, out, err⟩, _, rfl⟩ := Option.map_eq_some_iff.mp h
      exact hmoved hm rfl ⟨rfl, rfl⟩ ⟨rfl, rfl⟩
  · cases h
    exact .ended _ (adds_refl _ _)
  · next ok c id rest hm =>
      cases h
      cases ok <;> exact hmoved hm rfl ⟨rfl, rfl⟩ ⟨rfl, rfl⟩
  · next outcome c j image command hm =>
      cases h
      exact flow_startReturned hm outcome
  · next ok removed c j id hm => exact flow_waitReturned hm h
  · next c id hm =>
      cases h
      exact hmoved hm rfl ⟨rfl, rfl⟩ ⟨rfl, rfl⟩
  · next ok written =>
      obtain ⟨c, _, rfl⟩ := Option.map_eq_some_iff.mp h
      cases ok <;> cases written <;> first
        | exact .same _ (adds_refl _ _)
        | exact .same _ (.inr ⟨c, _, rfl, rfl⟩)
  · obtain ⟨r, _, h⟩ := Option.bind_eq_some_iff.mp h
    exact flow_reattachWaited h
  · next i written =>
      obtain ⟨r, _, h⟩ := Option.bind_eq_some_iff.mp h
      obtain ⟨result, _, rfl⟩ := Option.map_eq_some_iff.mp h
      cases written with
      | false => exact .same _ (adds_refl _ _)
      | true => exact .same _ (.inr ⟨r.c, result.frame, rfl, rfl⟩)
  · split at h
    · cases h
      exact .same _ (adds_refl _ _)
    · cases h
  · next left =>
      cases h
      rw [crashed]
      split
      · next c j image command hm => exact flow_left hm left _ (.inr rfl) ⟨rfl, rfl⟩
      · exact .ended _ (adds_refl _ _)
  · cases h

variable {x : AgentCtl} {read : Nat} {started : List String} {wire : Channel ConnId AgentFrame}

theorem Flow.session (h : Flow agentId inbox label a x read started wire) :
    x.session = none ∨ x.session = a.main.session := by
  cases h with
  | same => exact .inr rfl
  | moved _ _ hs => exact .inr hs
  | ended | endedAnnouncing => exact .inl rfl
  | tookJob _ _ _ _ _ _ hm | acked _ _ _ _ hm | begun _ _ _ _ _ hm | announced _ _ _ hm =>
      exact .inr (by rw [hm]; rfl)
  | tookCancel _ _ _ _ hm _ hs => exact .inr (by rw [hs, hm]; rfl)
  | failed _ _ _ _ _ hm hs | leftRunning _ _ _ _ _ hm hs =>
      rcases hs with hs | hs
      · exact .inr (by rw [hs, hm]; rfl)
      · exact .inl hs

theorem mem_adds {w w' : Channel ConnId AgentFrame} (h : Adds agentId w w')
    {e : ConnId × AgentFrame} (he : e ∈ w') : e ∈ w ∨ e.2.isPlain agentId = true := by
  rcases h with rfl | ⟨c, f, hf, rfl⟩
  · exact .inl he
  · rcases List.mem_append.mp he with he | he
    · exact .inl he
    · rw [List.mem_singleton.mp he]
      exact .inr hf

/-- A frame that a step sends is plain, or announces the container just started. -/
theorem Flow.sends (h : Flow agentId inbox label a x read started wire) {e : ConnId × AgentFrame}
    (he : e ∈ wire) :
    e ∈ a.wire ∨ e.2.isPlain agentId = true ∨
      ∃ c j id, a.main = .announcing c j id ∧ e = (c, .started j) := by
  have hnew : ∀ f, wire = a.wire ++ [f] → e ∈ a.wire ∨ e = f := by
    rintro f hw
    rw [hw, List.mem_append, List.mem_singleton] at he
    exact he
  cases h with
  | same _ hw | moved _ _ _ _ _ hw | ended _ hw =>
      rcases mem_adds hw he with h | h
      · exact .inl h
      · exact .inr (.inl h)
  | endedAnnouncing c j id hm | announced c j id hm =>
      rcases hnew _ rfl with h | h
      · exact .inl h
      · exact .inr (.inr ⟨c, j, id, hm, h⟩)
  | acked c j =>
      rcases hnew _ rfl with h | rfl
      · exact .inl h
      · exact .inr (.inl rfl)
  | _ => exact .inl he

end Agent

end JobSystem
