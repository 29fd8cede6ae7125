import JobSystem.Agent.Step
import JobSystem.Lib.Machine

namespace JobSystem

open Lib

namespace Agent

/-- Everything that one step of the agent can do, with the state it leaves. -/
inductive Act (agentId : String) (inbox : ConnId → List ServerFrame) (a : Agent) : AgentLabel → Agent → Prop
  | sent (c f x) (ho : a.main.outgoing agentId = some (c, f, x))
      (hr : ∀ c id j rest, a.main ≠ .reattaching c id j rest) :
      Act agentId inbox a .sent { a with wire := a.wire ++ [(c, f)], main := x }
  | reattaching (c id j rest) (hm : a.main = .reattaching c id j rest) :
      Act agentId inbox a .sent { a with
        wire := a.wire ++ [(c, .reconcile j "running" none)]
        main := .reconciling c rest
        running := a.running.set j id
        reattached := a.reattached ++ [⟨c, j, id, none⟩] }
  | sendFailed (written wire) :
      Act agentId inbox a (.sendFailed written) { a with wire := wire, main := .offline, heartbeat := none }
  | ended (l) (hl : l = .lost ∨ l = .inspected false) :
      Act agentId inbox a l { a with main := .offline, heartbeat := none }
  | tookJob (c j cid image command timeoutMs) (hm : a.main = .listening c)
      (hf : (inbox c)[a.read]? = some (.job j cid image command timeoutMs)) :
      Act agentId inbox a .read { a with read := a.read + 1, main := .acking c j image command }
  | ignored (c j reason) (hm : a.main = .listening c) (hf : (inbox c)[a.read]? = some (.cancel j reason))
      (hr : a.running.get j = none) :
      Act agentId inbox a .read { a with read := a.read + 1, main := .listening c }
  | killing (c j reason id) (hm : a.main = .listening c) (hf : (inbox c)[a.read]? = some (.cancel j reason))
      (hr : a.running.get j = some id) :
      Act agentId inbox a .read { a with read := a.read + 1, main := .killing c id }
  | listed (c) (hm : a.main = .listing c) :
      Act agentId inbox a (.listed true) { a with main := .reconciling c a.containers.entries }
  | listens (l c) (hl : l = .listed false ∧ a.main = .listing c ∨ l = .examine ∧ a.main = .reconciling c []) :
      Act agentId inbox a l { a with main := .listening c, heartbeat := some c }
  | examined (c id container rest x) (hm : a.main = .reconciling c ((id, container) :: rest))
      (hx : container.jobId = "" ∧ x = .removing c id rest ∨ x = .reattaching c id container.jobId rest ∨
        x = .inspecting c id container.jobId rest ∨ x = .reconciling c rest) :
      Act agentId inbox a .examine { a with main := x }
  | inspected (c id j rest x out err) (hm : a.main = .inspecting c id j rest)
      (he : a.exitOf id = some (x, out, err)) :
      Act agentId inbox a (.inspected true)
        { a with main := .reportingExited c id (jobResult j x out err none) rest }
  | removed (ok c id rest) (hm : a.main = .removing c id rest) :
      Act agentId inbox a (.removed ok) ((a.removeContainer ok id).goto (.reconciling c rest))
  | started (c j image command) (hm : a.main = .starting c j image command) :
      Act agentId inbox a (.startReturned .started) { a.startContainer j image command .running with
        running := a.running.set j a.nextContainer
        main := .announcing c j a.nextContainer }
  | startFailed (c j image command error left) (hm : a.main = .starting c j image command) :
      Act agentId inbox a (.startReturned (.failed error left))
        ((a.leaveContainer j image command left).goto (.reporting c (jobResult j 1 "" error (some error))))
  | waited (c j id removed x out err) (hm : a.main = .waiting c j id) (he : a.exitOf id = some (x, out, err)) :
      Act agentId inbox a (.waitReturned true removed)
        (({ a with running := a.running.pop j }.removeContainer removed id).goto
          (.reporting c (jobResult j x out err none)))
  | waitFailed (c j id removed) (hm : a.main = .waiting c j id) :
      Act agentId inbox a (.waitReturned false removed)
        ({ a with running := a.running.pop j }.removeContainer removed id).endSession
  | killed (c id) (hm : a.main = .killing c id) : Act agentId inbox a .killed { a with main := .listening c }
  | heartbeat (ok written wire heartbeat) :
      Act agentId inbox a (.heartbeat ok written) { a with wire := wire, heartbeat := heartbeat }
  | reattachWaited (i removed r x out err) (hr : a.reattached[i]? = some r) (hn : r.result = none)
      (he : a.exitOf r.id = some (x, out, err)) :
      Act agentId inbox a (.reattachWaited i true removed)
        ({ a with
            reattached := a.reattached.set i { r with result := some (jobResult r.jobId x out err none) }
          }.removeContainer removed r.id)
  | reattachFailed (i removed r) (hr : a.reattached[i]? = some r) (hn : r.result = none) :
      Act agentId inbox a (.reattachWaited i false removed)
        ((a.reattachEnd i r.jobId).removeContainer removed r.id)
  | reattachSent (i written r result wire) (hr : a.reattached[i]? = some r) (hn : r.result = some result) :
      Act agentId inbox a (.reattachSent i written) { a with
        wire := wire
        running := a.running.pop r.jobId
        reattached := a.reattached.eraseIdx i }
  | exited (id x out err k) (hk : a.containers.get id = some k) (hrun : k.status = .running) :
      Act agentId inbox a (.exited id x out err)
        { a with containers := a.containers.set id { k with status := .exited x out err } }
  | crashed (left) : Act agentId inbox a (.crashed left) (a.crashed left)

variable {agentId : String} {inbox : ConnId → List ServerFrame} {a a' : Agent} {label : AgentLabel}

theorem act_sent (h : a.sent agentId = some a') : Act agentId inbox a .sent a' := by
  rw [sent] at h
  obtain ⟨⟨c, f, x⟩, ho, h⟩ := Option.map_eq_some_iff.mp h
  cases hm : a.main with
  | reattaching c' id j rest =>
      rw [hm] at ho h
      cases ho
      cases h
      exact .reattaching c id j rest hm
  | _ =>
      rw [hm] at h
      cases h
      exact .sent c f x ho (by rw [hm]; nofun)

theorem act_dispatch {c : ConnId} {f : ServerFrame} (hm : a.main = .listening c)
    (hf : (inbox c)[a.read]? = some f) :
    Act agentId inbox a .read ({ a with read := a.read + 1 }.dispatch c f) := by
  cases f with
  | job j cid image command timeoutMs => exact .tookJob c j cid image command timeoutMs hm hf
  | cancel j reason =>
      rw [dispatch, onCancel]
      split
      · next hr => exact .ignored c j reason hm hf hr
      · next id hr => exact .killing c j reason id hm hf hr

theorem act_reconcile {c : ConnId} {rest : List (ContainerId × Container)}
    (hm : a.main = .reconciling c rest) : Act agentId inbox a .examine (a.reconcile c rest) := by
  cases rest with
  | nil => exact .listens .examine c (.inr ⟨rfl, hm⟩)
  | cons e rest =>
      obtain ⟨id, container⟩ := e
      rw [reconcile]
      split
      · next hj => exact .examined c id container rest _ hm (.inl ⟨hj, rfl⟩)
      · split
        · exact .examined c id container rest _ hm (.inr (.inl rfl))
        · exact .examined c id container rest _ hm (.inr (.inr (.inl rfl)))
        · exact .examined c id container rest _ hm (.inr (.inr (.inr rfl)))

theorem step_act (h : a.step agentId inbox label = some a') : Act agentId inbox a label a' := by
  unfold step at h
  split at h
  · exact act_sent h
  · next written =>
      obtain ⟨⟨c, f, x⟩, _, rfl⟩ := Option.map_eq_some_iff.mp h
      cases written <;> exact .sendFailed _ _
  · cases h
    exact .ended _ (.inl rfl)
  · next c hm =>
      obtain ⟨f, hf, rfl⟩ := Option.map_eq_some_iff.mp h
      exact act_dispatch hm hf
  · next c hm =>
      cases h
      exact .listed c hm
  · next c hm =>
      cases h
      exact .listens _ c (.inl ⟨rfl, hm⟩)
  · next c rest hm =>
      cases h
      exact act_reconcile hm
  · next c id j rest hm =>
      obtain ⟨⟨x, out, err⟩, he, rfl⟩ := Option.map_eq_some_iff.mp h
      exact .inspected c id j rest x out err hm he
  · cases h
    exact .ended _ (.inr rfl)
  · next ok c id rest hm =>
      cases h
      exact .removed ok c id rest hm
  · next outcome c j image command hm =>
      cases h
      cases outcome with
      | started => exact .started c j image command hm
      | failed error left => exact .startFailed c j image command error left hm
  · next ok removed c j id hm =>
      rw [waitReturned] at h
      cases ok with
      | true =>
          obtain ⟨⟨x, out, err⟩, he, h⟩ := Option.map_eq_some_iff.mp h
          cases h
          exact .waited c j id removed x out err hm he
      | false =>
          cases h
          exact .waitFailed c j id removed hm
  · next c id hm =>
      cases h
      exact .killed c id hm
  · next ok written =>
      obtain ⟨c, _, rfl⟩ := Option.map_eq_some_iff.mp h
      cases ok <;> cases written <;> exact .heartbeat _ _ _ _
  · next i ok removed =>
      obtain ⟨r, hr, h⟩ := Option.bind_eq_some_iff.mp h
      rw [reattachWaited] at h
      split at h
      · cases h
      · next hn =>
          cases ok with
          | true =>
              obtain ⟨⟨x, out, err⟩, he, rfl⟩ := Option.map_eq_some_iff.mp h
              exact .reattachWaited i removed r x out err hr (by simpa using hn) he
          | false =>
              cases h
              exact .reattachFailed i removed r hr (by simpa using hn)
  · next i written =>
      obtain ⟨r, hr, h⟩ := Option.bind_eq_some_iff.mp h
      obtain ⟨result, hn, rfl⟩ := Option.map_eq_some_iff.mp h
      cases written <;> exact .reattachSent i _ r result _ hr hn
  · next id x out err =>
      split at h
      · next j image command hk =>
          cases h
          exact .exited id x out err _ hk rfl
      · cases h
  · cases h
    exact .crashed _
  · cases h

def Names (a : Agent) (id : ContainerId) (j : String) : Prop :=
  id < a.nextContainer ∧ ∀ k, a.containers.get id = some k → k.jobId = j

theorem get_removeContainer {ok : Bool} {id i : ContainerId} {k : Container}
    (h : (a.removeContainer ok id).containers.get i = some k) : a.containers.get i = some k := by
  cases ok with
  | false => exact h
  | true =>
      rw [removeContainer, if_pos rfl] at h
      exact Dict.get_of_get_pop h

@[simp] theorem nextContainer_removeContainer (ok : Bool) (id : ContainerId) :
    (a.removeContainer ok id).nextContainer = a.nextContainer := by
  cases ok <;> rfl

@[simp] theorem running_removeContainer (ok : Bool) (id : ContainerId) :
    (a.removeContainer ok id).running = a.running := by
  cases ok <;> rfl

@[simp] theorem main_removeContainer (ok : Bool) (id : ContainerId) :
    (a.removeContainer ok id).main = a.main := by
  cases ok <;> rfl

@[simp] theorem reattached_removeContainer (ok : Bool) (id : ContainerId) :
    (a.removeContainer ok id).reattached = a.reattached := by
  cases ok <;> rfl

@[simp] theorem running_leaveContainer (j image : String) (command : List String)
    (left : Option ContainerStatus) :
    (a.leaveContainer j image command left).running = a.running := by
  cases left <;> rfl

@[simp] theorem reattached_leaveContainer (j image : String) (command : List String)
    (left : Option ContainerStatus) :
    (a.leaveContainer j image command left).reattached = a.reattached := by
  cases left <;> rfl

theorem get_startContainer (j image : String) (command : List String) (status : ContainerStatus)
    (i : ContainerId) :
    (a.startContainer j image command status).containers.get i =
      if i = a.nextContainer then some ⟨j, image, command, status⟩ else a.containers.get i :=
  Dict.get_set a.containers a.nextContainer i _

theorem Names.startContainer {id : ContainerId} {k : String} (h : a.Names id k) (j image : String)
    (command : List String) (status : ContainerStatus) :
    (a.startContainer j image command status).Names id k := by
  refine ⟨Nat.lt_succ_of_lt h.1, fun c hc => ?_⟩
  rw [get_startContainer, if_neg (Nat.ne_of_lt h.1)] at hc
  exact h.2 c hc

theorem Names.leaveContainer {id : ContainerId} {k : String} (h : a.Names id k) (j image : String)
    (command : List String) (left : Option ContainerStatus) :
    (a.leaveContainer j image command left).Names id k := by
  cases left with
  | none => exact h
  | some status => exact h.startContainer j image command status

theorem Names.removeContainer {id : ContainerId} {k : String} (h : a.Names id k) (ok : Bool)
    (i : ContainerId) : (a.removeContainer ok i).Names id k := by
  refine ⟨?_, fun c hc => h.2 c (get_removeContainer hc)⟩
  rw [nextContainer_removeContainer]
  exact h.1

theorem Names.act {id : ContainerId} {j : String} (hN : a.Names id j)
    (h : Act agentId inbox a label a') : a'.Names id j := by
  cases h with
  | removed ok _ i => exact hN.removeContainer ok i
  | waited _ k i removed | waitFailed _ k i removed =>
      exact Names.removeContainer (a := { a with running := a.running.pop k }) hN removed i
  | reattachWaited i removed r x out err =>
      exact Names.removeContainer (a := { a with reattached := a.reattached.set i _ }) hN removed r.id
  | reattachFailed i removed r =>
      exact Names.removeContainer (a := a.reattachEnd i r.jobId) hN removed r.id
  | started _ k image command => exact hN.startContainer k image command .running
  | startFailed _ k image command error left => exact hN.leaveContainer k image command left
  | exited i x out err k hk =>
      refine ⟨hN.1, fun c hc => ?_⟩
      change (a.containers.set i _).get id = some c at hc
      rw [Dict.get_set] at hc
      split at hc
      · next he =>
          cases hc
          exact hN.2 k (he ▸ hk)
      · exact hN.2 c hc
  | crashed left =>
      rw [Agent.crashed]
      split
      · exact hN.leaveContainer _ _ _ left
      · exact hN
  | _ => exact hN

end Agent

namespace AgentCtl

def container : AgentCtl → Option (ContainerId × String)
  | reattaching _ id j _ | inspecting _ id j _ | announcing _ j id | waiting _ j id => some (id, j)
  | reportingExited _ id r _ => some (id, r.jobId)
  | _ => none

def rest : AgentCtl → List (ContainerId × Container)
  | reconciling _ rest | reattaching _ _ _ rest | inspecting _ _ _ rest | reportingExited _ _ _ rest
  | removing _ _ rest => rest
  | _ => []

end AgentCtl

@[simp] theorem jobResult_jobId (j : String) (x : Int) (out err : String) (error : Option String) :
    (jobResult j x out err error).jobId = j := by
  rw [jobResult]
  split <;> rfl

namespace Agent

variable {agentId : String} {inbox : ConnId → List ServerFrame} {a a' : Agent} {label : AgentLabel}

/-- Every container that a task of the agent knows is one of the job that the task is about. -/
structure Labelled (a : Agent) : Prop where
  fresh : ∀ id k, a.containers.get id = some k → id < a.nextContainer
  rest : ∀ e ∈ a.main.rest, a.Names e.1 e.2.jobId
  main : ∀ id j, a.main.container = some (id, j) → a.Names id j
  running : ∀ j id, a.running.get j = some id → a.Names id j
  reattached : ∀ r ∈ a.reattached, a.Names r.id r.jobId ∧
    ∀ result, r.result = some result → result.jobId = r.jobId

theorem Labelled.entry (hL : Labelled a) {e : ContainerId × Container} (he : e ∈ a.containers.entries) :
    a.Names e.1 e.2.jobId := by
  have hget : a.containers.get e.1 = some e.2 := (Dict.lookup_eq_some a.containers.nodup).mpr he
  refine ⟨hL.fresh e.1 e.2 hget, fun k hk => ?_⟩
  rw [hget] at hk
  cases hk
  rfl

theorem names_startContainer (j image : String) (command : List String) (status : ContainerStatus) :
    (a.startContainer j image command status).Names a.nextContainer j := by
  refine ⟨Nat.lt_succ_self _, fun k hk => ?_⟩
  rw [get_startContainer, if_pos rfl] at hk
  cases hk
  rfl

def Fresh (a : Agent) : Prop := ∀ id k, a.containers.get id = some k → id < a.nextContainer

theorem Fresh.removeContainer (h : a.Fresh) (ok : Bool) (i : ContainerId) :
    (a.removeContainer ok i).Fresh := by
  intro id k hk
  rw [nextContainer_removeContainer]
  exact h id k (get_removeContainer hk)

theorem Fresh.startContainer (h : a.Fresh) (j image : String) (command : List String)
    (status : ContainerStatus) : (a.startContainer j image command status).Fresh := by
  intro id k hk
  change id < a.nextContainer + 1
  rw [get_startContainer] at hk
  split at hk
  · next he =>
      rw [he]
      exact Nat.lt_succ_self _
  · exact Nat.lt_succ_of_lt (h id k hk)

theorem Fresh.leaveContainer (h : a.Fresh) (j image : String) (command : List String)
    (left : Option ContainerStatus) : (a.leaveContainer j image command left).Fresh := by
  cases left with
  | none => exact h
  | some status => exact h.startContainer j image command status

theorem Fresh.act (hF : a.Fresh) (h : Act agentId inbox a label a') : a'.Fresh := by
  cases h with
  | removed ok _ i => exact hF.removeContainer ok i
  | waited _ j i removed | waitFailed _ j i removed =>
      exact Fresh.removeContainer (a := { a with running := a.running.pop j }) hF removed i
  | reattachWaited i removed r =>
      exact Fresh.removeContainer (a := { a with reattached := a.reattached.set i _ }) hF removed r.id
  | reattachFailed i removed r =>
      exact Fresh.removeContainer (a := a.reattachEnd i r.jobId) hF removed r.id
  | started _ j image command => exact hF.startContainer j image command .running
  | startFailed _ j image command _ left => exact hF.leaveContainer j image command left
  | exited i x out err c hc =>
      intro id k hk
      change (a.containers.set i _).get id = some k at hk
      rw [Dict.get_set] at hk
      split at hk
      · next he => exact he ▸ hF i c hc
      · exact hF id k hk
  | crashed left =>
      rw [Agent.crashed]
      split
      · exact hF.leaveContainer _ _ _ left
      · exact hF
  | _ => exact hF

theorem act_rest (h : Act agentId inbox a label a') {e : ContainerId × Container}
    (he : e ∈ a'.main.rest) : e ∈ a.main.rest ∨ e ∈ a.containers.entries := by
  cases h with
  | sent c f x ho hr =>
      left
      cases hm : a.main <;> rw [hm] at ho <;> cases ho <;> exact he
  | reattaching c id j rest hm => exact .inl (by rw [hm]; exact he)
  | listed c hm => exact .inr he
  | examined c id container rest x hm hx =>
      left
      rw [hm]
      rcases hx with ⟨_, rfl⟩ | rfl | rfl | rfl <;> exact List.mem_cons_of_mem _ he
  | inspected c id j rest x out err hm => exact .inl (by rw [hm]; exact he)
  | removed ok c id rest hm => exact .inl (by rw [hm]; exact he)
  | reattachWaited i removed => cases removed <;> exact .inl he
  | reattachFailed i removed => cases removed <;> exact .inl he
  | heartbeat | reattachSent | exited => exact .inl he
  | crashed left => cases he
  | _ => cases he

theorem act_container (h : Act agentId inbox a label a') {id : ContainerId} {j : String}
    (hc : a'.main.container = some (id, j)) :
    a.main.container = some (id, j) ∨ (∃ e ∈ a.main.rest, e.1 = id ∧ e.2.jobId = j) ∨ a'.Names id j := by
  cases h with
  | sent c f x ho hr =>
      left
      cases hm : a.main <;> rw [hm] at ho <;> cases ho <;> first | exact hc | cases hc
  | examined c i container rest x hm hx =>
      right
      left
      rw [hm]
      rcases hx with ⟨_, rfl⟩ | rfl | rfl | rfl <;> cases hc
      · exact ⟨_, List.mem_cons_self, rfl, rfl⟩
      · exact ⟨_, List.mem_cons_self, rfl, rfl⟩
  | inspected c i k rest x out err hm =>
      left
      rw [hm]
      simpa [AgentCtl.container] using hc
  | started c k image command hm =>
      cases hc
      exact .inr (.inr (names_startContainer _ image command .running))
  | reattachWaited i removed => cases removed <;> exact .inl hc
  | reattachFailed i removed => cases removed <;> exact .inl hc
  | heartbeat | reattachSent | exited => exact .inl hc
  | crashed left => cases hc
  | _ => cases hc

theorem act_running (h : Act agentId inbox a label a') {id : ContainerId} {j : String}
    (hr : a'.running.get j = some id) :
    a.running.get j = some id ∨ a.main.container = some (id, j) ∨ a'.Names id j := by
  cases h with
  | reattaching c i k rest hm =>
      change (a.running.set k i).get j = some id at hr
      rw [Dict.get_set] at hr
      split at hr
      · next he =>
          cases hr
          exact .inr (.inl (by rw [hm, he]; rfl))
      · exact .inl hr
  | started c k image command hm =>
      change (a.running.set k a.nextContainer).get j = some id at hr
      rw [Dict.get_set] at hr
      split at hr
      · next he =>
          cases hr
          exact .inr (.inr (he ▸ names_startContainer k image command .running))
      · exact .inl hr
  | startFailed _ k image command error left =>
      change (a.leaveContainer k image command left).running.get j = some id at hr
      rw [running_leaveContainer] at hr
      exact .inl hr
  | removed ok _ i =>
      change (a.removeContainer ok i).running.get j = some id at hr
      rw [running_removeContainer] at hr
      exact .inl hr
  | waited _ k i removed =>
      change (Agent.removeContainer removed i { a with running := a.running.pop k }).running.get j = some id at hr
      rw [running_removeContainer] at hr
      exact .inl (Dict.get_of_get_pop hr)
  | waitFailed _ k i removed =>
      change (Agent.removeContainer removed i { a with running := a.running.pop k }).running.get j = some id at hr
      rw [running_removeContainer] at hr
      exact .inl (Dict.get_of_get_pop hr)
  | reattachWaited i removed r =>
      rw [running_removeContainer] at hr
      exact .inl hr
  | reattachFailed i removed r =>
      rw [running_removeContainer] at hr
      exact .inl (Dict.get_of_get_pop hr)
  | reattachSent i written r => exact .inl (Dict.get_of_get_pop hr)
  | crashed left =>
      have hempty : (a.crashed left).running = .empty := by
        rw [Agent.crashed]
      rw [hempty] at hr
      cases hr
  | _ => exact .inl hr

theorem act_reattached (hL : Labelled a) (h : Act agentId inbox a label a') {r : Reattach}
    (hr : r ∈ a'.reattached) :
    a'.Names r.id r.jobId ∧ ∀ result, r.result = some result → result.jobId = r.jobId := by
  have hact : ∀ id j, a.Names id j → a'.Names id j := fun _ _ hN => hN.act h
  have hold :
      r ∈ a.reattached → a'.Names r.id r.jobId ∧ ∀ result, r.result = some result →
        result.jobId = r.jobId :=
    fun hr => ⟨hact _ _ (hL.reattached r hr).1, (hL.reattached r hr).2⟩
  cases h with
  | reattaching c i k rest hm =>
      rcases List.mem_append.mp hr with hr | hr
      · exact hold hr
      · cases List.mem_singleton.mp hr
        exact ⟨hact i k (hL.main i k (by rw [hm]; rfl)), nofun⟩
  | removed ok _ i =>
      change r ∈ (a.removeContainer ok i).reattached at hr
      rw [reattached_removeContainer] at hr
      exact hold hr
  | startFailed _ k image command error left =>
      change r ∈ (a.leaveContainer k image command left).reattached at hr
      rw [reattached_leaveContainer] at hr
      exact hold hr
  | waited _ k i removed =>
      change r ∈ (Agent.removeContainer removed i { a with running := a.running.pop k }).reattached at hr
      rw [reattached_removeContainer] at hr
      exact hold hr
  | waitFailed _ k i removed =>
      change r ∈ (Agent.removeContainer removed i { a with running := a.running.pop k }).reattached at hr
      rw [reattached_removeContainer] at hr
      exact hold hr
  | reattachWaited i removed r' x out err hr' hn he =>
      rw [reattached_removeContainer] at hr
      rcases List.mem_or_eq_of_mem_set hr with hr | rfl
      · exact hold hr
      · refine ⟨hact _ _ (hL.reattached r' (List.mem_of_getElem? hr')).1, ?_⟩
        rintro _ ⟨⟩
        exact jobResult_jobId _ _ _ _ _
  | reattachFailed i removed r' =>
      rw [reattached_removeContainer] at hr
      exact hold (List.mem_of_mem_eraseIdx hr)
  | reattachSent i written r' => exact hold (List.mem_of_mem_eraseIdx hr)
  | crashed left =>
      have hempty : (a.crashed left).reattached = [] := by
        rw [Agent.crashed]
      rw [hempty] at hr
      cases hr
  | _ => exact hold hr

theorem labelled_act (hL : Labelled a) (h : Act agentId inbox a label a') : Labelled a' where
  fresh := Fresh.act hL.fresh h
  rest e he := by
    rcases act_rest h he with he | he
    · exact (hL.rest e he).act h
    · exact (hL.entry he).act h
  main id j hc := by
    rcases act_container h hc with hc | ⟨e, he, rfl, rfl⟩ | hN
    · exact (hL.main id j hc).act h
    · exact (hL.rest e he).act h
    · exact hN
  running j id hr := by
    rcases act_running h hr with hr | hc | hN
    · exact (hL.running j id hr).act h
    · exact (hL.main id j hc).act h
    · exact hN
  reattached _ hr := act_reattached hL h hr

theorem labelled_start : Labelled start where
  fresh id k hk := by cases hk
  rest e he := by cases he
  main id j hc := by cases hc
  running j id hr := by cases hr
  reattached r hr := by cases hr

end Agent

/-- An agent before a server that can send it any frame at any time, with the frames that its
session has received, and whether the session's connection is open. -/
structure OpenAgent where
  agent : Agent
  inbox : List ServerFrame
  up : Bool
  nextConn : ConnId

inductive OpenLabel
  | arrives (f : ServerFrame)
  | connect
  | drop
  | agent (l : AgentLabel)

namespace OpenAgent

def start : OpenAgent := ⟨.start, [], false, 0⟩

def isOpen (c : ConnId) (s : OpenAgent) : Bool := s.up && decide (s.agent.main.session = some c)

/-- `ws.send` returns on an open connection and raises on a closed one. -/
def permits (s : OpenAgent) : AgentLabel → Bool
  | .sent => s.up
  | .sendFailed _ => !s.up
  | .heartbeat ok written => s.agent.heartbeat.all fun c => if s.isOpen c then ok && written else !ok
  | .reattachSent i written => s.agent.reattached[i]?.all fun r => written || !s.isOpen r.c
  | _ => true

def step (agentId : String) (label : OpenLabel) (s : OpenAgent) : Option OpenAgent :=
  match label with
  | .arrives f =>
      if s.up && s.agent.main.session.isSome then some { s with inbox := s.inbox ++ [f] } else none
  | .connect =>
      match s.agent.main with
      | .offline =>
          some ⟨{ s.agent with main := .registering s.nextConn, read := 0 }, [], true, s.nextConn + 1⟩
      | _ => none
  | .drop => some { s with up := false }
  | .agent l =>
      if s.permits l then (s.agent.step agentId (fun _ => s.inbox) l).map fun a => { s with agent := a } else none

def machine (agentId : String) : Machine OpenAgent OpenLabel := ⟨start, step agentId⟩

variable {agentId : String} {s s' : OpenAgent}

theorem of_agent {l : AgentLabel} (h : step agentId (.agent l) s = some s') :
    s.permits l = true ∧ ∃ a, s' = { s with agent := a } ∧
      Agent.Act agentId (fun _ => s.inbox) s.agent l a := by
  obtain ⟨hp, h⟩ := Option.ite_none_right_eq_some.mp h
  obtain ⟨a, ha, rfl⟩ := Option.map_eq_some_iff.mp h
  exact ⟨hp, a, rfl, Agent.step_act ha⟩

theorem of_connect (agentId : String) (h : step agentId .connect s = some s') : s.agent.main = .offline ∧
    s' = ⟨{ s.agent with main := .registering s.nextConn, read := 0 }, [], true, s.nextConn + 1⟩ := by
  rw [step] at h
  split at h
  · next hm =>
      cases h
      exact ⟨hm, rfl⟩
  · cases h

theorem labelled_step {label : OpenLabel} (hL : s.agent.Labelled) (h : step agentId label s = some s') :
    s'.agent.Labelled := by
  cases label with
  | arrives f =>
      obtain ⟨_, ⟨⟩⟩ := Option.ite_none_right_eq_some.mp h
      exact hL
  | connect =>
      simp only [step] at h
      split at h
      · next hm =>
          cases h
          exact ⟨hL.fresh, nofun, nofun, hL.running, hL.reattached⟩
      · cases h
  | drop =>
      cases h
      exact hL
  | agent l =>
      obtain ⟨_, a, rfl, hact⟩ := of_agent h
      exact Agent.labelled_act hL hact

end OpenAgent

end JobSystem
