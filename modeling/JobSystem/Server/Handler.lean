import JobSystem.Lib.Machine
import JobSystem.Server.Messages

namespace JobSystem

open Lib JsonDoc

namespace Gateway

variable {σ : Type}

def registered : JsonDoc → Option PyKey
  | .obj fields =>
      if (getD "type" .null fields).key = some (.str "register") then
        (Dict.lookup (field "agent_id") fields).bind key
      else none
  | _ => none

def SameSockets (g g' : Gateway σ) : Prop := ∀ k, (g'.agents.get k).map AgentEntry.ws = (g.agents.get k).map AgentEntry.ws

instance : Std.Refl (SameSockets (σ := σ)) := ⟨fun _ _ => rfl⟩

instance : IsTrans (Gateway σ) SameSockets := ⟨fun _ _ _ h h' k => (h' k).trans (h k)⟩

def Keeping (agentId : PyKey) (h : Handled) : Prop := h = .returned agentId ∨ h = .dispatching agentId

abbrev Quiet (agentId : PyKey) (m : Effect Fault (Gateway σ) Handled) : Prop := m.Keeps SameSockets (Keeping agentId)

variable {svc : Services σ} {ws : ConnId} {fields : Fields} {agentId : PyKey}

section Handlers

theorem sameSockets_onEntry {f : AgentEntry → AgentEntry} (hf : ∀ conn, (f conn).ws = conn.ws) (g : Gateway σ) :
    SameSockets g (onEntry agentId f g) := by
  intro k
  rw [onEntry]
  cases hconn : g.agents.get agentId with
  | none => rfl
  | some conn =>
      dsimp only
      rw [Dict.get_set]
      split
      · next hk =>
          subst k
          rw [hconn, Option.map_some, Option.map_some, hf]
      · rfl

theorem sameSockets_markFree (g : Gateway σ) : SameSockets g (markFree agentId g) := by
  rw [markFree]
  refine sameSockets_onEntry ?_ g
  exact fun _ => rfl

theorem sameSockets_touch (g : Gateway σ) : SameSockets g (touch svc agentId g) := by
  rw [touch]
  refine sameSockets_onEntry ?_ g
  exact fun _ => rfl

theorem keeps_item {name : String} : (item (σ := σ) name fields).Keeps SameSockets fun _ => True := by
  rw [item]
  split
  · exact .pure trivial
  · exact .throw _

theorem keeps_hashed {v : JsonDoc} : (hashed (σ := σ) v).Keeps SameSockets fun k => v.key = some k := by
  rw [hashed]
  split
  · next hk => exact .pure hk
  · exact .throw _

theorem keeps_onStore {α : Type} (f : σ → Except Fault α × σ) : (onStore f).Keeps SameSockets fun _ => True :=
  .call (fun _ _ => rfl) fun _ _ _ => trivial

theorem quiet_returned : Quiet (σ := σ) agentId (pure (.returned agentId)) := .pure (.inl rfl)

theorem quiet_logged (jobId : JsonDoc) {m : Effect Fault (Gateway σ) Handled} (hm : Quiet agentId m) :
    Quiet agentId (do logExtra svc jobId; m) := by
  have hlog : (logExtra svc jobId).Keeps SameSockets fun _ => True :=
    (keeps_onStore _).bind fun _ _ => .pure trivial
  exact hlog.bind fun _ _ => hm

theorem quiet_ack : Quiet agentId (onAck svc fields agentId) :=
  keeps_item.bind fun jobId _ => (keeps_onStore _).bind fun _ _ => quiet_logged jobId quiet_returned

theorem quiet_started : Quiet agentId (onStarted svc fields agentId) := by
  refine keeps_item.bind fun jobId _ => (keeps_onStore _).bind fun job _ => ?_
  cases job with
  | none => exact quiet_returned
  | some job => exact (keeps_onStore _).bind fun _ _ => quiet_logged jobId quiet_returned

theorem quiet_log : Quiet agentId (onLog svc fields agentId) :=
  keeps_item.bind fun _ _ => keeps_item.bind fun _ _ => keeps_item.bind fun _ _ => (keeps_onStore _).bind fun _ _ =>
    keeps_item.bind fun _ _ => (keeps_onStore _).bind fun _ _ => quiet_returned

theorem quiet_freeSlot : Quiet (σ := σ) agentId (freeSlot agentId) := by
  rw [freeSlot]
  split
  · exact (Effect.Keeps.update sameSockets_markFree).bind fun _ _ => .pure (.inr rfl)
  · exact quiet_returned

theorem keeps_complete {jobId exitCode stdout stderr error : JsonDoc} :
    (complete svc jobId exitCode stdout stderr error).Keeps SameSockets fun _ => True := by
  rw [complete]
  split
  · exact keeps_onStore _
  · split <;> exact keeps_onStore _

theorem quiet_result : Quiet agentId (onResult svc fields agentId) := by
  refine keeps_item.bind fun jobId _ => keeps_item.bind fun _ _ => keeps_complete.bind fun job _ => ?_
  cases job with
  | none => exact quiet_freeSlot
  | some job => exact (keeps_onStore _).bind fun _ _ => quiet_logged jobId quiet_freeSlot

theorem quiet_heartbeat : Quiet agentId (onHeartbeat svc fields agentId) := by
  rw [onHeartbeat]
  split
  · exact quiet_returned
  · exact (Effect.Keeps.update sameSockets_touch).bind fun _ _ => quiet_returned

theorem quiet_reconcile : Quiet agentId (onReconcile svc fields agentId) :=
  keeps_item.bind fun jobId _ => (keeps_onStore _).bind fun _ _ => quiet_logged jobId quiet_returned

theorem quiet_unregistered (h : (Dict.lookup (field "agent_id") fields).bind key = none) :
    Quiet agentId (onRegister svc ws fields agentId) := by
  rw [onRegister, item]
  cases hid : Dict.lookup (field "agent_id") fields with
  | none => exact (Effect.Keeps.throw (P := fun _ => False) _).bind fun _ h => h.elim
  | some v =>
      rw [hid] at h
      have hv : v.key = none := h
      rw [pure_bind, hashed, hv]
      exact (Effect.Keeps.throw (P := fun _ => False) _).bind fun _ h => h.elim

theorem quiet_handlers {k : PyKey} {handler : Fields → PyKey → Effect Fault (Gateway σ) Handled}
    (hlookup : Dict.lookup k (handlers svc ws) = some handler)
    (hreg : k = .str "register" → (Dict.lookup (field "agent_id") fields).bind key = none) :
    Quiet agentId (handler fields agentId) := by
  have hnodup : ((handlers svc ws).map Prod.fst).Nodup := by
    simp only [handlers, List.map_cons, List.map_nil]
    decide
  have hmem := (Dict.lookup_eq_some hnodup).mp hlookup
  simp only [handlers, List.mem_cons, Prod.mk.injEq, List.not_mem_nil, or_false] at hmem
  rcases hmem with ⟨hk, rfl⟩ | ⟨-, rfl⟩ | ⟨-, rfl⟩ | ⟨-, rfl⟩ | ⟨-, rfl⟩ | ⟨-, rfl⟩ | ⟨-, rfl⟩
  · exact quiet_unregistered (hreg hk)
  · exact quiet_ack
  · exact quiet_started
  · exact quiet_log
  · exact quiet_result
  · exact quiet_heartbeat
  · exact quiet_reconcile

theorem quiet_dispatch {message : JsonDoc} (h : registered message = none) :
    Quiet agentId (dispatch svc ws message agentId) := by
  rw [dispatch.eq_def]
  split
  · next fields =>
      split
      · exact quiet_returned
      · next messageType _ =>
          refine keeps_hashed.bind fun k hk => ?_
          split
          · next handler hlookup =>
              refine quiet_handlers hlookup fun hreg => ?_
              rwa [registered, if_pos (hk.trans (congrArg some hreg))] at h
          · exact quiet_returned
  · exact .throw _

end Handlers

/-- Any message that registers nothing leaves the id of the connection and the websockets of the entries alone,
whether its handler raises or not. -/
theorem safeDispatch_quiet {message : JsonDoc} (h : registered message = none) (g : Gateway σ) :
    SameSockets g (safeDispatch svc ws message agentId g).2 ∧
      Keeping agentId (safeDispatch svc ws message agentId g).1 :=
  (quiet_dispatch h).guarded (.inl rfl) g

theorem safeDispatch_register {message : JsonDoc} {k : PyKey} (h : registered message = some k) (g : Gateway σ) :
    safeDispatch svc ws message agentId g = (.dispatching k, register svc ws k g) := by
  obtain ⟨fields, rfl, htype, v, hv, hk⟩ : ∃ fields, message = .obj fields ∧
      (getD "type" .null fields).key = some (.str "register") ∧
      ∃ v, Dict.lookup (field "agent_id") fields = some v ∧ v.key = some k := by
    cases message with
    | obj fields =>
        rw [registered] at h
        split at h
        · next htype => exact ⟨fields, rfl, htype, Option.bind_eq_some_iff.mp h⟩
        · cases h
    | _ => cases h
  have hdispatch : dispatch svc ws (.obj fields) agentId = onRegister svc ws fields agentId := by
    rw [dispatch]
    split
    · next hnull =>
        rw [hnull] at htype
        cases htype
    · rw [hashed, htype]
      rfl
  have hrun : (onRegister svc ws fields agentId).run g = (.ok (.dispatching k), register svc ws k g) := by
    rw [onRegister, item, hv, pure_bind, hashed, hk]
    rfl
  rw [safeDispatch, hdispatch, Effect.guarded, hrun]

end Gateway

end JobSystem
