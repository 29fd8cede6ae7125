import JobSystem.Agent.Endings
import JobSystem.Agent.View

namespace JobSystem

open Lib

theorem AgentCtl.toStart_of_toRun {x : AgentCtl} {w : Work} (h : x.toRun = some w) : x.toStart = some w.jobId := by
  cases x <;> cases h <;> rfl

namespace Agent

/-- The job of which a step starts a container, or fails to. -/
def begins (a : Agent) : AgentLabel → Option String
  | .startReturned _ => a.main.toStart
  | .crashed left =>
      match a.main with
      | .starting _ j _ _ => if left.any fun status => status ≠ .created then some j else none
      | _ => none
  | _ => none

/-- All that the agent can still report is about jobs of which `P` holds: the containers that were started, the
results that its tasks have, and those on the wire. -/
structure Backed (P : String → Prop) (a : Agent) : Prop where
  labelled : a.Labelled
  containers : ∀ id k, a.containers.get id = some k → k.status ≠ .created → P k.jobId
  main : ∀ r, a.main.result = some r → P r.jobId
  reattached : ∀ t ∈ a.reattached, ∀ r, t.result = some r → P r.jobId
  wire : ∀ c j x out err error, (c, .result j x out err error) ∈ a.wire → P j

variable {agentId : String} {inbox : ConnId → List ServerFrame} {a a' : Agent} {label : AgentLabel}

theorem get_left {j image : String} {command : List String} {left : Option ContainerStatus} {id : ContainerId}
    {k : Container} (hk : (a.leaveContainer j image command left).containers.get id = some k) :
    a.containers.get id = some k ∨ k.jobId = j ∧ left = some k.status := by
  cases left with
  | none => exact .inl hk
  | some status =>
      rw [leaveContainer, get_startContainer] at hk
      split at hk
      · cases hk
        exact .inr ⟨rfl, rfl⟩
      · exact .inl hk

theorem act_live (h : Act agentId inbox a label a') {id : ContainerId} {k : Container}
    (hk : a'.containers.get id = some k) (hlive : k.status ≠ .created) :
    (∃ k', a.containers.get id = some k' ∧ k'.status ≠ .created ∧ k'.jobId = k.jobId) ∨
      a.begins label = some k.jobId := by
  have hold : a.containers.get id = some k → (∃ k', a.containers.get id = some k' ∧ k'.status ≠ .created ∧
      k'.jobId = k.jobId) ∨ a.begins label = some k.jobId :=
    fun hk => .inl ⟨k, hk, hlive, rfl⟩
  cases h with
  | removed ok c i => exact hold (get_removeContainer hk)
  | waited c j i removed | waitFailed c j i removed =>
      exact hold (get_removeContainer (a := { a with running := a.running.pop j }) hk)
  | reattachWaited i removed r =>
      exact hold (get_removeContainer (a := { a with reattached := a.reattached.set i _ }) hk)
  | reattachFailed i removed r => exact hold (get_removeContainer (a := a.reattachEnd i r.jobId) hk)
  | started c j image command hm =>
      rcases startContainer_work hk with hk | hw
      · exact hold hk
      · exact .inr (by rw [begins, hm, show k.jobId = j from congrArg Work.jobId hw]; rfl)
  | startFailed c j image command error left hm =>
      rcases get_left hk with hk | ⟨hj, _⟩
      · exact hold hk
      · exact .inr (by rw [begins, hm, hj]; rfl)
  | exited i x out err k' hk' hrun =>
      change (a.containers.set i _).get id = some k at hk
      rw [Dict.get_set] at hk
      split at hk
      · next he =>
          cases hk
          exact .inl ⟨k', he ▸ hk', by rw [hrun]; decide, rfl⟩
      · exact hold hk
  | crashed left =>
      rw [Agent.crashed] at hk
      split at hk
      · next c j image command hm =>
          rcases get_left hk with hk | ⟨hj, hleft⟩
          · exact hold hk
          · exact .inr (by rw [begins, hm, hleft, hj]; simp [hlive])
      · exact hold hk
  | _ => exact hold hk

theorem Exited.live {e : Ending} (h : a.Exited e) :
    ∃ id k, a.containers.get id = some k ∧ k.status ≠ .created ∧ k.jobId = e.result.jobId := by
  obtain ⟨id, k, x, out, err, hk, hx, rfl⟩ := h
  refine ⟨id, k, hk, ?_, ?_⟩
  · rw [hx]
    exact ContainerStatus.noConfusion
  · rw [Ending.result_jobId]
    rfl

theorem begins_of_refused {e : Ending} (he : e ∈ a.refused label) : a.begins label = some e.result.jobId := by
  have hrun := AgentCtl.toStart_of_toRun (refused_work he)
  rw [Ending.result_jobId, ← hrun]
  unfold refused at he
  split at he
  · rfl
  · cases he

theorem backed_start (P : String → Prop) : Backed P start where
  labelled := labelled_start
  containers id k hk := by cases hk
  main r hr := by cases hr
  reattached t ht := by cases ht
  wire c j x out err error hf := by cases hf

section Backed

variable {P Q : String → Prop}

theorem Backed.mono (hB : Backed P a) (h : ∀ j, P j → Q j) : Backed Q a where
  labelled := hB.labelled
  containers id k hk hlive := h _ (hB.containers id k hk hlive)
  main r hr := h _ (hB.main r hr)
  reattached t ht r hr := h _ (hB.reattached t ht r hr)
  wire c j x out err error hf := h _ (hB.wire c j x out err error hf)

theorem Backed.connected (hB : Backed P a) (c : ConnId) : Backed P { a with main := .registering c, read := 0 } where
  labelled := hB.labelled.connected c
  containers := hB.containers
  main r hr := by cases hr
  reattached := hB.reattached
  wire := hB.wire

theorem Backed.received (hB : Backed P a) {wire : Channel ConnId AgentFrame} (h : ∀ e ∈ wire, e ∈ a.wire) :
    Backed P { a with wire := wire } where
  labelled := ⟨hB.labelled.fresh, hB.labelled.rest, hB.labelled.main, hB.labelled.running, hB.labelled.reattached⟩
  containers := hB.containers
  main := hB.main
  reattached := hB.reattached
  wire c j x out err error hf := hB.wire c j x out err error (h _ hf)

/-- What the agent can report after a step it could report before, or the step has started it. -/
theorem backed_step (hB : Backed P a) (h : a.step agentId inbox label = some a') (hPQ : ∀ j, P j → Q j)
    (hbegins : ∀ j, a.begins label = some j → Q j) : Backed Q a' := by
  have hact := step_act h
  have hexited : ∀ e, a.Exited e → Q e.result.jobId := by
    intro e he
    obtain ⟨id, k, hk, hlive, hj⟩ := he.live
    rw [← hj]
    exact hPQ _ (hB.containers id k hk hlive)
  constructor
  case labelled => exact labelled_act hB.labelled hact
  case containers =>
    intro id k hk hlive
    rcases act_live hact hk hlive with ⟨k', hk', hlive', hj⟩ | hj
    · rw [← hj]
      exact hPQ _ (hB.containers id k' hk' hlive')
    · exact hbegins _ hj
  case main =>
    intro r hr
    rcases act_result hB.labelled hact hr with hr | ⟨e, he | he, rfl⟩
    · exact hPQ _ (hB.main r hr)
    · exact hbegins _ (begins_of_refused he)
    · exact hexited e he
  case reattached =>
    intro t ht r hr
    rcases act_reattachResult hB.labelled hact ht hr with ht | ⟨e, he, rfl⟩
    · exact hPQ _ (hB.reattached t ht r hr)
    · exact hexited e he
  case wire =>
    intro c j x out err error hf
    rcases step_report h hf with hf | ⟨r, hframe, hr⟩
    · exact hPQ _ (hB.wire c j x out err error hf)
    · cases hframe
      rcases hr with hr | ⟨t, ht, hr⟩
      · exact hPQ _ (hB.main r hr)
      · exact hPQ _ (hB.reattached t ht r hr)

end Backed

theorem Flow.keeps {x : AgentCtl} {read : Nat} {started : List String} {wire : Channel ConnId AgentFrame}
    (h : Flow agentId inbox label a x read started wire) {e : ConnId × AgentFrame} (he : e ∈ a.wire) : e ∈ wire := by
  have hadds : Adds agentId a.wire wire → e ∈ wire := by
    rintro (rfl | ⟨c, f, _, rfl⟩)
    · exact he
    · exact List.mem_append_left _ he
  cases h with
  | same _ hw | moved _ _ _ _ _ hw | ended _ hw => exact hadds hw
  | endedAnnouncing | acked | announced => exact List.mem_append_left _ he
  | _ => exact he

/-- The announcement of a container is sent, or it is lost with the session or with the process. -/
theorem step_announcing {c : ConnId} {j : String} {id : ContainerId} (hm : a.main = .announcing c j id)
    (h : a.step agentId inbox label = some a') :
    a'.main = a.main ∨ ((label = .sent ∨ label = .sendFailed true) ∧ (c, .started j) ∈ a'.wire) ∨
      label = .sendFailed false ∨ ∃ left, label = .crashed left := by
  have hsent : ∀ {c' f y}, a.main.outgoing agentId = some (c', f, y) → (c, .started j) ∈ a.wire ++ [(c', f)] := by
    intro c' f y ho
    rw [hm] at ho
    cases ho
    exact List.mem_append_right _ (List.mem_singleton_self _)
  cases step_act h with
  | sent c' f x ho => exact .inr (.inl ⟨.inl rfl, hsent ho⟩)
  | sendFailed written =>
      obtain ⟨⟨c', f, y⟩, ho, ha⟩ := Option.map_eq_some_iff.mp h
      cases written with
      | false => exact .inr (.inr (.inl rfl))
      | true =>
          rw [← ha]
          exact .inr (.inl ⟨.inr rfl, hsent ho⟩)
  | crashed left => exact .inr (.inr (.inr ⟨left, rfl⟩))
  | heartbeat | exited | reattachSent => exact .inl rfl
  | reattachWaited | reattachFailed => exact .inl (main_removeContainer _ _)
  | ended _ hl => rcases hl with rfl | rfl <;> simp [step, hm] at h
  | listens _ _ hl => rcases hl with ⟨-, hm'⟩ | ⟨-, hm'⟩ <;> cases hm.symm.trans hm'
  | reattaching _ _ _ _ hm' | tookJob _ _ _ _ _ _ hm' | ignored _ _ _ hm' | killing _ _ _ _ hm' | listed _ hm'
    | examined _ _ _ _ _ hm' | inspected _ _ _ _ _ _ _ hm' | removed _ _ _ _ hm' | started _ _ _ _ hm'
    | startFailed _ _ _ _ _ _ hm' | waited _ _ _ _ _ _ _ hm' | waitFailed _ _ _ _ hm' | killed _ _ hm' =>
      cases hm.symm.trans hm'

end Agent

end JobSystem
