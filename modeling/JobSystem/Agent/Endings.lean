import JobSystem.Agent.Outcome

namespace JobSystem

open Lib

structure Work where
  jobId : String
  image : String
  command : List String
  deriving DecidableEq

def Container.work (k : Container) : Work := ⟨k.jobId, k.image, k.command⟩

inductive Ending
  | exited (w : Work) (exitCode : Int) (stdout stderr : String)
  | notStarted (w : Work) (error : String)
  deriving DecidableEq

namespace Ending

def work : Ending → Work
  | exited w _ _ _ => w
  | notStarted w _ => w

/-- What the agent reports of an ending. -/
def result : Ending → JobResult
  | exited w x out err => jobResult w.jobId x out err none
  | notStarted w error => jobResult w.jobId 1 "" error (some error)

theorem result_jobId (e : Ending) : e.result.jobId = e.work.jobId := by
  cases e with
  | exited w x out err => exact jobResult_jobId w.jobId x out err none
  | notStarted w error => exact jobResult_jobId w.jobId 1 "" error (some error)

end Ending

def AgentCtl.toRun : AgentCtl → Option Work
  | acking _ j image command | starting _ j image command => some ⟨j, image, command⟩
  | _ => none

def ServerFrame.work : ServerFrame → Option Work
  | job j _ image command _ => some ⟨j, image, command⟩
  | cancel _ _ => none

namespace Agent

def ending (id : ContainerId) (k : Container) (a : Agent) : Option Ending :=
  (a.exitOf id).map fun (x, out, err) => .exited k.work x out err

def refused (a : Agent) : AgentLabel → List Ending
  | .startReturned (.failed error _) => (a.main.toRun.map fun w => .notStarted w error).toList
  | _ => []

/-- The endings that can be seen at the agent with a step. -/
def endings (a : Agent) (label : AgentLabel) (a' : Agent) : List Ending :=
  a.refused label ++ a'.containers.entries.filterMap fun e => a'.ending e.1 e.2

variable {agentId : String} {inbox : ConnId → List ServerFrame} {a a' : Agent} {label : AgentLabel}

theorem exitOf_eq_some {id : ContainerId} {x : Int} {out err : String} :
    a.exitOf id = some (x, out, err) ↔ ∃ k, a.containers.get id = some k ∧ k.status = .exited x out err := by
  rw [exitOf]
  cases hk : a.containers.get id with
  | none => simp
  | some k =>
      obtain ⟨j, image, command, status⟩ := k
      cases status <;> simp

theorem mem_endings {id : ContainerId} {k : Container} {x : Int} {out err : String}
    (hk : a'.containers.get id = some k) (hx : k.status = .exited x out err) :
    .exited k.work x out err ∈ a.endings label a' := by
  refine List.mem_append_right _ (List.mem_filterMap.mpr ⟨(id, k), ?_, ?_⟩)
  · exact (Dict.lookup_eq_some a'.containers.nodup).mp hk
  · rw [ending, exitOf_eq_some.mpr ⟨k, hk, hx⟩]
    rfl

theorem endings_cases {e : Ending} (he : e ∈ a.endings label a') :
    e ∈ a.refused label ∨ ∃ id k, a'.containers.get id = some k ∧ e.work = k.work := by
  rcases List.mem_append.mp he with he | he
  · exact .inl he
  · obtain ⟨⟨id, k⟩, hk, he⟩ := List.mem_filterMap.mp he
    obtain ⟨-, -, rfl⟩ := Option.map_eq_some_iff.mp he
    exact .inr ⟨id, k, (Dict.lookup_eq_some a'.containers.nodup).mpr hk, rfl⟩

theorem refused_work {e : Ending} (he : e ∈ a.refused label) : a.main.toRun = some e.work := by
  unfold refused at he
  split at he
  · obtain ⟨w, hw, rfl⟩ := Option.map_eq_some_iff.mp (Option.mem_toList.mp he)
    exact hw
  · cases he

theorem act_toRun (h : Act agentId inbox a label a') {w : Work} (hw : a'.main.toRun = some w) :
    a.main.toRun = some w ∨ ∃ c f, (inbox c)[a.read]? = some f ∧ f.work = some w := by
  cases h with
  | sent c f x ho hr =>
      cases hm : a.main <;> rw [hm] at ho <;> cases ho <;> exact .inl hw
  | tookJob c j cid image command timeoutMs hm hf => exact .inr ⟨c, _, hf, hw⟩
  | examined c id container rest x hm hx =>
      rcases hx with ⟨-, rfl⟩ | rfl | rfl | rfl <;> cases hw
  | heartbeat | exited | reattachSent => exact .inl hw
  | reattachWaited i removed r x out err =>
      rw [main_removeContainer] at hw
      exact .inl hw
  | reattachFailed i removed r =>
      rw [main_removeContainer] at hw
      exact .inl hw
  | _ => cases hw

theorem startContainer_work {j image : String} {command : List String} {status : ContainerStatus}
    {id : ContainerId} {k : Container}
    (hk : (a.startContainer j image command status).containers.get id = some k) :
    a.containers.get id = some k ∨ k.work = ⟨j, image, command⟩ := by
  rw [get_startContainer] at hk
  split at hk
  · cases hk
    exact .inr rfl
  · exact .inl hk

theorem leaveContainer_work {j image : String} {command : List String} {left : Option ContainerStatus}
    {id : ContainerId} {k : Container}
    (hk : (a.leaveContainer j image command left).containers.get id = some k) :
    a.containers.get id = some k ∨ k.work = ⟨j, image, command⟩ := by
  cases left with
  | none => exact .inl hk
  | some status => exact startContainer_work hk

theorem act_work (h : Act agentId inbox a label a') {id : ContainerId} {k : Container}
    (hk : a'.containers.get id = some k) :
    (∃ k', a.containers.get id = some k' ∧ k.work = k'.work) ∨ a.main.toRun = some k.work := by
  have hleft : ∀ {c : ConnId} {j image : String} {command : List String}, a.main = .starting c j image command →
      a.containers.get id = some k ∨ k.work = ⟨j, image, command⟩ →
      (∃ k', a.containers.get id = some k' ∧ k.work = k'.work) ∨ a.main.toRun = some k.work := by
    rintro c j image command hm (hold | hnew)
    · exact .inl ⟨k, hold, rfl⟩
    · exact .inr (by rw [hm, hnew]; rfl)
  cases h with
  | removed ok c i => exact .inl ⟨k, get_removeContainer hk, rfl⟩
  | waited c j i removed | waitFailed c j i removed =>
      exact .inl ⟨k, get_removeContainer (a := { a with running := a.running.pop j }) hk, rfl⟩
  | reattachWaited i removed r =>
      exact .inl ⟨k, get_removeContainer (a := { a with reattached := a.reattached.set i _ }) hk, rfl⟩
  | reattachFailed i removed r => exact .inl ⟨k, get_removeContainer (a := a.reattachEnd i r.jobId) hk, rfl⟩
  | started c j image command hm => exact hleft hm (startContainer_work hk)
  | startFailed c j image command error left hm => exact hleft hm (leaveContainer_work hk)
  | exited i x out err k' hk' hrun =>
      change (a.containers.set i _).get id = some k at hk
      rw [Dict.get_set] at hk
      split at hk
      · next he =>
          cases hk
          exact .inl ⟨k', he ▸ hk', rfl⟩
      · exact .inl ⟨k, hk, rfl⟩
  | crashed left =>
      rw [Agent.crashed] at hk
      split at hk
      · next c j image command hm => exact hleft hm (leaveContainer_work hk)
      · exact .inl ⟨k, hk, rfl⟩
  | _ => exact .inl ⟨k, hk, rfl⟩

def Exited (a : Agent) (e : Ending) : Prop :=
  ∃ id k x out err, a.containers.get id = some k ∧ k.status = .exited x out err ∧ e = .exited k.work x out err

/-- What `wait` and the logs tell of a container is told of its ending. -/
theorem exited_of_exitOf {id : ContainerId} {j : String} {x : Int} {out err : String} (hN : a.Names id j)
    (he : a.exitOf id = some (x, out, err)) : ∃ e, a.Exited e ∧ e.result = jobResult j x out err none := by
  obtain ⟨k, hk, hx⟩ := exitOf_eq_some.mp he
  refine ⟨_, ⟨id, k, x, out, err, hk, hx, rfl⟩, ?_⟩
  rw [Ending.result, Container.work, hN.2 k hk]

theorem act_result (hL : a.Labelled) (h : Act agentId inbox a label a') {r : JobResult}
    (hr : a'.main.result = some r) :
    a.main.result = some r ∨ ∃ e, (e ∈ a.refused label ∨ a.Exited e) ∧ e.result = r := by
  cases h with
  | sent c f x ho =>
      have hnone := (OpenAgent.outgoing_session ho).2
      cases hnone.symm.trans hr
  | inspected c id j rest x out err hm he =>
      obtain ⟨e, hexit, he⟩ := exited_of_exitOf (hL.main id j (by rw [hm]; rfl)) he
      exact .inr ⟨e, .inr hexit, he.trans (Option.some.inj hr)⟩
  | waited c j id removed x out err hm he =>
      obtain ⟨e, hexit, he⟩ := exited_of_exitOf (hL.main id j (by rw [hm]; rfl)) he
      exact .inr ⟨e, .inr hexit, he.trans (Option.some.inj hr)⟩
  | startFailed c j image command error left hm =>
      refine .inr ⟨.notStarted ⟨j, image, command⟩ error, .inl ?_, Option.some.inj hr⟩
      rw [refused, hm]
      exact List.mem_singleton_self _
  | examined c id container rest x hm hx => rcases hx with ⟨-, rfl⟩ | rfl | rfl | rfl <;> cases hr
  | heartbeat | exited | reattachSent => exact .inl hr
  | reattachWaited i removed t x out err =>
      rw [main_removeContainer] at hr
      exact .inl hr
  | reattachFailed i removed t =>
      rw [main_removeContainer] at hr
      exact .inl hr
  | _ => cases hr

theorem act_reattachResult (hL : a.Labelled) (h : Act agentId inbox a label a') {t : Reattach}
    (ht : t ∈ a'.reattached) {r : JobResult} (hr : t.result = some r) :
    t ∈ a.reattached ∨ ∃ e, a.Exited e ∧ e.result = r := by
  cases h with
  | reattaching c i k rest hm =>
      rcases List.mem_append.mp ht with ht | ht
      · exact .inl ht
      · rw [List.mem_singleton.mp ht] at hr
        cases hr
  | removed ok c i =>
      change t ∈ (a.removeContainer ok i).reattached at ht
      rw [reattached_removeContainer] at ht
      exact .inl ht
  | startFailed c k image command error left =>
      change t ∈ (a.leaveContainer k image command left).reattached at ht
      rw [reattached_leaveContainer] at ht
      exact .inl ht
  | waited c k i removed | waitFailed c k i removed =>
      change t ∈ (Agent.removeContainer removed i { a with running := a.running.pop k }).reattached at ht
      rw [reattached_removeContainer] at ht
      exact .inl ht
  | reattachWaited i removed t' x out err ht' hn he =>
      rw [reattached_removeContainer] at ht
      rcases List.mem_or_eq_of_mem_set ht with ht | rfl
      · exact .inl ht
      · obtain ⟨e, hexit, he⟩ := exited_of_exitOf (hL.reattached t' (List.mem_of_getElem? ht')).1 he
        exact .inr ⟨e, hexit, he.trans (Option.some.inj hr)⟩
  | reattachFailed i removed t' =>
      rw [reattached_removeContainer] at ht
      exact .inl (List.mem_of_mem_eraseIdx ht)
  | reattachSent i written t' => exact .inl (List.mem_of_mem_eraseIdx ht)
  | crashed left =>
      have hempty : (a.crashed left).reattached = [] := by
        rw [Agent.crashed]
      rw [hempty] at ht
      cases ht
  | _ => exact .inl ht

end Agent

theorem AgentCtl.outgoing_result {agentId : String} {x y : AgentCtl} {c : ConnId} {j : String} {code : Int}
    {out err : PyStr} {error : Option PyStr} (h : x.outgoing agentId = some (c, .result j code out err error, y)) :
    ∃ r, x.result = some r ∧ r.frame = .result j code out err error := by
  cases x <;> simp only [outgoing, Option.some.injEq, Prod.mk.injEq, reduceCtorEq] at h
  case reporting c' r => exact ⟨r, rfl, h.2.1⟩
  case reportingExited c' id r rest => exact ⟨r, rfl, h.2.1⟩
  all_goals cases h.2.1

namespace Agent

variable {agentId : String} {inbox : ConnId → List ServerFrame} {a a' : Agent} {label : AgentLabel}

@[simp] theorem wire_removeContainer (ok : Bool) (id : ContainerId) : (a.removeContainer ok id).wire = a.wire := by
  cases ok <;> rfl

@[simp] theorem wire_leaveContainer (j image : String) (command : List String) (left : Option ContainerStatus) :
    (a.leaveContainer j image command left).wire = a.wire := by
  cases left <;> rfl

theorem act_wire (h : Act agentId inbox a label a') :
    a'.wire = a.wire ∨ label = .sent ∨ (∃ w, label = .sendFailed w) ∨ (∃ ok w, label = .heartbeat ok w) ∨
      ∃ i w, label = .reattachSent i w := by
  cases h with
  | sent | reattaching => exact .inr (.inl rfl)
  | sendFailed written => exact .inr (.inr (.inl ⟨written, rfl⟩))
  | heartbeat ok written => exact .inr (.inr (.inr (.inl ⟨ok, written, rfl⟩)))
  | reattachSent i written => exact .inr (.inr (.inr (.inr ⟨i, written, rfl⟩)))
  | removed ok c i => exact .inl (wire_removeContainer ok i)
  | waited c j i removed | waitFailed c j i removed =>
      exact .inl (wire_removeContainer (a := { a with running := a.running.pop j }) removed i)
  | reattachWaited i removed t =>
      exact .inl (wire_removeContainer (a := { a with reattached := a.reattached.set i _ }) removed t.id)
  | reattachFailed i removed t => exact .inl (wire_removeContainer (a := a.reattachEnd i t.jobId) removed t.id)
  | startFailed c j image command error left => exact .inl (wire_leaveContainer j image command left)
  | crashed left =>
      left
      rw [Agent.crashed]
      split
      · exact wire_leaveContainer _ _ _ left
      · rfl
  | _ => exact .inl rfl

theorem sent_wire (h : a.sent agentId = some a') :
    ∃ c f y, a.main.outgoing agentId = some (c, f, y) ∧ a'.wire = a.wire ++ [(c, f)] := by
  rw [sent] at h
  obtain ⟨⟨c, f, y⟩, ho, h⟩ := Option.map_eq_some_iff.mp h
  refine ⟨c, f, y, ho, ?_⟩
  cases hm : a.main <;> rw [hm] at h <;> cases h <;> rfl

/-- A result on the wire was sent before, or a task of the agent has had it to send. -/
theorem step_report (h : a.step agentId inbox label = some a') {c : ConnId} {j : String} {x : Int} {out err : PyStr}
    {error : Option PyStr} (hf : (c, .result j x out err error) ∈ a'.wire) :
    (c, .result j x out err error) ∈ a.wire ∨ ∃ r, r.frame = .result j x out err error ∧
      (a.main.result = some r ∨ ∃ t ∈ a.reattached, t.result = some r) := by
  have hnew : ∀ {c' f}, (c, .result j x out err error) ∈ a.wire ++ [(c', f)] →
      (c, .result j x out err error) ∈ a.wire ∨ f = .result j x out err error := by
    intro c' f hmem
    rcases List.mem_append.mp hmem with hold | hnew
    · exact .inl hold
    · cases List.mem_singleton.mp hnew
      exact .inr rfl
  have hsent : ∀ {c' f y}, a.main.outgoing agentId = some (c', f, y) →
      (c, .result j x out err error) ∈ a.wire ++ [(c', f)] →
      (c, .result j x out err error) ∈ a.wire ∨ ∃ r, r.frame = .result j x out err error ∧
        (a.main.result = some r ∨ ∃ t ∈ a.reattached, t.result = some r) := by
    intro c' f y ho hmem
    rcases hnew hmem with hold | rfl
    · exact .inl hold
    · obtain ⟨r, hr, hframe⟩ := AgentCtl.outgoing_result ho
      exact .inr ⟨r, hframe, .inl hr⟩
  cases label with
  | sendFailed written =>
      obtain ⟨⟨c', f, y⟩, ho, rfl⟩ := Option.map_eq_some_iff.mp h
      cases written with
      | false => exact .inl hf
      | true => exact hsent ho hf
  | heartbeat ok written =>
      obtain ⟨c', -, rfl⟩ := Option.map_eq_some_iff.mp h
      have hbeat : (c, .result j x out err error) ∈ a.wire ++ [(c', .heartbeat agentId)] →
          (c, .result j x out err error) ∈ a.wire := by
        intro hmem
        rcases hnew hmem with hold | hframe
        · exact hold
        · cases hframe
      cases ok <;> cases written <;> first | exact .inl hf | exact .inl (hbeat hf)
  | reattachSent i written =>
      obtain ⟨t, ht, h⟩ := Option.bind_eq_some_iff.mp h
      obtain ⟨result, hresult, rfl⟩ := Option.map_eq_some_iff.mp h
      cases written with
      | false => exact .inl hf
      | true =>
          rcases hnew hf with hold | hframe
          · exact .inl hold
          · exact .inr ⟨result, hframe, .inr ⟨t, List.mem_of_getElem? ht, hresult⟩⟩
  | sent =>
      obtain ⟨c', f, y, ho, hwire⟩ := sent_wire h
      rw [hwire] at hf
      exact hsent ho hf
  | _ =>
      rcases act_wire (step_act h) with hw | hl | ⟨_, hl⟩ | ⟨_, _, hl⟩ | ⟨_, _, hl⟩
      · rw [hw] at hf
        exact .inl hf
      all_goals cases hl

/-- All that the agent was told to run, and runs, is `ordered`, and all that it reports are the endings `g`. -/
structure Genuine (ordered : Work → Prop) (g : List Ending) (a : Agent) : Prop where
  labelled : a.Labelled
  toRun : ∀ w, a.main.toRun = some w → ordered w
  containers : ∀ id k, a.containers.get id = some k → ordered k.work
  endings : ∀ e ∈ g, ordered e.work
  seen : ∀ e, a.Exited e → e ∈ g
  main : ∀ r, a.main.result = some r → ∃ e ∈ g, e.result = r
  reattached : ∀ t ∈ a.reattached, ∀ r, t.result = some r → ∃ e ∈ g, e.result = r
  wire : ∀ c j x out err error, (c, .result j x out err error) ∈ a.wire →
    ∃ e ∈ g, e.result.frame = .result j x out err error

theorem Labelled.connected (hL : a.Labelled) (c : ConnId) :
    Labelled { a with main := .registering c, read := 0 } where
  fresh := hL.fresh
  rest e he := by cases he
  main id j hc := by cases hc
  running := hL.running
  reattached := hL.reattached

theorem genuine_start (ordered : Work → Prop) : Genuine ordered [] start where
  labelled := labelled_start
  toRun w hw := by cases hw
  containers id k hk := by cases hk
  endings e he := by cases he
  seen e he := by
    obtain ⟨id, k, x, out, err, hk, -, -⟩ := he
    cases hk
  main r hr := by cases hr
  reattached t ht := by cases ht
  wire c j x out err error hf := by cases hf

section Genuine

variable {ordered ordered' : Work → Prop} {g : List Ending}

theorem Genuine.mono (hG : Genuine ordered g a) (h : ∀ w, ordered w → ordered' w) : Genuine ordered' g a where
  labelled := hG.labelled
  toRun w hw := h w (hG.toRun w hw)
  containers id k hk := h _ (hG.containers id k hk)
  endings e he := h _ (hG.endings e he)
  seen := hG.seen
  main := hG.main
  reattached := hG.reattached
  wire := hG.wire

theorem Genuine.connected (hG : Genuine ordered g a) (c : ConnId) :
    Genuine ordered g { a with main := .registering c, read := 0 } where
  labelled := hG.labelled.connected c
  toRun w hw := by cases hw
  containers := hG.containers
  endings := hG.endings
  seen := hG.seen
  main r hr := by cases hr
  reattached := hG.reattached
  wire := hG.wire

theorem Genuine.received (hG : Genuine ordered g a) {wire : Channel ConnId AgentFrame}
    (h : ∀ e ∈ wire, e ∈ a.wire) : Genuine ordered g { a with wire := wire } where
  labelled := ⟨hG.labelled.fresh, hG.labelled.rest, hG.labelled.main, hG.labelled.running, hG.labelled.reattached⟩
  toRun := hG.toRun
  containers := hG.containers
  endings := hG.endings
  seen := hG.seen
  main := hG.main
  reattached := hG.reattached
  wire c j x out err error hf := hG.wire c j x out err error (h _ hf)

theorem genuine_step (hG : Genuine ordered g a)
    (hin : ∀ c f w, (inbox c)[a.read]? = some f → f.work = some w → ordered w)
    (h : a.step agentId inbox label = some a') : Genuine ordered (a.endings label a' ++ g) a' := by
  have hact := step_act h
  have hcontainers : ∀ id k, a'.containers.get id = some k → ordered k.work := by
    intro id k hk
    rcases act_work hact hk with ⟨k', hk', hw⟩ | hw
    · rw [hw]
      exact hG.containers id k' hk'
    · exact hG.toRun k.work hw
  have hold : ∀ r, (∃ e ∈ g, e.result = r) → ∃ e ∈ a.endings label a' ++ g, e.result = r :=
    fun r hr => hr.imp fun e he => ⟨List.mem_append_right _ he.1, he.2⟩
  constructor
  case labelled => exact labelled_act hG.labelled hact
  case toRun =>
    intro w hw
    rcases act_toRun hact hw with hw | ⟨c, f, hf, hw⟩
    · exact hG.toRun w hw
    · exact hin c f w hf hw
  case containers => exact hcontainers
  case endings =>
    intro e he
    rcases List.mem_append.mp he with he | he
    · rcases endings_cases he with he | ⟨id, k, hk, hw⟩
      · exact hG.toRun e.work (refused_work he)
      · rw [hw]
        exact hcontainers id k hk
    · exact hG.endings e he
  case seen =>
    rintro _ ⟨id, k, x, out, err, hk, hx, rfl⟩
    exact List.mem_append_left _ (mem_endings hk hx)
  case main =>
    intro r hr
    rcases act_result hG.labelled hact hr with hr | ⟨e, he | he, her⟩
    · exact hold r (hG.main r hr)
    · exact ⟨e, List.mem_append_left _ (List.mem_append_left _ he), her⟩
    · exact ⟨e, List.mem_append_right _ (hG.seen e he), her⟩
  case reattached =>
    intro t ht r hr
    rcases act_reattachResult hG.labelled hact ht hr with ht | ⟨e, he, her⟩
    · exact hold r (hG.reattached t ht r hr)
    · exact ⟨e, List.mem_append_right _ (hG.seen e he), her⟩
  case wire =>
    intro c j x out err error hf
    have hreport : ∀ r, (∃ e ∈ a.endings label a' ++ g, e.result = r) →
        ∃ e ∈ a.endings label a' ++ g, e.result.frame = r.frame :=
      fun r hr => hr.imp fun e he => ⟨he.1, by rw [he.2]⟩
    rcases step_report h hf with hf | ⟨r, hframe, hr⟩
    · obtain ⟨e, he, hframe⟩ := hG.wire c j x out err error hf
      exact ⟨e, List.mem_append_right _ he, hframe⟩
    · rw [← hframe]
      rcases hr with hr | ⟨t, ht, hr⟩
      · exact hreport r (hold r (hG.main r hr))
      · exact hreport r (hold r (hG.reattached t ht r hr))

end Genuine

end Agent

end JobSystem
