import JobSystem.Agent.OnJob
import JobSystem.Agent.Open
import JobSystem.Agent.Reconciling

namespace JobSystem

open Lib

def AgentFrame.isLog : AgentFrame → Bool
  | log _ _ _ _ => true
  | _ => false

def OnJobCtl.main (c : ConnId) (jobId image : String) (command : List String) (id : ContainerId) :
    OnJobCtl → AgentCtl
  | acking => .acking c jobId image command
  | starting => .starting c jobId image command
  | announcing => .announcing c jobId id
  | waiting => .waiting c jobId id
  | reporting r => .reporting c r
  | returned => .listening c
  | raised => .offline

def Agent.machine (agentId : String) (inbox : ConnId → List ServerFrame) (a : Agent) :
    Machine Agent AgentLabel := ⟨a, Agent.step agentId inbox⟩

namespace OnJob

/-- The agent `a` is in the call `s`, on connection `c` behind the frames `base`. It has sent what the
call has, but for the log. -/
structure Shows (c : ConnId) (jobId image : String) (command : List String) (id : ContainerId)
    (base : Channel ConnId AgentFrame) (s : OnJob) (a : Agent) : Prop where
  main : a.main = s.ctl.main c jobId image command id
  running : a.running = s.running
  wire : a.wire = base ++ (s.sent.filter fun f => !f.isLog).map (Prod.mk c)
  fresh : s.ctl = .acking ∨ s.ctl = .starting → a.nextContainer = id
  container : s.ctl = .announcing ∨ s.ctl = .waiting →
    a.containers.get id = some ⟨jobId, image, command, .running⟩

section Steps

variable {agentId : String} {inbox : ConnId → List ServerFrame} {a a₀ : Agent} {c : ConnId}
  {jobId image : String} {command : List String} {id : ContainerId} {base : Channel ConnId AgentFrame}
  {run : ContainerRun} {s : OnJob}

theorem run_single {label : AgentLabel} {b : Agent} (h : a.step agentId inbox label = some b) :
    (Agent.machine agentId inbox a₀).Run (fun _ _ => True) a b := Machine.Run.single h

theorem Shows.wire_send (h : Shows c jobId image command id base s a) {f : AgentFrame}
    (hf : f.isLog = false) :
    a.wire ++ [(c, f)] = base ++ ((s.sent ++ [f]).filter fun f => !f.isLog).map (Prod.mk c) := by
  simp [h.wire, hf]

/-- The steps of the streaming task show nowhere in the agent. -/
theorem Shows.stream (h : Shows c jobId image command id base s a) {t : OnJob} (hctl : t.ctl = s.ctl)
    (hrun : t.running = s.running)
    (hsent : (t.sent.filter fun f => !f.isLog) = s.sent.filter fun f => !f.isLog) :
    Shows c jobId image command id base t a := by
  constructor
  · rw [hctl, h.main]
  · rw [hrun, h.running]
  · rw [hsent, h.wire]
  · rw [hctl]
    exact h.fresh
  · rw [hctl]
    exact h.container

theorem Shows.startReturned (h : Shows c jobId image command id base s a) (hx : s.ctl = .starting) :
    Shows c jobId image command id base (s.startReturned jobId id run)
      (a.startReturned c jobId image command run.start) := by
  have hid := h.fresh (.inr hx)
  unfold OnJob.startReturned Agent.startReturned
  cases run.start with
  | started =>
      refine ⟨?_, ?_, h.wire, by rintro (⟨⟨⟩⟩ | ⟨⟨⟩⟩), fun _ => ?_⟩
      · rw [hid]
        rfl
      · change a.running.set jobId a.nextContainer = s.running.set jobId id
        rw [h.running, hid]
      · change (a.containers.set a.nextContainer _).get id = _
        rw [hid, Dict.get_set_self]
  | failed error left =>
      have hleave : (a.leaveContainer jobId image command left).running = a.running ∧
          (a.leaveContainer jobId image command left).wire = a.wire := by cases left <;> exact ⟨rfl, rfl⟩
      exact ⟨rfl, hleave.1.trans h.running, hleave.2.trans h.wire, by rintro (⟨⟨⟩⟩ | ⟨⟨⟩⟩),
        by rintro (⟨⟨⟩⟩ | ⟨⟨⟩⟩)⟩

theorem Shows.waitReturned (h : Shows c jobId image command id base s a) (hx : s.ctl = .waiting) :
    ∃ b, (Agent.machine agentId inbox a₀).Run (fun _ _ => True) a b ∧
      Shows c jobId image command id base (s.waitReturned jobId run) b := by
  have hm := h.main
  have hc := h.container (.inr hx)
  rw [hx] at hm
  have hrun : ({ s with running := s.running.pop jobId }.cancelStreaming jobId).running =
      s.running.pop jobId := by
    rw [cancelStreaming]
    split <;> rfl
  have hsent : ({ s with running := s.running.pop jobId }.cancelStreaming jobId).sent = s.sent :=
    sent_cancelStreaming
  rw [OnJob.waitReturned]
  generalize { s with running := s.running.pop jobId }.cancelStreaming jobId = u at hrun hsent ⊢
  have hpop : a.running.pop jobId = u.running := by rw [h.running, hrun]
  have hwire : a.wire = base ++ (u.sent.filter fun f => !f.isLog).map (Prod.mk c) := by
    rw [hsent, h.wire]
  cases hw : run.waitBlocking with
  | none =>
      have hstep : a.step agentId inbox (.waitReturned false false) =
          some { a with running := a.running.pop jobId }.endSession := by
        simp only [Agent.step, hm, OnJobCtl.main]
        rfl
      exact ⟨_, run_single hstep, rfl, hpop, hwire, by rintro (⟨⟨⟩⟩ | ⟨⟨⟩⟩), by rintro (⟨⟨⟩⟩ | ⟨⟨⟩⟩)⟩
  | some r =>
      obtain ⟨x, out, err⟩ := r
      -- the container exits before `wait` can return
      have hexit : a.step agentId inbox (.exited id x out err) =
          some { a with containers := a.containers.set id ⟨jobId, image, command, .exited x out err⟩ } := by
        simp only [Agent.step, hc]
      have hstep : Agent.step agentId inbox (.waitReturned true false)
          { a with containers := a.containers.set id ⟨jobId, image, command, .exited x out err⟩ } =
          some ({ a with
            containers := a.containers.set id ⟨jobId, image, command, .exited x out err⟩
            running := a.running.pop jobId }.goto (.reporting c (jobResult jobId x out err none))) := by
        have hof : ∀ b : Agent,
            b.containers = a.containers.set id ⟨jobId, image, command, .exited x out err⟩ →
            b.exitOf id = some (x, out, err) := by
          intro b hb
          rw [Agent.exitOf, hb, Dict.get_set_self]
        simp only [Agent.step, hm, OnJobCtl.main, Agent.waitReturned, if_true]
        rw [hof _ rfl]
        rfl
      exact ⟨_, (run_single hexit).trans (run_single hstep), rfl, hpop, hwire, by rintro (⟨⟨⟩⟩ | ⟨⟨⟩⟩),
        by rintro (⟨⟨⟩⟩ | ⟨⟨⟩⟩)⟩

theorem simulates (running : Dict String ContainerId) (sequences : Dict String Nat) :
    (machine jobId id run running sequences).Simulates (Agent.machine agentId inbox a₀)
      (Shows c jobId image command id base) := by
  intro s label t a hst h
  have hm := h.main
  change s.step jobId id run label = some t at hst
  unfold step at hst
  split at hst <;> cases hst
  · next hx =>
      rw [hx] at hm
      have hsent : a.step agentId inbox .sent =
          some ((a.emit c (.ack jobId)).goto (.starting c jobId image command)) := by
        rw [Agent.step, Agent.sent, hm]
        rfl
      refine ⟨_, run_single hsent, ?_⟩
      exact ⟨rfl, h.running, h.wire_send rfl, fun _ => h.fresh (.inl hx), by rintro (⟨⟨⟩⟩ | ⟨⟨⟩⟩)⟩
  · next hx =>
      rw [hx] at hm
      have hstart : a.step agentId inbox (.startReturned run.start) =
          some (a.startReturned c jobId image command run.start) := by
        simp only [Agent.step, hm, OnJobCtl.main]
      exact ⟨_, run_single hstart, h.startReturned hx⟩
  · next hx =>
      rw [hx] at hm
      have hsent : a.step agentId inbox .sent =
          some ((a.emit c (.started jobId)).goto (.waiting c jobId id)) := by
        rw [Agent.step, Agent.sent, hm]
        rfl
      refine ⟨_, run_single hsent, ?_⟩
      exact ⟨rfl, h.running, h.wire_send rfl, by rintro (⟨⟨⟩⟩ | ⟨⟨⟩⟩), fun _ => h.container (.inl hx)⟩
  · exact ⟨a, Relation.ReflTransGen.refl, h.stream rfl rfl rfl⟩
  · next chunk rest hx hs =>
      refine ⟨a, Relation.ReflTransGen.refl, ?_⟩
      rw [fetched]
      split
      · exact h.stream rfl rfl rfl
      · exact h.stream rfl rfl rfl
  · next seq text rest hx hs =>
      exact ⟨a, Relation.ReflTransGen.refl, h.stream rfl rfl (by simp [send, AgentFrame.isLog])⟩
  · exact ⟨a, Relation.ReflTransGen.refl, h.stream rfl rfl rfl⟩
  · next hx => exact h.waitReturned hx
  · next r hx =>
      rw [hx] at hm
      have hsent : a.step agentId inbox .sent = some ((a.emit c r.frame).goto (.listening c)) := by
        rw [Agent.step, Agent.sent, hm]
        rfl
      refine ⟨_, run_single hsent, ?_⟩
      exact ⟨rfl, h.running, h.wire_send rfl, by rintro (⟨⟨⟩⟩ | ⟨⟨⟩⟩), by rintro (⟨⟨⟩⟩ | ⟨⟨⟩⟩)⟩

/-- A call of `_on_job` is a run of the agent: whatever its streaming task does, the agent comes to
the same point and sends the same frames, but for the log. -/
theorem agent_runs {running : Dict String ContainerId} {sequences : Dict String Nat}
    (hs : (machine jobId id run running sequences).Reachable s)
    (ha : a.main = .acking c jobId image command) (hrun : a.running = running)
    (hid : a.nextContainer = id) :
    ∃ b, (Agent.machine agentId inbox a).Run (fun _ _ => True) a b ∧
      b.main = s.ctl.main c jobId image command id ∧ b.running = s.running ∧
        b.wire = a.wire ++ (s.sent.filter fun f => !f.isLog).map (Prod.mk c) := by
  have hstart : Shows c jobId image command id a.wire (start running sequences) a :=
    ⟨ha, hrun, (List.append_nil _).symm, fun _ => hid, by rintro (⟨⟨⟩⟩ | ⟨⟨⟩⟩)⟩
  obtain ⟨b, hb, hshows⟩ := (simulates running sequences).run hs hstart
  exact ⟨b, hb, hshows.main, hshows.running, hshows.wire⟩

def acking (jobId image : String) (command : List String) : Agent :=
  { Agent.start with main := .acking 0 jobId image command }

theorem agent_runs_text : ∃ s b, (machine "job_1" 0 textOutput .empty .empty).Reachable s ∧ s.ctl = .returned ∧
    (Agent.machine "agent-1" (fun _ => []) (acking "job_1" "alpine" ["true"])).Run (fun _ _ => True)
      (acking "job_1" "alpine" ["true"]) b ∧
    b.main = .listening 0 ∧ b.wire = [(0, .ack "job_1"), (0, .started "job_1"), (0, .result "job_1" 0 "ok" "" none)] := by
  have hexec : ((machine "job_1" 0 textOutput .empty .empty).exec (fun _ _ => True) (drainedFirst ++ [.resultSent])
      (machine "job_1" 0 textOutput .empty .empty).init).any (fun s => decide
        (s.ctl.ended = some true ∧ s.sent = [.ack "job_1", .started "job_1", .log "job_1" "stdout" 1 "ok",
          .result "job_1" 0 "ok" "" none])) = true := by decide +kernel
  obtain ⟨s, hs, hend, hsent⟩ := Machine.exists_run _ _ hexec
  have hreturned := OnJobCtl.ended_eq.1 hend
  obtain ⟨b, hb, hmain, -, hwire⟩ : ∃ b, (Agent.machine "agent-1" (fun _ => [])
      (acking "job_1" "alpine" ["true"])).Run (fun _ _ => True) (acking "job_1" "alpine" ["true"]) b ∧
      b.main = s.ctl.main 0 "job_1" "alpine" ["true"] 0 ∧ b.running = s.running ∧
      b.wire = [] ++ (s.sent.filter fun f => !f.isLog).map (Prod.mk 0) :=
    agent_runs hs rfl rfl rfl
  rw [hreturned] at hmain
  rw [hsent] at hwire
  exact ⟨s, b, hs, hreturned, hb, hmain, hwire⟩

end Steps

end OnJob

/-- The container of a list, as the agent's model of its daemon has it. Where that lets a call fail or end well,
`inspect` says which. -/
structure Found.Shows (inspect : ContainerId → Inspection) (f : Found) (e : ContainerId × Container) : Prop where
  id : e.1 = f.id
  jobId : e.2.jobId = f.jobId
  running : e.2.status = .running ↔ f.status = "running"
  exited : (∃ x out err, e.2.status = .exited x out err) ↔ f.status = "exited" ∨ f.status = "dead"
  result : ∀ x out err, e.2.status = .exited x out err → ∀ r, (inspect f.id).result = some r → r = (x, out, err)

namespace Reconcile

section Points

variable (inspect : ContainerId → Inspection) (c : ConnId) (a : Agent)

inductive Points : ReconcileCtl → AgentCtl → Prop
  | listing : Points .listing (.listing c)
  | examining {rest es} (h : List.Forall₂ (Found.Shows inspect) rest es) : Points (.examining rest) (.reconciling c es)
  | reattaching {f rest es} (h : List.Forall₂ (Found.Shows inspect) rest es) :
      Points (.reattaching f rest) (.reattaching c f.id f.jobId es)
  | inspecting {f rest es} (h : List.Forall₂ (Found.Shows inspect) rest es)
      (hexit : ∀ r, (inspect f.id).result = some r → a.exitOf f.id = some r) :
      Points (.inspecting f rest) (.inspecting c f.id f.jobId es)
  | reporting {f r rest es} (h : List.Forall₂ (Found.Shows inspect) rest es) :
      Points (.reporting f r rest) (.reportingExited c f.id r es)
  | removing {f rest es} (h : List.Forall₂ (Found.Shows inspect) rest es) :
      Points (.removing f rest) (.removing c f.id es)
  | listening : Points .listening (.listening c)
  | raised : Points .raised .offline

end Points

/-- The agent `a` is in `_reconcile` at `s`, on connection `c` behind the frames `base`. -/
structure Shows (found : Option (List Found)) (inspect : ContainerId → Inspection) (c : ConnId)
    (base : Channel ConnId AgentFrame) (s : Reconcile) (a : Agent) : Prop where
  point : Points inspect c a s.ctl a.main
  running : a.running = s.running
  wire : a.wire = base ++ (s.acted.filterMap Act.frame).map (Prod.mk c)
  listed : s.ctl = .listing → ∀ fs, found = some fs → List.Forall₂ (Found.Shows inspect) fs a.containers.entries
  held : ∀ e ∈ a.main.rest, a.containers.get e.1 = some e.2
  nodup : (s.pending.map Found.id).Nodup

section Simulates

variable {agentId : String} {inbox : ConnId → List ServerFrame} {a a₀ : Agent} {c : ConnId}
  {found : Option (List Found)} {inspect : ContainerId → Inspection} {base : Channel ConnId AgentFrame}
  {s t : Reconcile} {label : ReconcileLabel}

theorem map_id {fs : List Found} {es : List (ContainerId × Container)} (h : List.Forall₂ (Found.Shows inspect) fs es) :
    fs.map Found.id = es.map Prod.fst := by
  induction h with
  | nil => rfl
  | cons hf _ ih => rw [List.map_cons, List.map_cons, ih, hf.id]

theorem wire_act (x : Act) {f : AgentFrame} (hx : x.target.isSome) (hf : x.frame = some f)
    (hwire : a.wire = base ++ (s.acted.filterMap Act.frame).map (Prod.mk c)) :
    a.wire ++ [(c, f)] = base ++ ((s.act x).acted.filterMap Act.frame).map (Prod.mk c) := by
  have hacted : (s.act x).acted = s.acted ++ [x] := by
    refine (acted_append s x).trans ?_
    rw [if_pos hx]
  rw [hacted, List.filterMap_append, List.map_append, hwire, List.append_assoc]
  simp [hf]

theorem Shows.listed_step (h : Shows found inspect c base s a) (hs : s.ctl = .listing)
    (hst : s.step found inspect .listed = some t) :
    ∃ l b, a.step agentId inbox l = some b ∧ Shows found inspect c base t b := by
  obtain ⟨ctl, running, sequences, tasks, log⟩ := s
  cases hs
  obtain ⟨hpoint, hrunning, hwire, hlisted, -, -⟩ := h
  have hm : a.main = .listing c := by
    generalize a.main = x at hpoint
    cases hpoint
    rfl
  cases found with
  | some fs =>
      cases hst
      have hfs := hlisted rfl fs rfl
      have hstep : a.step agentId inbox (.listed true) = some (a.goto (.reconciling c a.containers.entries)) := by
        simp only [Agent.step, hm]
      refine ⟨_, _, hstep, .examining hfs, hrunning, hwire, by rintro ⟨⟩, fun e he => ?_, ?_⟩
      · exact (Dict.lookup_eq_some a.containers.nodup).mpr he
      · change (fs.map Found.id).Nodup
        rw [map_id hfs]
        exact a.containers.nodup
  | none =>
      cases hst
      have hstep : a.step agentId inbox (.listed false) = some (a.listen c) := by simp only [Agent.step, hm]
      exact ⟨_, _, hstep, .listening, hrunning, hwire, by rintro ⟨⟩, fun e he => (by cases he), List.nodup_nil⟩

theorem Shows.examine_step {rest : List Found} (h : Shows found inspect c base s a) (hs : s.ctl = .examining rest)
    (hnodup : ((s.examine rest).pending.map Found.id).Nodup) :
    ∃ l b, a.step agentId inbox l = some b ∧ Shows found inspect c base (s.examine rest) b := by
  obtain ⟨hpoint, hrunning, hwire, -, hheld, -⟩ := h
  rw [hs] at hpoint
  obtain ⟨es, hes, hm⟩ : ∃ es, List.Forall₂ (Found.Shows inspect) rest es ∧ a.main = .reconciling c es := by
    generalize a.main = x at hpoint
    cases hpoint with
    | examining hes => exact ⟨_, hes, rfl⟩
  have hstep : a.step agentId inbox .examine = some (a.reconcile c es) := by simp only [Agent.step, hm]
  rw [hm] at hheld
  refine ⟨_, _, hstep, ?_⟩
  cases hes with
  | nil => exact ⟨.listening, hrunning, hwire, by rintro ⟨⟩, fun e he => (by cases he), hnodup⟩
  | @cons f e rest es hf hes =>
      obtain ⟨id, container⟩ := e
      obtain rfl : id = f.id := hf.id
      have hget : a.containers.get f.id = some container := hheld _ List.mem_cons_self
      have hrest : ∀ e ∈ es, a.containers.get e.1 = some e.2 := fun e he => hheld e (List.mem_cons_of_mem _ he)
      rw [examine] at hnodup ⊢
      rw [Agent.reconcile, hf.jobId]
      by_cases hj : f.jobId = ""
      · rw [if_pos hj] at hnodup ⊢
        rw [if_pos hj]
        exact ⟨.removing hes, hrunning, hwire, by rintro ⟨⟩, hrest, hnodup⟩
      · rw [if_neg hj] at hnodup ⊢
        rw [if_neg hj]
        cases hstatus : container.status with
        | created =>
            have hrun : f.status ≠ "running" := fun hr => (by cases hstatus.symm.trans (hf.running.mpr hr))
            have hexited : ¬ (f.status = "exited" ∨ f.status = "dead") := fun he => by
              obtain ⟨x, out, err, he⟩ := hf.exited.mpr he
              cases hstatus.symm.trans he
            rw [if_neg hrun, if_neg hexited] at hnodup ⊢
            exact ⟨.examining hes, hrunning, hwire, by rintro ⟨⟩, hrest, hnodup⟩
        | running =>
            have hrun := hf.running.mp hstatus
            rw [if_pos hrun] at hnodup ⊢
            exact ⟨.reattaching hes, hrunning, hwire, by rintro ⟨⟩, hrest, hnodup⟩
        | exited x out err =>
            have hexited := hf.exited.mp ⟨x, out, err, hstatus⟩
            have hrun : f.status ≠ "running" := by rcases hexited with h | h <;> rw [h] <;> decide
            rw [if_neg hrun, if_pos hexited] at hnodup ⊢
            refine ⟨.inspecting hes fun r hr => ?_, hrunning, hwire, by rintro ⟨⟩, hrest, hnodup⟩
            obtain ⟨_, _, _, status⟩ := container
            cases hstatus
            rw [hf.result x out err rfl r hr]
            change a.exitOf f.id = _
            rw [Agent.exitOf, hget]

theorem Shows.reconcileSent_step {f : Found} {rest : List Found} (h : Shows found inspect c base s a)
    (hs : s.ctl = .reattaching f rest) (hnodup : ((s.reattach f rest).pending.map Found.id).Nodup) :
    ∃ l b, a.step agentId inbox l = some b ∧ Shows found inspect c base (s.reattach f rest) b := by
  obtain ⟨hpoint, hrunning, hwire, -, hheld, -⟩ := h
  rw [hs] at hpoint
  obtain ⟨es, hes, hm⟩ : ∃ es, List.Forall₂ (Found.Shows inspect) rest es ∧
      a.main = .reattaching c f.id f.jobId es := by
    generalize a.main = x at hpoint
    cases hpoint with
    | reattaching hes => exact ⟨_, hes, rfl⟩
  have hsent : a.step agentId inbox .sent = some { (a.emit c (.reconcile f.jobId "running" none)).goto
      (.reconciling c es) with
        running := a.running.set f.jobId f.id
        reattached := a.reattached ++ [⟨c, f.jobId, f.id, none⟩] } := by
    rw [Agent.step, Agent.sent, hm]
    rfl
  rw [hm] at hheld
  refine ⟨_, _, hsent, .examining hes, ?_, wire_act (.reconciled f.id f.jobId) rfl rfl hwire, by rintro ⟨⟩, hheld, hnodup⟩
  change a.running.set f.jobId f.id = s.running.set f.jobId f.id
  rw [hrunning]

theorem Shows.inspected_step {f : Found} {rest : List Found} (h : Shows found inspect c base s a)
    (hs : s.ctl = .inspecting f rest) (hnodup : ((s.inspected (inspect f.id) f rest).pending.map Found.id).Nodup) :
    ∃ l b, a.step agentId inbox l = some b ∧ Shows found inspect c base (s.inspected (inspect f.id) f rest) b := by
  obtain ⟨hpoint, hrunning, hwire, -, hheld, -⟩ := h
  rw [hs] at hpoint
  obtain ⟨es, hes, hexit, hm⟩ : ∃ es, List.Forall₂ (Found.Shows inspect) rest es ∧
      (∀ r, (inspect f.id).result = some r → a.exitOf f.id = some r) ∧ a.main = .inspecting c f.id f.jobId es := by
    generalize a.main = x at hpoint
    cases hpoint with
    | inspecting hes hexit => exact ⟨_, hes, hexit, rfl⟩
  rw [hm] at hheld
  rw [inspected] at hnodup ⊢
  cases hr : (inspect f.id).result with
  | some r =>
      obtain ⟨x, out, err⟩ := r
      have hinspected : a.step agentId inbox (.inspected true) =
          some (a.goto (.reportingExited c f.id (jobResult f.jobId x out err none) es)) := by
        simp only [Agent.step, hm, hexit _ hr]
        rfl
      rw [hr] at hnodup
      exact ⟨_, _, hinspected, .reporting hes, hrunning, hwire, by rintro ⟨⟩, hheld, hnodup⟩
  | none =>
      have hinspected : a.step agentId inbox (.inspected false) = some a.endSession := by
        simp only [Agent.step, hm]
      exact ⟨_, _, hinspected, .raised, hrunning, hwire, by rintro ⟨⟩, fun e he => (by cases he), List.nodup_nil⟩

theorem Shows.resultSent_step {f : Found} {r : JobResult} {rest : List Found} (h : Shows found inspect c base s a)
    (hs : s.ctl = .reporting f r rest)
    (hnodup : (((s.act (.reported f.id r)).goto (.removing f rest)).pending.map Found.id).Nodup) :
    ∃ l b, a.step agentId inbox l = some b ∧
      Shows found inspect c base ((s.act (.reported f.id r)).goto (.removing f rest)) b := by
  obtain ⟨hpoint, hrunning, hwire, -, hheld, -⟩ := h
  rw [hs] at hpoint
  obtain ⟨es, hes, hm⟩ : ∃ es, List.Forall₂ (Found.Shows inspect) rest es ∧ a.main = .reportingExited c f.id r es := by
    generalize a.main = x at hpoint
    cases hpoint with
    | reporting hes => exact ⟨_, hes, rfl⟩
  have hsent : a.step agentId inbox .sent = some ((a.emit c r.frame).goto (.removing c f.id es)) := by
    rw [Agent.step, Agent.sent, hm]
    rfl
  rw [hm] at hheld
  exact ⟨_, _, hsent, .removing hes, hrunning, wire_act (.reported f.id r) rfl rfl hwire, by rintro ⟨⟩, hheld, hnodup⟩

theorem Shows.removed_step {f : Found} {rest : List Found} (h : Shows found inspect c base s a)
    (hs : s.ctl = .removing f rest)
    (hnodup : (((s.act (.removed f.id)).goto (.examining rest)).pending.map Found.id).Nodup) :
    ∃ l b, a.step agentId inbox l = some b ∧
      Shows found inspect c base ((s.act (.removed f.id)).goto (.examining rest)) b := by
  obtain ⟨hpoint, hrunning, hwire, -, hheld, hpending⟩ := h
  rw [hs] at hpoint
  obtain ⟨es, hes, hm⟩ : ∃ es, List.Forall₂ (Found.Shows inspect) rest es ∧ a.main = .removing c f.id es := by
    generalize a.main = x at hpoint
    cases hpoint with
    | removing hes => exact ⟨_, hes, rfl⟩
  have hremoved : a.step agentId inbox (.removed true) =
      some ((a.removeContainer true f.id).goto (.reconciling c es)) := by
    simp only [Agent.step, hm]
  have hacted : (s.act (.removed f.id)).acted = s.acted ++ [.removed f.id] := acted_append s _
  rw [hm] at hheld
  rw [pending, hs, List.map_cons, List.nodup_cons, map_id hes] at hpending
  refine ⟨_, _, hremoved, .examining hes, hrunning, ?_, by rintro ⟨⟩, fun e he => ?_, hnodup⟩
  · change a.wire = base ++ ((s.act (.removed f.id)).acted.filterMap Act.frame).map (Prod.mk c)
    rw [hacted, List.filterMap_append, hwire]
    simp [Act.frame]
  · change (a.containers.pop f.id).get e.1 = some e.2
    rw [Dict.get_pop, if_neg]
    · exact hheld e he
    · intro hid
      exact hpending.1 (hid ▸ List.mem_map_of_mem he)

variable (agentId inbox) in
theorem Shows.step (h : Shows found inspect c base s a) (hl : label.main = true)
    (hst : s.step found inspect label = some t) :
    ∃ l b, a.step agentId inbox l = some b ∧ Shows found inspect c base t b := by
  have hnodup : label ≠ .listed → (t.pending.map Found.id).Nodup := fun hne =>
    h.nodup.sublist ((pending_step hl hne hst).1.sublist.map _)
  have hstep := hst
  unfold Reconcile.step at hstep
  split at hstep <;> try cases hl
  · next hs => exact h.listed_step hs hst
  · next rest hs =>
      cases hstep
      exact h.examine_step hs (hnodup (by rintro ⟨⟩))
  · next f rest hs =>
      cases hstep
      exact h.reconcileSent_step hs (hnodup (by rintro ⟨⟩))
  · next f rest hs =>
      cases hstep
      exact h.inspected_step hs (hnodup (by rintro ⟨⟩))
  · next f r rest hs =>
      cases hstep
      exact h.resultSent_step hs (hnodup (by rintro ⟨⟩))
  · next f rest hs =>
      cases hstep
      exact h.removed_step hs (hnodup (by rintro ⟨⟩))
  · cases hstep

/-- `_reconcile` with a list of the containers that the agent has is a run of the agent, which comes to the same
point with the same entries and sends the same frames. -/
theorem agent_reconciles {running : Dict String ContainerId} {sequences : Dict String Nat} {tasks : List ReattachTask}
    (ha : a.main = .listing c) (hrunning : a.running = running)
    (hfs : ∀ fs, found = some fs → List.Forall₂ (Found.Shows inspect) fs a.containers.entries)
    (ht : (machine found inspect running sequences tasks).Run (fun _ l => l.main) (start running sequences tasks) t) :
    ∃ b, (Agent.machine agentId inbox a).Run (fun _ _ => True) a b ∧ Points inspect c b t.ctl b.main ∧
      b.running = t.running ∧ b.wire = a.wire ++ (t.acted.filterMap Act.frame).map (Prod.mk c) := by
  have hstart : Shows found inspect c a.wire (start running sequences tasks) a := by
    refine ⟨?_, hrunning, (List.append_nil _).symm, fun _ => hfs, ?_, List.nodup_nil⟩
    · rw [ha]
      exact .listing
    · rw [ha]
      exact fun e he => (by cases he)
  have hsim : ∀ u l v b, ReconcileLabel.main l = true → u.step found inspect l = some v →
      Shows found inspect c a.wire u b →
      ∃ b', (Agent.machine agentId inbox a).Run (fun _ _ => True) b b' ∧ Shows found inspect c a.wire v b' := by
    intro u l v b hl hst hb
    obtain ⟨l', b', hb', hshows⟩ := hb.step agentId inbox hl hst
    exact ⟨b', Machine.Run.single hb', hshows⟩
  obtain ⟨b, hb, hshows⟩ := ht.lift hsim hstart
  exact ⟨b, hb, hshows.point, hshows.running, hshows.wire⟩

def exitedFound : Found := ⟨0, Dict.empty.set "job_id" "job_1", "exited"⟩

def listing : Agent :=
  { Agent.start with
    main := .listing 0
    containers := Dict.empty.set 0 ⟨"job_1", "alpine", ["true"], .exited 0 "" ""⟩
    nextContainer := 1 }

theorem exitedFound_shows : Found.Shows (fun _ => .read (some 0) ⟨#[]⟩ ⟨#[]⟩) exitedFound
    (0, ⟨"job_1", "alpine", ["true"], .exited 0 "" ""⟩) where
  id := rfl
  jobId := by decide
  running := by decide
  exited := ⟨fun _ => .inl rfl, fun _ => ⟨0, "", "", rfl⟩⟩
  result := by
    rintro x out err ⟨⟩ r hr
    have hread : (Inspection.read (some 0) ⟨#[]⟩ ⟨#[]⟩).result = some (0, "", "") := by decide +kernel
    exact Option.some.inj (hr.symm.trans hread)

theorem agent_reconciles_exited : ∃ t b,
    (machine (some [exitedFound]) (fun _ => .read (some 0) ⟨#[]⟩ ⟨#[]⟩) .empty .empty []).Run (fun _ l => l.main)
      (start .empty .empty []) t ∧
    (Agent.machine "agent-1" (fun _ => []) listing).Run (fun _ _ => True) listing b ∧
      b.wire = [(0, .result "job_1" 0 "" "" none)] := by
  obtain ⟨t, ht, hframes⟩ := Machine.exists_run
    (M := machine (some [exitedFound]) (fun _ => .read (some 0) ⟨#[]⟩ ⟨#[]⟩) .empty .empty [])
    (P := fun _ l => l.main = true) (Q := fun t => t.acted.filterMap Act.frame = [.result "job_1" 0 "" "" none])
    [.listed, .examine, .inspected, .resultSent, .removed, .examine] (start .empty .empty []) (by decide +kernel)
  obtain ⟨b, hb, -, -, hwire⟩ : ∃ b, (Agent.machine "agent-1" (fun _ => []) listing).Run (fun _ _ => True) listing b ∧
      Points (fun _ => .read (some 0) ⟨#[]⟩ ⟨#[]⟩) 0 b t.ctl b.main ∧ b.running = t.running ∧
      b.wire = listing.wire ++ (t.acted.filterMap Act.frame).map (Prod.mk 0) :=
    agent_reconciles rfl rfl (by rintro _ ⟨⟩; exact .cons exitedFound_shows .nil) ht
  rw [hframes] at hwire
  exact ⟨t, b, ht, hb, hwire⟩

end Simulates

end Reconcile

end JobSystem
