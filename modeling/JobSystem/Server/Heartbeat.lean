import JobSystem.Server.Attempts
import JobSystem.Server.Sockets
import JobSystem.Server.Supersede

namespace JobSystem

open Lib

def Label.registers (a : String) : Label → Option ConnId
  | .frame c (some (.register b)) => if b = a then some c else none
  | _ => none

def Obs.registers (a : String) : Obs → Option ConnId
  | .registered c b => if b = a then some c else none
  | _ => none

theorem Label.registers_of_quiet {label : Label} (h : label.mayBeQuiet = true) (a : String) :
    label.registers a = none := by
  rw [mayBeQuiet.eq_def] at h
  split at h <;> first | rfl | cases h

namespace AgentRegistry

theorem foldl_unregister_mem {stale : List AgentConnection} {r : AgentRegistry} {conn : AgentConnection}
    (h : conn ∈ stale) : (stale.foldl (fun r conn => r.unregister conn.agentId) r).get conn.agentId = none := by
  rw [Option.eq_none_iff_forall_ne_some]
  intro o ho
  obtain ⟨before, after, rfl⟩ := List.append_of_mem h
  rw [List.foldl_append, List.foldl_cons] at ho
  obtain ⟨-, -, hget⟩ := Server.foldl_unregister after
    ((before.foldl (fun r conn => r.unregister conn.agentId) r).unregister conn.agentId)
  have hgone := hget _ o ho
  rw [get_unregister, if_pos rfl] at hgone
  cases hgone

theorem mem_staleAgents {r : AgentRegistry} {now : Instant} {maxIdle : Int} {conn : AgentConnection}
    (h : conn ∈ r.staleAgents now maxIdle) : ∃ o, r.get conn.agentId = some o ∧ r.conns o = conn := by
  obtain ⟨o, ho, rfl⟩ := List.mem_map.mp (List.mem_filter.mp h).1
  obtain ⟨a, ha⟩ := Dict.mem_values.mp ho
  exact ⟨o, by rw [(r.keyed ha).2]; exact ha, rfl⟩

end AgentRegistry

namespace Server

def lastRegistered (a : String) (s : Server) : Option ConnId := s.history.findSome? (Obs.registers a)

def connOf (a : String) (s : Server) : Option ConnId := (s.agents.get a).map fun o => (s.agents.conns o).ws

/-- The step takes `a` out of the registry: a scan misses its heartbeats, or a handler that is bound
to it ends. -/
def unregisters (cfg : Config) (a : String) (s : Server) : Label → Bool
  | .handlerEnd c => decide (a ≠ "" ∧ s.handlers c = some (some a))
  | .heartbeatScan => (s.agents.staleAgents s.clock cfg.maxIdle).any fun conn => conn.agentId = a
  | _ => false

def noteGone (cfg : Config) (a : String) (s : Server) (label : Label) (_ : Server) (gone : Bool) : Bool :=
  (label.registers a).isNone && (gone || s.unregisters cfg a label)

/-- No scan takes out an agent whose connection is open, and no handler ends that is bound to an
agent with another connection. -/
def sparesLive (cfg : Config) (s : Server) : Label → Bool
  | .handlerEnd c =>
      match s.handlers c with
      | some (some a) => decide (a = "") || (s.agents.get a).all fun o => (s.agents.conns o).ws = c
      | _ => true
  | .heartbeatScan => (s.agents.staleAgents s.clock cfg.maxIdle).all fun conn => !s.sockets conn.ws
  | _ => true

structure Beat (cfg : Config) (a : String) (c : ConnId) (s s' : Server) : Prop where
  isOpen : s.sockets c = true
  bound : s.handlers c = some (some a)
  step : ∃ b, step cfg (.frame c (some (.heartbeat b))) s = some s'

section Steps

variable {cfg : Config} {s s' : Server} {label : Label} {a : String} {c : ConnId}

theorem unregisters_of_quiet (h : label.mayBeQuiet = true) : s.unregisters cfg a label = false := by
  rw [Label.mayBeQuiet.eq_def] at h
  split at h <;> first | rfl | cases h

theorem onConn_iff : OnConn a c s ↔ s.connOf a = some c := Option.map_eq_some_iff.symm

theorem connOf_congr (hget : s'.agents.get a = s.agents.get a)
    (hws : ∀ o, s.agents.get a = some o → (s'.agents.conns o).ws = (s.agents.conns o).ws) :
    s'.connOf a = s.connOf a := by
  rw [connOf, connOf, hget]
  cases ho : s.agents.get a with
  | none => rfl
  | some o => exact congrArg some (hws o ho)

theorem connOf_of_none (h : s.agents.get a = none) : s.connOf a = none := by
  rw [connOf, h]
  rfl

theorem view_connOf (h : View cfg s label s') (a : String) :
    s'.connOf a = (label.registers a).or (if s.unregisters cfg a label then none else s.connOf a) := by
  cases h with
  | registered c b a' =>
      by_cases ha : a' = a
      · subst a'
        simp [connOf, Label.registers, AgentRegistry.get_register, AgentRegistry.conns_register_next]
      · have hr : (Label.frame c (some (.register a'))).registers a = none := if_neg ha
        rw [hr]
        refine connOf_congr ?_ fun o ho => ?_
        · exact (s.agents.get_register a' c s.clock a).trans (if_neg (Ne.symm ha))
        · exact congrArg AgentConnection.ws (s.agents.conns_register_lt (s.agents.get_lt ho))
  | ended c b _ _ hb hf =>
      have hkeep : s.unregisters cfg a (.handlerEnd c) = false := by
        rw [unregisters, decide_eq_false_iff_not]
        rintro ⟨ha, hba⟩
        cases hb.symm.trans hba
        exact ha (by simpa [truthy] using hf)
      rw [hkeep]
      rfl
  | forgot c b _ _ hb hne =>
      by_cases ha : b = a
      · subst b
        have hgone : s.unregisters cfg a (.handlerEnd c) = true := by simp [unregisters, hb, hne]
        rw [hgone]
        exact connOf_of_none ((s.agents.get_unregister a a).trans (if_pos rfl))
      · have hkeep : s.unregisters cfg a (.handlerEnd c) = false := by simp [unregisters, hb, ha]
        rw [hkeep]
        exact connOf_congr ((s.agents.get_unregister b a).trans (if_neg (Ne.symm ha))) fun _ _ => rfl
  | heartbeatScan =>
      obtain ⟨hconns, -, -⟩ := foldl_unregister (s.agents.staleAgents s.clock cfg.maxIdle) s.agents
      cases hstale : s.unregisters cfg a .heartbeatScan with
      | true =>
          obtain ⟨conn, hmem, hid⟩ := List.any_eq_true.mp hstale
          obtain rfl := of_decide_eq_true hid
          exact connOf_of_none (AgentRegistry.foldl_unregister_mem hmem)
      | false =>
          have hne : ∀ conn ∈ s.agents.staleAgents s.clock cfg.maxIdle, conn.agentId ≠ a :=
            fun conn hmem hid => List.any_eq_false.mp hstale conn hmem (decide_eq_true hid)
          exact connOf_congr (foldl_unregister_ne hne) fun o _ => congrArg (fun conns => (conns o).ws) hconns
  | touched | resultFreed | sent | sentUnrecorded => exact connOf_congr (by simp) fun o _ => by simp
  | quiet l events hl hq =>
      rw [Label.registers_of_quiet hq, unregisters_of_quiet hq]
      rfl
  | timedOut _ _ _ _ _ _ _ _ hc | cancelled _ _ _ _ _ _ _ _ hc =>
      rcases hc with ⟨rfl, -⟩ | ⟨_, rfl, -⟩ <;> rfl
  | _ => rfl

theorem findSome?_registers (a : String) (x : Obs) (rest : List Obs) :
    (x :: rest).findSome? (Obs.registers a) = (x.registers a).or (rest.findSome? (Obs.registers a)) := by
  rw [List.findSome?_cons]
  cases x.registers a <;> rfl

theorem view_lastRegistered (h : View cfg s label s') (a : String) :
    s'.lastRegistered a = (label.registers a).or (s.lastRegistered a) := by
  cases h with
  | registered | acked | resultRaised | resultKept | resultFreed | sendBegun | sent | sentUnrecorded =>
      exact findSome?_registers a _ _
  | staleFailed | requeued =>
      rw [lastRegistered]
      dsimp only
      split <;> rfl
  | quiet l events hl hq =>
      rw [Label.registers_of_quiet hq]
      rfl
  | timedOut _ _ _ _ _ _ _ _ hc =>
      rcases hc with ⟨rfl, -⟩ | ⟨_, rfl, -⟩ <;> rfl
  | cancelled _ _ _ _ _ _ _ _ hc =>
      rcases hc with ⟨rfl, -⟩ | ⟨_, rfl, -⟩ <;> exact findSome?_registers a _ _
  | _ => rfl

/-- The registry has for `a` the connection that registered it last, unless it was taken out. -/
theorem connOf_step {gone : Bool} (hI : s.connOf a = if gone then none else s.lastRegistered a)
    (h : View cfg s label s') :
    s'.connOf a = if noteGone cfg a s label s' gone then none else s'.lastRegistered a := by
  rw [view_connOf h, view_lastRegistered h, noteGone, hI]
  cases label.registers a with
  | some c => rfl
  | none => cases gone <;> cases s.unregisters cfg a label <;> rfl

theorem view_registers (h : View cfg s label s') (hr : label.registers a = some c) :
    (s.handlers c).isSome := by
  cases h with
  | registered c' b a' _ _ hb =>
      obtain ⟨-, hc⟩ := Option.ite_none_right_eq_some.mp hr
      cases hc
      rw [hb]
      rfl
  | quiet l events hl hq =>
      rw [Label.registers_of_quiet hq] at hr
      cases hr
  | timedOut _ _ _ _ _ _ _ _ hc | cancelled _ _ _ _ _ _ _ _ hc =>
      rcases hc with ⟨rfl, -⟩ | ⟨_, rfl, -⟩ <;> cases hr
  | _ => cases hr

theorem view_handlerEnd (h : View cfg s (.handlerEnd c) s') : s'.sockets c = false := by
  cases h with
  | ended | forgot => exact Function.update_self _ _ _
  | quiet _ _ _ hq => cases hq
  | timedOut _ _ _ _ _ _ _ _ hc | cancelled _ _ _ _ _ _ _ _ hc => rcases hc with ⟨⟨⟩, -⟩ | ⟨_, ⟨⟩, -⟩

theorem kept_of_sparesLive (hspare : s.sparesLive cfg label = true) (h : View cfg s label s')
    (hc : s.connOf a = some c) (hbefore : s.sockets c = true) (hafter : s'.sockets c = true) :
    s.unregisters cfg a label = false := by
  obtain ⟨o, ho, hws⟩ := Option.map_eq_some_iff.mp hc
  rw [← Bool.not_eq_true]
  intro hun
  cases label with
  | handlerEnd c' =>
      obtain ⟨ha, hb⟩ := of_decide_eq_true hun
      have hown : (s.agents.conns o).ws = c' := by simpa [sparesLive, hb, ho, ha] using hspare
      obtain rfl : c = c' := hws.symm.trans hown
      rw [view_handlerEnd h] at hafter
      cases hafter
  | heartbeatScan =>
      obtain ⟨conn, hmem, hid⟩ := List.any_eq_true.mp hun
      obtain ⟨o', ho', hconn⟩ := AgentRegistry.mem_staleAgents hmem
      rw [of_decide_eq_true hid] at ho'
      cases ho.symm.trans ho'
      have hclosed := List.all_eq_true.mp hspare conn hmem
      rw [← hconn, hws, hbefore] at hclosed
      cases hclosed
  | _ => cases hun

structure Live (s : Server) : Prop where
  known : ∀ a c, s.lastRegistered a = some c → c < s.nextConn
  online : ∀ a c, s.lastRegistered a = some c → s.sockets c = true → s.connOf a = some c

theorem live_step (hL : Live s) (hO : Opened s) (hspare : s.sparesLive cfg label = true)
    (h : View cfg s label s') : Live s' := by
  constructor
  · intro a c hlast
    refine lt_of_lt_of_le ?_ (view_nextConn h)
    rw [view_lastRegistered h] at hlast
    cases hr : label.registers a with
    | some c' =>
        rw [hr] at hlast
        cases hlast
        exact hO.handler c (view_registers h hr)
    | none =>
        rw [hr] at hlast
        exact hL.known a c hlast
  · intro a c hlast hsock
    rw [view_lastRegistered h] at hlast
    rw [view_connOf h]
    cases hr : label.registers a with
    | some c' =>
        rw [hr] at hlast
        exact hlast
    | none =>
        rw [hr] at hlast
        have hbefore : s.sockets c = true :=
          (view_sockets h hsock).resolve_right (ne_of_lt (hL.known a c hlast))
        have hold := hL.online a c hlast hbefore
        rw [kept_of_sparesLive hspare h hold hbefore hsock]
        exact hold

theorem Beat.connOf (h : Beat cfg a c s s') : s'.connOf a = s.connOf a := by
  obtain ⟨b, hst⟩ := h.step
  exact view_connOf (step_view hst) a

end Steps

/-- A live agent is online after its heartbeat, on the connection that registered it last, exactly if
no scan and no end of a handler took it out of the registry since. So it is in every run that spares
the agents whose connection is open, and its pending jobs go to that connection. -/
theorem live_agent_online (cfg : Config) (jobs : JobTable) :
    (∀ a c s s' gone, ((machine cfg jobs).observed false (noteGone cfg a)).Run (fun _ _ => True)
        (start jobs, false) (s, gone) → Beat cfg a c s s' →
      (OnConn a c s' ↔ s.lastRegistered a = some c ∧ gone = false)) ∧
    ∀ a c s s', (machine cfg jobs).Run (fun s l => s.sparesLive cfg l = true) (start jobs) s →
      Beat cfg a c s s' → s.lastRegistered a = some c → OnConn a c s' ∧ DispatchesTo cfg a c s' := by
  constructor
  · intro a c s s' gone hrun hbeat
    have hI := hrun.invariant (I := fun p => p.1.connOf a = if p.2 then none else p.1.lastRegistered a)
      (by
        intro p l q hI _ hst
        obtain ⟨hst, hghost⟩ := Machine.observed_step.mp hst
        rw [hghost]
        exact connOf_step hI (step_view hst)) rfl
    rw [onConn_iff, hbeat.connOf, hI]
    cases gone <;> simp
  · intro a c s s' hrun hbeat hlast
    have hinv := hrun.invariant (I := fun s => Live s ∧ Opened s)
      (by
        rintro u l v ⟨hL, hO⟩ hspare hst
        exact ⟨live_step hL hO hspare (step_view hst), opened_step hO (step_view hst)⟩)
      ⟨⟨nofun, nofun⟩, opened_start jobs⟩
    have hon : OnConn a c s' := onConn_iff.mpr (hbeat.connOf.trans (hinv.1.online a c hlast hbeat.isOpen))
    exact ⟨hon, hon.dispatchesTo⟩

def beatsInTime : List Label :=
  [.connect, .frame 0 (some (.register "agent-1")), .run, .run, .tick ⟨25000000, by decide⟩,
    .frame 0 (some (.heartbeat "agent-1")), .tick ⟨50000000, by decide⟩, .heartbeatScan]

theorem live_agent_online_beats : ∃ s s',
    (machine .default .empty).Run (fun s l => s.sparesLive .default l = true) (start .empty) s ∧
    Beat .default "agent-1" 0 s s' ∧
    (OnConn "agent-1" 0 s' ↔ s.lastRegistered "agent-1" = some 0 ∧ false = false) ∧
    OnConn "agent-1" 0 s' ∧ DispatchesTo .default "agent-1" 0 s' := by
  have hexec : (((machine .default .empty).observed false (noteGone .default "agent-1")).exec
      (fun p l => p.1.sparesLive .default l = true) beatsInTime (start .empty, false)).any
      (fun p => decide (p.2 = false ∧ p.1.sockets 0 = true ∧ p.1.handlers 0 = some (some "agent-1") ∧
        p.1.lastRegistered "agent-1" = some 0 ∧
        (step .default (.frame 0 (some (.heartbeat "agent-1"))) p.1).isSome = true)) = true := by decide +kernel
  obtain ⟨⟨s, gone⟩, hrun, rfl, hopen, hbound, hlast, hst⟩ := Machine.exists_run _ _ hexec
  obtain ⟨s', hst⟩ := Option.isSome_iff_exists.mp hst
  have hbeat : Beat .default "agent-1" 0 s s' := ⟨hopen, hbound, "agent-1", hst⟩
  have hspare := Machine.Run.forget (P := fun s l => sparesLive .default s l = true) hrun
  obtain ⟨hiff, honline⟩ := live_agent_online .default .empty
  exact ⟨s, s', hspare, hbeat, hiff _ _ _ _ _ (hrun.mono fun _ _ _ => trivial) hbeat,
    honline _ _ _ _ hspare hbeat hlast⟩

def beatsLate : List Label :=
  [.connect, .frame 0 (some (.register "agent-1")), .run, .run, .tick ⟨31000000, by decide⟩, .heartbeatScan,
    .submit 0 "job_1" "c1" (.alpine "agent-1" agent_1_ne), .run, .run]

/-- The heartbeat that comes afterwards does not bring the agent back, and its job stays pending. -/
theorem live_agent_online_false : ∃ s s', (machine .default .empty).Reachable s ∧
    Beat .default "agent-1" 0 s s' ∧ s.lastRegistered "agent-1" = some 0 ∧
    s'.agents.isOnline "agent-1" = false ∧ stateOf "job_1" s'.jobs = some .pending ∧
    ¬ OnConn "agent-1" 0 s' := by
  have hexec : ((machine .default .empty).exec (fun _ _ => True) beatsLate (start .empty)).any
      (fun s => decide (s.sockets 0 = true ∧ s.handlers 0 = some (some "agent-1") ∧
        s.lastRegistered "agent-1" = some 0 ∧
        (step .default (.frame 0 (some (.heartbeat "agent-1"))) s).any fun s' =>
          decide (s'.agents.isOnline "agent-1" = false ∧ stateOf "job_1" s'.jobs = some .pending))) = true := by
    decide +kernel
  obtain ⟨s, hrun, hopen, hbound, hlast, hst⟩ := Machine.exists_run _ _ hexec
  obtain ⟨s', hst, hdone⟩ := (Option.any_eq_true _ _).mp hst
  obtain ⟨hoff, hpending⟩ := of_decide_eq_true hdone
  refine ⟨s, s', hrun, ⟨hopen, hbound, "agent-1", hst⟩, hlast, hoff, hpending, fun hon => ?_⟩
  rw [hon.isOnline] at hoff
  cases hoff

end Server

end JobSystem
