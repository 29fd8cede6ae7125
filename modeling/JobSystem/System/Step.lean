import JobSystem.Agent.View
import JobSystem.Server.Dispatch
import JobSystem.Server.Sockets

namespace JobSystem

open Lib

/-- The server process together with the machine of one agent. -/
structure System where
  server : Server
  agent : Agent

/-- A step of the server alone, a new session of the agent, the arrival of the
agent's next frame on a connection, or a step of the agent. -/
inductive SystemLabel
  | server (l : Label)
  | connect
  | deliver (c : ConnId)
  | agent (l : AgentLabel)

def Label.isOwn : Label → Bool
  | .connect | .frame _ _ => false
  | _ => true

namespace System

def start (jobs : JobTable) : System := ⟨.start jobs, .start⟩

def step (cfg : Config) (agentId : String) (label : SystemLabel) (s : System) : Option System :=
  match label with
  | .server l => if l.isOwn then (s.server.step cfg l).map fun t => { s with server := t } else none
  | .connect =>
      match s.agent.main with
      | .offline => (s.server.step cfg .connect).map fun t =>
          ⟨t, { s.agent with main := .registering s.server.nextConn, read := 0 }⟩
      | _ => none
  | .deliver c => (s.agent.wire.receive c).bind fun (f, wire) =>
      (s.server.step cfg (.frame c (some f))).map fun t => ⟨t, { s.agent with wire := wire }⟩
  | .agent l => (s.agent.step agentId s.server.outbox l).map fun a => { s with agent := a }

def machine (cfg : Config) (agentId : String) (jobs : JobTable) : Machine System SystemLabel :=
  ⟨start jobs, step cfg agentId⟩

end System

/-- What one step does to the two sides. -/
inductive SystemView (cfg : Config) (agentId : String) (s : System) : SystemLabel → System → Prop
  | server (l t) (ho : l.isOwn = true) (h : Server.View cfg s.server l t) :
      SystemView cfg agentId s (.server l) { s with server := t }
  | connect (t) (hm : s.agent.main = .offline) (h : Server.View cfg s.server .connect t) :
      SystemView cfg agentId s .connect
        ⟨t, { s.agent with main := .registering s.server.nextConn, read := 0 }⟩
  | deliver (c f wire t) (hr : s.agent.wire.receive c = some (f, wire))
      (h : Server.View cfg s.server (.frame c (some f)) t) :
      SystemView cfg agentId s (.deliver c) ⟨t, { s.agent with wire := wire }⟩
  | agent (l a) (h : Agent.Flow agentId s.server.outbox l s.agent a.main a.read a.started a.wire) :
      SystemView cfg agentId s (.agent l) { s with agent := a }

namespace System

variable {cfg : Config} {agentId : String} {s s' : System} {label : SystemLabel}

theorem step_view (h : step cfg agentId label s = some s') : SystemView cfg agentId s label s' := by
  cases label with
  | server l =>
      obtain ⟨ho, h⟩ := Option.ite_none_right_eq_some.mp h
      obtain ⟨t, ht, rfl⟩ := Option.map_eq_some_iff.mp h
      exact .server l t ho (Server.step_view ht)
  | connect =>
      simp only [step] at h
      split at h
      · next hm =>
          obtain ⟨t, ht, rfl⟩ := Option.map_eq_some_iff.mp h
          exact .connect t hm (Server.step_view ht)
      · cases h
  | deliver c =>
      obtain ⟨⟨f, wire⟩, hr, h⟩ := Option.bind_eq_some_iff.mp h
      obtain ⟨t, ht, rfl⟩ := Option.map_eq_some_iff.mp h
      exact .deliver c f wire t hr (Server.step_view ht)
  | agent l =>
      obtain ⟨a, ha, rfl⟩ := Option.map_eq_some_iff.mp h
      exact .agent l a (Agent.step_flow ha)

def lockSafe (s : System) : SystemLabel → Bool
  | .server l => s.server.lockSafe l
  | _ => true

/-- The server's own invariants, and that every agent id it has met is the agent's. -/
structure Paired (agentId : String) (s : System) : Prop where
  locked : Locked s.server.dispatchLocks s.server.ctl
  kept : Kept s.server.dispatchLocks s.server.ctl
  opened : s.server.Opened
  own : ∀ a o, s.server.agents.get a = some o → a = agentId
  sender : ∀ co l o job k, s.server.ctl co = some (.sending l o job k) → l.agentId = agentId
  names : ∀ c a, (c, .register a) ∈ s.agent.wire → a = agentId
  session : ∀ c, s.agent.main.session = some c → c < s.server.nextConn
  told : ∀ c j, (c, .started j) ∈ s.agent.wire → c < s.server.nextConn

theorem view_server (h : SystemView cfg agentId s label s') :
    s'.server = s.server ∨ ∃ l, Server.View cfg s.server l s'.server ∧
      (l.isOwn = true ∧ label = .server l ∨ l = .connect ∧ label = .connect ∨
        ∃ c f, l = .frame c (some f) ∧ label = .deliver c ∧ (c, f) ∈ s.agent.wire) := by
  cases h with
  | server l t ho h => exact .inr ⟨l, h, .inl ⟨ho, rfl⟩⟩
  | connect t _ h => exact .inr ⟨_, h, .inr (.inl ⟨rfl, rfl⟩)⟩
  | deliver c f wire t hr h => exact .inr ⟨_, h, .inr (.inr ⟨c, f, rfl, rfl, Channel.mem_of_receive hr⟩)⟩
  | agent => exact .inl rfl

theorem view_own (h : SystemView cfg agentId s label s') :
    s'.server = s.server ∨
      ∃ l, Server.View cfg s.server l s'.server ∧ (l.isOwn = true → label = .server l) := by
  rcases view_server h with he | ⟨l, hv, ⟨_, hl⟩ | ⟨rfl, _⟩ | ⟨_, _, rfl, _⟩⟩
  · exact .inl he
  · exact .inr ⟨l, hv, fun _ => hl⟩
  · exact .inr ⟨_, hv, nofun⟩
  · exact .inr ⟨_, hv, nofun⟩

theorem view_nextConn (h : SystemView cfg agentId s label s') :
    s.server.nextConn ≤ s'.server.nextConn := by
  rcases view_server h with he | ⟨l, hv, _⟩
  · rw [he]
  · exact Server.view_nextConn hv

theorem Paired.own_step (hP : Paired agentId s) (h : SystemView cfg agentId s label s') {a : String}
    {o : ObjId} (ho : s'.server.agents.get a = some o) : a = agentId := by
  rcases view_server h with he | ⟨l, hv, hl⟩
  · rw [he] at ho
    exact hP.own a o ho
  · rcases Server.view_entry hv ho with ⟨ho', _⟩ | ⟨c, rfl, _⟩
    · exact hP.own a o ho'
    · rcases hl with ⟨hown, _⟩ | ⟨he, _⟩ | ⟨c', f, he, _, hm⟩
      · cases hown
      · cases he
      · cases he
        exact hP.names c a hm

theorem Paired.sender_step (hP : Paired agentId s) (h : SystemView cfg agentId s label s')
    {co : Coro} {l : LockRef} {o : ObjId} {job : Job} {k : Return}
    (hc : s'.server.ctl co = some (.sending l o job k)) : l.agentId = agentId := by
  rcases view_server h with he | ⟨_, hv, _⟩
  · rw [he] at hc
    exact hP.sender co l o job k hc
  · rcases Server.view_sending hv hc with hc' | hbegun
    · exact hP.sender co l o job k hc'
    · exact hP.own _ o hbegun.entry

theorem Paired.names_step (hP : Paired agentId s) (h : SystemView cfg agentId s label s')
    {c : ConnId} {a : String} (hm : (c, .register a) ∈ s'.agent.wire) : a = agentId := by
  cases h with
  | server | connect => exact hP.names c a hm
  | deliver c' f wire t hr => exact hP.names c a (Channel.receive_subset hr hm)
  | agent l b hf =>
      rcases hf.sends hm with hm' | hplain | ⟨_, _, _, _, he⟩
      · exact hP.names c a hm'
      · exact of_decide_eq_true hplain
      · cases he

theorem Paired.session_step (hP : Paired agentId s) (h : SystemView cfg agentId s label s') {c : ConnId}
    (hc : s'.agent.main.session = some c) : c < s'.server.nextConn := by
  have hnext := view_nextConn h
  cases h with
  | server | deliver => exact lt_of_lt_of_le (hP.session c hc) hnext
  | connect t hm hv =>
      cases hc
      rw [(Server.view_connect hv).1]
      exact Nat.lt_succ_self _
  | agent l b hf =>
      rcases hf.session with hs | hs
      · rw [hs] at hc
        cases hc
      · rw [hs] at hc
        exact hP.session c hc

theorem Paired.told_step (hP : Paired agentId s) (h : SystemView cfg agentId s label s')
    {c : ConnId} {j : String} (hm : (c, .started j) ∈ s'.agent.wire) : c < s'.server.nextConn := by
  have hnext := view_nextConn h
  cases h with
  | server | connect => exact lt_of_lt_of_le (hP.told c j hm) hnext
  | deliver c' f wire t hr => exact lt_of_lt_of_le (hP.told c j (Channel.receive_subset hr hm)) hnext
  | agent l b hf =>
      rcases hf.sends hm with hm' | hplain | ⟨c', j', id, hmain, he⟩
      · exact lt_of_lt_of_le (hP.told c j hm') hnext
      · cases hplain
      · cases he
        exact hP.session c (by rw [hmain]; rfl)

theorem paired_step (hP : Paired agentId s) (hsafe : s.lockSafe label = true)
    (h : SystemView cfg agentId s label s') : Paired agentId s' where
  locked := by
    rcases view_server h with he | ⟨_, hv, _⟩
    · rw [he]
      exact hP.locked
    · exact Server.locked_step hP.locked hv
  kept := by
    rcases view_server h with he | ⟨l, hv, hl⟩
    · rw [he]
      exact hP.kept
    · apply Server.kept_step hP.kept hP.locked ?_ hv
      rcases hl with ⟨_, rfl⟩ | ⟨rfl, _⟩ | ⟨_, _, rfl, _⟩
      · exact hsafe
      · rfl
      · rfl
  opened := by
    rcases view_server h with he | ⟨_, hv, _⟩
    · rw [he]
      exact hP.opened
    · exact Server.opened_step hP.opened hv
  own _ _ ho := hP.own_step h ho
  sender _ _ _ _ _ hc := hP.sender_step h hc
  names _ _ hm := hP.names_step h hm
  session _ hc := hP.session_step h hc
  told _ _ hm := hP.told_step h hm

theorem paired_start (agentId : String) (jobs : JobTable) : Paired agentId (start jobs) where
  locked := Server.locked_start jobs
  kept := Server.kept_start jobs
  opened := Server.opened_start jobs
  own a o ho := by simp [start, Server.start, AgentRegistry.get, AgentRegistry.empty] at ho
  sender co l o job k hc := by simp [start, Server.start] at hc
  names c a hm := by simp [start, Agent.start] at hm
  session c hc := by cases hc
  told c j hm := by simp [start, Agent.start] at hm

end System

end JobSystem
