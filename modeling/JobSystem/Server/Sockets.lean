import JobSystem.Server.Locks
import JobSystem.Server.Registry

namespace JobSystem

open Lib

def Return.binds : Return → Option ConnId
  | .register c _ => some c
  | .result | .submit _ | .scan _ _ => none

def Ctl.binds : Ctl → Option ConnId
  | .dispatch _ k | .acquiring _ k | .locked _ k | .sending _ _ _ k => k.binds
  | _ => none

theorem Return.next_binds (k : Return) : k.next.bind Ctl.binds = none := by
  cases k <;> rfl

theorem Return.bind_isSome {k : Return} {handlers : ConnId → Option (Option String)} {c : ConnId}
    (h : (k.bind handlers c).isSome) : (handlers c).isSome ∨ k.binds = some c := by
  cases k with
  | register c' a =>
      by_cases hc : c = c'
      · exact .inr (by rw [hc]; rfl)
      · rw [Return.bind, Function.update_of_ne hc] at h
        exact .inl h
  | _ => exact .inl h

namespace Server

variable {cfg : Config} {s s' : Server} {label : Label}

/-- A connection id that has not been given out yet is in use nowhere. -/
structure Opened (s : Server) : Prop where
  handler : ∀ c, (s.handlers c).isSome → c < s.nextConn
  binds : ∀ co c, (s.ctl co).bind Ctl.binds = some c → co = .handler c ∧ (s.handlers c).isSome
  entry : ∀ o, o < s.agents.next → (s.agents.conns o).ws < s.nextConn
  outbox : ∀ c, s.nextConn ≤ c → s.outbox c = []

theorem view_nextConn (h : View cfg s label s') : s.nextConn ≤ s'.nextConn := by
  cases h with
  | connect => exact Nat.le_succ _
  | _ => exact le_rfl

theorem view_connect (h : View cfg s .connect s') :
    s'.nextConn = s.nextConn + 1 ∧ s'.jobs = s.jobs ∧ s'.ctl = s.ctl ∧ s'.outbox = s.outbox := by
  cases h with
  | quiet _ _ _ hq => cases hq
  | connect => exact ⟨rfl, rfl, rfl, rfl⟩
  | timedOut _ _ _ _ _ _ _ _ hc | cancelled _ _ _ _ _ _ _ _ hc => rcases hc with ⟨⟨⟩, _⟩ | ⟨_, ⟨⟩, _⟩

theorem view_sockets (h : View cfg s label s') {c : ConnId} (hc : s'.sockets c = true) :
    s.sockets c = true ∨ c = s.nextConn := by
  cases h with
  | connect =>
      dsimp only at hc
      by_cases he : c = s.nextConn
      · exact .inr he
      · exact .inl (by rwa [Function.update_of_ne he] at hc)
  | drop c' | ended c' | forgot c' =>
      dsimp only at hc
      by_cases he : c = c'
      · subst c'
        rw [Function.update_self] at hc
        cases hc
      · exact .inl (by rwa [Function.update_of_ne he] at hc)
  | _ => exact .inl hc

theorem view_handlers (h : View cfg s label s') {c : ConnId} (hc : (s'.handlers c).isSome) :
    (s.handlers c).isSome ∨ (c = s.nextConn ∧ s'.nextConn = c + 1) ∨
      ∃ co, (s.ctl co).bind Ctl.binds = some c := by
  cases h with
  | connect =>
      dsimp only at hc
      by_cases he : c = s.nextConn
      · exact .inr (.inl ⟨he, by rw [he]⟩)
      · exact .inl (by rwa [Function.update_of_ne he] at hc)
  | ended c' | forgot c' =>
      dsimp only at hc
      by_cases he : c = c'
      · subst c'
        rw [Function.update_self] at hc
        cases hc
      · exact .inl (by rwa [Function.update_of_ne he] at hc)
  | left co l k _ hu | sent co l o job k _ _ hu | sendClosed co l o job k _ hu =>
      rcases Return.bind_isSome hc with hs | hb
      · exact .inl hs
      · exact .inr (.inr ⟨co, by rw [hu]; exact hb⟩)
  | _ => exact .inl hc

theorem view_handlers_end (h : View cfg s label s') {c : ConnId} (hc : (s.handlers c).isSome) :
    (s'.handlers c).isSome ∨ label = .handlerEnd c := by
  have hbind : ∀ k : Return, (k.bind s.handlers c).isSome := by
    intro k
    cases k with
    | register c' a =>
        by_cases he : c = c'
        · subst c'
          rw [Return.bind, Function.update_self]
          rfl
        · rw [Return.bind, Function.update_of_ne he]
          exact hc
    | _ => exact hc
  cases h with
  | connect =>
      left
      by_cases he : c = s.nextConn
      · subst c
        dsimp only
        rw [Function.update_self]
        rfl
      · dsimp only
        rw [Function.update_of_ne he]
        exact hc
  | ended c' | forgot c' =>
      by_cases he : c = c'
      · exact .inr (by rw [he])
      · left
        dsimp only
        rw [Function.update_of_ne he]
        exact hc
  | left _ _ k | sent _ _ _ _ k | sendClosed _ _ _ _ k => exact .inl (hbind k)
  | _ => exact .inl hc

theorem view_handlers_busy (h : View cfg s label s') {c : ConnId} (hc : (s.handlers c).isSome)
    (hbusy : (s.ctl (.handler c)).isSome) : (s'.handlers c).isSome := by
  rcases view_handlers_end h hc with hs | rfl
  · exact hs
  · cases h with
    | ended _ _ _ hn | forgot _ _ _ hn =>
        rw [hn] at hbusy
        cases hbusy
    | quiet _ _ _ hq => cases hq
    | timedOut _ _ _ _ _ _ _ _ hc | cancelled _ _ _ _ _ _ _ _ hc => rcases hc with ⟨⟨⟩, _⟩ | ⟨_, ⟨⟩, _⟩

theorem view_binds (h : View cfg s label s') {co : Coro} {c : ConnId}
    (hc : (s'.ctl co).bind Ctl.binds = some c) :
    (s.ctl co).bind Ctl.binds = some c ∨
      (co = .handler c ∧ (s.handlers c).isSome ∧ s'.handlers = s.handlers) := by
  cases h with
  | registered c' b a _ _ hb =>
      dsimp only at hc
      rw [update_bind] at hc
      split at hc
      · next hco =>
          cases hc
          exact .inr ⟨hco, by rw [hb]; rfl, rfl⟩
      · exact .inl hc
  | resultFreed | submitted | cancelBegun | ackScan | timeoutScan | sentUnrecorded | scanEnded | scanSkipped
    | staleFailed | requeued | cancelSending | timedOut | cancelled =>
        exact .inl (bind_of_update hc (.inl rfl))
  | timeoutMoved _ y _ _ _ _ hy =>
      refine .inl (bind_of_update hc (.inl ?_))
      rcases hy with ⟨rfl, _⟩ | ⟨_, ⟨_, _, rfl⟩ | ⟨_, _, _, rfl⟩⟩ <;> rfl
  | woken _ _ _ _ _ hu | sendBegun _ _ _ _ _ _ hu =>
      exact .inl (bind_of_update hc (.inr (by rw [hu]; rfl)))
  | entered _ _ _ _ hu | queued _ _ _ _ hu => exact .inl (bind_of_update hc (.inr (by rw [hu]; rfl)))
  | left _ _ k | sent _ _ _ _ k | sendClosed _ _ _ _ k =>
      exact .inl (bind_of_update hc (.inl k.next_binds))
  | _ => exact .inl hc

theorem view_conn (h : View cfg s label s') {o : ObjId} (ho : o < s.agents.next) :
    o < s'.agents.next ∧ (s'.agents.conns o).ws = (s.agents.conns o).ws ∧
      (s'.agents.conns o).agentId = (s.agents.conns o).agentId ∧
      ((s'.agents.conns o).inFlight ≤ (s.agents.conns o).inFlight ∨
        ∃ co l job k out, label = .sendReturned co out ∧ s.ctl co = some (.sending l o job k)) := by
  have hbusy :
      ∀ {co l o' job k out}, label = .sendReturned co out → s.ctl co = some (.sending l o' job k) →
      s'.agents = s.agents.markBusy o' → o < s'.agents.next ∧
      (s'.agents.conns o).ws = (s.agents.conns o).ws ∧
      (s'.agents.conns o).agentId = (s.agents.conns o).agentId ∧
      ((s'.agents.conns o).inFlight ≤ (s.agents.conns o).inFlight ∨
        ∃ co l job k out, label = .sendReturned co out ∧ s.ctl co = some (.sending l o job k)) := by
    intro co l o' job k out hlabel hc hag
    rw [hag, AgentRegistry.conns_markBusy]
    split
    · next he =>
        subst o'
        exact ⟨ho, rfl, rfl, .inr ⟨co, l, job, k, out, hlabel, hc⟩⟩
    · exact ⟨ho, rfl, rfl, .inl le_rfl⟩
  cases h with
  | registered c b a =>
      refine ⟨Nat.lt_succ_of_lt ho, ?_⟩
      dsimp only
      rw [s.agents.conns_register_lt ho]
      exact ⟨rfl, rfl, .inl le_rfl⟩
  | heartbeatScan =>
      obtain ⟨hc, hn, _⟩ := foldl_unregister (s.agents.staleAgents s.clock cfg.maxIdle) s.agents
      refine ⟨by rw [heartbeatScan, hn]; exact ho, ?_⟩
      rw [heartbeatScan, hc]
      exact ⟨rfl, rfl, .inl le_rfl⟩
  | touched c a b =>
      refine ⟨by simpa using ho, ?_⟩
      dsimp only
      rcases s.agents.conns_touch a s.clock o with he | he <;> rw [he] <;> exact ⟨rfl, rfl, .inl le_rfl⟩
  | resultFreed c a j x out e err =>
      refine ⟨by simpa using ho, ?_⟩
      dsimp only
      rw [conns_freeSlot]
      split
      · exact ⟨rfl, rfl, .inl (Nat.sub_le _ _)⟩
      · exact ⟨rfl, rfl, .inl le_rfl⟩
  | sent co l o' job k _ _ hc => exact hbusy rfl hc rfl
  | sentUnrecorded co l o' job k out _ hc => exact hbusy rfl hc rfl
  | _ => exact ⟨ho, rfl, rfl, .inl le_rfl⟩

theorem view_made (h : View cfg s label s') {o : ObjId} (ho : o < s'.agents.next) :
    o < s.agents.next ∨ ∃ c, (s.handlers c).isSome ∧ (s'.agents.conns o).ws = c := by
  cases h with
  | registered c b a _ _ hb =>
      rcases Nat.lt_succ_iff_lt_or_eq.mp ho with hlt | rfl
      · exact .inl hlt
      · exact .inr ⟨c, by rw [hb]; rfl, by dsimp only; rw [AgentRegistry.conns_register_next]⟩
  | heartbeatScan =>
      obtain ⟨_, hn, _⟩ := foldl_unregister (s.agents.staleAgents s.clock cfg.maxIdle) s.agents
      rw [heartbeatScan, hn] at ho
      exact .inl ho
  | touched | resultFreed => exact .inl (by simpa using ho)
  | _ => exact .inl ho

theorem opened_step (hO : Opened s) (h : View cfg s label s') : Opened s' := by
  have hle := view_nextConn h
  constructor
  · intro c hc
    rcases view_handlers h hc with hs | ⟨rfl, hn⟩ | ⟨co, hb⟩
    · exact lt_of_lt_of_le (hO.handler c hs) hle
    · rw [hn]
      exact Nat.lt_succ_self _
    · exact lt_of_lt_of_le (hO.handler c (hO.binds co c hb).2) hle
  · intro co c hc
    rcases view_binds h hc with hb | ⟨rfl, hs, he⟩
    · obtain ⟨rfl, hs⟩ := hO.binds co c hb
      refine ⟨rfl, view_handlers_busy h hs ?_⟩
      obtain ⟨x, hx, _⟩ := Option.bind_eq_some_iff.mp hb
      rw [hx]
      rfl
    · exact ⟨rfl, by rwa [he]⟩
  · intro o ho
    rcases view_made h ho with hlt | ⟨c, hs, rfl⟩
    · rw [(view_conn h hlt).2.1]
      exact lt_of_lt_of_le (hO.entry o hlt) hle
    · exact lt_of_lt_of_le (hO.handler _ hs) hle
  · intro c hc
    rcases view_outbox h c with he | ⟨a, o, f, _, ho, rfl, _⟩
    · rw [he]
      exact hO.outbox c (hle.trans hc)
    · exact absurd (hO.entry o (s.agents.get_lt ho)) (not_lt.mpr (hle.trans hc))

theorem opened_start (jobs : JobTable) : Opened (start jobs) where
  handler c hc := by simp [start] at hc
  binds co c hc := by simp [start] at hc
  entry o ho := absurd ho (Nat.not_lt_zero o)
  outbox _ _ := rfl

theorem Opened.handlers_old (hO : Opened s) (h : View cfg s label s') {c : ConnId} (hc : c < s.nextConn)
    (hs : (s'.handlers c).isSome) : (s.handlers c).isSome := by
  rcases view_handlers h hs with hs | ⟨rfl, _⟩ | ⟨co, hb⟩
  · exact hs
  · exact absurd hc (Nat.lt_irrefl _)
  · exact (hO.binds co c hb).2

end Server

end JobSystem
