import JobSystem.Server.Locks
import JobSystem.Server.Tasks
import Mathlib.Algebra.BigOperators.Group.Finset.Basic
import Mathlib.Algebra.Order.BigOperators.Group.Finset

namespace JobSystem

open Lib

def Label.isTask : Label → Bool
  | .wake _ | .sendReturned _ _ | .run => true
  | _ => false

/-- What is left of a scan after its call of `dispatch_pending`. A job takes up to five steps. -/
def Return.work : Return → Nat
  | .register _ _ | .result | .submit _ => 0
  | .scan _ rest => 5 * rest.length + 1

def CancelReturn.work : CancelReturn → Nat
  | .user _ => 0
  | .fire _ rest => 3 * rest.length + 1

def Ctl.work : Ctl → Nat
  | .dispatch _ k => k.work + 4
  | .acquiring _ k => k.work + 3
  | .locked _ k => k.work + 2
  | .sending _ _ _ k => k.work + 1
  | .scanAck _ jobs => 5 * jobs.length + 1
  | .scanTimeout _ jobs => 3 * jobs.length + 1
  | .sendCancel _ k => k.work + 2
  | .sendingCancel _ k => k.work + 1

def Ctl.runs : Ctl → Bool
  | .dispatch _ _ | .locked _ _ | .scanAck _ _ | .scanTimeout _ _ | .sendCancel _ _ => true
  | .acquiring _ _ | .sending _ _ _ _ | .sendingCancel _ _ => false

def Ctl.sends : Ctl → Bool
  | .sending _ _ _ _ | .sendingCancel _ _ => true
  | _ => false

theorem Return.next_work (k : Return) : k.next.elim 0 Ctl.work = k.work := by cases k <;> rfl

theorem Return.next_runs (co : Coro) (k : Return) :
    k.running co = if k.next.any Ctl.runs then some co else none := by cases k <;> rfl

namespace Server

structure Quiet (s : Server) : Prop where
  loop : s.loop = none
  ctl : ∀ co, s.ctl co = none
  locks : ∀ l, (s.dispatchLocks.mutexes l).free = true

/-- The task on the loop is the one that does not stand at a suspension point. -/
structure Scheduled (s : Server) : Prop where
  loop : ∀ co, s.loop = some co → (s.ctl co).any Ctl.runs = true
  runs : ∀ co x, s.ctl co = some x → x.runs = true → s.loop = some co

structure Moves (s s' : Server) (label : Label) (co : Coro) (x : Option Ctl) : Prop where
  ctl : s'.ctl = Function.update s.ctl co x
  before : s.loop = none ∨ s.loop = some co
  after : s'.loop = if x.any Ctl.runs then some co else none
  work : label.isTask = true → x.elim 0 Ctl.work < (s.ctl co).elim 0 Ctl.work

variable {cfg : Config} {s s' : Server} {label : Label}

theorem step_scanTimeout {now : Instant} {jobs : List Job} (hl : s.loop = some .timeoutWatcher)
    (hc : s.ctl .timeoutWatcher = some (.scanTimeout now jobs)) (h : step cfg .run s = some s') :
    ∃ x, Moves s s' .run .timeoutWatcher x := by
  have hs : s' = s.scanTimeout now jobs := by simpa [step, hl, hc, runPiece] using h.symm
  subst hs
  cases jobs with
  | nil => exact ⟨none, rfl, .inr hl, rfl, fun _ => by simp [hc, Ctl.work]⟩
  | cons job rest =>
      rw [scanTimeout]
      split
      · refine ⟨some (.sendCancel job (.fire now rest)), rfl, .inr hl, rfl, fun _ => ?_⟩
        simp only [hc, Option.elim, Ctl.work, CancelReturn.work, List.length_cons]
        omega
      · refine ⟨some (.scanTimeout now rest), rfl, .inr hl, rfl, fun _ => ?_⟩
        simp only [hc, Option.elim, Ctl.work, List.length_cons]
        omega

/-- At most one task moves in a step, and it comes nearer to its end when the step is one of its own. -/
theorem step_moves (h : step cfg label s = some s') :
    (s'.ctl = s.ctl ∧ s'.loop = s.loop ∧ label.isTask = false) ∨ ∃ co x, Moves s s' label co x := by
  cases step_view h with
  | quiet _ _ _ hq =>
      refine .inl ⟨rfl, rfl, ?_⟩
      cases label <;> first | rfl | cases hq
  | tick | connect | drop | ended | forgot | acked | touched | started | resultRaised | resultKept
    | heartbeatScan => exact .inl ⟨rfl, rfl, rfl⟩
  | registered _ _ _ hl | resultFreed _ _ _ _ _ _ _ _ hl | submitted _ _ _ _ _ _ hl
    | cancelBegun _ _ _ hl | ackScan hl | timeoutScan hl =>
      exact .inr ⟨_, _, rfl, .inl hl, rfl, by rintro ⟨⟩⟩
  | woken co l k m hl hc => exact .inr ⟨co, _, rfl, .inl hl, rfl, fun _ => by simp [hc, Ctl.work]⟩
  | entered co a k hl hc | queued co a k hl hc =>
      exact .inr ⟨co, _, rfl, .inr hl, rfl, fun _ => by simp [hc, Ctl.work]⟩
  | left co l k hl hc =>
      refine .inr ⟨co, k.next, rfl, .inr hl, k.next_runs co, fun _ => ?_⟩
      rw [k.next_work, hc]
      exact Nat.lt_add_of_pos_right (by omega)
  | sendBegun co l k o job hl hc => exact .inr ⟨co, _, rfl, .inr hl, rfl, fun _ => by simp [hc, Ctl.work]⟩
  | sent co l o job k _ hl hc | sendClosed co l o job k hl hc =>
      refine .inr ⟨co, k.next, rfl, .inl hl, k.next_runs co, fun _ => ?_⟩
      rw [k.next_work, hc]
      exact Nat.lt_succ_self _
  | sentUnrecorded co l o job k _ hl hc => exact .inr ⟨co, none, rfl, .inl hl, rfl, fun _ => by simp [hc, Ctl.work]⟩
  | scanEnded now jobs hl hc => exact .inr ⟨.ackWatcher, none, rfl, .inr hl, rfl, fun _ => by simp [hc, Ctl.work]⟩
  | scanSkipped now job rest hl hc | staleFailed now job rest _ _ hl hc =>
      refine .inr ⟨.ackWatcher, _, rfl, .inr hl, rfl, fun _ => ?_⟩
      simp only [hc, Option.elim, Ctl.work, List.length_cons]
      omega
  | requeued now job rest _ hl hc =>
      refine .inr ⟨.ackWatcher, _, rfl, .inr hl, rfl, fun _ => ?_⟩
      simp only [hc, Option.elim, Ctl.work, Return.work, List.length_cons]
      omega
  | timeoutMoved x y loop hl hc hx =>
      -- the view does not say which job the scan moves to
      obtain ⟨now, jobs, rfl⟩ := hx
      exact .inr ⟨_, step_scanTimeout hl hc h⟩
  | cancelSending co job k o hl hc => exact .inr ⟨co, _, rfl, .inr hl, rfl, fun _ => by simp [hc, Ctl.work]⟩
  | timedOut _ co job now rest x _ hx hc =>
      rcases hc with ⟨_, hl, rfl⟩ | ⟨_, _, hl, rfl⟩
      · exact .inr ⟨co, _, rfl, .inr hl, rfl, fun _ => by simp [hx, Ctl.work, CancelReturn.work]⟩
      · exact .inr ⟨co, _, rfl, .inl hl, rfl, fun _ => by simp [hx, Ctl.work, CancelReturn.work]⟩
  | cancelled _ co job n x _ _ hx hc =>
      rcases hc with ⟨_, hl, rfl⟩ | ⟨_, _, hl, rfl⟩
      · exact .inr ⟨co, none, rfl, .inr hl, rfl, fun _ => by simp [hx, Ctl.work]⟩
      · exact .inr ⟨co, none, rfl, .inl hl, rfl, fun _ => by simp [hx, Ctl.work]⟩

theorem scheduled_step (hS : Scheduled s) (h : step cfg label s = some s') : Scheduled s' := by
  rcases step_moves h with ⟨hctl, hloop, -⟩ | ⟨co, x, hm⟩
  · constructor
    · rw [hctl, hloop]
      exact hS.loop
    · rw [hctl, hloop]
      exact hS.runs
  · constructor
    · intro u hu
      rw [hm.after] at hu
      obtain ⟨hx, hco⟩ := Option.ite_none_right_eq_some.mp hu
      cases hco
      rw [hm.ctl, Function.update_self]
      exact hx
    · intro u y hu hy
      rw [hm.ctl] at hu
      rcases update_some hu with ⟨rfl, rfl⟩ | ⟨hne, hold⟩
      · exact hm.after.trans (if_pos hy)
      · -- the task that was on the loop is the one that has moved
        have hlu := hS.runs u y hold hy
        rcases hm.before with hnone | hco
        · rw [hnone] at hlu
          cases hlu
        · cases hlu.symm.trans hco
          exact absurd rfl hne

theorem scheduled_start (jobs : JobTable) : Scheduled (start jobs) where
  loop co h := by cases h
  runs co x h := by cases h

def Within (tasks : Finset Coro) (s : Server) : Prop := ∀ co, s.ctl co ≠ none → co ∈ tasks

theorem within_step {tasks : Finset Coro} (hW : Within tasks s) (h : step cfg label s = some s') :
    ∃ more, Within more s' := by
  classical
  rcases step_moves h with ⟨hctl, -, -⟩ | ⟨co, x, hm⟩
  · exact ⟨tasks, fun u hu => hW u (by rwa [hctl] at hu)⟩
  · refine ⟨insert co tasks, fun u hu => ?_⟩
    by_cases hne : u = co
    · exact hne ▸ Finset.mem_insert_self _ _
    · rw [hm.ctl, Function.update_of_ne hne] at hu
      exact Finset.mem_insert_of_mem (hW u hu)

def work (tasks : Finset Coro) (s : Server) : Nat := ∑ co ∈ tasks, (s.ctl co).elim 0 Ctl.work

theorem work_step {tasks : Finset Coro} (hW : Within tasks s) (ht : label.isTask = true)
    (h : step cfg label s = some s') : Within tasks s' ∧ work tasks s' < work tasks s := by
  rcases step_moves h with ⟨-, -, hnot⟩ | ⟨co, x, hm⟩
  · rw [ht] at hnot
    cases hnot
  · have hlt := hm.work ht
    have hco : co ∈ tasks := hW co fun hnone => by rw [hnone] at hlt; exact Nat.not_lt_zero _ hlt
    refine ⟨fun u hu => ?_, Finset.sum_lt_sum (fun u _ => ?_) ⟨co, hco, ?_⟩⟩
    · by_cases hne : u = co
      · exact hne ▸ hco
      · rw [hm.ctl, Function.update_of_ne hne] at hu
        exact hW u hu
    · rw [hm.ctl]
      by_cases hne : u = co
      · rw [hne, Function.update_self]
        exact hlt.le
      · rw [Function.update_of_ne hne]
    · rw [hm.ctl, Function.update_self]
      exact hlt

theorem step_of_loop (hS : Scheduled s) (hP : Placed s) {co : Coro} (hl : s.loop = some co) :
    ∃ s', step cfg .run s = some s' := by
  have hrun := hS.loop co hl
  cases hx : s.ctl co with
  | none => rw [hx] at hrun; cases hrun
  | some x =>
      have hof : x.Of co := hP co x hx
      have hpiece : ∃ s', s.runPiece cfg co x = some s' := by
        rw [hx] at hrun
        cases x with
        | dispatch | locked | sendCancel => exact ⟨_, by rw [runPiece]⟩
        | scanAck | scanTimeout =>
            obtain rfl := hof
            exact ⟨_, rfl⟩
        | _ => cases hrun
      obtain ⟨s', hs'⟩ := hpiece
      exact ⟨s', by simp only [step, hl, hx]; exact hs'⟩

/-- A task that waits for a lock is let in, or a send has to return first. -/
theorem wakes_or_sends (hL : Locked s.dispatchLocks s.ctl) (hS : Scheduled s) (hl : s.loop = none) {co : Coro}
    {l : LockRef} {k : Return} (hc : s.ctl co = some (.acquiring l k)) :
    (∃ u s', step cfg (.wake u) s = some s') ∨ ∃ u x, s.ctl u = some x ∧ x.sends = true := by
  have hmem : co ∈ (s.dispatchLocks.mutexes l).waiters := ((hL l).waiter_iff co).mpr (by rw [hc]; rfl)
  cases hh : (s.dispatchLocks.mutexes l).holder with
  | some u =>
      have hin : (s.ctl u).bind Ctl.inside = some l := ((hL l).holder_iff u).mp hh
      obtain ⟨x, hx, hxl⟩ := Option.bind_eq_some_iff.mp hin
      cases x with
      | locked l' k' =>
          have hrun := hS.runs u _ hx rfl
          rw [hl] at hrun
          cases hrun
      | sending l' o job k' => exact .inr ⟨u, _, hx, rfl⟩
      | _ => cases hxl
  | none =>
      obtain ⟨first, rest, hws⟩ := List.exists_cons_of_ne_nil (List.ne_nil_of_mem hmem)
      have hwait : (s.ctl first).bind Ctl.waiting = some l :=
        ((hL l).waiter_iff first).mp (by rw [hws]; exact List.mem_cons_self)
      have hwake : (s.dispatchLocks.mutexes l).wake = some (first, ⟨some first, rest⟩) := by
        rw [Mutex.wake, hh, hws]
      obtain ⟨x, hx, hxl⟩ := Option.bind_eq_some_iff.mp hwait
      cases x with
      | acquiring l' k' =>
          cases hxl
          exact .inl ⟨first, _, by simp only [step, hx, hl, acquired, hwake]; rfl⟩
      | _ => cases hxl

theorem resumes_or_sends (hL : Locked s.dispatchLocks s.ctl) (hS : Scheduled s) (hP : Placed s) {co : Coro} {x : Ctl}
    (hc : s.ctl co = some x) : (∃ s', step cfg .run s = some s') ∨ s.loop = none ∧
      ((∃ u s', step cfg (.wake u) s = some s') ∨ ∃ u y, s.ctl u = some y ∧ y.sends = true) := by
  cases hl : s.loop with
  | some u => exact .inl (step_of_loop hS hP hl)
  | none =>
      refine .inr ⟨rfl, ?_⟩
      cases x with
      | acquiring l k => exact wakes_or_sends hL hS hl hc
      | sending l o job k => exact .inr ⟨co, _, hc, rfl⟩
      | sendingCancel job k => exact .inr ⟨co, _, hc, rfl⟩
      | _ =>
          have hrun := hS.runs co _ hc rfl
          rw [hl] at hrun
          cases hrun

theorem step_of_sent (hl : s.loop = none) {co : Coro} {x : Ctl} (hc : s.ctl co = some x) (hx : x.sends = true) :
    ∃ s', step cfg (.sendReturned co .sent) s = some s' := by
  cases x with
  | sending l o job k => exact ⟨_, by simp only [step, hc, hl, sendReturned]; rfl⟩
  | sendingCancel job k => exact ⟨_, by simp only [step, hc, hl, sendReturned]; rfl⟩
  | _ => cases hx

theorem step_of_task (hL : Locked s.dispatchLocks s.ctl) (hS : Scheduled s) (hP : Placed s) {co : Coro} {x : Ctl}
    (hc : s.ctl co = some x) : ∃ label s', label.isTask = true ∧ step cfg label s = some s' := by
  rcases resumes_or_sends hL hS hP hc with ⟨s', h⟩ | ⟨hl, ⟨u, s', h⟩ | ⟨u, y, hu, hy⟩⟩
  · exact ⟨.run, s', rfl, h⟩
  · exact ⟨.wake u, s', rfl, h⟩
  · obtain ⟨s', h⟩ := step_of_sent hl hu hy
    exact ⟨.sendReturned u .sent, s', rfl, h⟩

theorem quiet_of_idle (hL : Locked s.dispatchLocks s.ctl) (hS : Scheduled s) (hc : ∀ co, s.ctl co = none) :
    Quiet s where
  loop := by
    refine Option.eq_none_iff_forall_ne_some.mpr fun co hl => ?_
    have hrun := hS.loop co hl
    rw [hc] at hrun
    cases hrun
  ctl := hc
  locks l := (Mutex.free_iff (hL l)).mpr fun co => by simp [hc]

structure Orderly (s : Server) : Prop where
  locked : Locked s.dispatchLocks s.ctl
  scheduled : Scheduled s
  placed : Placed s

theorem orderly_step (hO : Orderly s) (h : step cfg label s = some s') : Orderly s' :=
  ⟨locked_step hO.locked (step_view h), scheduled_step hO.scheduled h, placed_step hO.placed (step_view h)⟩

theorem orderly_start (jobs : JobTable) : Orderly (start jobs) :=
  ⟨locked_start jobs, scheduled_start jobs, fun _ _ hc => by cases hc⟩

/-- The tasks that are under way come to their ends in every order in which they can be resumed and
whatever their sends return, and they leave no lock behind: there is no deadlock. -/
theorem tasks_settle (cfg : Config) (jobs : JobTable) {s : Server} (h : (machine cfg jobs).Reachable s) :
    (machine cfg jobs).Settles (fun _ l => l.isTask = true) Quiet s := by
  have hI : Orderly s ∧ ∃ tasks, Within tasks s := by
    refine h.invariant (I := fun s => Orderly s ∧ ∃ tasks, Within tasks s) ?_ ⟨orderly_start jobs, ∅, ?_⟩
    · rintro u l v ⟨hO, tasks, hW⟩ - hst
      exact ⟨orderly_step hO hst, within_step hW hst⟩
    · exact fun co hne => absurd rfl hne
  obtain ⟨hO, tasks, hW⟩ := hI
  refine Machine.Settles.of_rank (I := fun s => Orderly s ∧ Within tasks s) (work tasks) ?_ ?_ ⟨hO, hW⟩
  · rintro u l v ⟨hO, hW⟩ ht hst
    obtain ⟨hW', hlt⟩ := work_step hW ht hst
    exact ⟨⟨orderly_step hO hst, hW'⟩, hlt⟩
  · rintro u ⟨hO, -⟩ hq
    by_cases hc : ∀ co, u.ctl co = none
    · exact absurd (quiet_of_idle hO.locked hO.scheduled hc) hq
    · obtain ⟨co, hne⟩ := not_forall.mp hc
      obtain ⟨x, hx⟩ := Option.ne_none_iff_exists'.mp hne
      obtain ⟨l, v, ht, hst⟩ := step_of_task hO.locked hO.scheduled hO.placed hx
      exact ⟨l, v, ht, hst⟩

/-- One submission waits for its send to return, and a second one for the lock. -/
theorem tasks_settle_two_submits : ∃ s, (machine .default .empty).Reachable s ∧
    (s.ctl (.api 0)).bind Ctl.inside = some ⟨"agent-1", 0⟩ ∧
    (s.ctl (.api 1)).bind Ctl.waiting = some ⟨"agent-1", 0⟩ ∧
      (machine .default .empty).Settles (fun _ l => l.isTask = true) Quiet s := by
  obtain ⟨s, hs, hin, hwait⟩ := Machine.exists_run (M := machine .default .empty) (P := fun _ _ => True)
    (Q := fun s => (s.ctl (.api 0)).bind Ctl.inside = some ⟨"agent-1", 0⟩ ∧
      (s.ctl (.api 1)).bind Ctl.waiting = some ⟨"agent-1", 0⟩)
    [.connect, .frame 0 (some (.register "agent-1")), .run, .run,
      .submit 0 "job_1" "c1" (.alpine "agent-1" agent_1_ne), .run, .run,
      .submit 1 "job_2" "c2" (.alpine "agent-1" agent_1_ne), .run] (start .empty) (by decide +kernel)
  exact ⟨s, hs, hin, hwait, tasks_settle .default .empty hs⟩

end Server

end JobSystem
