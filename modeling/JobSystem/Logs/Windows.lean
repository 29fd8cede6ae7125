import JobSystem.Lib.Machine
import JobSystem.Logs.Broker
import Mathlib.Data.List.Range

namespace JobSystem

open Lib

namespace LogBroker

variable {κ σ χ : Type}

/-- A subscription, with the number of entries that its job had when it began and when it ended. -/
structure Subscription (κ σ χ : Type) where
  jobId : κ
  start : Nat
  stop : Option Nat
  snapshot : List (LogChunk σ χ)
  read : List (LogChunk σ χ)
  overflowed : Bool

namespace Subscription

def stopAt (sub : Subscription κ σ χ) (log : List (LogChunk σ χ)) : Nat := sub.stop.getD log.length

def since (sub : Subscription κ σ χ) (log : List (LogChunk σ χ)) : List (LogChunk σ χ) :=
  (log.take (sub.stopAt log)).drop sub.start

end Subscription

/-- What was published for each job, and the subscriptions. No code reads it. -/
structure Published (κ σ χ : Type) where
  log : κ → List (LogChunk σ χ)
  subscriptions : QueueId → Option (Subscription κ σ χ)

/-- What a subscriber has, for the log of its job. While the subscription lasts, `since` is
everything from its start on. -/
structure Windowed (historyCap queueCap : Nat) (log : List (LogChunk σ χ)) (sub : Subscription κ σ χ)
    (queue : List (LogChunk σ χ)) : Prop where
  start_le : sub.start ≤ sub.stopAt log
  stop_le : sub.stopAt log ≤ log.length
  snapshot : sub.snapshot = (log.take sub.start).rtake historyCap
  suffix : queue <:+ sub.since log
  bounded : queue.length ≤ queueCap
  ordered : (sub.read ++ queue).Sublist (sub.since log)
  gapless : sub.overflowed = false → sub.read ++ queue = sub.since log

namespace Windowed

variable {historyCap queueCap : Nat} {log queue : List (LogChunk σ χ)} {sub : Subscription κ σ χ}

theorem begun (historyCap queueCap : Nat) (log : List (LogChunk σ χ)) (j : κ) :
    Windowed historyCap queueCap log ⟨j, log.length, none, log.rtake historyCap, [], false⟩ [] := by
  have hsince : Subscription.since ⟨j, log.length, none, log.rtake historyCap, [], false⟩ log = [] := by
    simp [Subscription.since, Subscription.stopAt]
  constructor
  · exact Nat.le_refl _
  · exact Nat.le_refl _
  · rw [List.take_length]
  · rw [hsince]
  · exact Nat.zero_le _
  · rw [hsince]
    exact List.Sublist.refl _
  · intro _
    rw [hsince]
    rfl

theorem delivered (h : Windowed historyCap queueCap log sub queue) (hq : 1 ≤ queueCap)
    (hs : sub.stop = none) (entry : LogChunk σ χ) :
    Windowed historyCap queueCap (log ++ [entry])
      { sub with overflowed := sub.overflowed || (true && full queueCap queue) }
      (deliver queueCap entry queue) := by
  have hstart : sub.start ≤ log.length := by simpa [Subscription.stopAt, hs] using h.start_le
  have hold : sub.since log = log.drop sub.start := by simp [Subscription.since, Subscription.stopAt, hs]
  have hsince : ∀ o, Subscription.since { sub with overflowed := o } (log ++ [entry]) = sub.since log ++ [entry] := by
    intro o
    rw [hold, Subscription.since, Subscription.stopAt, hs, Option.getD_none, List.take_length,
      List.drop_append_of_le_length hstart]
  rw [deliver_eq_push hq h.bounded]
  constructor
  · simp only [Subscription.stopAt, hs, Option.getD_none, List.length_append]
    omega
  · simp [Subscription.stopAt, hs]
  · rw [List.take_append_of_le_length hstart]
    exact h.snapshot
  · rw [hsince]
    exact Window.push_suffix h.suffix entry
  · exact Window.length_push h.bounded entry
  · rw [hsince]
    exact Window.push_sublist h.ordered entry
  · intro ho
    simp only [Bool.true_and, Bool.or_eq_false_iff] at ho
    have hroom : queue.length < queueCap := by
      have hfull := ho.2
      simp only [full, Bool.and_eq_false_iff, decide_eq_false_iff_not] at hfull
      omega
    rw [hsince, Window.push_of_lt hroom, ← List.append_assoc, h.gapless ho.1]

theorem passed_by (h : Windowed historyCap queueCap log sub queue) (hs : sub.stop ≠ none)
    (entry : LogChunk σ χ) : Windowed historyCap queueCap (log ++ [entry]) sub queue := by
  obtain ⟨n, hn⟩ := Option.ne_none_iff_exists'.mp hs
  have hstop : ∀ l, sub.stopAt l = n := fun l => by rw [Subscription.stopAt, hn, Option.getD_some]
  have hstart := h.start_le
  have hle := h.stop_le
  rw [hstop] at hstart hle
  have hsince : sub.since (log ++ [entry]) = sub.since log := by
    rw [Subscription.since, Subscription.since, hstop, hstop, List.take_append_of_le_length hle]
  refine ⟨by rwa [hstop], ?_, ?_, by rw [hsince]; exact h.suffix, h.bounded, by rw [hsince]; exact h.ordered,
    by rw [hsince]; exact h.gapless⟩
  · rw [hstop, List.length_append]
    omega
  · rw [List.take_append_of_le_length (hstart.trans hle)]
    exact h.snapshot

theorem ended (h : Windowed historyCap queueCap log sub queue) (hs : sub.stop = none) :
    Windowed historyCap queueCap log { sub with stop := some log.length } queue := by
  have hstop : sub.stopAt log = log.length := by rw [Subscription.stopAt, hs, Option.getD_none]
  have hsince : Subscription.since { sub with stop := some log.length } log = sub.since log := by
    rw [Subscription.since, Subscription.since, hstop]
    rfl
  have hstart := h.start_le
  rw [hstop] at hstart
  exact ⟨hstart, Nat.le_refl _, h.snapshot, by rw [hsince]; exact h.suffix, h.bounded,
    by rw [hsince]; exact h.ordered, by rw [hsince]; exact h.gapless⟩

theorem consumed {entry : LogChunk σ χ} (h : Windowed historyCap queueCap log sub (entry :: queue)) :
    Windowed historyCap queueCap log { sub with read := sub.read ++ [entry] } queue := by
  have hmoved : (sub.read ++ [entry]) ++ queue = sub.read ++ (entry :: queue) := by simp
  refine ⟨h.start_le, h.stop_le, h.snapshot, (List.suffix_cons entry queue).trans h.suffix, ?_, ?_, ?_⟩
  · have hb := h.bounded
    rw [List.length_cons] at hb
    omega
  · change ((sub.read ++ [entry]) ++ queue).Sublist (sub.since log)
    rw [hmoved]
    exact h.ordered
  · intro ho
    change (sub.read ++ [entry]) ++ queue = sub.since log
    rw [hmoved]
    exact h.gapless ho

/-- A subscriber that never overflowed has the end of the log as it was when the subscription
ended, without a gap. -/
theorem tail (h : Windowed historyCap queueCap log sub queue) (ho : sub.overflowed = false) :
    sub.snapshot ++ (sub.read ++ queue) <:+ log.take (sub.stopAt log) := by
  rw [h.gapless ho, h.snapshot, List.rtake, Subscription.since]
  have hsplit : log.take (sub.stopAt log) =
      log.take sub.start ++ (log.take (sub.stopAt log)).drop sub.start := by
    conv_lhs => rw [← List.take_append_drop sub.start (log.take (sub.stopAt log))]
    rw [List.take_take, Nat.min_eq_left h.start_le]
  conv_rhs => rw [hsplit]
  obtain ⟨front, hfront⟩ := List.drop_suffix ((log.take sub.start).length - historyCap) (log.take sub.start)
  exact ⟨front, by rw [← List.append_assoc, hfront]⟩

theorem nodup (h : Windowed historyCap queueCap log sub queue) (hlog : log.Nodup) :
    (sub.read ++ queue).Nodup :=
  h.ordered.nodup (((List.drop_sublist _ _).trans (List.take_sublist _ _)).nodup hlog)

end Windowed

variable [DecidableEq σ]

def Numbered (log : List (LogChunk σ χ)) : Prop :=
  ∀ st, (log.filter (·.stream = st)).map (·.sequence) = List.range' 1 (log.filter (·.stream = st)).length

theorem Numbered.nodup {log : List (LogChunk σ χ)} (h : Numbered log) : log.Nodup := by
  rw [List.nodup_iff_sublist]
  intro e he
  have hmap := (he.filter (fun x => decide (x.stream = e.stream))).map (·.sequence)
  rw [h e.stream] at hmap
  have htwo : [e.sequence, e.sequence].Sublist
      (List.range' 1 (log.filter (fun x => decide (x.stream = e.stream))).length) := by
    simpa using hmap
  have hnodup := htwo.nodup List.nodup_range'
  simp at hnodup

theorem Numbered.concat {log : List (LogChunk σ χ)} (h : Numbered log) (st : σ) (c : χ) :
    Numbered (log ++ [⟨st, (log.filter (·.stream = st)).length + 1, c⟩]) := by
  intro st'
  rw [List.filter_append, List.map_append, List.length_append, h st']
  by_cases hst : st = st'
  · subst st'
    have hone : [(⟨st, (log.filter (·.stream = st)).length + 1, c⟩ : LogChunk σ χ)].filter (·.stream = st) =
        [⟨st, (log.filter (·.stream = st)).length + 1, c⟩] := by simp
    rw [hone, List.length_singleton, List.range'_concat]
    simp [Nat.add_comm]
  · simp [hst]

variable [DecidableEq κ]

inductive Call (κ σ χ : Type)
  | publish (jobId : κ) (stream : σ) (chunk : χ)
  | subscribe (jobId : κ)
  | unsubscribe (jobId : κ) (queue : QueueId)
  | get (queue : QueueId)

def step (call : Call κ σ χ) (b : LogBroker κ σ χ) : Option (LogBroker κ σ χ) :=
  match call with
  | .publish j st c => some (b.publish j st c).2
  | .subscribe j => some (b.subscribe j).2
  | .unsubscribe j q => some (b.unsubscribe j q)
  | .get q => (b.get q).map Prod.snd

def machine (historyCap queueCap : Nat) : Machine (LogBroker κ σ χ) (Call κ σ χ) := ⟨new historyCap queueCap, step⟩

def observe (b : LogBroker κ σ χ) (call : Call κ σ χ) (_ : LogBroker κ σ χ) (g : Published κ σ χ) :
    Published κ σ χ :=
  match call with
  | .publish j st c =>
      { log := Function.update g.log j (g.log j ++ [⟨st, (b.publish j st c).1.sequence, c⟩])
        subscriptions := fun q => (g.subscriptions q).map fun sub =>
          { sub with
            overflowed := sub.overflowed ||
              (decide (q ∈ b.subscribersOf j) && full b.queueCap (b.queues q)) } }
  | .subscribe j =>
      { g with
        subscriptions := Function.update g.subscriptions (b.subscribe j).1.1
          (some ⟨j, (g.log j).length, none, (b.subscribe j).1.2, [], false⟩) }
  | .unsubscribe j q =>
      { g with
        subscriptions := Function.update g.subscriptions q ((g.subscriptions q).map fun sub =>
          if sub.jobId = j ∧ sub.stop = none then { sub with stop := some (g.log j).length } else sub) }
  | .get q =>
      { g with
        subscriptions := Function.update g.subscriptions q ((g.subscriptions q).map fun sub =>
          { sub with read := sub.read ++ (b.queues q).take 1 }) }

def recorded (historyCap queueCap : Nat) : Machine (LogBroker κ σ χ × Published κ σ χ) (Call κ σ χ) :=
  (machine historyCap queueCap).observed ⟨fun _ => [], fun _ => none⟩ observe

structure Follows (historyCap queueCap : Nat) (b : LogBroker κ σ χ) (g : Published κ σ χ) : Prop where
  caps : b.historyCap = historyCap ∧ b.queueCap = queueCap
  history : ∀ j, b.history j = (g.log j).rtake historyCap
  numbered : ∀ j, Numbered (g.log j)
  sequence : ∀ j st, b.sequenceOf j st = ((g.log j).filter (·.stream = st)).length
  live : ∀ j q, q ∈ b.subscribersOf j ↔ ∃ sub, g.subscriptions q = some sub ∧ sub.jobId = j ∧ sub.stop = none
  fresh : ∀ q sub, g.subscriptions q = some sub → q < b.next
  windowed : ∀ q sub, g.subscriptions q = some sub →
    Windowed historyCap queueCap (g.log sub.jobId) sub (b.queues q)

section Steps

variable {historyCap queueCap : Nat} {b b' : LogBroker κ σ χ} {g : Published κ σ χ}

theorem follows_new (historyCap queueCap : Nat) :
    Follows historyCap queueCap (new historyCap queueCap : LogBroker κ σ χ) ⟨fun _ => [], fun _ => none⟩ where
  caps := ⟨rfl, rfl⟩
  history _ := (List.rtake_nil _).symm
  numbered _ _ := rfl
  sequence _ _ := rfl
  live := by simp [subscribersOf, new]
  fresh := by simp
  windowed := by simp

theorem follows_publish (h : Follows historyCap queueCap b g) (hq : 1 ≤ queueCap) (j : κ) (st : σ) (c : χ) :
    Follows historyCap queueCap (b.publish j st c).2 (observe b (.publish j st c) b' g) := by
  have hentry : (b.publish j st c).1 = ⟨st, ((g.log j).filter (·.stream = st)).length + 1, c⟩ := by
    rw [publish, h.sequence]
  have hlog : ∀ k, (observe b (.publish j st c) b' g).log k =
      if k = j then g.log j ++ [(b.publish j st c).1] else g.log k := by
    intro k
    exact Function.update_apply _ _ _ _
  constructor
  · exact h.caps
  · intro k
    rw [history_publish, hlog, h.history, h.caps.1]
    split
    · exact Window.push_rtake _ _ _
    · exact h.history k
  · intro k
    rw [hlog]
    split
    · rw [hentry]
      exact (h.numbered j).concat st c
    · exact h.numbered k
  · intro k st'
    rw [sequenceOf_publish, hlog]
    by_cases hk : k = j
    · subst k
      by_cases hst : st' = st
      · subst st'
        simp [h.sequence, publish]
      · simp [hst, Ne.symm hst, h.sequence, publish]
    · simp [hk, h.sequence]
  · intro k q
    have hsubs : (b.publish j st c).2.subscribersOf k = b.subscribersOf k := rfl
    rw [hsubs, h.live]
    simp [observe]
  · intro q sub hsub
    obtain ⟨old, hold, rfl⟩ := Option.map_eq_some_iff.mp hsub
    exact h.fresh q old hold
  · intro q sub hsub
    obtain ⟨old, hold, rfl⟩ := Option.map_eq_some_iff.mp hsub
    have hw := h.windowed q old hold
    have hmem := h.live j q
    simp only [hold, Option.some.injEq, exists_eq_left'] at hmem
    rw [hlog]
    by_cases hq' : q ∈ b.subscribersOf j
    · obtain ⟨hj, hs⟩ := hmem.mp hq'
      have hd := hw.delivered hq hs (b.publish j st c).1
      simpa [hj, hq', publish, h.caps.2] using hd
    · have hov : (old.overflowed || (decide (q ∈ b.subscribersOf j) && full b.queueCap (b.queues q))) =
          old.overflowed := by simp [hq']
      have hqueue : (b.publish j st c).2.queues q = b.queues q := if_neg hq'
      rw [hov, hqueue]
      split
      · next hj =>
          have hs : old.stop ≠ none := fun hs => hq' (hmem.mpr ⟨hj, hs⟩)
          have hj' : old.jobId = j := hj
          rw [hj'] at hw
          exact hw.passed_by hs _
      · exact hw

theorem follows_subscribe (h : Follows historyCap queueCap b g) (j : κ) :
    Follows historyCap queueCap (b.subscribe j).2 (observe b (.subscribe j) b' g) := by
  have hnone : g.subscriptions b.next = none := by
    by_contra hne
    obtain ⟨sub, hsub⟩ := Option.ne_none_iff_exists'.mp hne
    exact Nat.lt_irrefl _ (h.fresh _ _ hsub)
  have hsubs : (observe b (.subscribe j) b' g).subscriptions =
      Function.update g.subscriptions b.next (some ⟨j, (g.log j).length, none, b.history j, [], false⟩) := rfl
  refine ⟨h.caps, h.history, h.numbered, h.sequence, ?_, ?_, ?_⟩
  · intro k q
    rw [mem_subscribe, hsubs, h.live]
    by_cases hq : q = b.next
    · subst q
      simp [hnone, eq_comm]
    · simp [hq]
  · intro q sub hsub
    rw [hsubs, Function.update_apply] at hsub
    split at hsub
    · next hq => exact hq ▸ Nat.lt_succ_self _
    · exact Nat.lt_succ_of_lt (h.fresh q sub hsub)
  · intro q sub hsub
    rw [hsubs, Function.update_apply] at hsub
    change Windowed historyCap queueCap (g.log sub.jobId) sub (Function.update b.queues b.next [] q)
    rw [Function.update_apply]
    split at hsub
    · next hq =>
        cases hsub
        rw [if_pos hq, h.history]
        exact Windowed.begun historyCap queueCap (g.log j) j
    · next hq =>
        rw [if_neg hq]
        exact h.windowed q sub hsub

theorem queues_unsubscribe (j : κ) (q : QueueId) :
    (b.unsubscribe j q).queues = b.queues ∧ (b.unsubscribe j q).next = b.next ∧
      (b.unsubscribe j q).histories = b.histories ∧ (b.unsubscribe j q).sequences = b.sequences ∧
      (b.unsubscribe j q).historyCap = b.historyCap ∧ (b.unsubscribe j q).queueCap = b.queueCap := by
  rw [unsubscribe]
  split
  · exact ⟨rfl, rfl, rfl, rfl, rfl, rfl⟩
  · split
    · exact ⟨rfl, rfl, rfl, rfl, rfl, rfl⟩
    · split <;> exact ⟨rfl, rfl, rfl, rfl, rfl, rfl⟩

theorem follows_unsubscribe (h : Follows historyCap queueCap b g) (j : κ) (r : QueueId) :
    Follows historyCap queueCap (b.unsubscribe j r) (observe b (.unsubscribe j r) b' g) := by
  obtain ⟨hqueues, hnext, hhist, hseq, hhc, hqc⟩ := queues_unsubscribe (b := b) j r
  have hsubs : ∀ q sub', (observe b (.unsubscribe j r) b' g).subscriptions q = some sub' →
      ∃ sub, g.subscriptions q = some sub ∧ sub' =
        if q = r ∧ sub.jobId = j ∧ sub.stop = none then { sub with stop := some (g.log j).length } else sub := by
    intro q sub' hsub
    have hsub : Function.update g.subscriptions r ((g.subscriptions r).map fun sub =>
        if sub.jobId = j ∧ sub.stop = none then { sub with stop := some (g.log j).length } else sub) q =
          some sub' := hsub
    rw [Function.update_apply] at hsub
    split at hsub
    · next hq =>
        obtain ⟨sub, hold, rfl⟩ := Option.map_eq_some_iff.mp hsub
        exact ⟨sub, hq ▸ hold, by simp [hq]⟩
    · next hq => exact ⟨sub', hsub, by simp [hq]⟩
  refine ⟨by rw [hhc, hqc]; exact h.caps, ?_, h.numbered, ?_, ?_, ?_, ?_⟩
  · intro k
    rw [history, hhist]
    exact h.history k
  · intro k st
    rw [sequenceOf, hseq]
    exact h.sequence k st
  · intro k q
    rw [mem_unsubscribe, h.live]
    constructor
    · rintro ⟨⟨sub, hsub, hk, hs⟩, hne⟩
      refine ⟨sub, ?_, hk, hs⟩
      change Function.update g.subscriptions r _ q = some sub
      rw [Function.update_apply]
      split
      · next hq =>
          have hj : sub.jobId ≠ j := fun hj => hne ⟨hk ▸ hj, hq⟩
          rw [← hq, hsub, Option.map_some, if_neg fun hc => hj hc.1]
      · exact hsub
    · rintro ⟨sub', hsub', hk, hs⟩
      obtain ⟨sub, hsub, rfl⟩ := hsubs q sub' hsub'
      by_cases hcond : q = r ∧ sub.jobId = j ∧ sub.stop = none
      · rw [if_pos hcond] at hs
        cases hs
      · rw [if_neg hcond] at hk hs
        exact ⟨⟨sub, hsub, hk, hs⟩, fun hc => hcond ⟨hc.2, hk.trans hc.1, hs⟩⟩
  · intro q sub' hsub'
    obtain ⟨sub, hsub, -⟩ := hsubs q sub' hsub'
    rw [hnext]
    exact h.fresh q sub hsub
  · intro q sub' hsub'
    obtain ⟨sub, hsub, rfl⟩ := hsubs q sub' hsub'
    rw [hqueues]
    have hw := h.windowed q sub hsub
    split
    · next hcond =>
        obtain ⟨-, hj, hs⟩ := hcond
        have hend := hw.ended hs
        rw [hj] at hend
        change Windowed historyCap queueCap (g.log sub.jobId) _ _
        rw [hj]
        exact hend
    · exact hw

theorem follows_get (h : Follows historyCap queueCap b g) {q : QueueId} {entry : LogChunk σ χ}
    (hg : b.get q = some (entry, b')) : Follows historyCap queueCap b' (observe b (.get q) b' g) := by
  rw [get] at hg
  split at hg
  · cases hg
  · next rest hrest =>
      cases hg
      have hsubs : ∀ t, (observe b (.get q) t g).subscriptions =
          Function.update g.subscriptions q ((g.subscriptions q).map fun sub =>
            { sub with read := sub.read ++ [entry] }) := by
        intro t
        rw [observe, hrest]
        rfl
      refine ⟨h.caps, h.history, h.numbered, h.sequence, ?_, ?_, ?_⟩
      · intro k r
        refine (h.live k r).trans ?_
        rw [hsubs, Function.update_apply]
        split
        · next hr => simp [hr]
        · exact Iff.rfl
      · intro r sub hsub
        rw [hsubs, Function.update_apply] at hsub
        split at hsub
        · next hr =>
            obtain ⟨old, hold, -⟩ := Option.map_eq_some_iff.mp hsub
            exact hr ▸ h.fresh q old hold
        · exact h.fresh r sub hsub
      · intro r sub hsub
        rw [hsubs, Function.update_apply] at hsub
        change Windowed historyCap queueCap (g.log sub.jobId) sub (Function.update b.queues q rest r)
        rw [Function.update_apply]
        split at hsub
        · next hr =>
            obtain ⟨old, hold, rfl⟩ := Option.map_eq_some_iff.mp hsub
            rw [if_pos hr]
            have hw := h.windowed q old hold
            rw [hrest] at hw
            exact hw.consumed
        · next hr =>
            rw [if_neg hr]
            exact h.windowed r sub hsub

theorem follows_step (h : Follows historyCap queueCap b g) (hq : 1 ≤ queueCap) {call : Call κ σ χ}
    (hst : b.step call = some b') : Follows historyCap queueCap b' (observe b call b' g) := by
  cases call with
  | publish j st c =>
      cases hst
      exact follows_publish h hq j st c
  | subscribe j =>
      cases hst
      exact follows_subscribe h j
  | unsubscribe j r =>
      cases hst
      exact follows_unsubscribe h j r
  | get r =>
      obtain ⟨⟨entry, b''⟩, hg, rfl⟩ := Option.map_eq_some_iff.mp hst
      exact follows_get h hg

theorem follows_of_reachable (hq : 1 ≤ queueCap) {p : LogBroker κ σ χ × Published κ σ χ}
    (hp : (recorded historyCap queueCap).Reachable p) : Follows historyCap queueCap p.1 p.2 := by
  refine Machine.Run.invariant (I := fun p : LogBroker κ σ χ × Published κ σ χ =>
    Follows historyCap queueCap p.1 p.2) ?_ hp (follows_new historyCap queueCap)
  rintro u call v hI - hst
  obtain ⟨hst, hghost⟩ := Machine.observed_step.mp hst
  rw [hghost]
  exact follows_step hI hq hst

end Steps

/-- Log broker windows: entries are numbered within their streams, the history is the end of the log,
and a subscriber has a window of what was published while it was subscribed, which is the whole end
of the log if its queue never overflowed. Nobody else gets an entry. -/
theorem broker_windows (historyCap queueCap : Nat) (hq : 1 ≤ queueCap)
    {p : LogBroker κ σ χ × Published κ σ χ} (hp : (recorded historyCap queueCap).Reachable p) :
    (∀ j, Numbered (p.2.log j) ∧ p.1.history j = (p.2.log j).rtake historyCap) ∧
      (∀ q sub, p.2.subscriptions q = some sub →
        Windowed historyCap queueCap (p.2.log sub.jobId) sub (p.1.queues q) ∧
        (sub.read ++ p.1.queues q).Nodup ∧
        (sub.overflowed = false →
          sub.snapshot ++ (sub.read ++ p.1.queues q) <:+
            (p.2.log sub.jobId).take (sub.stopAt (p.2.log sub.jobId)) ∧
          (sub.snapshot ++ (sub.read ++ p.1.queues q)).Nodup)) ∧
      ∀ j st c q, (∀ sub, p.2.subscriptions q = some sub → sub.jobId = j → sub.stop ≠ none) →
        (p.1.publish j st c).2.queues q = p.1.queues q := by
  have h := follows_of_reachable hq hp
  refine ⟨fun j => ⟨h.numbered j, h.history j⟩, fun q sub hsub => ?_, fun j st c q hno => ?_⟩
  · have hw := h.windowed q sub hsub
    have hnodup := (h.numbered sub.jobId).nodup
    refine ⟨hw, hw.nodup hnodup, fun ho => ⟨hw.tail ho, ?_⟩⟩
    exact ((hw.tail ho).sublist.trans (List.take_sublist _ _)).nodup hnodup
  · refine if_neg fun hq => ?_
    obtain ⟨sub, hsub, hj, hs⟩ := (h.live j q).mp hq
    exact hno sub hsub hj hs

def fallsBehind : List (Call String String String) :=
  [.publish "job_1" "stdout" "a", .subscribe "job_1", .publish "job_1" "stdout" "b", .get 0,
    .publish "job_1" "stdout" "c", .publish "job_1" "stderr" "d", .publish "job_1" "stdout" "e"]

theorem broker_windows_falls_behind : ∃ p : LogBroker String String String × Published String String String,
    (recorded 3 2).Reachable p ∧
      p.1.history "job_1" = [⟨"stdout", 3, "c"⟩, ⟨"stderr", 1, "d"⟩, ⟨"stdout", 4, "e"⟩] ∧
      p.1.queues 0 = [⟨"stderr", 1, "d"⟩, ⟨"stdout", 4, "e"⟩] ∧
      p.1.history "job_1" = (p.2.log "job_1").rtake 3 ∧
      ∀ sub, p.2.subscriptions 0 = some sub →
        Windowed 3 2 (p.2.log sub.jobId) sub (p.1.queues 0) ∧ (sub.read ++ p.1.queues 0).Nodup := by
  have hexec : ((recorded 3 2).exec (fun _ _ => True) fallsBehind (recorded 3 2).init).any (fun p => decide
      (p.1.history "job_1" = [⟨"stdout", 3, "c"⟩, ⟨"stderr", 1, "d"⟩, ⟨"stdout", 4, "e"⟩] ∧
        p.1.queues 0 = [⟨"stderr", 1, "d"⟩, ⟨"stdout", 4, "e"⟩])) = true := by decide +kernel
  obtain ⟨p, hp, hhist, hqueue⟩ := Machine.exists_run _ _ hexec
  obtain ⟨hlogs, hsubs, -⟩ := broker_windows 3 2 (by decide) hp
  exact ⟨p, hp, hhist, hqueue, (hlogs "job_1").2, fun sub hsub =>
    ⟨(hsubs 0 sub hsub).1, (hsubs 0 sub hsub).2.1⟩⟩

end LogBroker

end JobSystem
