import JobSystem.Lib.Dict
import JobSystem.Lib.Window
import Mathlib.Data.Finset.Insert
import Mathlib.Data.Finset.Erase
import Mathlib.Logic.Function.Basic

namespace JobSystem

open Lib

structure LogChunk (σ χ : Type) where
  stream : σ
  sequence : Nat
  chunk : χ
  deriving DecidableEq

abbrev QueueId := Nat

/-- The dictionaries are keyed by whatever the callers pass. `queues` holds the
content of every queue made so far. -/
structure LogBroker (κ σ χ : Type) [DecidableEq κ] [DecidableEq σ] where
  historyCap : Nat
  queueCap : Nat
  histories : Dict κ (List (LogChunk σ χ))
  sequences : Dict (κ × σ) Nat
  subscribers : Dict κ (Finset QueueId)
  overflowWarned : Finset κ
  queues : QueueId → List (LogChunk σ χ)
  next : QueueId
  made : ∀ {j qs}, subscribers.get j = some qs → ∀ q ∈ qs, q < next

namespace LogBroker

variable {κ σ χ : Type}

/-- `queue.full()`; a queue without a positive bound is never full. -/
def full (queueCap : Nat) (queue : List (LogChunk σ χ)) : Bool :=
  decide (0 < queueCap) && decide (queueCap ≤ queue.length)

def deliver (queueCap : Nat) (entry : LogChunk σ χ) (queue : List (LogChunk σ χ)) : List (LogChunk σ χ) :=
  let queue := if full queueCap queue then queue.tail else queue
  if full queueCap queue then queue else queue ++ [entry]

/-- The entry lets the oldest go, as in the history, once the bound is reached. -/
theorem deliver_eq_push {cap : Nat} (hcap : 1 ≤ cap) {queue : List (LogChunk σ χ)} (hq : queue.length ≤ cap)
    (entry : LogChunk σ χ) : deliver cap entry queue = Window.push cap queue entry := by
  have hpos : 0 < cap := hcap
  by_cases h : cap ≤ queue.length
  · have hfull : full cap queue = true := by simp [full, hpos, h]
    have hroom : full cap queue.tail = false := by
      simp only [full, List.length_tail, Bool.and_eq_false_iff, decide_eq_false_iff_not]
      omega
    have hne : queue ≠ [] := by
      rintro rfl
      simp at h
      omega
    rw [deliver, Window.push_of_le h, if_pos hfull, hroom, if_neg Bool.false_ne_true,
      List.tail_append_of_ne_nil hne]
  · have hroom : full cap queue = false := by simp [full, h]
    rw [deliver, hroom, if_neg Bool.false_ne_true, hroom, if_neg Bool.false_ne_true,
      Window.push_of_lt (Nat.lt_of_not_le h)]

variable [DecidableEq κ] [DecidableEq σ]

def new (historyCap queueCap : Nat) : LogBroker κ σ χ where
  historyCap := historyCap
  queueCap := queueCap
  histories := .empty
  sequences := .empty
  subscribers := .empty
  overflowWarned := ∅
  queues := fun _ => []
  next := 0
  made := by simp

def history (jobId : κ) (b : LogBroker κ σ χ) : List (LogChunk σ χ) := (b.histories.get jobId).getD []

def sequenceOf (jobId : κ) (stream : σ) (b : LogBroker κ σ χ) : Nat := (b.sequences.get (jobId, stream)).getD 0

def subscribersOf (jobId : κ) (b : LogBroker κ σ χ) : Finset QueueId := (b.subscribers.get jobId).getD ∅

def publish (jobId : κ) (stream : σ) (chunk : χ) (b : LogBroker κ σ χ) : LogChunk σ χ × LogBroker κ σ χ :=
  let sequence := b.sequenceOf jobId stream + 1
  let entry : LogChunk σ χ := ⟨stream, sequence, chunk⟩
  let subscribers := b.subscribersOf jobId
  (entry, { b with
    sequences := b.sequences.set (jobId, stream) sequence
    histories := b.histories.set jobId (Window.push b.historyCap (b.history jobId) entry)
    overflowWarned :=
      if ∃ q ∈ subscribers, full b.queueCap (b.queues q) = true then insert jobId b.overflowWarned
      else b.overflowWarned
    queues := fun q => if q ∈ subscribers then deliver b.queueCap entry (b.queues q) else b.queues q })

theorem lt_next {b : LogBroker κ σ χ} {j : κ} {q : QueueId} (h : q ∈ b.subscribersOf j) : q < b.next := by
  rw [subscribersOf] at h
  cases hs : b.subscribers.get j with
  | none =>
      rw [hs] at h
      simp at h
  | some qs =>
      rw [hs] at h
      exact b.made hs q h

def subscribe (jobId : κ) (b : LogBroker κ σ χ) :
    (QueueId × List (LogChunk σ χ)) × LogBroker κ σ χ :=
  ((b.next, b.history jobId), { b with
    subscribers := b.subscribers.set jobId (insert b.next (b.subscribersOf jobId))
    queues := Function.update b.queues b.next []
    next := b.next + 1
    made := by
      intro j qs h q hq
      rw [Dict.get_set] at h
      split at h
      · cases h
        rcases Finset.mem_insert.mp hq with rfl | hq
        · exact Nat.lt_succ_self _
        · exact Nat.lt_succ_of_lt (lt_next hq)
      · exact Nat.lt_succ_of_lt (b.made h q hq) })

def unsubscribe (jobId : κ) (queue : QueueId) (b : LogBroker κ σ χ) : LogBroker κ σ χ :=
  match hs : b.subscribers.get jobId with
  | none => b
  | some subscribers =>
      if subscribers = ∅ then b
      else if subscribers.erase queue = ∅ then
        { b with
          subscribers := b.subscribers.pop jobId
          made := fun h => b.made (Dict.get_of_get_pop h) }
      else
        { b with
          subscribers := b.subscribers.set jobId (subscribers.erase queue)
          made := by
            intro j qs h q hq
            rw [Dict.get_set] at h
            split at h
            · cases h
              exact b.made hs q (Finset.mem_of_mem_erase hq)
            · exact b.made h q hq }

/-- A consumer takes the next entry from its queue: `queue.get_nowait()`, or a
`queue.get()` that returns. -/
def get (queue : QueueId) (b : LogBroker κ σ χ) : Option (LogChunk σ χ × LogBroker κ σ χ) :=
  match b.queues queue with
  | [] => none
  | entry :: rest => some (entry, { b with queues := Function.update b.queues queue rest })

section Laws

variable {b : LogBroker κ σ χ}

theorem history_publish (j k : κ) (st : σ) (c : χ) :
    (b.publish j st c).2.history k =
      if k = j then Window.push b.historyCap (b.history j) (b.publish j st c).1 else b.history k := by
  rw [history, publish, Dict.get_set, history]
  split <;> rfl

theorem sequenceOf_publish (j k : κ) (st st' : σ) (c : χ) :
    (b.publish j st c).2.sequenceOf k st' =
      if k = j ∧ st' = st then b.sequenceOf j st + 1 else b.sequenceOf k st' := by
  rw [sequenceOf, publish, Dict.get_set, sequenceOf]
  simp only [Prod.mk.injEq]
  split <;> rfl

theorem mem_subscribe (j k : κ) (q : QueueId) :
    q ∈ (b.subscribe j).2.subscribersOf k ↔ q ∈ b.subscribersOf k ∨ (k = j ∧ q = b.next) := by
  rw [subscribersOf, subscribe, Dict.get_set]
  by_cases hk : k = j
  · subst k
    simp [or_comm]
  · simp [hk, subscribersOf]

theorem mem_unsubscribe (j k : κ) (r q : QueueId) :
    q ∈ (b.unsubscribe j r).subscribersOf k ↔ q ∈ b.subscribersOf k ∧ ¬ (k = j ∧ q = r) := by
  have hnone : ∀ qs, b.subscribers.get j = some qs → qs = ∅ → b.subscribersOf j = ∅ := by
    rintro qs hs rfl
    rw [subscribersOf, hs]
    rfl
  rw [unsubscribe]
  split
  · next hs =>
      by_cases hk : k = j
      · subst k
        simp [subscribersOf, hs]
      · simp [hk]
  · next qs hs =>
      split
      · next he =>
          by_cases hk : k = j
          · subst k
            simp [hnone qs hs he]
          · simp [hk]
      · split
        · next he =>
            rw [subscribersOf, Dict.get_pop]
            by_cases hk : k = j
            · subst k
              have hmem := Finset.ext_iff.mp he q
              simp only [Finset.mem_erase, Finset.notMem_empty, iff_false] at hmem
              simp only [if_true, Option.getD_none, Finset.notMem_empty, subscribersOf, hs, Option.getD_some,
                true_and, false_iff]
              tauto
            · simp [hk, subscribersOf]
        · rw [subscribersOf, Dict.get_set]
          by_cases hk : k = j
          · subst k
            simp [subscribersOf, hs, and_comm]
          · simp [hk, subscribersOf]

end Laws

end LogBroker

end JobSystem
