import Mathlib.Data.List.DropRight

namespace Lib

namespace Window

variable {α : Type}

/-- A queue of at most `n` entries takes in a new one and lets go of its oldest if it is full. -/
def push (n : Nat) (queue : List α) (x : α) : List α :=
  if n < (queue ++ [x]).length then (queue ++ [x]).tail else queue ++ [x]

theorem push_of_lt {n : Nat} {queue : List α} (h : queue.length < n) (x : α) :
    push n queue x = queue ++ [x] := by
  rw [push, if_neg]
  simpa [Nat.succ_le_iff] using h

theorem push_of_le {n : Nat} {queue : List α} (h : n ≤ queue.length) (x : α) :
    push n queue x = (queue ++ [x]).tail := by
  rw [push, if_pos]
  simpa using Nat.lt_succ_of_le h

theorem length_push {n : Nat} {queue : List α} (h : queue.length ≤ n) (x : α) :
    (push n queue x).length ≤ n := by
  rw [push]
  split <;> simp at * <;> omega

/-- What is in the queue goes on being the end of everything that was pushed. -/
theorem push_suffix {n : Nat} {queue log : List α} (h : queue <:+ log) (x : α) :
    push n queue x <:+ log ++ [x] := by
  have hx : queue ++ [x] <:+ log ++ [x] := by
    obtain ⟨front, rfl⟩ := h
    exact ⟨front, (List.append_assoc front queue [x]).symm⟩
  rw [push]
  split
  · exact (List.tail_suffix _).trans hx
  · exact hx

/-- An entry that is let go was neither read nor will it be. -/
theorem push_sublist {n : Nat} {read queue log : List α} (h : (read ++ queue).Sublist log) (x : α) :
    (read ++ push n queue x).Sublist (log ++ [x]) := by
  have hx : (read ++ (queue ++ [x])).Sublist (log ++ [x]) := by
    rw [← List.append_assoc]
    exact h.append (List.Sublist.refl [x])
  rw [push]
  split
  · exact ((List.Sublist.refl read).append (List.tail_sublist _)).trans hx
  · exact hx

/-- From an empty queue on, a queue holds the last `n` entries. -/
theorem push_rtake (n : Nat) (log : List α) (x : α) : push n (log.rtake n) x = (log ++ [x]).rtake n := by
  by_cases h : log.length < n
  · have hall : log.rtake n = log := by rw [List.rtake, Nat.sub_eq_zero_of_le h.le, List.drop_zero]
    have hall' : (log ++ [x]).rtake n = log ++ [x] := by
      rw [List.rtake, Nat.sub_eq_zero_of_le (by simpa [Nat.succ_le_iff] using h), List.drop_zero]
    rw [hall, hall', push_of_lt h]
  · have hlen : (log.rtake n).length = n := by
      rw [List.rtake, List.length_drop]
      omega
    rw [push_of_le hlen.ge, List.rtake, List.rtake, List.length_append, List.length_singleton,
      ← List.drop_append_of_le_length (Nat.sub_le _ _), List.tail_drop]
    congr 1
    omega

end Window

end Lib
