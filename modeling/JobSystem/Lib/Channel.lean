import Mathlib.Data.List.Basic

/-- Messages in flight on many connections, each of which delivers in order. -/
abbrev Lib.Channel (κ α : Type) := List (κ × α)

namespace Lib.Channel

variable {κ α : Type} [DecidableEq κ]

def receive (k : κ) : Channel κ α → Option (α × Channel κ α)
  | [] => none
  | e :: w => if e.1 = k then some (e.2, w) else (receive k w).map fun (x, w') => (x, e :: w')

theorem receive_some {k : κ} {x : α} {w w' : Channel κ α} (h : receive k w = some (x, w')) :
    ∃ pre post, w = pre ++ (k, x) :: post ∧ w' = pre ++ post := by
  induction w generalizing w' with
  | nil => cases h
  | cons e w ih =>
      rw [receive] at h
      split at h
      · next he =>
          cases h
          exact ⟨[], w, by rw [← he]; rfl, rfl⟩
      · obtain ⟨⟨y, w''⟩, hr, he⟩ := Option.map_eq_some_iff.mp h
        cases he
        obtain ⟨pre, post, rfl, rfl⟩ := ih hr
        exact ⟨e :: pre, post, rfl, rfl⟩

theorem mem_of_receive {k : κ} {x : α} {w w' : Channel κ α} (h : receive k w = some (x, w')) :
    (k, x) ∈ w := by
  obtain ⟨pre, post, rfl, _⟩ := receive_some h
  simp

theorem receive_subset {k : κ} {x : α} {w w' : Channel κ α} (h : receive k w = some (x, w')) {e : κ × α}
    (he : e ∈ w') : e ∈ w := by
  obtain ⟨pre, post, rfl, rfl⟩ := receive_some h
  rcases List.mem_append.mp he with he | he
  · exact List.mem_append_left _ he
  · exact List.mem_append_right _ (List.mem_cons_of_mem _ he)

theorem eq_or_mem_of_receive {k : κ} {x : α} {w w' : Channel κ α} (h : receive k w = some (x, w')) {e : κ × α}
    (he : e ∈ w) : e = (k, x) ∨ e ∈ w' := by
  obtain ⟨pre, post, rfl, rfl⟩ := receive_some h
  rcases List.mem_append.mp he with he | he
  · exact .inr (List.mem_append_left _ he)
  · exact (List.mem_cons.mp he).imp_right (List.mem_append_right _)

theorem countP_receive {k : κ} {x : α} {w w' : Channel κ α} (h : receive k w = some (x, w'))
    (p : κ × α → Bool) : w.countP p = w'.countP p + if p (k, x) then 1 else 0 := by
  obtain ⟨pre, post, rfl, rfl⟩ := receive_some h
  rw [List.countP_append, List.countP_append, List.countP_cons]
  omega

end Lib.Channel
