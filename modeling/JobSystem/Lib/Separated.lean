import Mathlib.Data.List.Basic

namespace Lib

variable {α : Type}

/-- In a history, newest entry first: some `p` has no `q` after it. -/
def Unanswered (p q : α → Prop) (h : List α) : Prop :=
  ∃ h₁ x h₂, h = h₁ ++ x :: h₂ ∧ p x ∧ ∀ z ∈ h₁, ¬ q z

def Separated (p q : α → Prop) (h : List α) : Prop :=
  ∀ h₁ x h₂ y h₃, h = h₁ ++ x :: (h₂ ++ y :: h₃) → p x → p y → ∃ z ∈ h₂, q z

variable {p q : α → Prop} {h : List α} {x : α}

theorem unanswered_nil : ¬ Unanswered p q [] := by
  rintro ⟨h₁, x, h₂, he, _⟩
  simp at he

theorem unanswered_cons : Unanswered p q (x :: h) ↔ p x ∨ (¬ q x ∧ Unanswered p q h) := by
  constructor
  · rintro ⟨h₁, y, h₂, he, hy, hq⟩
    cases h₁ with
    | nil => cases he; exact .inl hy
    | cons z h₁ =>
        cases he
        exact .inr ⟨hq x List.mem_cons_self, h₁, y, h₂, rfl, hy, fun z hz => hq z (List.mem_cons_of_mem _ hz)⟩
  · rintro (hx | ⟨hx, h₁, y, h₂, rfl, hy, hq⟩)
    · exact ⟨[], x, h, rfl, hx, by simp⟩
    · exact ⟨x :: h₁, y, h₂, rfl, hy, by simpa using ⟨hx, hq⟩⟩

instance decidableUnanswered [DecidablePred p] [DecidablePred q] :
    ∀ h : List α, Decidable (Unanswered p q h)
      | [] => isFalse unanswered_nil
      | _ :: h => have := decidableUnanswered h; decidable_of_iff _ unanswered_cons.symm

/-- The same, in the order of time: every `p` has a `q` after it. -/
theorem not_unanswered_reverse : ¬ Unanswered p q h.reverse ↔
    ∀ h₁ x h₂, h = h₁ ++ x :: h₂ → p x → ∃ z ∈ h₂, q z := by
  constructor
  · rintro hu h₁ x h₂ rfl hx
    by_contra hno
    refine hu ⟨h₂.reverse, x, h₁.reverse, by simp, hx, fun z hz hq => hno ⟨z, List.mem_reverse.mp hz, hq⟩⟩
  · rintro hall ⟨h₁, x, h₂, he, hx, hno⟩
    have he' : h = h₂.reverse ++ x :: h₁.reverse := by
      rw [← List.reverse_reverse h, he]
      simp
    obtain ⟨z, hz, hq⟩ := hall _ x _ he' hx
    exact hno z (List.mem_reverse.mp hz) hq

theorem separated_nil : Separated p q [] := by
  intro h₁ x h₂ y h₃ he
  simp at he

/-- A new `p` needs every earlier one answered. -/
theorem separated_cons : Separated p q (x :: h) ↔ (p x → ¬ Unanswered p q h) ∧ Separated p q h := by
  constructor
  · intro hs
    refine ⟨?_, fun h₁ a h₂ b h₃ he => hs (x :: h₁) a h₂ b h₃ (by rw [he]; rfl)⟩
    rintro hx ⟨h₁, y, h₂, rfl, hy, hq⟩
    obtain ⟨z, hz, hqz⟩ := hs [] x h₁ y h₂ rfl hx hy
    exact hq z hz hqz
  · rintro ⟨hx, hs⟩ h₁ a h₂ b h₃ he ha hb
    cases h₁ with
    | cons c h₁ => cases he; exact hs h₁ a h₂ b h₃ rfl ha hb
    | nil =>
        cases he
        by_contra hno
        exact hx ha ⟨h₂, b, h₃, rfl, hb, fun z hz hqz => hno ⟨z, hz, hqz⟩⟩

end Lib
