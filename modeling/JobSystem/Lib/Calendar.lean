import Mathlib.Algebra.GroupWithZero.Nat
import Mathlib.Algebra.Order.Group.Nat

namespace Lib.Calendar

def maxMicros : Nat := 315537897600000000

def isLeap (year : Nat) : Bool := year % 4 = 0 && (year % 100 ≠ 0 || year % 400 = 0)

def monthLengths (leap : Bool) : List Nat :=
  [31, if leap then 29 else 28, 31, 30, 31, 30, 31, 31, 30, 31, 30, 31]

/-- Month and day of the month of a zero-based day of the year. -/
def monthDay : List Nat → Nat → Nat × Nat
  | [], n => (1, n + 1)
  | len :: lens, n =>
      if n < len then (1, n + 1) else ((monthDay lens (n - len)).1 + 1, (monthDay lens (n - len)).2)

/-- Year and zero-based day of the year of a zero-based ordinal, by cycles of
400, 100, 4 and 1 years. The last day of a cycle belongs to its last year. -/
def yearDay (n : Nat) : Nat × Nat :=
  let n400 := n / 146097
  let r400 := n % 146097
  let n100 := min (r400 / 36524) 3
  let r100 := r400 - n100 * 36524
  let n4 := r100 / 1461
  let r4 := r100 % 1461
  let n1 := min (r4 / 365) 3
  (n400 * 400 + n100 * 100 + n4 * 4 + n1 + 1, r4 - n1 * 365)

def digit (n : Nat) : Char := Char.ofNat (48 + n % 10)

def pad : Nat → Nat → List Char
  | 0, _ => []
  | width + 1, n => pad width (n / 10) ++ [digit n]

def dateText (days : Nat) : List Char :=
  let (year, day) := yearDay days
  let (month, dayOfMonth) := monthDay (monthLengths (isLeap year)) day
  pad 4 year ++ '-' :: pad 2 month ++ '-' :: pad 2 dayOfMonth

def timeText (seconds : Nat) : List Char :=
  pad 2 (seconds / 3600) ++ ':' :: pad 2 (seconds / 60 % 60) ++ ':' :: pad 2 (seconds % 60)

def fractionText (micros : Nat) : List Char := if micros = 0 then [] else '.' :: pad 6 micros

/-- The ISO 8601 text of a moment in UTC, given in microseconds from year 1. -/
def isoformat (t : Nat) : String :=
  String.ofList (dateText (t / 86400000000) ++ 'T' :: timeText (t / 1000000 % 86400) ++
    fractionText (t % 1000000) ++ ['+', '0', '0', ':', '0', '0'])

example : isoformat 63839664000000000 = "2024-01-01T00:00:00+00:00" := by decide

example : isoformat 63844847999000001 = "2024-02-29T23:59:59.000001+00:00" := by decide

def yearStart (year : Nat) : Nat :=
  365 * (year - 1) + (year - 1) / 4 - (year - 1) / 100 + (year - 1) / 400

def yearLength (year : Nat) : Nat := if isLeap year then 366 else 365

theorem yearStart_succ (y : Nat) : yearStart (y + 2) = yearStart (y + 1) + yearLength (y + 1) := by
  have hq : y / 100 ≤ y / 4 := Nat.div_le_div_left (by decide) (by decide)
  have hstep : ∀ k, (y + 1) / k = y / k + if k ∣ y + 1 then 1 else 0 := fun k => Nat.succ_div
  simp only [yearStart, yearLength, isLeap, Nat.add_sub_cancel, Nat.reduceSubDiff, hstep,
    Bool.and_eq_true, Bool.or_eq_true, decide_eq_true_eq, ← Nat.dvd_iff_mod_eq_zero, ne_eq]
  by_cases h4 : 4 ∣ y + 1
  · by_cases h100 : 100 ∣ y + 1
    · by_cases h400 : 400 ∣ y + 1
      · simp only [h4, h100, h400, if_true, not_true_eq_false, or_true, and_self]
        omega
      · simp only [h4, h100, h400, if_true, not_true_eq_false, or_self, and_false, if_false]
        omega
    · have h400 : ¬ 400 ∣ y + 1 := fun h => h100 (Nat.dvd_trans (by decide) h)
      simp only [h4, h100, h400, if_true, not_false_eq_true, true_or, and_self, if_false]
      omega
  · have h100 : ¬ 100 ∣ y + 1 := fun h => h4 (Nat.dvd_trans (by decide) h)
    have h400 : ¬ 400 ∣ y + 1 := fun h => h4 (Nat.dvd_trans (by decide) h)
    simp only [h4, h100, h400, if_false, false_and]
    omega

theorem yearStart_lt {y z : Nat} (hy : 0 < y) (h : y < z) :
    yearStart y + yearLength y ≤ yearStart z := by
  obtain ⟨k, rfl⟩ := Nat.exists_eq_add_of_lt h
  obtain ⟨y, rfl⟩ := Nat.exists_eq_succ_of_ne_zero (Nat.ne_of_gt hy)
  induction k with
  | zero => exact (yearStart_succ y).ge
  | succ k ih =>
      have hk := ih (by omega)
      have hs := yearStart_succ (y + 1 + k)
      rw [show y + 1 + k + 2 = y + 1 + (k + 1) + 1 by omega] at hs
      rw [Nat.succ_eq_add_one] at hk ⊢
      omega

/-- Day `n` lies in cycles `a`, `b`, `c`, `d` of 400, 100, 4 and 1 years. -/
structure Cycles (n a b c d e : Nat) : Prop where
  day : n = 146097 * a + 36524 * b + 1461 * c + 365 * d + e
  century : b ≤ 3
  four : c ≤ 24
  one : d ≤ 3
  rest : e ≤ 365
  last : e = 365 → d = 3 ∧ (c = 24 → b = 3)

theorem yearDay_cycles (n : Nat) : ∃ a b c d e, Cycles n a b c d e ∧
    yearDay n = (400 * a + 100 * b + 4 * c + d + 1, e) := by
  obtain ⟨b, hbe, hb⟩ : ∃ b, b = min (n % 146097 / 36524) 3 ∧ b ≤ 3 ∧ 36524 * b ≤ n % 146097 ∧
      n % 146097 - 36524 * b ≤ 36524 ∧ (b < 3 → n % 146097 - 36524 * b ≤ 36523) := ⟨_, rfl, by omega⟩
  obtain ⟨r, hr⟩ : ∃ r, r = n % 146097 - 36524 * b := ⟨_, rfl⟩
  obtain ⟨d, hde, hd⟩ : ∃ d, d = min (r % 1461 / 365) 3 ∧ d ≤ 3 ∧ 365 * d ≤ r % 1461 :=
    ⟨_, rfl, by omega⟩
  refine ⟨n / 146097, b, r / 1461, d, r % 1461 - 365 * d, ⟨?_, ?_, ?_, ?_, ?_, ?_⟩, ?_⟩
  · omega
  · omega
  · omega
  · omega
  · omega
  · omega
  · simp only [yearDay, ← hbe, Nat.mul_comm b, ← hr, ← hde]
    rw [Nat.mul_comm d]
    simp only [Prod.mk.injEq, and_true]
    omega

theorem Cycles.spec {n a b c d e : Nat} (h : Cycles n a b c d e) :
    yearStart (400 * a + 100 * b + 4 * c + d + 1) + e = n ∧
      e < yearLength (400 * a + 100 * b + 4 * c + d + 1) := by
  obtain ⟨hn, hb, hc, hd, he, hl⟩ := h
  have h4 : (400 * a + 100 * b + 4 * c + d) / 4 = 100 * a + 25 * b + c := by omega
  have h100 : (400 * a + 100 * b + 4 * c + d) / 100 = 4 * a + b := by omega
  have h400 : (400 * a + 100 * b + 4 * c + d) / 400 = a := by omega
  constructor
  · simp only [yearStart, Nat.add_sub_cancel, h4, h100, h400]
    omega
  · simp only [yearLength, isLeap, Bool.and_eq_true, Bool.or_eq_true, decide_eq_true_eq]
    split
    · omega
    · next hleap =>
        have hne : e ≠ 365 := by
          intro h365
          obtain ⟨rfl, hcb⟩ := hl h365
          apply hleap
          refine ⟨by omega, ?_⟩
          by_cases h24 : c = 24
          · have := hcb h24
            exact .inr (by omega)
          · exact .inl (by omega)
        omega

theorem yearDay_spec (n : Nat) : 0 < (yearDay n).1 ∧ yearStart (yearDay n).1 + (yearDay n).2 = n ∧
    (yearDay n).2 < yearLength (yearDay n).1 := by
  obtain ⟨a, b, c, d, e, hc, hn⟩ := yearDay_cycles n
  rw [hn]
  exact ⟨Nat.succ_pos _, hc.spec⟩

theorem yearDay_lt {m n : Nat} (h : m < n) : (yearDay m).1 < (yearDay n).1 ∨
    ((yearDay m).1 = (yearDay n).1 ∧ (yearDay m).2 < (yearDay n).2) := by
  obtain ⟨_, hm, _⟩ := yearDay_spec m
  obtain ⟨hpos, hn, hlen⟩ := yearDay_spec n
  rcases lt_trichotomy (yearDay m).1 (yearDay n).1 with hlt | heq | hgt
  · exact .inl hlt
  · rw [heq] at hm
    exact .inr ⟨heq, by omega⟩
  · have := yearStart_lt hpos hgt
    omega

theorem monthDay_lt {lens : List Nat} {m n : Nat} (h : m < n) :
    (monthDay lens m).1 < (monthDay lens n).1 ∨
      ((monthDay lens m).1 = (monthDay lens n).1 ∧ (monthDay lens m).2 < (monthDay lens n).2) := by
  induction lens generalizing m n with
  | nil => exact .inr ⟨rfl, Nat.succ_lt_succ h⟩
  | cons len lens ih =>
      have hpos : ∀ k, 0 < (monthDay lens k).1 := by
        intro k
        cases lens with
        | nil => exact Nat.one_pos
        | cons => rw [monthDay]; split <;> exact Nat.succ_pos _
      rw [monthDay, monthDay]
      by_cases hn : n < len
      · rw [if_pos (by omega), if_pos hn]
        exact .inr ⟨rfl, Nat.succ_lt_succ h⟩
      · rw [if_neg hn]
        by_cases hm : m < len
        · rw [if_pos hm]
          exact .inl (Nat.succ_lt_succ (hpos _))
        · rw [if_neg hm]
          rcases ih (m := m - len) (n := n - len) (by omega) with h | ⟨h, h'⟩
          · exact .inl (Nat.succ_lt_succ h)
          · exact .inr ⟨congrArg (· + 1) h, h'⟩

theorem monthDay_le {lens : List Nat} {n : Nat} (hlen : ∀ len ∈ lens, len ≤ 31) (h : n < lens.sum) :
    (monthDay lens n).1 ≤ lens.length ∧ (monthDay lens n).2 ≤ 31 := by
  induction lens generalizing n with
  | nil => simp at h
  | cons len lens ih =>
      have hl := hlen len List.mem_cons_self
      rw [monthDay]
      split
      · simp only [List.length_cons]
        omega
      · rw [List.sum_cons] at h
        obtain ⟨h1, h2⟩ := ih (fun x hx => hlen x (List.mem_cons_of_mem _ hx)) (n := n - len) (by omega)
        simp only [List.length_cons]
        omega

theorem date_le (n : Nat) : (monthDay (monthLengths (isLeap (yearDay n).1)) (yearDay n).2).1 ≤ 12 ∧
    (monthDay (monthLengths (isLeap (yearDay n).1)) (yearDay n).2).2 ≤ 31 := by
  obtain ⟨_, _, hlen⟩ := yearDay_spec n
  rw [yearLength] at hlen
  apply monthDay_le
  · cases isLeap (yearDay n).1 <;> decide
  · cases hl : isLeap (yearDay n).1 <;> rw [hl] at hlen <;> exact hlen

/-- A shared width of the first parts, and the order of two texts is that of their parts. -/
theorem append_lt_append {l₁ l₂ r₁ r₂ : List Char} (hl : l₁.length = l₂.length)
    (h : l₁ < l₂ ∨ (l₁ = l₂ ∧ r₁ < r₂)) : l₁ ++ r₁ < l₂ ++ r₂ := by
  rcases h with h | ⟨rfl, h⟩
  · induction h with
    | nil => cases hl
    | rel hab => exact List.Lex.rel hab
    | cons _ ih => exact List.Lex.cons (ih (Nat.succ.inj hl))
  · exact List.append_left_lt h

@[simp] theorem length_pad (width n : Nat) : (pad width n).length = width := by
  induction width generalizing n with
  | zero => rfl
  | succ width ih => rw [pad, List.length_append, ih]; rfl

theorem digit_lt {a b : Nat} (h : a % 10 < b % 10) : digit a < digit b := by
  have hfin : ∀ x y : Fin 10, x < y → Char.ofNat (48 + x.val) < Char.ofNat (48 + y.val) := by decide
  exact hfin ⟨a % 10, Nat.mod_lt _ (by decide)⟩ ⟨b % 10, Nat.mod_lt _ (by decide)⟩ h

theorem pad_lt {width a b : Nat} (h : a < b) (hb : b < 10 ^ width) : pad width a < pad width b := by
  induction width generalizing a b with
  | zero => omega
  | succ width ih =>
      rw [pad, pad]
      apply append_lt_append (by rw [length_pad, length_pad])
      rw [Nat.pow_succ] at hb
      by_cases hq : a / 10 = b / 10
      · exact .inr ⟨by rw [hq], List.Lex.rel (digit_lt (by omega))⟩
      · exact .inl (ih (by omega) (by omega))

theorem field_lt {width a b : Nat} {r₁ r₂ : List Char} (hb : b < 10 ^ width)
    (h : a < b ∨ (a = b ∧ r₁ < r₂)) : pad width a ++ r₁ < pad width b ++ r₂ := by
  apply append_lt_append (by rw [length_pad, length_pad])
  rcases h with h | ⟨rfl, h⟩
  · exact .inl (pad_lt h hb)
  · exact .inr ⟨rfl, h⟩

@[simp] theorem length_dateText (n : Nat) : (dateText n).length = 10 := by
  simp [dateText]

@[simp] theorem length_timeText (n : Nat) : (timeText n).length = 8 := by
  simp [timeText]

theorem dateText_lt {m n : Nat} (h : m < n) (hn : (yearDay n).1 < 10000) : dateText m < dateText n := by
  obtain ⟨hmonth, hday⟩ := date_le n
  simp only [dateText, List.append_assoc, List.cons_append]
  apply field_lt hn
  rcases yearDay_lt h with hy | ⟨hy, hd⟩
  · exact .inl hy
  · refine .inr ⟨hy, List.Lex.cons ?_⟩
    rw [hy]
    apply field_lt (by omega)
    rcases monthDay_lt hd with hm | ⟨hm, hd⟩
    · exact .inl hm
    · exact .inr ⟨hm, List.Lex.cons (pad_lt hd (by omega))⟩

theorem timeText_lt {m n : Nat} (h : m < n) (hn : n < 86400) : timeText m < timeText n := by
  simp only [timeText, List.append_assoc, List.cons_append]
  apply field_lt (by omega)
  by_cases hh : m / 3600 = n / 3600
  · refine .inr ⟨hh, List.Lex.cons (field_lt (by omega) ?_)⟩
    by_cases hm : m / 60 % 60 = n / 60 % 60
    · exact .inr ⟨hm, List.Lex.cons (pad_lt (by omega) (by omega))⟩
    · exact .inl (by omega)
  · exact .inl (by omega)

/-- The sign of the offset comes before the point of a fraction. -/
theorem fractionText_lt {m n : Nat} (h : m < n) (hn : n < 1000000) :
    fractionText m ++ ['+', '0', '0', ':', '0', '0'] < fractionText n ++ ['+', '0', '0', ':', '0', '0'] := by
  rw [fractionText, fractionText, if_neg (by omega : ¬ n = 0)]
  split
  · exact List.Lex.rel (by decide)
  · exact List.Lex.cons (field_lt hn (.inl h))

/-- The order of the texts is the order of the moments. -/
theorem isoformat_lt {s t : Nat} (h : s < t) (ht : t < maxMicros) : isoformat s < isoformat t := by
  have hyear : (yearDay (t / 86400000000)).1 < 10000 := by
    obtain ⟨_, hn, _⟩ := yearDay_spec (t / 86400000000)
    rw [maxMicros] at ht
    by_contra hy
    have := yearStart_lt (y := 9999) (by decide) (Nat.lt_of_lt_of_le (by decide) (Nat.le_of_not_lt hy))
    have h9999 : yearStart 9999 + yearLength 9999 = 3652059 := by decide
    omega
  rw [isoformat, isoformat, String.lt_iff, String.toList_ofList, String.toList_ofList]
  simp only [List.append_assoc, List.cons_append]
  apply append_lt_append (by rw [length_dateText, length_dateText])
  by_cases hd : s / 86400000000 = t / 86400000000
  · refine .inr ⟨by rw [hd], List.Lex.cons (append_lt_append (by rw [length_timeText, length_timeText]) ?_)⟩
    by_cases hs : s / 1000000 % 86400 = t / 1000000 % 86400
    · exact .inr ⟨by rw [hs], fractionText_lt (by omega) (by omega)⟩
    · exact .inl (timeText_lt (by omega) (by omega))
  · exact .inl (dateText_lt (by omega) hyear)

end Lib.Calendar
