import Mathlib.Data.List.Sort

namespace Lib

variable {α κ : Type} [LinearOrder κ]

/-- A stable sort by a key: entries with equal keys keep their order. -/
def sorted (key : α → κ) (xs : List α) : List α := xs.insertionSort fun a b => key a ≤ key b

def sortedReverse (key : α → κ) (xs : List α) : List α := xs.insertionSort fun a b => key b ≤ key a

@[simp] theorem mem_sorted {key : α → κ} {xs : List α} {a : α} : a ∈ sorted key xs ↔ a ∈ xs :=
  (List.perm_insertionSort _ xs).mem_iff

@[simp] theorem mem_sortedReverse {key : α → κ} {xs : List α} {a : α} :
    a ∈ sortedReverse key xs ↔ a ∈ xs :=
  (List.perm_insertionSort _ xs).mem_iff

theorem sortedReverse_perm (key : α → κ) (xs : List α) : (sortedReverse key xs).Perm xs :=
  List.perm_insertionSort _ xs

theorem sortedReverse_map {β : Type} (key : β → κ) (f : α → β) (xs : List α) :
    sortedReverse key (xs.map f) = (sortedReverse (fun a => key (f a)) xs).map f :=
  (List.map_insertionSort _ _ f xs fun _ _ _ _ => Iff.rfl).symm

theorem sortedReverse_pairwise (key : α → κ) (xs : List α) :
    (sortedReverse key xs).Pairwise fun a b => key b ≤ key a := by
  have : Std.Total fun a b : α => key b ≤ key a := ⟨fun a b => le_total (key b) (key a)⟩
  have : IsTrans α fun a b : α => key b ≤ key a := ⟨fun _ _ _ hab hbc => le_trans hbc hab⟩
  exact List.pairwise_insertionSort _ xs

/-- With keys of their own, entries come out in the same order however they went in. -/
theorem sortedReverse_eq_of_perm {key : α → κ} {xs ys : List α} (hperm : xs.Perm ys)
    (hkey : ∀ a ∈ xs, ∀ b ∈ xs, key a = key b → a = b) : sortedReverse key xs = sortedReverse key ys := by
  have hsorted : (sortedReverse key xs).Perm (sortedReverse key ys) :=
    (sortedReverse_perm key xs).trans (hperm.trans (sortedReverse_perm key ys).symm)
  refine hsorted.eq_of_pairwise (fun a b ha hb hab hba => ?_) (sortedReverse_pairwise key xs)
    (sortedReverse_pairwise key ys)
  exact hkey a (mem_sortedReverse.mp ha) b (hperm.mem_iff.mpr (mem_sortedReverse.mp hb)) (le_antisymm hba hab)

theorem sorted_map {β : Type} (key : β → κ) (f : α → β) (xs : List α) :
    sorted key (xs.map f) = (sorted (fun a => key (f a)) xs).map f :=
  (List.map_insertionSort _ _ f xs fun _ _ _ _ => Iff.rfl).symm

theorem sorted_perm (key : α → κ) (xs : List α) : (sorted key xs).Perm xs := List.perm_insertionSort _ xs

theorem sorted_eq_self {key : α → κ} {xs : List α} (h : xs.Pairwise fun a b => key a ≤ key b) : sorted key xs = xs :=
  h.insertionSort_eq

theorem sorted_head_le {key : α → κ} {xs : List α} {a : α} (h : (sorted key xs).head? = some a) :
    ∀ b ∈ xs, key a ≤ key b := by
  intro b hb
  have : Std.Total fun a b : α => key a ≤ key b := ⟨fun a b => le_total (key a) (key b)⟩
  have : IsTrans α fun a b : α => key a ≤ key b := ⟨fun _ _ _ => le_trans⟩
  have hsorted : (sorted key xs).Pairwise fun a b => key a ≤ key b := List.pairwise_insertionSort _ xs
  obtain ⟨rest, hrest⟩ := List.head?_eq_some_iff.mp h
  have hmem : b ∈ sorted key xs := mem_sorted.mpr hb
  rw [hrest] at hsorted hmem
  rcases List.mem_cons.mp hmem with rfl | hmem
  · exact le_rfl
  · exact (List.pairwise_cons.mp hsorted).1 b hmem

/-- The sort is stable: what comes first has no equal in front of it. -/
theorem sorted_head_first {key : α → κ} {xs : List α} {a b : α} (h : (sorted key xs).head? = some a)
    (hnd : xs.Nodup) (hba : [b, a].Sublist xs) : ¬ key b ≤ key a := by
  intro hle
  have hsub : [b, a].Sublist (sorted key xs) :=
    List.pair_sublist_insertionSort (show (fun a b : α => key a ≤ key b) b a from hle) hba
  obtain ⟨rest, hrest⟩ := List.head?_eq_some_iff.mp h
  have hnd' : (sorted key xs).Nodup := (sorted_perm key xs).nodup_iff.mpr hnd
  rw [hrest] at hsub hnd'
  have ha : a ∈ rest := by
    cases hsub with
    | cons _ hsub => exact hsub.subset (by simp)
    | cons_cons _ hsub => exact hsub.subset (by simp)
  exact (List.nodup_cons.mp hnd').1 ha

theorem pair_sublist_sortedReverse {key : α → κ} {xs : List α} {a b : α} (hle : key b ≤ key a)
    (h : [a, b].Sublist xs) : [a, b].Sublist (sortedReverse key xs) :=
  List.pair_sublist_insertionSort (show (fun a b : α => key b ≤ key a) a b from hle) h

/-- Entries with increasing keys come out in the opposite order. -/
theorem sortedReverse_eq_reverse {key : α → κ} {xs : List α} (h : xs.Pairwise fun a b => key a < key b) :
    sortedReverse key xs = xs.reverse := by
  have hlast : ∀ (a : α) (ys : List α), (∀ b ∈ ys, key a < key b) →
      ys.orderedInsert (fun a b => key b ≤ key a) a = ys ++ [a] := by
    intro a ys hys
    induction ys with
    | nil => rfl
    | cons b ys ih =>
        have hb : ¬ key b ≤ key a := not_le.mpr (hys b List.mem_cons_self)
        rw [List.orderedInsert, if_neg hb, ih fun c hc => hys c (List.mem_cons_of_mem _ hc)]
        rfl
  induction xs with
  | nil => rfl
  | cons a xs ih =>
      obtain ⟨ha, hxs⟩ := List.pairwise_cons.mp h
      have hrev : xs.insertionSort (fun a b => key b ≤ key a) = xs.reverse := ih hxs
      rw [sortedReverse, List.insertionSort_cons, hrev, List.reverse_cons]
      exact hlast a xs.reverse fun b hb => ha b (List.mem_reverse.mp hb)

end Lib
