import Mathlib.Data.List.Nodup

namespace Lib

/-- An insertion-ordered dictionary. Binding a key again keeps its position. -/
structure Dict (κ ν : Type) where
  entries : List (κ × ν)
  nodup : (entries.map Prod.fst).Nodup
  deriving DecidableEq

namespace Dict

variable {κ ν : Type}

def empty : Dict κ ν := ⟨[], List.nodup_nil⟩

def values (d : Dict κ ν) : List ν := d.entries.map Prod.snd

variable [DecidableEq κ]

def lookup (k : κ) : List (κ × ν) → Option ν
  | [] => none
  | e :: es => if e.1 = k then some e.2 else lookup k es

def insert (k : κ) (v : ν) : List (κ × ν) → List (κ × ν)
  | [] => [(k, v)]
  | e :: es => if e.1 = k then (k, v) :: es else e :: insert k v es

theorem keys_insert (k : κ) (v : ν) (es : List (κ × ν)) :
    (insert k v es).map Prod.fst =
      if k ∈ es.map Prod.fst then es.map Prod.fst else es.map Prod.fst ++ [k] := by
  induction es with
  | nil => rfl
  | cons e es ih =>
      by_cases he : e.1 = k
      · subst k; simp [insert]
      · have hk : ¬ k = e.1 := fun h => he h.symm
        by_cases hm : k ∈ es.map Prod.fst <;>
          simp only [insert, he, if_false, List.map_cons, ih, hm, List.mem_cons, hk,
            false_or, if_true, List.cons_append]

theorem lookup_insert (k k' : κ) (v : ν) (es : List (κ × ν)) :
    lookup k' (insert k v es) = if k' = k then some v else lookup k' es := by
  induction es with
  | nil => simp [insert, lookup, eq_comm]
  | cons e es ih =>
      by_cases he : e.1 = k
      · subst k; simp only [insert, if_true, lookup, eq_comm]; split <;> rfl
      · by_cases hk : e.1 = k'
        · subst k'; simp [insert, lookup, he]
        · simp only [insert, he, if_false, lookup, hk, ih]

theorem lookup_filter (k k' : κ) (es : List (κ × ν)) :
    lookup k' (es.filter fun e => !decide (e.1 = k)) = if k' = k then none else lookup k' es := by
  induction es with
  | nil => simp [lookup]
  | cons e es ih =>
      by_cases he : e.1 = k
      · subst k
        by_cases hk : e.1 = k'
        · subst k'; simpa using ih
        · simpa [lookup, hk] using ih
      · by_cases hk : e.1 = k'
        · subst k'; simp [lookup, he]
        · simpa [lookup, he, hk] using ih

theorem lookup_eq_some {k : κ} {v : ν} {es : List (κ × ν)} (hn : (es.map Prod.fst).Nodup) :
    lookup k es = some v ↔ (k, v) ∈ es := by
  induction es with
  | nil => simp [lookup]
  | cons e es ih =>
      obtain ⟨a, b⟩ := e
      rw [List.map_cons, List.nodup_cons] at hn
      by_cases he : a = k
      · subst k
        have hfresh : (a, v) ∉ es := fun hw => hn.1 (List.mem_map.mpr ⟨_, hw, rfl⟩)
        simp [lookup, hfresh, eq_comm]
      · have hne : ¬ k = a := fun h => he h.symm
        simp [lookup, he, ih hn.2, hne]

def get (d : Dict κ ν) (k : κ) : Option ν := lookup k d.entries

def contains (d : Dict κ ν) (k : κ) : Bool := (d.get k).isSome

theorem nodup_insert (k : κ) (v : ν) {es : List (κ × ν)} (hn : (es.map Prod.fst).Nodup) :
    ((insert k v es).map Prod.fst).Nodup := by
  rw [keys_insert]
  split
  · exact hn
  · next hk => exact List.nodup_append.mpr ⟨hn, by simp, fun a ha b hb hab =>
      hk (by rw [List.mem_singleton] at hb; rwa [← hb, ← hab])⟩

def set (d : Dict κ ν) (k : κ) (v : ν) : Dict κ ν :=
  ⟨insert k v d.entries, nodup_insert k v d.nodup⟩

/-- Removal that ignores a missing key: `d.pop(k, None)`. -/
def pop (d : Dict κ ν) (k : κ) : Dict κ ν where
  entries := d.entries.filter fun e => !decide (e.1 = k)
  nodup := (List.Sublist.map _ List.filter_sublist).nodup d.nodup

@[simp] theorem get_empty (k : κ) : (empty : Dict κ ν).get k = none := rfl

theorem get_set (d : Dict κ ν) (k k' : κ) (v : ν) :
    (d.set k v).get k' = if k' = k then some v else d.get k' := lookup_insert k k' v d.entries

@[simp] theorem get_set_self (d : Dict κ ν) (k : κ) (v : ν) : (d.set k v).get k = some v := by
  simp [get_set]

theorem get_pop (d : Dict κ ν) (k k' : κ) :
    (d.pop k).get k' = if k' = k then none else d.get k' := lookup_filter k k' d.entries

theorem get_of_get_pop {d : Dict κ ν} {k k' : κ} {v : ν} (h : (d.pop k).get k' = some v) :
    d.get k' = some v := by
  rw [get_pop] at h
  split at h
  · cases h
  · exact h

theorem mem_values {d : Dict κ ν} {v : ν} : v ∈ d.values ↔ ∃ k, d.get k = some v := by
  simp only [values, List.mem_map, Prod.exists, exists_eq_right, get, lookup_eq_some d.nodup]

def keys (d : Dict κ ν) : List κ := d.entries.map Prod.fst

theorem mem_keys {d : Dict κ ν} {k : κ} : k ∈ d.keys ↔ (d.get k).isSome := by
  simp only [keys, List.mem_map, Prod.exists, exists_and_right, exists_eq_right, Option.isSome_iff_exists, get,
    lookup_eq_some d.nodup]

theorem values_eq (d : Dict κ ν) : d.values = d.keys.filterMap d.get := by
  rw [values, keys, List.filterMap_map, ← List.filterMap_eq_map]
  refine List.filterMap_congr fun e he => ?_
  exact ((lookup_eq_some d.nodup).mpr he).symm

theorem keys_set (d : Dict κ ν) (k : κ) (v : ν) : d.keys <+: (d.set k v).keys := by
  change d.keys <+: (insert k v d.entries).map Prod.fst
  rw [keys_insert]
  split
  · exact List.prefix_rfl
  · exact List.prefix_append _ _

section Map

variable {κ' ν' : Type}

omit [DecidableEq κ] in
theorem nodup_map {f : κ → κ'} (hf : Function.Injective f) (g : ν → ν') {es : List (κ × ν)}
    (hn : (es.map Prod.fst).Nodup) : ((es.map fun e => (f e.1, g e.2)).map Prod.fst).Nodup := by
  rw [List.map_map]
  have hmap : es.map (Prod.fst ∘ fun e => (f e.1, g e.2)) = (es.map Prod.fst).map f := by
    rw [List.map_map]
    rfl
  rw [hmap]
  exact hn.map hf

def map (f : κ → κ') (hf : Function.Injective f) (g : ν → ν') (d : Dict κ ν) : Dict κ' ν' :=
  ⟨d.entries.map fun e => (f e.1, g e.2), nodup_map hf g d.nodup⟩

variable [DecidableEq κ']

theorem lookup_map {f : κ → κ'} (hf : Function.Injective f) (g : ν → ν') (k : κ) (es : List (κ × ν)) :
    lookup (f k) (es.map fun e => (f e.1, g e.2)) = (lookup k es).map g := by
  induction es with
  | nil => rfl
  | cons e es ih =>
      rw [List.map_cons, lookup, lookup, ih]
      by_cases he : e.1 = k
      · rw [if_pos he, if_pos (congrArg f he)]
        rfl
      · rw [if_neg he, if_neg fun h => he (hf h)]

theorem get_map {f : κ → κ'} {hf : Function.Injective f} {g : ν → ν'} (d : Dict κ ν) (k : κ) :
    (d.map f hf g).get (f k) = (d.get k).map g := lookup_map hf g k d.entries

omit [DecidableEq κ] in
theorem get_map_of_ne {f : κ → κ'} {hf : Function.Injective f} {g : ν → ν'} (d : Dict κ ν) {k : κ'}
    (hk : ∀ k', f k' ≠ k) : (d.map f hf g).get k = none := by
  change lookup k (d.entries.map fun e => (f e.1, g e.2)) = none
  induction d.entries with
  | nil => rfl
  | cons e es ih => rw [List.map_cons, lookup, if_neg (hk e.1), ih]

end Map

section Keyed

variable (key : ν → κ) {es : List (κ × ν)}

/-- With every value bound to its own key, a lookup is a search among the values. -/
theorem lookup_eq_find (hk : ∀ e ∈ es, key e.2 = e.1) (k : κ) :
    lookup k es = (es.map Prod.snd).find? fun v => key v = k := by
  induction es with
  | nil => rfl
  | cons e es ih =>
      rw [lookup, List.map_cons, List.find?_cons, ih fun e he => hk e (List.mem_cons_of_mem _ he),
        hk e List.mem_cons_self]
      by_cases he : e.1 = k <;> simp [he]

theorem snd_insert (hk : ∀ e ∈ es, key e.2 = e.1) (hn : (es.map Prod.fst).Nodup) (v : ν) :
    (insert (key v) v es).map Prod.snd =
      if (lookup (key v) es).isSome then (es.map Prod.snd).map (fun w => if key w = key v then v else w)
      else es.map Prod.snd ++ [v] := by
  induction es with
  | nil => rfl
  | cons e es ih =>
      have hke := hk e List.mem_cons_self
      have htail : ∀ e ∈ es, key e.2 = e.1 := fun e he => hk e (List.mem_cons_of_mem _ he)
      rw [List.map_cons, List.nodup_cons] at hn
      rw [insert, lookup, List.map_cons, List.map_cons, hke]
      by_cases he : e.1 = key v
      · have hsame :
            (es.map Prod.snd).map (fun w => if key w = key v then v else w) = es.map Prod.snd := by
          conv_rhs => rw [← List.map_id (es.map Prod.snd)]
          apply List.map_congr_left
          intro w hw
          obtain ⟨e', he', rfl⟩ := List.mem_map.mp hw
          have hne : ¬ key e'.2 = key v := by
            rw [htail e' he', ← he]
            intro hee
            exact hn.1 (List.mem_map.mpr ⟨e', he', hee⟩)
          exact if_neg hne
        simp only [he, if_true, Option.isSome_some, hsame, List.map_cons]
      · simp only [he, if_false, List.map_cons, ih htail hn.2]
        split <;> rfl

end Keyed

end Dict

end Lib
