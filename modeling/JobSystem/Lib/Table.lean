import Mathlib.Data.List.Nodup

namespace Lib

/-- A relational table: `pk` is its primary key and `ix` an index that is
unique on the rows where it is not null. -/
structure Table (ρ κ ι : Type) (pk : ρ → κ) (ix : ρ → Option ι) where
  rows : List ρ
  primary : (rows.map pk).Nodup
  unique : (rows.filterMap ix).Nodup

namespace Table

variable {ρ κ ι : Type} {pk : ρ → κ} {ix : ρ → Option ι}

def empty : Table ρ κ ι pk ix := ⟨[], List.nodup_nil, List.nodup_nil⟩

variable [DecidableEq κ] [DecidableEq ι]

def check (rows : List ρ) : Option (Table ρ κ ι pk ix) :=
  if h : (rows.map pk).Nodup ∧ (rows.filterMap ix).Nodup then some ⟨rows, h.1, h.2⟩ else none

def find (T : Table ρ κ ι pk ix) (k : κ) : Option ρ := T.rows.find? fun r => pk r = k

def findIndex (T : Table ρ κ ι pk ix) (i : ι) : Option ρ := T.rows.find? fun r => ix r = some i

/-- `INSERT INTO ... VALUES` -/
def insert (T : Table ρ κ ι pk ix) (r : ρ) : Option (Table ρ κ ι pk ix) := check (T.rows ++ [r])

/-- `UPDATE ... SET` every column `WHERE pk = ?` -/
def replace (T : Table ρ κ ι pk ix) (r : ρ) : Option (Table ρ κ ι pk ix) :=
  check (T.rows.map fun x => if pk x = pk r then r else x)

omit [DecidableEq κ] [DecidableEq ι] in
theorem filterMap_map_index {f : ρ → ρ} (hix : ∀ r, ix (f r) = ix r) (rows : List ρ) :
    (rows.map f).filterMap ix = rows.filterMap ix := by
  rw [List.filterMap_map]
  exact congrArg (fun g => rows.filterMap g) (funext hix)

omit [DecidableEq κ] [DecidableEq ι] in
theorem map_map_key {f : ρ → ρ} (hpk : ∀ r, pk (f r) = pk r) (rows : List ρ) :
    (rows.map f).map pk = rows.map pk := by
  rw [List.map_map]
  exact congrArg (fun g => rows.map g) (funext hpk)

/-- `UPDATE ... SET` of columns that carry no constraint -/
def modify (T : Table ρ κ ι pk ix) (f : ρ → ρ) (hpk : ∀ r, pk (f r) = pk r)
    (hix : ∀ r, ix (f r) = ix r) : Table ρ κ ι pk ix where
  rows := T.rows.map f
  primary := by rw [map_map_key hpk]; exact T.primary
  unique := by rw [filterMap_map_index hix]; exact T.unique

theorem check_rows {rows : List ρ} {T : Table ρ κ ι pk ix} (h : check rows = some T) :
    T.rows = rows := by
  rw [check] at h
  split at h
  · cases h; rfl
  · cases h

omit [DecidableEq ι] in
theorem find_mem {T : Table ρ κ ι pk ix} {k : κ} {r : ρ} (h : T.find k = some r) :
    r ∈ T.rows ∧ pk r = k :=
  ⟨List.mem_of_find?_eq_some h, by simpa using List.find?_some h⟩

omit [DecidableEq ι] in
theorem find_of_mem {T : Table ρ κ ι pk ix} {r : ρ} (hr : r ∈ T.rows) : T.find (pk r) = some r := by
  cases hf : T.find (pk r) with
  | none => simpa using List.find?_eq_none.mp hf r hr
  | some x =>
      obtain ⟨hx, hk⟩ := find_mem hf
      rw [List.inj_on_of_nodup_map T.primary hx hr hk]

omit [DecidableEq κ] in
theorem findIndex_mem {T : Table ρ κ ι pk ix} {i : ι} {r : ρ} (h : T.findIndex i = some r) :
    r ∈ T.rows ∧ ix r = some i :=
  ⟨List.mem_of_find?_eq_some h, by simpa using List.find?_some h⟩

omit [DecidableEq ι] in
theorem find_modify (T : Table ρ κ ι pk ix) (f : ρ → ρ) (hpk : ∀ r, pk (f r) = pk r)
    (hix : ∀ r, ix (f r) = ix r) (k : κ) : (T.modify f hpk hix).find k = (T.find k).map f := by
  simp only [find, modify, List.find?_map, Function.comp_def, hpk]

theorem find_insert {T T' : Table ρ κ ι pk ix} {r : ρ} (h : T.insert r = some T') (k : κ) :
    T'.find k = if k = pk r then some r else T.find k := by
  have hrows : T'.rows = T.rows ++ [r] := check_rows h
  have hr : r ∈ T'.rows := by rw [hrows]; simp
  split
  · next hk => subst k; exact find_of_mem hr
  · next hk =>
      have hne : ¬ pk r = k := fun he => hk he.symm
      rw [find, hrows, List.find?_append, find]
      simp [hne]

theorem insert_of_find {T : Table ρ κ ι pk ix} {r x : ρ} (h : T.find (pk r) = some x) :
    T.insert r = none := by
  obtain ⟨hx, hk⟩ := find_mem h
  refine dif_neg fun hc => ?_
  rw [List.map_append, List.nodup_append] at hc
  exact hc.1.2.2 (pk x) (List.mem_map_of_mem hx) (pk r) (by simp) hk

theorem insert_index {T T' : Table ρ κ ι pk ix} {r : ρ} (h : T.insert r = some T') {i : ι}
    (hi : ix r = some i) : T.findIndex i = none := by
  have hrows : T'.rows = T.rows ++ [r] := check_rows h
  have hnd := T'.unique
  rw [hrows, List.filterMap_append, List.nodup_append] at hnd
  refine List.find?_eq_none.mpr fun x hx => ?_
  have hne := hnd.2.2 i
  intro hxi
  refine hne ?_ i ?_ rfl
  · exact List.mem_filterMap.mpr ⟨x, hx, of_decide_eq_true hxi⟩
  · exact List.mem_filterMap.mpr ⟨r, List.mem_singleton_self r, hi⟩

theorem insert_of_findIndex {T : Table ρ κ ι pk ix} {r x : ρ} {i : ι} (hi : ix r = some i)
    (h : T.findIndex i = some x) : T.insert r = none := by
  cases hins : T.insert r with
  | none => rfl
  | some T' => cases (insert_index hins hi).symm.trans h

theorem exists_insert {T : Table ρ κ ι pk ix} {r : ρ} (hk : T.find (pk r) = none)
    (hi : ∀ i, ix r = some i → T.findIndex i = none) : ∃ T', T.insert r = some T' := by
  have hprimary : ((T.rows ++ [r]).map pk).Nodup := by
    rw [List.map_append, List.nodup_append]
    refine ⟨T.primary, List.nodup_singleton _, fun a ha b hb hab => ?_⟩
    obtain ⟨x, hx, rfl⟩ := List.mem_map.mp ha
    rw [List.map_singleton, List.mem_singleton] at hb
    exact List.find?_eq_none.mp hk x hx (decide_eq_true (hab.trans hb))
  have hunique : ((T.rows ++ [r]).filterMap ix).Nodup := by
    rw [List.filterMap_append, List.nodup_append]
    refine ⟨T.unique, ?_, fun a ha b hb hab => ?_⟩
    · cases hr : ix r <;> simp [hr]
    · obtain ⟨x, hx, hxa⟩ := List.mem_filterMap.mp ha
      obtain ⟨y, hy, hyb⟩ := List.mem_filterMap.mp hb
      rw [List.mem_singleton] at hy
      subst y
      exact List.find?_eq_none.mp (hi b hyb) x hx (decide_eq_true (hxa.trans (congrArg some hab)))
  exact ⟨⟨_, hprimary, hunique⟩, dif_pos ⟨hprimary, hunique⟩⟩

theorem exists_replace {T : Table ρ κ ι pk ix} {r x : ρ} (hx : T.find (pk r) = some x)
    (hix : ix x = ix r) : ∃ T', T.replace r = some T' := by
  have hrow : ∀ y ∈ T.rows, pk y = pk r → ix y = ix r := by
    intro y hy hk
    have hfind := find_of_mem hy
    rw [hk, hx] at hfind
    cases hfind
    exact hix
  have hprimary : ((T.rows.map fun y => if pk y = pk r then r else y).map pk) = T.rows.map pk := by
    rw [List.map_map]
    refine List.map_congr_left fun y _ => ?_
    rw [Function.comp_apply]
    split
    · next hk => exact hk.symm
    · rfl
  have hunique :
      ((T.rows.map fun y => if pk y = pk r then r else y).filterMap ix) = T.rows.filterMap ix := by
    rw [List.filterMap_map]
    refine List.filterMap_congr fun y hy => ?_
    rw [Function.comp_apply]
    split
    · next hk => exact (hrow y hy hk).symm
    · rfl
  exact ⟨_, dif_pos ⟨by rw [hprimary]; exact T.primary, by rw [hunique]; exact T.unique⟩⟩

/-- The whole-row update touches the one row that has the key, if any. -/
theorem find_replace {T T' : Table ρ κ ι pk ix} {r : ρ} (h : T.replace r = some T') (k : κ) :
    T'.find k = if k = pk r then (T.find k).map (fun _ => r) else T.find k := by
  have hrows : T'.rows = T.rows.map fun x => if pk x = pk r then r else x := check_rows h
  have hkey : ∀ x : ρ, pk (if pk x = pk r then r else x) = pk x := by
    intro x
    split
    · next hx => exact hx.symm
    · rfl
  rw [find, hrows, List.find?_map]
  simp only [Function.comp_def, hkey]
  cases hf : T.find k with
  | none =>
      rw [find] at hf
      rw [hf]
      split <;> rfl
  | some x =>
      have hx := (find_mem hf).2
      rw [find] at hf
      subst k
      rw [hf]
      by_cases he : pk x = pk r <;> simp [he]

section Map

variable {ρ' κ' ι' : Type} {pk' : ρ' → κ'} {ix' : ρ' → Option ι'}

/-- How the rows of one table are written as those of another: keys stay apart. -/
structure Coding (pk : ρ → κ) (ix : ρ → Option ι) (pk' : ρ' → κ') (ix' : ρ' → Option ι') where
  row : ρ → ρ'
  key : κ → κ'
  index : ι → ι'
  key_injective : Function.Injective key
  index_injective : Function.Injective index
  key_row : ∀ r, pk' (row r) = key (pk r)
  index_row : ∀ r, ix' (row r) = (ix r).map index

variable (c : Coding pk ix pk' ix')

omit [DecidableEq κ] [DecidableEq ι] in
theorem eq_of_rows {T T' : Table ρ κ ι pk ix} (h : T.rows = T'.rows) : T = T' := by
  cases T
  cases T'
  cases h
  rfl

omit [DecidableEq κ] [DecidableEq ι] in
theorem Coding.nodup_iff (rows : List ρ) :
    ((rows.map c.row).map pk').Nodup ∧ ((rows.map c.row).filterMap ix').Nodup ↔
      (rows.map pk).Nodup ∧ (rows.filterMap ix).Nodup := by
  have hkeys : (rows.map c.row).map pk' = (rows.map pk).map c.key := by
    rw [List.map_map, List.map_map]
    exact List.map_congr_left fun r _ => c.key_row r
  have hindex : (rows.map c.row).filterMap ix' = (rows.filterMap ix).map c.index := by
    rw [List.filterMap_map, List.map_filterMap]
    exact List.filterMap_congr fun r _ => c.index_row r
  rw [hkeys, hindex, List.nodup_map_iff c.key_injective, List.nodup_map_iff c.index_injective]

def Coding.table (T : Table ρ κ ι pk ix) : Table ρ' κ' ι' pk' ix' where
  rows := T.rows.map c.row
  primary := ((c.nodup_iff T.rows).mpr ⟨T.primary, T.unique⟩).1
  unique := ((c.nodup_iff T.rows).mpr ⟨T.primary, T.unique⟩).2

variable [DecidableEq κ'] [DecidableEq ι']

omit [DecidableEq ι] [DecidableEq ι'] in
theorem Coding.find_table (T : Table ρ κ ι pk ix) (k : κ) : (c.table T).find (c.key k) = (T.find k).map c.row := by
  have hkey : ((fun r' => decide (pk' r' = c.key k)) ∘ c.row) = fun r => decide (pk r = k) := by
    funext r
    simp only [Function.comp_apply, c.key_row, c.key_injective.eq_iff]
  rw [find, find, table, List.find?_map, hkey]

omit [DecidableEq κ] [DecidableEq κ'] in
theorem Coding.findIndex_table (T : Table ρ κ ι pk ix) (i : ι) :
    (c.table T).findIndex (c.index i) = (T.findIndex i).map c.row := by
  have hindex : ((fun r' => decide (ix' r' = some (c.index i))) ∘ c.row) = fun r => decide (ix r = some i) := by
    funext r
    cases hi : ix r <;> simp [c.index_row, c.index_injective.eq_iff, hi]
  rw [findIndex, findIndex, table, List.find?_map, hindex]

theorem Coding.insert_table (T : Table ρ κ ι pk ix) (r : ρ) :
    (c.table T).insert (c.row r) = (T.insert r).map c.table := by
  have hrows : (c.table T).rows ++ [c.row r] = (T.rows ++ [r]).map c.row := by rw [List.map_append]; rfl
  rw [insert, insert, check, check]
  by_cases h : ((T.rows ++ [r]).map pk).Nodup ∧ ((T.rows ++ [r]).filterMap ix).Nodup
  · have h' := (c.nodup_iff (T.rows ++ [r])).mpr h
    rw [← hrows] at h'
    rw [dif_pos h, dif_pos h', Option.map_some]
    exact congrArg some (eq_of_rows hrows)
  · have h' := mt (c.nodup_iff (T.rows ++ [r])).mp h
    rw [← hrows] at h'
    rw [dif_neg h, dif_neg h', Option.map_none]

theorem Coding.replace_table (T : Table ρ κ ι pk ix) (r : ρ) :
    (c.table T).replace (c.row r) = (T.replace r).map c.table := by
  have hrows : ((c.table T).rows.map fun x => if pk' x = pk' (c.row r) then c.row r else x) =
      (T.rows.map fun x => if pk x = pk r then r else x).map c.row := by
    rw [table, List.map_map, List.map_map]
    refine List.map_congr_left fun x _ => ?_
    simp only [Function.comp_apply, c.key_row, c.key_injective.eq_iff, apply_ite c.row]
  rw [replace, replace, check, check]
  by_cases h : ((T.rows.map fun x => if pk x = pk r then r else x).map pk).Nodup ∧
      ((T.rows.map fun x => if pk x = pk r then r else x).filterMap ix).Nodup
  · have h' := (c.nodup_iff _).mpr h
    rw [← hrows] at h'
    rw [dif_pos h, dif_pos h', Option.map_some]
    exact congrArg some (eq_of_rows hrows)
  · have h' := mt (c.nodup_iff _).mp h
    rw [← hrows] at h'
    rw [dif_neg h, dif_neg h', Option.map_none]

omit [DecidableEq κ] [DecidableEq ι] [DecidableEq κ'] [DecidableEq ι'] in
/-- A change of columns that carry no constraint is made in the one table or in the other. -/
theorem Coding.modify_table (T : Table ρ κ ι pk ix) {f : ρ → ρ} {f' : ρ' → ρ'} (hpk : ∀ r, pk (f r) = pk r)
    (hix : ∀ r, ix (f r) = ix r) (hpk' : ∀ r, pk' (f' r) = pk' r) (hix' : ∀ r, ix' (f' r) = ix' r)
    (hf : ∀ r, f' (c.row r) = c.row (f r)) :
    (c.table T).modify f' hpk' hix' = c.table (T.modify f hpk hix) := by
  refine eq_of_rows ?_
  change (T.rows.map c.row).map f' = (T.rows.map f).map c.row
  rw [List.map_map, List.map_map]
  exact List.map_congr_left fun r _ => hf r

end Map

end Table

end Lib
