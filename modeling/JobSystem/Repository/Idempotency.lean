import JobSystem.Repository.Refinement
import Mathlib.Data.List.Dedup
import Mathlib.Data.List.ReduceOption

namespace JobSystem

open Lib

/-- What may happen to a store: a call of the service, or that it is closed and opened again. -/
inductive Action
  | op (op : Op)
  | reopen

namespace Action

def created : Action → Option Job
  | op o => o.created
  | reopen => none

def key (a : Action) : Option (Option String) := a.created.map (·.idempotencyKey)

section Runs

variable {σ : Type} (R : JobRepository σ) (reopened : σ → σ)

def next : Action → σ → σ
  | op o, s => after R o s
  | reopen, s => reopened s

def run (as : List Action) (s : σ) : σ := as.foldl (fun s a => a.next R reopened s) s

/-- Every submitted record has a new id and values that the store can represent. -/
def Admissible (fits : Job → Bool) : List Action → σ → Prop
  | [], _ => True
  | a :: as, s =>
      (∀ b ∈ a.created, R.get b.jobId s = none ∧ fits b = true) ∧
        Admissible fits as (a.next R reopened s)

instance decidableAdmissible (fits : Job → Bool) : ∀ as s, Decidable (Admissible R reopened fits as s)
  | [], _ => isTrue trivial
  | a :: as, s =>
      have : Decidable (∀ b ∈ a.created, R.get b.jobId s = none ∧ fits b = true) :=
        match h : a.created with
        | none => isTrue (by simp)
        | some b => decidable_of_iff ((R.get b.jobId s).isNone = true ∧ fits b = true) (by simp)
      have := decidableAdmissible fits as (a.next R reopened s)
      inferInstanceAs (Decidable (_ ∧ _))

/-- A run from an empty store is idempotent: one record for each key and for each
submission without one, and a later submission under a key finds the record of the
first and changes nothing. -/
def Idempotent (records : σ → Ledger) (as : List Action) (s : σ) : Prop :=
  (records (run R reopened as s)).length =
      (as.filterMap key).reduceOption.dedup.length + (as.filterMap key).count none ∧
    ((records (run R reopened as s)).filterMap (·.idempotencyKey)).Nodup ∧
    ∀ pre mid post o o' k, as = pre ++ op o :: mid ++ op o' :: post →
      key (op o) = some (some k) → key (op o') = some (some k) →
      ∃ r r' s' s'', exec R o (run R reopened pre s) = .ok (some r, s') ∧
        exec R o' (run R reopened (pre ++ op o :: mid) s) = .ok (some r', s'') ∧ r'.jobId = r.jobId ∧
        records s'' = records (run R reopened (pre ++ op o :: mid) s)

end Runs

/-- One step, seen on the records: a submission is added, anything else keeps ids and keys. -/
def Steps (a : Action) (L L' : Ledger) : Prop :=
  match a.created with
  | some b => L' = (L.add b).2
  | none =>
      ∃ j f, (∀ r : Job, (f r).jobId = r.jobId ∧ (f r).idempotencyKey = r.idempotencyKey) ∧ L' = L.update j f

section Keys

variable {a : Action} {L L' : Ledger}

theorem steps_add {b : Job} (h : a.created = some b) : a.Steps L (L.add b).2 := by
  rw [Steps, h]

theorem steps_update (h : a.created = none) {j : String} {f : Job → Job}
    (hf : ∀ r : Job, (f r).jobId = r.jobId ∧ (f r).idempotencyKey = r.idempotencyKey) :
    a.Steps L (L.update j f) := by
  rw [Steps, h]
  exact ⟨j, f, hf, rfl⟩

theorem steps_refl (h : a.created = none) : a.Steps L L := by
  have hfixed : L.update "" id = L := Ledger.update_fixed fun _ _ _ => rfl
  have hstep : a.Steps L (L.update "" id) := steps_update h fun _ => ⟨rfl, rfl⟩
  rwa [hfixed] at hstep

theorem findKey_update {j : String} {f : Job → Job}
    (hf : ∀ r : Job, (f r).jobId = r.jobId ∧ (f r).idempotencyKey = r.idempotencyKey) (k : String)
    (L : Ledger) : ((L.update j f).findKey k).map (·.jobId) = (L.findKey k).map (·.jobId) := by
  have hkey : ∀ r : Job, (if r.jobId = j then f r else r).idempotencyKey = r.idempotencyKey := by
    intro r
    split
    · exact (hf r).2
    · rfl
  have hid : ∀ r : Job, (if r.jobId = j then f r else r).jobId = r.jobId := by
    intro r
    split
    · exact (hf r).1
    · rfl
  rw [Ledger.findKey, Ledger.update, List.find?_map, Option.map_map]
  simp only [Function.comp_def, hkey, hid]
  rfl

/-- The record that a key leads to stays the one it leads to. -/
theorem Steps.findKey (h : a.Steps L L') {k j : String} (hk : (L.findKey k).map (·.jobId) = some j) :
    (L'.findKey k).map (·.jobId) = some j := by
  rw [Steps] at h
  split at h
  · next b _ =>
      subst h
      rw [Ledger.add]
      split
      · exact hk
      · obtain ⟨r, hr, rfl⟩ := Option.map_eq_some_iff.mp hk
        rw [Ledger.findKey_append, hr]
        rfl
  · obtain ⟨i, f, hf, rfl⟩ := h
    rw [findKey_update hf, hk]

theorem add_findKey {b : Job} {k : String} (hk : b.idempotencyKey = some k) :
    (L.add b).2.findKey k = some (L.add b).1 := by
  rw [Ledger.add, hk, Option.bind_some]
  cases hf : L.findKey k with
  | some r => exact hf
  | none =>
      change (L ++ [b]).findKey k = _
      rw [Ledger.findKey_append, hf, hk, if_pos rfl]
      rfl

structure Tallied (K : List (Option String)) (L : Ledger) : Prop where
  nodup : (L.filterMap (·.idempotencyKey)).Nodup
  mem : ∀ k, k ∈ L.filterMap (·.idempotencyKey) ↔ some k ∈ K
  unkeyed : (L.map (·.idempotencyKey)).count none = K.count none

theorem findKey_none {k : String} : L.findKey k = none ↔ k ∉ L.filterMap (·.idempotencyKey) := by
  simp [Ledger.findKey]

theorem Tallied.add_unkeyed {K : List (Option String)} (hK : Tallied K L) {b : Job}
    (hb : b.idempotencyKey = none) : Tallied (K ++ [none]) (L ++ [b]) where
  nodup := by simpa [hb] using hK.nodup
  mem k := by simpa [hb] using hK.mem k
  unkeyed := by simpa [hb] using hK.unkeyed

theorem Tallied.add_known {K : List (Option String)} (hK : Tallied K L) {k : String} {r : Job}
    (hk : L.findKey k = some r) : Tallied (K ++ [some k]) L := by
  have hmem : some k ∈ K := by
    refine (hK.mem k).mp ?_
    by_contra hn
    rw [findKey_none.mpr hn] at hk
    cases hk
  refine ⟨hK.nodup, fun k' => ?_, ?_⟩
  · rw [hK.mem, List.mem_append, List.mem_singleton]
    exact ⟨.inl, fun h => h.elim id fun he => he ▸ hmem⟩
  · rw [hK.unkeyed, List.count_append]
    rfl

theorem Tallied.add_keyed {K : List (Option String)} (hK : Tallied K L) {k : String} {b : Job}
    (hb : b.idempotencyKey = some k) (hk : L.findKey k = none) : Tallied (K ++ [some k]) (L ++ [b]) := by
  have hnew := findKey_none.mp hk
  have happend : (L ++ [b]).filterMap (·.idempotencyKey) = L.filterMap (·.idempotencyKey) ++ [k] := by
    simp [hb]
  refine ⟨?_, fun k' => ?_, ?_⟩
  · rw [happend, List.nodup_append]
    refine ⟨hK.nodup, List.nodup_singleton k, fun c hc d hd he => hnew ?_⟩
    rw [List.mem_singleton] at hd
    rwa [← hd, ← he]
  · rw [happend, List.mem_append, hK.mem, List.mem_append]
    simp
  · rw [List.map_append, List.count_append, hK.unkeyed, List.count_append]
    simp [hb]

theorem Tallied.update {K : List (Option String)} (hK : Tallied K L) {j : String} {f : Job → Job}
    (hf : ∀ r, (f r).idempotencyKey = r.idempotencyKey) : Tallied K (L.update j f) := by
  have hmap : (L.update j f).map (·.idempotencyKey) = L.map (·.idempotencyKey) := by
    rw [Ledger.update, List.map_map]
    refine List.map_congr_left fun r _ => ?_
    rw [Function.comp_apply]
    split
    · exact hf r
    · rfl
  have hfilter :
      ∀ L : Ledger, L.filterMap (·.idempotencyKey) = (L.map (·.idempotencyKey)).reduceOption := by
    intro L
    rw [List.reduceOption, List.filterMap_map]
    rfl
  refine ⟨?_, ?_, ?_⟩
  · rw [hfilter, hmap, ← hfilter]
    exact hK.nodup
  · rw [hfilter, hmap, ← hfilter]
    exact hK.mem
  · rw [hmap]
    exact hK.unkeyed

theorem Steps.tallied (h : a.Steps L L') {K : List (Option String)} (hK : Tallied K L) :
    Tallied (K ++ a.key.toList) L' := by
  rw [Steps] at h
  split at h
  · next b hb =>
      have hkey : a.key.toList = [b.idempotencyKey] := by rw [key, hb]; rfl
      subst h
      rw [hkey, Ledger.add]
      cases hkb : b.idempotencyKey with
      | none => exact hK.add_unkeyed hkb
      | some k =>
          rw [Option.bind_some]
          cases hf : L.findKey k with
          | some r => exact hK.add_known hf
          | none => exact hK.add_keyed hkb hf
  · next hb =>
      have hkey : a.key.toList = [] := by rw [key, hb]; rfl
      obtain ⟨j, f, hf, rfl⟩ := h
      rw [hkey, List.append_nil]
      exact hK.update fun r => (hf r).2

theorem length_keys (L : Ledger) :
    L.length = (L.filterMap (·.idempotencyKey)).length + (L.map (·.idempotencyKey)).count none := by
  induction L with
  | nil => rfl
  | cons r L ih =>
      rw [List.length_cons, List.map_cons, List.count_cons, List.filterMap_cons, ih]
      cases r.idempotencyKey with
      | none => simp [Nat.add_assoc]
      | some k => simp; omega

theorem Tallied.length {K : List (Option String)} (hK : Tallied K L) :
    L.length = K.reduceOption.dedup.length + K.count none := by
  have hperm : (L.filterMap (·.idempotencyKey)).Perm K.reduceOption.dedup := by
    refine (List.perm_ext_iff_of_nodup hK.nodup (List.nodup_dedup _)).mpr fun k => ?_
    rw [hK.mem, List.mem_dedup, List.reduceOption_mem_iff]
  rw [length_keys, hperm.length_eq, hK.unkeyed]

end Keys

section Runs

variable {σ : Type} {R : JobRepository σ} {records : σ → Ledger} {I : σ → Prop} {reopened : σ → σ}
  {fits : Job → Bool}
  (hR : Refines R records I)
  (hadd : ∀ job s, (records s).find job.jobId = none → fits job = true → (R.add job s).isOk)

include hR hadd

theorem exec_submit {s : σ} (hI : I s) {o : Op} {b : Job} (hb : b ∈ o.created)
    (hnew : R.get b.jobId s = none ∧ fits b = true) :
    ∃ s', exec R o s = .ok (some ((records s).add b).1, s') ∧ I s' ∧
      records s' = ((records s).add b).2 := by
  cases o <;> cases hb
  next j c t₁ t₂ req =>
    have hfresh : (records s).find j = none := hR.get.symm.trans hnew.1
    have hok := hadd _ s hfresh hnew.2
    change ∃ s', (R.add (req.toJob j c t₁ t₂) s).map _ = _ ∧ _
    cases he : R.add (req.toJob j c t₁ t₂) s with
    | error e => rw [he] at hok; cases hok
    | ok p =>
        obtain ⟨hI', hL⟩ := hR.add hI hfresh p.1 p.2 he
        obtain ⟨hr, hs⟩ := Prod.mk.inj (Except.ok.inj hL)
        exact ⟨p.2, congrArg (fun r => Except.ok (some r, p.2)) hr.symm, hI', hs.symm⟩

omit hR hadd in
theorem run_append (as bs : List Action) (s : σ) :
    run R reopened (as ++ bs) s = run R reopened bs (run R reopened as s) := List.foldl_append

omit hR hadd in
theorem admissible_append {as bs : List Action} {s : σ} (h : Admissible R reopened fits (as ++ bs) s) :
    Admissible R reopened fits as s ∧ Admissible R reopened fits bs (run R reopened as s) := by
  induction as generalizing s with
  | nil => exact ⟨trivial, h⟩
  | cons a as ih => exact ⟨⟨h.1, (ih h.2).1⟩, (ih h.2).2⟩

variable (hreopen : ∀ s, I s → I (reopened s) ∧ records (reopened s) = records s)

include hreopen

theorem next_steps {s : σ} (hI : I s) {a : Action}
    (hadm : ∀ b ∈ a.created, R.get b.jobId s = none ∧ fits b = true) :
    I (a.next R reopened s) ∧ a.Steps (records s) (records (a.next R reopened s)) := by
  cases a with
  | reopen =>
      obtain ⟨hI', hs⟩ := hreopen s hI
      refine ⟨hI', ?_⟩
      change Steps _ _ (records (reopened s))
      rw [hs]
      exact steps_refl rfl
  | op o =>
      cases hj : o.target with
      | none =>
          obtain ⟨b, hb⟩ : ∃ b, o.created = some b := by cases o <;> cases hj; exact ⟨_, rfl⟩
          obtain ⟨s', he, hI', hs'⟩ := exec_submit hR hadd hI hb (hadm b hb)
          rw [next, after, he]
          dsimp only
          rw [hs']
          exact ⟨hI', steps_add hb⟩
      | some j =>
          have hnone : o.created = none := by cases o <;> first | rfl | cases hj
          have hfresh : ∀ b ∈ o.created, (records s).find b.jobId = none :=
            fun _ hb => by rw [hnone] at hb; cases hb
          cases he : exec R o s with
          | error e =>
              rw [next, after, he]
              exact ⟨hI, steps_refl hnone⟩
          | ok p =>
              obtain ⟨hI', hL⟩ := hR.exec_agrees hI hfresh p.1 p.2 he
              rw [exec_ledger hj (hR.nodup hI)] at hL
              obtain ⟨_, hs⟩ := Prod.mk.inj (Except.ok.inj hL)
              rw [next, after, he]
              dsimp only
              rw [← hs]
              refine ⟨hI', steps_update (a := .op o) hnone fun r => ?_⟩
              exact ⟨o.effect_jobId r, o.effect_idempotencyKey r⟩

theorem run_steps {P : List Action → Ledger → Prop}
    (hP : ∀ as a L L', P as L → a.Steps L L' → P (as ++ [a]) L') {as : List Action} {s : σ} (hI : I s)
    (hadm : Admissible R reopened fits as s) {b : List Action} (hs : P b (records s)) :
    I (run R reopened as s) ∧ P (b ++ as) (records (run R reopened as s)) := by
  induction as generalizing s b with
  | nil => exact ⟨hI, by rw [List.append_nil]; exact hs⟩
  | cons a as ih =>
      obtain ⟨hI', hstep⟩ := next_steps hR hadd hreopen hI hadm.1
      obtain ⟨hI'', hrest⟩ := ih hI' hadm.2 (hP b a _ _ hs hstep)
      exact ⟨hI'', by rw [List.append_cons]; exact hrest⟩

theorem run_findKey {as : List Action} {s : σ} (hI : I s) (hadm : Admissible R reopened fits as s)
    {k j : String} (hk : ((records s).findKey k).map (·.jobId) = some j) :
    ((records (run R reopened as s)).findKey k).map (·.jobId) = some j :=
  (run_steps hR hadd hreopen (P := fun _ L => (L.findKey k).map (·.jobId) = some j)
    (fun _ _ _ _ hL hstep => hstep.findKey hL) hI hadm (b := []) hk).2

theorem idempotent {as : List Action} {s : σ} (hI : I s) (hempty : records s = [])
    (hadm : Admissible R reopened fits as s) : Idempotent R reopened records as s := by
  have htally : Tallied (as.filterMap key) (records (run R reopened as s)) := by
    refine (run_steps hR hadd hreopen (P := fun as L => Tallied (as.filterMap key) L) ?_ hI hadm (b := []) ?_).2
    · intro as a L L' hL hstep
      have hlast : [a].filterMap key = a.key.toList := by cases h : a.key <;> simp [h]
      rw [List.filterMap_append, hlast]
      exact hstep.tallied hL
    · rw [hempty]
      exact ⟨List.nodup_nil, fun k => by simp, rfl⟩
  refine ⟨htally.length, htally.nodup, ?_⟩
  rintro pre mid post o o' k rfl ho ho'
  obtain ⟨b, hb, hkb⟩ := Option.map_eq_some_iff.mp ho
  obtain ⟨b', hb', hkb'⟩ := Option.map_eq_some_iff.mp ho'
  -- the first submission leaves a record under its key, and `mid` keeps it there
  obtain ⟨hadmo, hadm'⟩ := admissible_append hadm
  obtain ⟨hadmpre, hadmo⟩ := admissible_append hadmo
  have hIpre := (run_steps hR hadd hreopen (P := fun _ _ => True) (fun _ _ _ _ _ _ => trivial) hI hadmpre
    (b := []) trivial).1
  obtain ⟨s', he, hI', hs'⟩ := exec_submit hR hadd hIpre hb (hadmo.1 b hb)
  have hnext : next R reopened (.op o) (run R reopened pre s) = s' := by rw [next, after, he]
  have hmid : Admissible R reopened fits mid s' := hnext ▸ hadmo.2
  have hrun : run R reopened (pre ++ op o :: mid) s = run R reopened mid s' := by
    rw [run_append]
    exact congrArg (run R reopened mid) hnext
  have hI'' := (run_steps hR hadd hreopen (P := fun _ _ => True) (fun _ _ _ _ _ _ => trivial) hI' hmid
    (b := []) trivial).1
  have hfirst :
      ((records s').findKey k).map (·.jobId) =
        some ((records (run R reopened pre s)).add b).1.jobId := by
    rw [hs', add_findKey hkb]
    rfl
  obtain ⟨r', hr', hid⟩ := Option.map_eq_some_iff.mp (run_findKey hR hadd hreopen hI' hmid hfirst)
  rw [hrun] at hadm' ⊢
  obtain ⟨s'', he', -, hs''⟩ := exec_submit hR hadd hI'' hb' (hadm'.1 b' hb')
  have hfound : (records (run R reopened mid s')).add b' = (r', records (run R reopened mid s')) := by
    rw [Ledger.add, hkb', Option.bind_some, hr']
  rw [hfound] at he' hs''
  exact ⟨_, r', s', s'', he, he', hid, hs''⟩

end Runs

end Action

open JobSystem.Action

/-- Idempotent submission, on a database file that is closed and opened at any time and
on the store in memory. -/
theorem idempotent_submission :
    (∀ as, Admissible sqliteJobRepository (fun T => SQLiteJobRepository.connect (some T)) Job.bindable as .empty →
      Idempotent sqliteJobRepository (fun T => SQLiteJobRepository.connect (some T)) Lib.Table.rows as .empty) ∧
    ∀ ops : List Op, Admissible inMemoryJobRepository id (fun _ => true) (ops.map .op) .empty →
      Idempotent inMemoryJobRepository id MemoryStore.records (ops.map .op) .empty := by
  constructor
  · intro as hadm
    exact idempotent sqliteJobRepository_refines (fun _ _ hfresh hfits => SQLiteJobRepository.add_isOk hfresh hfits)
      (fun T _ => ⟨trivial, rfl⟩) trivial rfl hadm
  · intro ops hadm
    exact idempotent inMemoryJobRepository_refines (fun _ _ _ _ => rfl) (fun s hs => ⟨hs, rfl⟩)
      MemoryStore.consistent_empty rfl hadm

def submitKeyed (jobId agentId : String) (key : Option String) : Op :=
  .submit jobId "c0" .epoch .epoch ⟨agentId, "alpine", ["true"], 1000, key, 0, none⟩

def resubmissions : List Op :=
  [submitKeyed "job_1" "agent-1" (some "nightly"), .markDispatchedWithAttempt .epoch .epoch "job_1",
    .markRunning .epoch "job_1", .markTimedOut .epoch "job_1", submitKeyed "job_2" "agent-2" (some "nightly"),
    submitKeyed "job_3" "agent-1" (some ""), submitKeyed "job_4" "agent-1" none,
    submitKeyed "job_5" "agent-2" (some "")]

theorem idempotent_submission_resubmissions :
    Idempotent sqliteJobRepository (fun T => SQLiteJobRepository.connect (some T)) Lib.Table.rows
        (resubmissions.flatMap fun o => [.op o, .reopen]) .empty ∧
      Idempotent inMemoryJobRepository id MemoryStore.records (resubmissions.map .op) .empty :=
  ⟨idempotent_submission.1 _ (by decide), idempotent_submission.2 _ (by decide)⟩

end JobSystem
