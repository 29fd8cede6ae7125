import JobSystem.Repository.Ledger
import Mathlib.Data.List.Find

namespace JobSystem

open Lib

namespace SQLiteJobRepository

theorem update_rows (T : JobTable) (j : String) {f g : Job → Job} (hpk : ∀ r, (f r).jobId = r.jobId)
    (hix : ∀ r, (f r).idempotencyKey = r.idempotencyKey)
    (hf : ∀ r, f r = if r.jobId = j then g r else r) :
    (T.modify f hpk hix).rows = Ledger.update j g T.rows :=
  List.map_congr_left fun r _ => hf r

theorem findKey_none {job : Job} {T : JobTable}
    (h : ∀ key, job.idempotencyKey = some key → T.findIndex key = none) :
    (job.idempotencyKey.bind fun key => Ledger.findKey key T.rows) = none := by
  cases hk : job.idempotencyKey with
  | none => rfl
  | some key => exact h key hk

theorem findKey_some {job row : Job} {T : JobTable} {key : String}
    (hk : job.idempotencyKey = some key) (h : T.findIndex key = some row) :
    (job.idempotencyKey.bind fun key => Ledger.findKey key T.rows) = some row := by
  rw [hk]
  exact h

theorem add_agrees (job : Job) (T : JobTable) :
    Agrees Table.rows (fun _ => True) (add job T) (ledger.add job T.rows) := by
  intro r T' h
  refine ⟨trivial, ?_⟩
  change Except.ok (Ledger.add job T.rows) = _
  rw [add] at h
  rw [Ledger.add]
  split at h
  · cases h
  · cases hins : T.insert job with
    | some T₁ =>
        rw [hins] at h
        cases h
        rw [findKey_none fun key hk => Table.insert_index hins hk, Table.check_rows hins]
    | none =>
        rw [hins] at h
        dsimp only at h
        cases hk : job.idempotencyKey with
        | none => rw [hk] at h; cases h
        | some key =>
            rw [hk] at h
            dsimp only at h
            cases hrow : T.findIndex key with
            | none => rw [hrow] at h; cases h
            | some row =>
                rw [hrow] at h
                cases h
                rw [← hk, findKey_some hk hrow]

theorem add_isOk {job : Job} {T : JobTable} (hfresh : T.find job.jobId = none)
    (hbind : job.bindable = true) : (add job T).isOk := by
  rw [add, hbind]
  simp only [Bool.not_true, Bool.false_eq_true, if_false]
  cases hins : T.insert job with
  | some T' => rfl
  | none =>
      cases hk : job.idempotencyKey with
      | none =>
          obtain ⟨T', hT⟩ := Table.exists_insert hfresh (by rw [hk]; rintro _ ⟨⟩)
          rw [hins] at hT
          cases hT
      | some key =>
          dsimp only
          cases hrow : T.findIndex key with
          | some row => rfl
          | none =>
              obtain ⟨T', hT⟩ := Table.exists_insert hfresh (by rw [hk]; rintro _ ⟨⟩; exact hrow)
              rw [hins] at hT
              cases hT

theorem save_agrees (t : Instant) (job : Job) (T : JobTable) :
    Agrees Table.rows (fun _ => True) (save t job T) (ledger.save t job T.rows) := by
  intro r T' h
  refine ⟨trivial, ?_⟩
  unfold save at h
  dsimp only at h
  split at h
  · cases h
  · split at h
    · next hrep =>
        cases h
        rw [Table.check_rows hrep]
        rfl
    · cases h

theorem save_isOk {t : Instant} {job old : Job} {T : JobTable} (hj : T.find job.jobId = some old)
    (hkey : old.idempotencyKey = job.idempotencyKey) (hbind : job.bindable = true) :
    (save t job T).isOk := by
  have hbind' : { job with updatedAt := t }.bindable = true := hbind
  obtain ⟨T', hT⟩ := Table.exists_replace (r := { job with updatedAt := t }) hj hkey
  unfold save
  simp only [hbind', Bool.not_true, Bool.false_eq_true, if_false, hT]
  rfl

theorem transitionIf_agrees (t : Instant) (j : String) (e n : JobState) (T : JobTable) :
    Agrees Table.rows (fun _ => True) (.ok (transitionIf t j e n T)) (ledger.transitionIf t j e n T.rows) := by
  intro r T' h
  refine ⟨trivial, ?_⟩
  rw [transitionIf] at h
  cases h
  have hrows := update_rows T j (fun row => (transitionRow_keys t j e n row).1)
    (fun row => (transitionRow_keys t j e n row).2) (transitionRow_eq t j e n)
  rw [hrows, fetch, Table.find, hrows]
  rfl

theorem completeIfRunning_agrees (t : Instant) (j : String) (n : JobState) (x : Int) (o e : PyStr)
    (err : Option PyStr) (T : JobTable) :
    Agrees Table.rows (fun _ => True) (completeIfRunning t j n x o e err T)
      (ledger.completeIfRunning t j n x o e err T.rows) := by
  intro r T' h
  refine ⟨trivial, ?_⟩
  rw [completeIfRunning_eq t j n x o e err T (bindable_of_completed h)] at h
  cases h
  have hrows := update_rows T j (fun row => (completeRow_keys t j n x o e err row).1)
    (fun row => (completeRow_keys t j n x o e err row).2) (completeRow_eq t j n x o e err)
  rw [hrows, fetch, Table.find, hrows]
  rfl

end SQLiteJobRepository

open SQLiteJobRepository in
theorem sqliteJobRepository_refines : Refines sqliteJobRepository Table.rows fun _ => True where
  nodup {T} _ := T.primary
  get := rfl
  list {a q T} := by
    refine ⟨?_, sortedReverse_pairwise _ _⟩
    have hperm := list_perm a q T
    rwa [funext (whereClause_eq a q)] at hperm
  add _ _ := add_agrees _ _
  add_ok hfresh hbind := add_isOk hfresh hbind
  save _ _ _ := save_agrees _ _ _
  save_ok hj hkey hbind := save_isOk hj hkey hbind
  transitionIf _ := transitionIf_agrees _ _ _ _ _
  transitionIf_ok := rfl
  completeIfRunning _ := completeIfRunning_agrees _ _ _ _ _ _ _ _
  completeIfRunning_ok {t j n x o e err T} hx := by
    change (SQLiteJobRepository.completeIfRunning t j n x o e err T).isOk
    rw [completeIfRunning_eq t j n x o e err T hx]
    rfl

namespace MemoryStore

def records (s : MemoryStore) : Ledger := s.jobs.values

/-- The dictionary `_idempotency` leads every key to the first record that has it. -/
def Consistent (s : MemoryStore) : Prop :=
  ∀ key, s.idempotency.get key = (s.records.findKey key).map (·.jobId)

theorem entry_keyed (s : MemoryStore) : ∀ e ∈ s.jobs.entries, e.2.jobId = e.1 := fun _ he =>
  s.keyed ((Dict.lookup_eq_some s.jobs.nodup).mpr he)

theorem get_eq_find (s : MemoryStore) (j : String) : s.jobs.get j = s.records.find j :=
  Dict.lookup_eq_find Job.jobId s.entry_keyed j

theorem records_nodup (s : MemoryStore) : (s.records.map (·.jobId)).Nodup := by
  have hkeys : s.records.map (·.jobId) = s.jobs.entries.map Prod.fst := by
    rw [records, Dict.values, List.map_map]
    exact List.map_congr_left s.entry_keyed
  rw [hkeys]
  exact s.jobs.nodup

theorem records_put_new {s : MemoryStore} {job : Job} (hj : s.records.find job.jobId = none) :
    (s.put job).records = s.records ++ [job] := by
  have hput := Dict.snd_insert Job.jobId s.entry_keyed s.jobs.nodup job
  have hnone : Dict.lookup job.jobId s.jobs.entries = none := (s.get_eq_find job.jobId).trans hj
  rw [hnone] at hput
  exact hput

theorem records_put {s : MemoryStore} {j : String} {job : Job} {f : Job → Job}
    (hj : s.records.find j = some job) (hf : (f job).jobId = j) :
    (s.put (f job)).records = s.records.update j f := by
  have hput := Dict.snd_insert Job.jobId s.entry_keyed s.jobs.nodup (f job)
  have hsome : Dict.lookup (f job).jobId s.jobs.entries = some job := by
    rw [hf]
    exact (s.get_eq_find j).trans hj
  change (Dict.insert (f job).jobId (f job) s.jobs.entries).map Prod.snd = _
  rw [hput, hsome, Option.isSome_some, if_pos rfl, hf]
  refine List.map_congr_left fun r hr => ?_
  split
  · next hid =>
      rw [Ledger.find_unique s.records_nodup hj hr hid]
  · rfl

theorem Consistent.put {s : MemoryStore} (hs : s.Consistent) {j : String} {job : Job}
    {f : Job → Job} (hj : s.records.find j = some job) (hid : (f job).jobId = j)
    (hkey : (f job).idempotencyKey = job.idempotencyKey) : (s.put (f job)).Consistent := by
  have hone : ∀ r ∈ s.records, r.jobId = j → r = job := fun _ => Ledger.find_unique s.records_nodup hj
  intro key
  have hjob : job.jobId = j := (Ledger.find_jobId hj).2
  rw [records_put hj hid, Ledger.findKey, Ledger.update, List.find?_map, Option.map_map]
  have hsame : s.records.find? ((fun r : Job => decide (r.idempotencyKey = some key)) ∘ fun r =>
      if r.jobId = j then f r else r) = s.records.findKey key := by
    refine List.find?_congr fun r hr => ?_
    rw [Function.comp_apply]
    by_cases hrj : r.jobId = j
    · rw [if_pos hrj, hone r hr hrj, hkey]
    · rw [if_neg hrj]
  rw [hsame]
  refine (hs key).trans ?_
  cases hk : s.records.findKey key with
  | none => rfl
  | some r =>
      have hr : r ∈ s.records := List.mem_of_find?_eq_some hk
      simp only [Option.map_some, Function.comp_apply]
      split
      · next hrj => rw [hone r hr hrj, hid, hjob]
      · rfl

theorem consistent_empty : empty.Consistent := fun _ => rfl

theorem get_index {s : MemoryStore} (hs : s.Consistent) {key id : String}
    (h : s.idempotency.get key = some id) :
    ∃ r, s.records.findKey key = some r ∧ s.jobs.get id = some r := by
  obtain ⟨r, hr, hid⟩ := Option.map_eq_some_iff.mp ((hs key).symm.trans h)
  refine ⟨r, hr, ?_⟩
  rw [get_eq_find, ← hid]
  exact Ledger.find_of_mem s.records_nodup (List.mem_of_find?_eq_some hr)

end MemoryStore

namespace InMemoryJobRepository

open MemoryStore

theorem add_agrees {job : Job} {s : MemoryStore} (hs : s.Consistent)
    (hj : s.records.find job.jobId = none) :
    Agrees records Consistent (.ok (add job s)) (ledger.add job s.records) := by
  have hnew := records_put_new hj
  change Agrees _ _ _ (.ok (Ledger.add job s.records))
  rw [add, Ledger.add]
  split
  · next hkey =>
      refine .of_eq (fun key => ?_) (by rw [hkey, hnew]; rfl)
      rw [hnew, Ledger.findKey_append, hkey, if_neg (by rintro ⟨⟩), Option.or_none]
      exact hs key
  · next key hkey =>
      rw [hkey, Option.bind_some]
      split
      · next id hid =>
          obtain ⟨r, hr, hget⟩ := get_index hs hid
          refine .of_eq hs ?_
          simp only [hr, hget, Option.get_some]
      · next hid =>
          have hnone : s.records.findKey key = none :=
            Option.map_eq_none_iff.mp ((hs key).symm.trans hid)
          refine .of_eq (fun key' => ?_) (by rw [hnone]; exact congrArg (fun L => Except.ok (job, L)) hnew.symm)
          change (s.idempotency.set key job.jobId).get key' = Option.map _ (Ledger.findKey key' (s.put job).records)
          rw [Dict.get_set, hnew, Ledger.findKey_append, hkey]
          by_cases hk : key' = key
          · subst key'
            rw [if_pos rfl, if_pos rfl, hnone]
            rfl
          · rw [if_neg hk, if_neg (by rintro ⟨⟩; exact hk rfl), Option.or_none]
            exact hs key'

theorem save_agrees {t : Instant} {job old : Job} {s : MemoryStore} (hs : s.Consistent)
    (hj : s.records.find job.jobId = some old) (hkey : old.idempotencyKey = job.idempotencyKey) :
    Agrees records Consistent (.ok (save t job s)) (ledger.save t job s.records) := by
  let f : Job → Job := fun _ => { job with updatedAt := t }
  have hput : (s.put (f old)).records = s.records.update job.jobId f := records_put hj rfl
  exact .of_eq (hs.put (f := f) hj rfl hkey.symm) (congrArg (fun L => Except.ok (f old, L)) hput.symm)

/-- A method that changes the record of `j` in place, or leaves it when it has nothing to do. -/
theorem update_agrees {j : String} {f : Job → Job} {s : MemoryStore} {p : Option Job × MemoryStore}
    (hs : s.Consistent) (hid : ∀ r, (f r).jobId = r.jobId)
    (hkey : ∀ r, (f r).idempotencyKey = r.idempotencyKey) (hnone : s.jobs.get j = none → p = (none, s))
    (hsome : ∀ job, s.jobs.get j = some job →
      p = (some (f job), s.put (f job)) ∨ (p = (some job, s) ∧ f job = job)) :
    Agrees records Consistent (.ok p) (.ok ((s.records.update j f).find j, s.records.update j f)) := by
  have hone : ∀ r ∈ s.records, r.jobId = j → s.jobs.get j = some r := by
    rintro r hr rfl
    rw [get_eq_find]
    exact Ledger.find_of_mem s.records_nodup hr
  rw [Ledger.find_update fun r hr => (hid r).trans hr, ← get_eq_find]
  cases hj : s.jobs.get j with
  | none =>
      rw [hnone hj]
      have hfixed : s.records.update j f = s.records := by
        refine Ledger.update_fixed fun r hr hrj => ?_
        rw [hone r hr hrj] at hj
        cases hj
      exact .of_eq hs (by rw [hfixed]; rfl)
  | some job =>
      have hrec : s.records.find j = some job := (get_eq_find s j).symm.trans hj
      have hjob : (f job).jobId = j := (hid job).trans (s.keyed hj)
      rcases hsome job hj with rfl | ⟨rfl, hf⟩
      · exact .of_eq (hs.put hrec hjob (hkey job)) (by rw [records_put hrec hjob]; rfl)
      · have hfixed : s.records.update j f = s.records := by
          refine Ledger.update_fixed fun r hr hrj => ?_
          cases (hone r hr hrj).symm.trans hj
          exact hf
        exact .of_eq hs (by rw [hfixed, Option.map_some, hf])

theorem transitionIf_agrees (t : Instant) (j : String) (e n : JobState) {s : MemoryStore} (hs : s.Consistent) :
    Agrees records Consistent (.ok (transitionIf t j e n s)) (ledger.transitionIf t j e n s.records) := by
  refine update_agrees hs (Job.transition_jobId t e n) (Job.transition_idempotencyKey t e n) ?_ ?_
  · intro hj
    simp only [transitionIf, hj]
  · intro job hj
    by_cases he : job.state = e
    · exact .inl (transitionIf_some hj he)
    · exact .inr ⟨by simp only [transitionIf, hj, ne_eq, he, not_false_eq_true, if_true], Job.transition_of_ne he⟩

theorem completeIfRunning_agrees (t : Instant) (j : String) (n : JobState) (x : Int) (o e : PyStr)
    (err : Option PyStr) {s : MemoryStore} (hs : s.Consistent) :
    Agrees records Consistent (.ok (completeIfRunning t j n x o e err s))
      (ledger.completeIfRunning t j n x o e err s.records) := by
  refine update_agrees hs (Job.complete_jobId t n x o e err) (Job.complete_idempotencyKey t n x o e err) ?_ ?_
  · intro hj
    simp only [completeIfRunning, hj]
  · intro job hj
    by_cases he : job.state = .running
    · refine .inl ?_
      simp only [completeIfRunning, hj, he, ne_eq, not_true_eq_false, if_false, Job.complete, if_true]
    · exact .inr ⟨by simp only [completeIfRunning, hj, ne_eq, he, not_false_eq_true, if_true], Job.complete_of_ne he⟩

theorem list_records (agentId : Option String) (state : Option JobState) (s : MemoryStore) :
    list agentId state s = s.records.list agentId state := by
  have hfilter : s.records.filter (fun job => job.matches agentId state) =
      (s.records.filter fun job => !truthy agentId || decide (agentId = some job.agentId)).filter
        fun job => state.isNone || decide (state = some job.state) := by
    rw [List.filter_filter]
    exact List.filter_congr fun job _ => Bool.and_comm _ _
  rw [Ledger.list, hfilter, list]
  cases truthy agentId <;> cases state <;> simp [records]

end InMemoryJobRepository

open InMemoryJobRepository in
theorem inMemoryJobRepository_refines :
    Refines inMemoryJobRepository MemoryStore.records MemoryStore.Consistent where
  nodup {s} _ := s.records_nodup
  get {j s} := s.get_eq_find j
  list {a q s} := by
    change Ledger.Lists a q s.records (list a q s)
    rw [list_records]
    exact Ledger.lists_list a q s.records
  add hs hj := add_agrees hs hj
  add_ok _ _ := rfl
  save hs hj hkey := save_agrees hs hj hkey
  save_ok _ _ _ := rfl
  transitionIf hs := transitionIf_agrees _ _ _ _ hs
  transitionIf_ok := rfl
  completeIfRunning hs := completeIfRunning_agrees _ _ _ _ _ _ _ hs
  completeIfRunning_ok _ := rfl

theorem InMemoryJobRepository.readSave_isOk (t : Instant) (leave : Job → Prop) [DecidablePred leave]
    (change : Job → Job) (j : String) (s : MemoryStore) :
    (JobService.readSave inMemoryJobRepository t leave change j s).isOk := by
  rw [JobService.readSave]
  split
  · rfl
  · split <;> rfl

/-- The store in memory refuses nothing. -/
theorem InMemoryJobRepository.exec_isOk (op : Op) (s : MemoryStore) :
    (exec inMemoryJobRepository op s).isOk := by
  cases op with
  | submit | markDispatched | markRunning | markSucceeded | markFailed | markTimedOut | requeue => rfl
  | markDispatchedWithAttempt | failStaleDispatch => exact readSave_isOk ..
  | markCancelled t j =>
      change (JobService.markCancelled inMemoryJobRepository t j s).isOk
      rw [JobService.markCancelled]
      split
      · rfl
      · split <;> rfl

end JobSystem
