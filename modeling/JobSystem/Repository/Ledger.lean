import JobSystem.Lifecycle

namespace JobSystem

open Lib

/-- The records of a store, in the order in which they were added. -/
abbrev Ledger := List Job

namespace Ledger

def find (j : String) (L : Ledger) : Option Job := L.find? fun job => job.jobId = j

def findKey (key : String) (L : Ledger) : Option Job := L.find? fun job => job.idempotencyKey = some key

def update (j : String) (f : Job → Job) (L : Ledger) : Ledger :=
  L.map fun job => if job.jobId = j then f job else job

theorem find_jobId {L : Ledger} {j : String} {r : Job} (h : L.find j = some r) : r ∈ L ∧ r.jobId = j :=
  ⟨List.mem_of_find?_eq_some h, by simpa using List.find?_some h⟩

theorem find_of_mem {L : Ledger} (hL : (L.map (·.jobId)).Nodup) {r : Job} (hr : r ∈ L) :
    L.find r.jobId = some r := by
  cases hf : L.find r.jobId with
  | none => simpa using List.find?_eq_none.mp hf r hr
  | some x =>
      obtain ⟨hx, hid⟩ := find_jobId hf
      rw [List.inj_on_of_nodup_map hL hx hr hid]

theorem find_unique {L : Ledger} (hL : (L.map (·.jobId)).Nodup) {j : String} {old r : Job}
    (ho : L.find j = some old) (hr : r ∈ L) (hrj : r.jobId = j) : r = old := by
  have hfind := find_of_mem hL hr
  rw [hrj, ho] at hfind
  exact (Option.some.inj hfind).symm

theorem findKey_append {b : Job} {L : Ledger} (k : String) :
    (L ++ [b]).findKey k = (L.findKey k).or (if b.idempotencyKey = some k then some b else none) := by
  rw [findKey, List.find?_append]
  by_cases hk : b.idempotencyKey = some k <;> simp [hk, findKey]

theorem update_fixed {j : String} {f : Job → Job} {L : Ledger} (h : ∀ r ∈ L, r.jobId = j → f r = r) :
    L.update j f = L := by
  conv_rhs => rw [← List.map_id L]
  refine List.map_congr_left fun r hr => ?_
  split
  · next hj => exact h r hr hj
  · rfl

theorem find_update {j : String} {f : Job → Job} {L : Ledger}
    (hf : ∀ r : Job, r.jobId = j → (f r).jobId = j) : (L.update j f).find j = (L.find j).map f := by
  have hid : ∀ r : Job, (if r.jobId = j then f r else r).jobId = j ↔ r.jobId = j := by
    intro r
    split
    · next hr => exact ⟨fun _ => hr, fun _ => hf r hr⟩
    · exact Iff.rfl
  rw [find, update, List.find?_map]
  simp only [Function.comp_def, hid]
  cases hj : L.find j with
  | none => rw [find] at hj; rw [hj]; rfl
  | some r =>
      have hr : r.jobId = j := (find_jobId hj).2
      rw [find] at hj
      rw [hj, Option.map_some, Option.map_some, if_pos hr]

theorem update_congr {j : String} {f g : Job → Job} {L : Ledger} (hL : (L.map (·.jobId)).Nodup)
    {old : Job} (ho : L.find j = some old) (h : f old = g old) : L.update j f = L.update j g := by
  refine List.map_congr_left fun r hr => ?_
  split
  · next hrj => rw [find_unique hL ho hr hrj, h]
  · rfl

def add (job : Job) (L : Ledger) : Job × Ledger :=
  match job.idempotencyKey.bind fun key => L.findKey key with
  | some r => (r, L)
  | none => (job, L ++ [job])

def list (agentId : Option String) (state : Option JobState) (L : Ledger) : List Job :=
  sortedReverse (fun job => job.createdAt.isoformat) (L.filter fun job => job.matches agentId state)

structure Lists (agentId : Option String) (state : Option JobState) (L : Ledger) (jobs : List Job) : Prop where
  perm : jobs.Perm (L.filter fun job => job.matches agentId state)
  newest : jobs.Pairwise fun a b => b.createdAt.isoformat ≤ a.createdAt.isoformat

theorem lists_list (agentId : Option String) (state : Option JobState) (L : Ledger) :
    Lists agentId state L (L.list agentId state) :=
  ⟨sortedReverse_perm _ _, sortedReverse_pairwise _ _⟩

/-- Records with times of their own are listed in one order only. -/
theorem Lists.eq {agentId : Option String} {state : Option JobState} {L : Ledger} {jobs : List Job}
    (h : Lists agentId state L jobs) (hL : L.Pairwise fun a b => a.createdAt < b.createdAt) :
    jobs = L.list agentId state := by
  have hL' := lists_list agentId state L
  have hkeys : ((L.filter fun job => job.matches agentId state).map fun job => job.createdAt.isoformat).Nodup :=
    List.pairwise_map.mpr ((hL.filter _).imp fun hlt => (Instant.isoformat_lt hlt).ne)
  refine (h.perm.trans hL'.perm.symm).eq_of_pairwise (fun a b ha hb hab hba => ?_) h.newest hL'.newest
  exact List.inj_on_of_nodup_map hkeys (h.perm.mem_iff.mp ha) (hL'.perm.mem_iff.mp hb) (le_antisymm hba hab)

end Ledger

def Op.integersFit (op : Op) : Bool := op.created.all Job.integersFit && op.exitCode.all int64

def Op.fits (op : Op) : Bool := op.created.all Job.bindable && op.binds

/-- What a job store is for: every method by its effect on the list of records. -/
def ledger : JobRepository Ledger where
  add job L := .ok (L.add job)
  get := Ledger.find
  getByIdempotencyKey := Ledger.findKey
  list := Ledger.list
  save t job L := .ok ({ job with updatedAt := t }, L.update job.jobId fun _ => { job with updatedAt := t })
  transitionIf t j e n L := .ok ((L.update j (Job.transition t e n)).find j, L.update j (Job.transition t e n))
  completeIfRunning t j n x o e err L :=
    .ok ((L.update j (Job.complete t n x o e err)).find j, L.update j (Job.complete t n x o e err))

theorem ledger_get (j : String) (L : Ledger) : ledger.get j L = L.find j := rfl

namespace Ledger

theorem update_of_none {j : String} {L : Ledger} (hn : L.find j = none) (f : Job → Job) :
    L.update j f = L := by
  refine update_fixed fun r hr hrj => ?_
  simpa [hrj] using List.find?_eq_none.mp hn r hr

theorem update_of_eq {j : String} {L : Ledger} (hL : (L.map (·.jobId)).Nodup) {old : Job}
    (ho : L.find j = some old) {f : Job → Job} (hf : f old = old) : L.update j f = L := by
  refine update_fixed fun r hr hrj => ?_
  rw [find_unique hL ho hr hrj, hf]

end Ledger

theorem readSave_ledger {t : Instant} {leave : Job → Prop} [DecidablePred leave] {change : Job → Job}
    {j : String} {L : Ledger} (hL : (L.map (·.jobId)).Nodup)
    (hid : ∀ job, (change job).jobId = job.jobId) {f : Job → Job}
    (hf : ∀ job, f job = if leave job then job else { change job with updatedAt := t }) :
    JobService.readSave ledger t leave change j L = .ok ((L.update j f).find j, L.update j f) := by
  rw [JobService.readSave, ledger_get]
  cases ho : L.find j with
  | none => rw [Ledger.update_of_none ho, ho]
  | some old =>
      dsimp only
      split
      · next hl => rw [Ledger.update_of_eq hL ho (by rw [hf, if_pos hl]), ho]
      · next hl =>
          let new : Job := { change old with updatedAt := t }
          have hnew : new.jobId = j := (hid old).trans (Ledger.find_jobId ho).2
          have hupdate : (L.update j fun _ => new) = L.update j f :=
            Ledger.update_congr hL ho (by rw [hf, if_neg hl])
          change Except.ok (some new, L.update new.jobId fun _ => new) = _
          rw [hnew, ← hupdate, Ledger.find_update fun _ _ => hnew, ho]
          rfl

/-- Every call about a job replaces its record by the effect of the call and returns it. -/
theorem exec_ledger {op : Op} {j : String} (hj : op.target = some j) {L : Ledger}
    (hL : (L.map (·.jobId)).Nodup) :
    exec ledger op L = .ok ((L.update j op.effect).find j, L.update j op.effect) := by
  cases op <;> cases hj
  case markDispatched | markRunning | markTimedOut | requeue | markSucceeded | markFailed => rfl
  case markDispatchedWithAttempt t₁ t₂ =>
      change JobService.markDispatchedWithAttempt ledger t₁ t₂ j L = _
      rw [JobService.markDispatchedWithAttempt_eq]
      refine readSave_ledger hL ?_ ?_
      · exact fun _ => rfl
      · exact fun job => (ite_not ..).symm
  case failStaleDispatch t₁ t₂ error =>
      change JobService.failStaleDispatch ledger t₁ t₂ j error L = _
      rw [JobService.failStaleDispatch_eq]
      refine readSave_ledger hL ?_ ?_
      · exact fun _ => rfl
      · exact fun _ => rfl
  case markCancelled t =>
      change JobService.markCancelled ledger t j L =
        .ok ((L.update j (Job.cancel t)).find j, L.update j (Job.cancel t))
      rw [JobService.markCancelled, ledger_get]
      cases ho : L.find j with
      | none => rw [Ledger.update_of_none ho, ho]
      | some old =>
          dsimp only
          split
          · next hs =>
              have hkept : old.cancel t = old := if_pos hs
              rw [Ledger.update_of_eq hL ho hkept, ho]
          · next hs =>
              have hupdate :
                  L.update j (Job.transition t old.state .cancelled) = L.update j (Job.cancel t) :=
                Ledger.update_congr hL ho (if_neg hs).symm
              rw [← hupdate]
              rfl

section Refinement

variable {σ : Type}

/-- A call that goes through returns what the ledger returns, and the store goes on to hold its
records. -/
def Agrees {α : Type} (records : σ → Ledger) (I : σ → Prop) (x : Except PyError (α × σ))
    (y : Except PyError (α × Ledger)) : Prop :=
  ∀ r s, x = .ok (r, s) → I s ∧ y = .ok (r, records s)

/-- The store refines the ledger as long as `I` holds, up to the order in which records with equal times are
listed, and no call is refused whose values can be bound. -/
structure Refines (R : JobRepository σ) (records : σ → Ledger) (I : σ → Prop) : Prop where
  nodup : ∀ {s}, I s → ((records s).map (·.jobId)).Nodup
  get : ∀ {j s}, R.get j s = (records s).find j
  list : ∀ {a q s}, Ledger.Lists a q (records s) (R.list a q s)
  add : ∀ {job s}, I s → (records s).find job.jobId = none →
    Agrees records I (R.add job s) (ledger.add job (records s))
  add_ok : ∀ {job s}, (records s).find job.jobId = none → job.bindable = true → (R.add job s).isOk
  save : ∀ {t job old s}, I s → (records s).find job.jobId = some old → old.idempotencyKey = job.idempotencyKey →
    Agrees records I (R.save t job s) (ledger.save t job (records s))
  save_ok : ∀ {t job old s}, (records s).find job.jobId = some old → old.idempotencyKey = job.idempotencyKey →
    job.bindable = true → (R.save t job s).isOk
  transitionIf : ∀ {t j e n s}, I s →
    Agrees records I (R.transitionIf t j e n s) (ledger.transitionIf t j e n (records s))
  transitionIf_ok : ∀ {t j e n s}, (R.transitionIf t j e n s).isOk
  completeIfRunning : ∀ {t j n x o e err s}, I s →
    Agrees records I (R.completeIfRunning t j n x o e err s)
      (ledger.completeIfRunning t j n x o e err (records s))
  completeIfRunning_ok : ∀ {t j n x o e err s}, bindableResult x o e err = true →
    (R.completeIfRunning t j n x o e err s).isOk

variable {R : JobRepository σ} {records : σ → Ledger} {I : σ → Prop}

theorem Agrees.of_eq {α : Type} {p : α × σ} {y : Except PyError (α × Ledger)} (h : I p.2)
    (hy : y = .ok (p.1, records p.2)) : Agrees records I (.ok p) y := by
  intro r s he
  cases he
  exact ⟨h, hy⟩

theorem Agrees.ok {α : Type} {s : σ} {a : α} (h : I s) :
    Agrees records I (.ok (a, s)) (.ok (a, records s)) :=
  .of_eq h rfl

theorem Agrees.map {α β : Type} {x : Except PyError (α × σ)} {y : Except PyError (α × Ledger)}
    (h : Agrees records I x y) (f : α → β) :
    Agrees records I (x.map fun (a, s) => (f a, s)) (y.map fun (a, L) => (f a, L)) := by
  intro r s he
  cases x with
  | error e => cases he
  | ok p =>
      cases he
      obtain ⟨hI, hy⟩ := h p.1 p.2 rfl
      exact ⟨hI, by rw [hy]; rfl⟩

theorem Refines.writeBack (hR : Refines R records I) {s : σ} (hI : I s) {t : Instant} {j : String}
    {old job : Job} (hj : (records s).find j = some old) (hid : job.jobId = old.jobId)
    (hkey : job.idempotencyKey = old.idempotencyKey) :
    Agrees records I ((R.save t job s).map fun (job, s) => (some job, s))
      ((ledger.save t job (records s)).map fun (job, L) => (some job, L)) := by
  apply Agrees.map
  have hjob : (records s).find job.jobId = some old := by
    rw [hid, (Ledger.find_jobId hj).2, hj]
  exact hR.save hI hjob hkey.symm

theorem Refines.readSave_agrees (hR : Refines R records I) {s : σ} (hI : I s) {t : Instant}
    {leave : Job → Prop} [DecidablePred leave] {change : Job → Job} {j : String}
    (hid : ∀ job, (change job).jobId = job.jobId)
    (hkey : ∀ job, (change job).idempotencyKey = job.idempotencyKey) :
    Agrees records I (JobService.readSave R t leave change j s)
      (JobService.readSave ledger t leave change j (records s)) := by
  rw [JobService.readSave, JobService.readSave, hR.get, ledger_get]
  cases hj : (records s).find j with
  | none => exact .ok hI
  | some job =>
      dsimp only
      split
      · exact .ok hI
      · exact hR.writeBack hI hj (hid job) (hkey job)

/-- Every operation of the service agrees with the ledger, unless the store refuses it. -/
theorem Refines.exec_agrees (hR : Refines R records I) {s : σ} (hI : I s) {op : Op}
    (hfresh : ∀ b ∈ op.created, (records s).find b.jobId = none) :
    Agrees records I (exec R op s) (exec ledger op (records s)) := by
  cases op with
  | submit j c t₁ t₂ req => exact (hR.add hI (hfresh _ rfl)).map some
  | markDispatched | markRunning | markTimedOut | requeue => exact hR.transitionIf hI
  | markSucceeded | markFailed => exact hR.completeIfRunning hI
  | markDispatchedWithAttempt | failStaleDispatch =>
      exact hR.readSave_agrees hI (fun _ => rfl) fun _ => rfl
  | markCancelled t j =>
      change Agrees records I (JobService.markCancelled R t j s)
        (JobService.markCancelled ledger t j (records s))
      rw [JobService.markCancelled, JobService.markCancelled, hR.get, ledger_get]
      cases hj : (records s).find j with
      | none => exact .ok hI
      | some job =>
          dsimp only
          split
          · exact .ok hI
          · exact hR.transitionIf hI

theorem Ledger.mem_update {L : Ledger} {j : String} {old : Job} (hj : L.find j = some old)
    (f : Job → Job) : f old ∈ L.update j f := by
  obtain ⟨hmem, hid⟩ := find_jobId hj
  exact List.mem_map.mpr ⟨old, hmem, by simp [hid]⟩

theorem Refines.writeBack_ok (hR : Refines R records I) {s : σ} {t : Instant} {j : String} {old job : Job}
    (hj : (records s).find j = some old) (hid : job.jobId = old.jobId)
    (hkey : job.idempotencyKey = old.idempotencyKey)
    (hfit : ∀ r ∈ (records s).update job.jobId fun _ => { job with updatedAt := t }, r.bindable = true) :
    ((R.save t job s).map fun (job, s) => (some job, s)).isOk := by
  have hjob : (records s).find job.jobId = some old := by
    rw [hid, (Ledger.find_jobId hj).2, hj]
  have hbind : { job with updatedAt := t }.bindable = true :=
    hfit _ (Ledger.mem_update hjob fun _ => { job with updatedAt := t })
  have hok : (R.save t job s).isOk := hR.save_ok hjob hkey.symm hbind
  cases hs : R.save t job s with
  | error e => rw [hs] at hok; cases hok
  | ok p => rfl

theorem Refines.readSave_isOk (hR : Refines R records I) {s : σ} {t : Instant} {leave : Job → Prop}
    [DecidablePred leave] {change : Job → Job} {j : String}
    (hid : ∀ job, (change job).jobId = job.jobId)
    (hkey : ∀ job, (change job).idempotencyKey = job.idempotencyKey)
    (hfit : ∀ p, JobService.readSave ledger t leave change j (records s) = .ok p →
      ∀ r ∈ p.2, r.bindable = true) :
    (JobService.readSave R t leave change j s).isOk := by
  by_contra hno
  obtain ⟨job, hj, hl, hrefused⟩ := JobService.readSave_refused (by simpa using hno)
  rw [hR.get] at hj
  refine absurd (hR.writeBack_ok (t := t) hj (hid job) (hkey job) ?_) ?_
  · have hsave : JobService.readSave ledger t leave change j (records s) =
        (ledger.save t (change job) (records s)).map fun p => (some p.1, p.2) := by
      rw [JobService.readSave, ledger_get, hj]
      exact if_neg hl
    exact hfit _ hsave
  · cases hs : R.save t (change job) s with
    | error e => rintro ⟨⟩
    | ok p =>
        rw [hs] at hrefused
        cases hrefused

/-- No operation is refused when its values and those of the records it leads to can be bound. -/
theorem Refines.exec_isOk (hR : Refines R records I) {s : σ} {op : Op}
    (hfresh : ∀ b ∈ op.created, (records s).find b.jobId = none) (hop : op.fits = true)
    (hfit : ∀ r ∈ after ledger op (records s), r.bindable = true) : (exec R op s).isOk := by
  have hfit' : ∀ p, exec ledger op (records s) = .ok p → ∀ r ∈ p.2, r.bindable = true := by
    intro p hp
    rw [after, hp] at hfit
    exact hfit
  cases op with
  | submit j c t₁ t₂ req =>
      have hbind : (req.toJob j c t₁ t₂).bindable = true := by
        simpa [Op.fits, Op.created, Op.binds] using hop
      have hok : (R.add (req.toJob j c t₁ t₂) s).isOk := hR.add_ok (hfresh _ rfl) hbind
      change ((R.add (req.toJob j c t₁ t₂) s).map _).isOk
      cases hs : R.add (req.toJob j c t₁ t₂) s with
      | error e => rw [hs] at hok; cases hok
      | ok p => rfl
  | markDispatched | markRunning | markTimedOut | requeue => exact hR.transitionIf_ok
  | markSucceeded | markFailed =>
      exact hR.completeIfRunning_ok (by simpa [Op.fits, Op.created, Op.binds] using hop)
  | markDispatchedWithAttempt | failStaleDispatch =>
      exact hR.readSave_isOk (fun _ => rfl) (fun _ => rfl) hfit'
  | markCancelled t j =>
      change (JobService.markCancelled R t j s).isOk
      rw [JobService.markCancelled]
      split
      · rfl
      · split
        · rfl
        · exact hR.transitionIf_ok

end Refinement

end JobSystem
