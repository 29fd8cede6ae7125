import JobSystem.Repository.Refinement

namespace JobSystem

open Lib

inductive Call
  | op (op : Op)
  | get (jobId : String)
  | list (agentId : Option String) (state : Option JobState)

inductive Reply
  | record (job : Option Job)
  | records (jobs : List Job)
  | raised (e : PyError)

namespace Reply

def ofExcept {σ : Type} : Except PyError (Option Job × σ) → Reply
  | .ok (r, _) => record r
  | .error e => raised e

end Reply

namespace Call

def created : Call → Option Job
  | op o => o.created
  | _ => none

def integersFit : Call → Bool
  | op o => o.integersFit
  | _ => true

def fits : Call → Bool
  | op o => o.fits
  | _ => true

section Runs

variable {σ : Type} (R : JobRepository σ)

def answer : Call → σ → Reply
  | op o, s => .ofExcept (exec R o s)
  | get j, s => .record (JobService.get R j s)
  | list a q, s => .records (JobService.list R a q s)

def next : Call → σ → σ
  | op o, s => after R o s
  | _, s => s

def answers : List Call → σ → List Reply
  | [], _ => []
  | c :: cs, s => c.answer R s :: answers cs (c.next R s)

def final (cs : List Call) (s : σ) : σ := cs.foldl (fun s c => c.next R s) s

end Runs

def InRange (fits : Call → Bool) (holds : Job → Bool) : List Call → MemoryStore → Prop
  | [], _ => True
  | c :: cs, s =>
      fits c = true ∧ (∀ r ∈ (c.next inMemoryJobRepository s).records, holds r = true) ∧
        InRange fits holds cs (c.next inMemoryJobRepository s)

instance decidableInRange (fits : Call → Bool) (holds : Job → Bool) : ∀ cs s, Decidable (InRange fits holds cs s)
  | [], _ => isTrue trivial
  | c :: cs, s =>
      have := decidableInRange fits holds cs (c.next inMemoryJobRepository s)
      inferInstanceAs (Decidable (_ ∧ _ ∧ _))

end Call

/-- A record without the values of its times: only which of them are set is left. -/
def Job.untimed (job : Job) : Job :=
  { job with
    createdAt := .epoch
    updatedAt := .epoch
    startedAt := job.startedAt.map fun _ => .epoch
    finishedAt := job.finishedAt.map fun _ => .epoch }

namespace Op

def untimed : Op → Op
  | submit j c _ _ req => submit j c .epoch .epoch req
  | markDispatched _ j => markDispatched .epoch j
  | markDispatchedWithAttempt _ _ j => markDispatchedWithAttempt .epoch .epoch j
  | markRunning _ j => markRunning .epoch j
  | markSucceeded _ j x o e => markSucceeded .epoch j x o e
  | markFailed _ j x o e err => markFailed .epoch j x o e err
  | markTimedOut _ j => markTimedOut .epoch j
  | markCancelled _ j => markCancelled .epoch j
  | requeue _ j => requeue .epoch j
  | failStaleDispatch _ _ j error => failStaleDispatch .epoch .epoch j error

end Op

def Call.untimed : Call → Call
  | .op o => .op o.untimed
  | c => c

def Reply.untimed : Reply → Reply
  | .record job => .record (job.map Job.untimed)
  | .records jobs => .records (jobs.map Job.untimed)
  | .raised e => .raised e

section Untimed

theorem Job.transition_untimed (t : Instant) (e n : JobState) (job : Job) :
    (job.transition t e n).untimed = job.untimed.transition .epoch e n := by
  unfold transition
  by_cases he : job.state = e
  · have he' : job.untimed.state = e := he
    rw [if_pos he, if_pos he']
    cases hs : job.startedAt <;> cases n <;> simp [untimed, hs]
  · have he' : ¬ job.untimed.state = e := he
    rw [if_neg he, if_neg he']

theorem Job.complete_untimed (t : Instant) (n : JobState) (x : Int) (o e : PyStr)
    (err : Option PyStr) (job : Job) :
    (job.complete t n x o e err).untimed = job.untimed.complete .epoch n x o e err := by
  unfold complete
  rw [apply_ite Job.untimed]
  rfl

theorem Op.effect_untimed (op : Op) (job : Job) :
    (op.effect job).untimed = op.untimed.effect job.untimed := by
  cases op with
  | submit => rfl
  | markDispatched | markRunning | markTimedOut | requeue => exact Job.transition_untimed _ _ _ _
  | markSucceeded | markFailed => exact Job.complete_untimed _ _ _ _ _ _ _
  | markDispatchedWithAttempt =>
      change (Job.dispatch _ job).untimed = Job.dispatch _ job.untimed
      unfold Job.dispatch
      rw [apply_ite Job.untimed]
      rfl
  | markCancelled =>
      change (Job.cancel _ job).untimed = Job.cancel _ job.untimed
      unfold Job.cancel
      rw [apply_ite Job.untimed, Job.transition_untimed]
      rfl
  | failStaleDispatch =>
      change (Job.failStale _ _ _ job).untimed = Job.failStale _ _ _ job.untimed
      unfold Job.failStale
      rw [apply_ite Job.untimed]
      rfl

namespace Ledger

theorem find_untimed (j : String) (L : Ledger) :
    find j (L.map Job.untimed) = (find j L).map Job.untimed :=
  List.find?_map

theorem findKey_untimed (key : String) (L : Ledger) :
    findKey key (L.map Job.untimed) = (findKey key L).map Job.untimed := List.find?_map

theorem update_untimed (j : String) (op : Op) (L : Ledger) :
    update j op.untimed.effect (L.map Job.untimed) = (update j op.effect L).map Job.untimed := by
  rw [update, update, List.map_map, List.map_map]
  refine List.map_congr_left fun r _ => ?_
  rw [Function.comp_apply, Function.comp_apply, apply_ite Job.untimed, op.effect_untimed]
  rfl

theorem add_untimed (job : Job) (L : Ledger) :
    add job.untimed (L.map Job.untimed) = ((add job L).1.untimed, (add job L).2.map Job.untimed) := by
  have hkey : (job.untimed.idempotencyKey.bind fun key => findKey key (L.map Job.untimed)) =
      (job.idempotencyKey.bind fun key => findKey key L).map Job.untimed := by
    change (job.idempotencyKey.bind _) = _
    cases job.idempotencyKey with
    | none => rfl
    | some key => exact findKey_untimed key L
  rw [add, add, hkey]
  cases job.idempotencyKey.bind fun key => findKey key L with
  | none => simp
  | some r => rfl

end Ledger

/-- The clock readings of a call have no influence beyond the times of the records. -/
theorem exec_untimed (op : Op) {L : Ledger} (hL : (L.map (·.jobId)).Nodup) :
    exec ledger op.untimed (L.map Job.untimed) =
      (exec ledger op L).map fun (r, L) => (r.map Job.untimed, L.map Job.untimed) := by
  cases hj : op.target with
  | none =>
      cases op <;> cases hj
      next j c t₁ t₂ req =>
        have hjob : req.toJob j c .epoch .epoch = (req.toJob j c t₁ t₂).untimed := rfl
        change Except.ok (some (Ledger.add _ _).1, (Ledger.add _ _).2) = _
        rw [hjob, Ledger.add_untimed]
        rfl
  | some j =>
      have hj' : op.untimed.target = some j := by cases op <;> exact hj
      have hL' : ((L.map Job.untimed).map (·.jobId)).Nodup := by
        rw [List.map_map]
        exact hL
      rw [exec_ledger hj hL, exec_ledger hj' hL', Ledger.update_untimed, Ledger.find_untimed]
      rfl

namespace Ledger

/-- On records whose creation times increase, a listing shows the newest first. -/
theorem list_untimed {L : Ledger} (hL : L.Pairwise fun a b => a.createdAt < b.createdAt)
    (agentId : Option String) (state : Option JobState) :
    (L.list agentId state).map Job.untimed =
      ((L.map Job.untimed).filter fun job => job.matches agentId state).reverse := by
  have hsort : L.list agentId state = (L.filter fun job => job.matches agentId state).reverse :=
    sortedReverse_eq_reverse ((hL.filter _).imp Instant.isoformat_lt)
  rw [hsort, List.map_reverse, List.filter_map]
  rfl

end Ledger

namespace Call

def pending (cs : List Call) (L : Ledger) : Ledger := L ++ cs.filterMap created

theorem next_pending (c : Call) (cs : List Call) {L : Ledger} (hL : (L.map (·.jobId)).Nodup)
    {α : Type} {φ : Job → α} (hφ : ∀ op r, φ (Op.effect op r) = φ r) :
    ((pending cs (c.next ledger L)).map φ).Sublist ((pending (c :: cs) L).map φ) := by
  cases c with
  | get | list => exact .refl _
  | op o =>
      cases hj : o.target with
      | none =>
          cases o <;> cases hj
          next j k t₁ t₂ req =>
            have hadd : (L.add (req.toJob j k t₁ t₂)).2.Sublist (L ++ [req.toJob j k t₁ t₂]) := by
              rw [Ledger.add]
              split
              · exact List.sublist_append_left _ _
              · exact .refl _
            have hsub := (hadd.append_right (cs.filterMap created)).map φ
            rwa [List.append_assoc] at hsub
      | some j =>
          have hmap : (L.update j o.effect).map φ = L.map φ := by
            rw [Ledger.update, List.map_map]
            refine List.map_congr_left fun r _ => ?_
            rw [Function.comp_apply, apply_ite φ, hφ, ite_self]
          have hnone : created (.op o) = none := by cases o <;> first | rfl | cases hj
          change (((after ledger o L) ++ _).map φ).Sublist _
          rw [after, exec_ledger hj hL, pending, List.filterMap_cons, hnone, List.map_append,
            List.map_append, hmap]

variable {σ : Type} {R : JobRepository σ} {records : σ → Ledger} {I : σ → Prop}

theorem answer_ledger (hR : Refines R records I) {s : σ} (hI : I s) {c : Call}
    (hfresh : ∀ b ∈ c.created, (records s).find b.jobId = none)
    (ht : (records s).Pairwise fun a b => a.createdAt < b.createdAt)
    (hok : ∀ o, c = .op o → (exec R o s).isOk) :
    c.answer R s = c.answer ledger (records s) ∧ records (c.next R s) = c.next ledger (records s) ∧
      I (c.next R s) := by
  cases c with
  | get j => exact ⟨congrArg Reply.record hR.get, rfl, hI⟩
  | list a q => exact ⟨congrArg Reply.records (hR.list.eq ht), rfl, hI⟩
  | op o =>
      have hok := hok o rfl
      cases he : exec R o s with
      | error e => rw [he] at hok; cases hok
      | ok p =>
          obtain ⟨hI', hL⟩ := hR.exec_agrees hI hfresh p.1 p.2 he
          refine ⟨?_, ?_, ?_⟩
          · rw [answer, answer, he, hL]; rfl
          · rw [next, next, after, after, he, hL]
          · rw [next, after, he]; exact hI'

theorem answer_untimed {c c' : Call} {L L' : Ledger} (hc : c.untimed = c'.untimed)
    (hL : L.map Job.untimed = L'.map Job.untimed) (hid : (L.map (·.jobId)).Nodup)
    (hid' : (L'.map (·.jobId)).Nodup) (ht : L.Pairwise fun a b => a.createdAt < b.createdAt)
    (ht' : L'.Pairwise fun a b => a.createdAt < b.createdAt) :
    (c.answer ledger L).untimed = (c'.answer ledger L').untimed ∧
      (c.next ledger L).map Job.untimed = (c'.next ledger L').map Job.untimed := by
  cases c with
  | get j =>
      cases c' <;> cases hc
      refine ⟨congrArg Reply.record ?_, hL⟩
      change (L.find j).map _ = (L'.find j).map _
      rw [← Ledger.find_untimed, hL, Ledger.find_untimed]
  | list a q =>
      cases c' <;> cases hc
      refine ⟨congrArg Reply.records ?_, hL⟩
      change (L.list a q).map _ = (L'.list a q).map _
      rw [Ledger.list_untimed ht, hL, Ledger.list_untimed ht']
  | op o =>
      cases c' with
      | get | list => cases hc
      | op o' =>
          have hex : (exec ledger o L).map (fun (r, L) => (r.map Job.untimed, L.map Job.untimed)) =
              (exec ledger o' L').map fun (r, L) => (r.map Job.untimed, L.map Job.untimed) := by
            rw [← exec_untimed o hid, ← exec_untimed o' hid', Call.op.inj hc, hL]
          simp only [answer, next, after]
          cases he : exec ledger o L with
          | error e =>
              cases he' : exec ledger o' L' with
              | error e' => rw [he, he'] at hex; cases hex; exact ⟨rfl, hL⟩
              | ok p' => rw [he, he'] at hex; cases hex
          | ok p =>
              cases he' : exec ledger o' L' with
              | error e' => rw [he, he'] at hex; cases hex
              | ok p' =>
                  rw [he, he'] at hex
                  obtain ⟨hr, hs⟩ := Prod.mk.inj (Except.ok.inj hex)
                  exact ⟨congrArg Reply.record hr, hs⟩

theorem find_pending {c : Call} {cs : List Call} {L : Ledger}
    (h : ((pending (c :: cs) L).map (·.jobId)).Nodup) {b : Job} (hb : b ∈ c.created) :
    L.find b.jobId = none := by
  refine List.find?_eq_none.mpr fun r hr => ?_
  rw [pending, List.map_append, List.nodup_append] at h
  have hmem : b.jobId ∈ ((c :: cs).filterMap created).map (·.jobId) :=
    List.mem_map_of_mem (List.mem_filterMap.mpr ⟨c, List.mem_cons_self, hb⟩)
  have hne := h.2.2 r.jobId (List.mem_map_of_mem hr) b.jobId hmem
  simpa using hne

theorem created_untimed (c : Call) : c.untimed.created = c.created.map Job.untimed := by
  cases c with
  | op o => cases o <;> rfl
  | get | list => rfl

theorem pending_untimed (cs : List Call) (L : Ledger) :
    pending (cs.map untimed) (L.map Job.untimed) = (pending cs L).map Job.untimed := by
  have hcreated : (cs.map untimed).filterMap created = (cs.filterMap created).map Job.untimed := by
    rw [List.filterMap_map, List.map_filterMap]
    exact List.filterMap_congr fun c _ => c.created_untimed
  rw [pending, pending, hcreated, List.map_append]

theorem fits_untimed (c : Call) : c.untimed.fits = c.fits := by
  cases c with
  | op o => cases o <;> rfl
  | get | list => rfl

theorem pairwise_pending {cs : List Call} {L : Ledger}
    (h : ((pending cs L).map (·.createdAt)).Pairwise (· < ·)) :
    L.Pairwise fun a b => a.createdAt < b.createdAt :=
  List.pairwise_map.mp ((List.pairwise_append.mp (List.map_append ▸ h)).1)

theorem pending_jobIds {cs cs' : List Call} {L L' : Ledger} (hcs : cs.map untimed = cs'.map untimed)
    (hL : L.map Job.untimed = L'.map Job.untimed) :
    (pending cs L).map (·.jobId) = (pending cs' L').map (·.jobId) := by
  have hsame : (pending cs L).map Job.untimed = (pending cs' L').map Job.untimed := by
    rw [← pending_untimed, ← pending_untimed, hcs, hL]
  have hkeys := congrArg (List.map (·.jobId)) hsame
  rwa [List.map_map, List.map_map] at hkeys

/-- The memory run shows which values the other store has to bind. -/
theorem sqlite_isOk {o : Op} {c' : Call} {T : JobTable} {s : MemoryStore}
    (hc : (Call.op o).untimed = c'.untimed)
    (hfresh : ∀ b ∈ o.created, Ledger.find b.jobId T.rows = none) (hfits : c'.fits = true)
    (hnext : (next ledger (.op o) T.rows).map Job.untimed =
      (c'.next inMemoryJobRepository s).records.map Job.untimed)
    (hbind : ∀ r ∈ (c'.next inMemoryJobRepository s).records, r.bindable = true) :
    (exec sqliteJobRepository o T).isOk := by
  refine sqliteJobRepository_refines.exec_isOk hfresh ?_ fun r hr => ?_
  · have hfits' := congrArg fits hc
    rw [fits_untimed, fits_untimed, hfits] at hfits'
    exact hfits'
  · have hmem := List.mem_map_of_mem (f := Job.untimed) hr
    change r.untimed ∈ (next ledger (.op o) T.rows).map Job.untimed at hmem
    rw [hnext] at hmem
    obtain ⟨r', hr', hu⟩ := List.mem_map.mp hmem
    exact (congrArg Job.bindable hu).symm.trans (hbind r' hr')

theorem run_untimed {cs cs' : List Call} {T : JobTable} {s : MemoryStore} (hs : s.Consistent)
    (hcs : cs.map untimed = cs'.map untimed)
    (hT : T.rows.map Job.untimed = s.records.map Job.untimed)
    (hid : ((pending cs' s.records).map (·.jobId)).Nodup)
    (ht : ((pending cs T.rows).map (·.createdAt)).Pairwise (· < ·))
    (ht' : ((pending cs' s.records).map (·.createdAt)).Pairwise (· < ·)) (hrange : InRange fits Job.bindable cs' s) :
    (answers sqliteJobRepository cs T).map Reply.untimed =
      (answers inMemoryJobRepository cs' s).map Reply.untimed ∧
      (final sqliteJobRepository cs T).rows.map Job.untimed =
        (final inMemoryJobRepository cs' s).records.map Job.untimed := by
  induction cs generalizing cs' T s with
  | nil =>
      cases cs' with
      | nil => exact ⟨rfl, hT⟩
      | cons => cases hcs
  | cons c cs ih =>
      cases cs' with
      | nil => cases hcs
      | cons c' cs' =>
          obtain ⟨hc, htail⟩ := List.cons.inj hcs
          have hidT : ((pending (c :: cs) T.rows).map (·.jobId)).Nodup := by
            rw [pending_jobIds hcs hT]
            exact hid
          obtain ⟨hfits, hbind, hrange'⟩ := hrange
          obtain ⟨ha', hn', hs'⟩ :=
            answer_ledger inMemoryJobRepository_refines hs (fun _ => find_pending hid) (pairwise_pending ht')
            fun o _ => InMemoryJobRepository.exec_isOk o s
          obtain ⟨hreply, hnext⟩ :=
            answer_untimed hc hT T.primary s.records_nodup (pairwise_pending ht) (pairwise_pending ht')
          have hok : ∀ o, c = .op o → (exec sqliteJobRepository o T).isOk := by
            rintro o rfl
            exact sqlite_isOk hc (fun _ => find_pending hidT) hfits (by rw [hn', hnext]) hbind
          obtain ⟨ha, hn, -⟩ :=
            answer_ledger sqliteJobRepository_refines (s := T) trivial (fun _ => find_pending hidT)
              (pairwise_pending ht) hok
          have hsub := next_pending c' cs' s.records_nodup (φ := (·.jobId)) Op.effect_jobId
          have hsubt := next_pending c cs T.primary (φ := (·.createdAt)) Op.effect_createdAt
          have hsubt' := next_pending c' cs' s.records_nodup (φ := (·.createdAt)) Op.effect_createdAt
          rw [← hn'] at hsub hsubt'
          rw [← hn] at hsubt
          obtain ⟨hreplies, hfinal⟩ :=
            ih hs' htail (by rw [hn, hn', hnext]) (hsub.nodup hid) (ht.sublist hsubt)
            (ht'.sublist hsubt') hrange'
          refine ⟨?_, hfinal⟩
          rw [answers, answers, List.map_cons, List.map_cons, ha, ha', hreply, hreplies]

end Call

def nightly (t₁ t₂ t₃ : Instant) : List Call :=
  let keyed : Request := ⟨"agent-1", "alpine", ["true"], 1000, some "nightly", 0, none⟩
  [.op (.submit "job_1" "c1" t₁ t₁ keyed), .op (.submit "job_2" "c2" t₂ t₂ keyed),
    .op (.submit "job_3" "c3" t₃ t₃ { keyed with idempotencyKey := none, priority := 5 }),
    .op (.markDispatchedWithAttempt t₃ t₃ "job_1"), .op (.markRunning t₃ "job_1"),
    .op (.markFailed t₃ "job_1" 3 "" "no such file" (some "no such file")), .op (.markCancelled t₃ "job_3"),
    .get "job_2", .list (some "agent-1") (some .cancelled)]

/-- A job that runs, and whose output ends in half of a surrogate pair. -/
def halfWritten : List Call :=
  [.op (.submit "job_1" "c1" .epoch .epoch ⟨"agent-1", "alpine", ["true"], 1000, none, 0, none⟩),
    .op (.markDispatchedWithAttempt .epoch .epoch "job_1"), .op (.markRunning .epoch "job_1"),
    .op (.markSucceeded .epoch "job_1" 0 highSurrogate "")]

end Untimed

end JobSystem
