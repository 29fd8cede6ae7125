import JobSystem.Agent.Reconcile

namespace JobSystem

open Lib

/-- The containers that were found at the start of a session. Docker lists each of them once. -/
structure Listing where
  containers : List Found
  nodup : (containers.map Found.id).Nodup

def Listing.Distinct (l : Listing) : Prop := ((l.containers.filter fun f => f.Runs).map Found.jobId).Nodup

namespace Reconcile

variable {found : Option (List Found)} {inspect : ContainerId → Inspection} {running : Dict String ContainerId}
  {sequences : Dict String Nat} {tasks : List ReattachTask} {s t : Reconcile} {label : ReconcileLabel}

theorem step_running (h : s.step found inspect label = some t) : ∃ more, t.log = s.log ++ more ∧
    (label.main = true → ∀ j, .reattachEnded j ∉ more) ∧
    (t.running = s.running ∨
      (∃ f rest, s.ctl = .reattaching f rest ∧ t.running = s.running.set f.jobId f.id) ∨
      ∃ j, t.running = s.running.pop j ∧ .reattachEnded j ∈ more) := by
  have hsame : s.log = s.log ++ [] := (List.append_nil _).symm
  unfold step at h
  split at h
  · split at h <;> cases h <;> exact ⟨[], hsame, fun _ _ => List.not_mem_nil, .inl rfl⟩
  · next rest hc =>
      cases h
      have hex : (s.examine rest).log = s.log ∧ (s.examine rest).running = s.running := by
        rw [examine.eq_def]
        split
        · exact ⟨rfl, rfl⟩
        · repeat' split
          all_goals exact ⟨rfl, rfl⟩
      exact ⟨[], hex.1.trans hsame, fun _ _ => List.not_mem_nil, .inl hex.2⟩
  · next f rest hc =>
      cases h
      refine ⟨[.reconciled f.id f.jobId], rfl, fun _ j hj => ?_, .inr (.inl ⟨f, rest, hc, rfl⟩)⟩
      cases List.mem_singleton.mp hj
  · next f rest hc =>
      cases h
      have hin : (s.inspected (inspect f.id) f rest).log = s.log ∧
          (s.inspected (inspect f.id) f rest).running = s.running := by
        rw [inspected]
        split <;> exact ⟨rfl, rfl⟩
      exact ⟨[], hin.1.trans hsame, fun _ _ => List.not_mem_nil, .inl hin.2⟩
  · next f r rest hc =>
      cases h
      refine ⟨[.reported f.id r], rfl, fun _ j hj => ?_, .inl rfl⟩
      cases List.mem_singleton.mp hj
  · next f rest hc =>
      cases h
      refine ⟨[.removed f.id], rfl, fun _ j hj => ?_, .inl rfl⟩
      cases List.mem_singleton.mp hj
  · next i result =>
      split at h
      · next u hu =>
          split at h
          · cases h
          · cases h
            cases result with
            | some r => exact ⟨[], hsame, fun h => (by cases h), .inl rfl⟩
            | none =>
                exact ⟨[.reattachEnded u.jobId], rfl, fun h => (by cases h),
                  .inr (.inr ⟨u.jobId, rfl, List.mem_singleton_self _⟩)⟩
      · cases h
  · next i ok =>
      split at h
      · next u hu =>
          obtain ⟨r, -, rfl⟩ := Option.map_eq_some_iff.mp h
          cases ok with
          | true =>
              refine ⟨[.reattachReported u.id r, .reattachEnded u.jobId], ?_, fun h => (by cases h),
                .inr (.inr ⟨u.jobId, rfl, List.mem_cons_of_mem _ (List.mem_singleton_self _)⟩)⟩
              exact List.append_assoc _ _ _
          | false =>
              exact ⟨[.reattachEnded u.jobId], rfl, fun h => (by cases h),
                .inr (.inr ⟨u.jobId, rfl, List.mem_singleton_self _⟩)⟩
      · cases h
  · cases h

/-- An entry stays until its job ends or another container of the job takes its place. -/
theorem tracked_step {f : Found} (hT : Tracked s f) (h : s.step found inspect label = some t)
    (hother : ∀ g rest, s.ctl = .reattaching g rest → g.jobId ≠ f.jobId) : Tracked t f := by
  obtain ⟨older, newer, hlog, hrun⟩ := hT
  obtain ⟨more, hmore, -, hrunning⟩ := step_running h
  refine ⟨older, newer ++ more, by rw [hmore, hlog, List.append_assoc, List.cons_append], ?_⟩
  rcases hrun with hget | hend
  · rcases hrunning with he | ⟨g, rest, hc, he⟩ | ⟨j, he, hj⟩
    · exact .inl (by rw [he, hget])
    · refine .inl ?_
      rw [he, Dict.get_set, if_neg (Ne.symm (hother g rest hc)), hget]
    · by_cases hjob : f.jobId = j
      · subst j
        exact .inr (List.mem_append_right _ hj)
      · refine .inl ?_
        rw [he, Dict.get_pop, if_neg hjob, hget]
  · exact .inr (List.mem_append_left _ hend)

/-- Every act of `_reconcile` belongs to a container of the list, before which all could be inspected. -/
def Covered (inspect : ContainerId → Inspection) (fs : List Found) (s : Reconcile) : Prop :=
  ∀ a ∈ s.acted, ∃ pre f post, fs = pre ++ f :: post ∧ (∀ g ∈ pre, g.Inspectable inspect) ∧
    f.Inspectable inspect ∧ a ∈ f.acts inspect

theorem covered_of_at {fs done : List Found} (hat : At inspect fs done s) (hok : ∀ f ∈ done, f.Inspectable inspect) :
    Covered inspect fs s := by
  have hdone : ∀ rest, fs = done ++ rest → ∀ a ∈ done.flatMap (Found.acts inspect), ∃ pre f post,
      fs = pre ++ f :: post ∧ (∀ g ∈ pre, g.Inspectable inspect) ∧ f.Inspectable inspect ∧ a ∈ f.acts inspect := by
    intro rest hfs a ha
    obtain ⟨f, hf, hfa⟩ := List.mem_flatMap.mp ha
    obtain ⟨pre, post, rfl⟩ := List.append_of_mem hf
    refine ⟨pre, f, post ++ rest, by rw [hfs, List.append_assoc, List.cons_append], fun g hg => ?_, ?_, hfa⟩
    · exact hok g (List.mem_append_left _ hg)
    · exact hok f (List.mem_append_right _ List.mem_cons_self)
  intro a ha
  rw [At] at hat
  cases hc : s.ctl with
  | listing =>
      rw [hc] at hat
      rw [hat.2] at ha
      cases ha
  | examining rest =>
      rw [hc] at hat
      exact hdone rest hat.1 a (hat.2 ▸ ha)
  | reattaching f rest | inspecting f rest =>
      rw [hc] at hat
      exact hdone _ hat.1 a (hat.2.2 ▸ ha)
  | reporting f r rest =>
      rw [hc] at hat
      exact hdone _ hat.1 a (hat.2.1 ▸ ha)
  | removing f rest =>
      rw [hc] at hat
      obtain ⟨hfs, hf, before, hacted, hacts⟩ := hat
      rw [hacted] at ha
      rcases List.mem_append.mp ha with ha | ha
      · exact hdone _ hfs a ha
      · exact ⟨done, f, rest, hfs, hok, hf, by rw [hacts]; exact List.mem_append_left _ ha⟩
  | listening =>
      rw [hc] at hat
      exact hdone [] (hat.1.trans (List.append_nil _).symm) a (hat.2 ▸ ha)
  | raised =>
      rw [hc] at hat
      obtain ⟨f, rest, hfs, -, hacted⟩ := hat
      exact hdone _ hfs a (hacted ▸ ha)

/-- How far `_reconcile` has come: what it has gone through could be inspected, and is tracked if it runs. -/
def Through (inspect : ContainerId → Inspection) (l : Listing) (s : Reconcile) : Prop :=
  ∃ done, At inspect l.containers done s ∧ (∀ f ∈ done, f.Inspectable inspect) ∧
    (l.Distinct → ∀ f ∈ done, f.Runs → Tracked s f)

theorem reattaching_other {l : Listing} {done rest : List Found} {f g : Found} (hd : l.Distinct)
    (hl : l.containers = done ++ g :: rest) (hf : f ∈ done) (hfr : f.Runs) (hgr : g.Runs) : g.jobId ≠ f.jobId := by
  intro he
  rw [Listing.Distinct, hl, List.filter_append, List.map_append, List.nodup_append] at hd
  refine hd.2.2 f.jobId ?_ g.jobId ?_ he.symm
  · exact List.mem_map.mpr ⟨f, List.mem_filter.mpr ⟨hf, decide_eq_true hfr⟩, rfl⟩
  · exact List.mem_map.mpr ⟨g, List.mem_filter.mpr ⟨List.mem_cons_self, decide_eq_true hgr⟩, rfl⟩

theorem through_step {l : Listing} (hI : Through inspect l s) (h : s.step (some l.containers) inspect label = some t) :
    Through inspect l t := by
  obtain ⟨done, hat, hok, htracked⟩ := hI
  have hkept : l.Distinct → ∀ f ∈ done, f.Runs → Tracked t f := by
    intro hd f hf hfr
    refine tracked_step (htracked hd f hf hfr) h fun g rest hc => ?_
    rw [At, hc] at hat
    exact reattaching_other hd hat.1 hf hfr hat.2.1
  rcases at_step hat h with hat' | ⟨f, hf, hat', hnew⟩
  · exact ⟨done, hat', hok, hkept⟩
  · refine ⟨done ++ [f], hat', List.forall_mem_append.mpr ⟨hok, List.forall_mem_singleton.mpr hf⟩, fun hd => ?_⟩
    exact List.forall_mem_append.mpr ⟨hkept hd, List.forall_mem_singleton.mpr hnew⟩

theorem through_of_reachable {l : Listing}
    (h : (machine (some l.containers) inspect running sequences tasks).Reachable s) : Through inspect l s := by
  have hstart : Through inspect l (start running sequences tasks) :=
    ⟨[], ⟨rfl, rfl⟩, fun _ hf => absurd hf List.not_mem_nil, fun _ _ hf => absurd hf List.not_mem_nil⟩
  exact h.invariant (I := Through inspect l) (fun _ _ _ hI _ hst => through_step hI hst) hstart

theorem ctl_of_listed (h : s.step found inspect .listed = some t) : s.ctl = .listing := by
  obtain ⟨ctl⟩ := s
  cases ctl <;> first | rfl | cases h

def pending (s : Reconcile) : List Found :=
  match s.ctl with
  | .examining rest => rest
  | .reattaching f rest | .inspecting f rest | .reporting f _ rest | .removing f rest => f :: rest
  | .listing | .listening | .raised => []

theorem pending_step (hl : label.main = true) (hne : label ≠ .listed) (h : s.step found inspect label = some t) :
    t.pending <:+ s.pending ∧ (label = .removed → ∃ f, s.ctl = .removing f t.pending ∧ s.pending = f :: t.pending) := by
  unfold step at h
  split at h <;> try cases hl
  · exact absurd rfl hne
  · next rest hc =>
      cases h
      refine ⟨?_, fun h => (by cases h)⟩
      rw [pending.eq_def s, hc]
      dsimp only
      cases rest with
      | nil => exact List.suffix_rfl
      | cons f rest =>
          rw [examine]
          split
          · exact List.suffix_rfl
          · split
            · exact List.suffix_rfl
            · split
              · exact List.suffix_rfl
              · exact List.suffix_cons _ _
  · next f rest hc =>
      cases h
      refine ⟨?_, fun h => (by cases h)⟩
      rw [pending.eq_def s, hc]
      exact List.suffix_cons _ _
  · next f rest hc =>
      cases h
      refine ⟨?_, fun h => (by cases h)⟩
      rw [pending.eq_def s, hc, inspected]
      split
      · exact List.suffix_rfl
      · exact List.nil_suffix
  · next f r rest hc =>
      cases h
      refine ⟨?_, fun h => (by cases h)⟩
      rw [pending.eq_def s, hc]
      exact List.suffix_rfl
  · next f rest hc =>
      cases h
      rw [pending.eq_def s, hc]
      exact ⟨List.suffix_cons _ _, fun _ => ⟨f, rfl, rfl⟩⟩
  · cases h

section Steps

variable {f : Found} {rest : List Found}

theorem step_examine (hs : s.ctl = .examining rest) : s.step found inspect .examine = some (s.examine rest) := by
  cases s
  cases hs
  rfl

theorem step_reconcileSent (hs : s.ctl = .reattaching f rest) :
    s.step found inspect .reconcileSent = some (s.reattach f rest) := by
  cases s
  cases hs
  rfl

theorem step_inspected (hs : s.ctl = .inspecting f rest) :
    s.step found inspect .inspected = some (s.inspected (inspect f.id) f rest) := by
  cases s
  cases hs
  rfl

theorem step_resultSent {r : JobResult} (hs : s.ctl = .reporting f r rest) :
    s.step found inspect .resultSent = some ((s.act (.reported f.id r)).goto (.removing f rest)) := by
  cases s
  cases hs
  rfl

theorem step_removed (hs : s.ctl = .removing f rest) :
    s.step found inspect .removed = some ((s.act (.removed f.id)).goto (.examining rest)) := by
  cases s
  cases hs
  rfl

end Steps

section Runs

variable (found inspect running sequences tasks)

theorem run_step (label : ReconcileLabel) (hl : label.main = true) (h : s.step found inspect label = some t) :
    (machine found inspect running sequences tasks).Run (fun _ l => l.main) s t :=
  Relation.ReflTransGen.single ⟨label, hl, h⟩

theorem run_removing (s : Reconcile) {f : Found} {rest : List Found} (hs : s.ctl = .removing f rest) :
    ∃ t, (machine found inspect running sequences tasks).Run (fun _ l => l.main) s t ∧ t.ctl = .examining rest :=
  ⟨_, run_step found inspect running sequences tasks .removed rfl (step_removed hs), rfl⟩

theorem run_inspecting (s : Reconcile) {f : Found} {rest : List Found} (hs : s.ctl = .inspecting f rest)
    (hf : (inspect f.id).result.isSome) :
    ∃ t, (machine found inspect running sequences tasks).Run (fun _ l => l.main) s t ∧ t.ctl = .examining rest := by
  obtain ⟨⟨exitCode, stdout, stderr⟩, hr⟩ := Option.isSome_iff_exists.mp hf
  let r := jobResult f.jobId exitCode stdout stderr none
  have hread : s.step found inspect .inspected = some (s.goto (.reporting f r rest)) := by
    rw [step_inspected hs, inspected, hr]
  have hreport := run_step found inspect running sequences tasks .inspected rfl hread
  have hsent := run_step found inspect running sequences tasks (s := s.goto (.reporting f r rest)) .resultSent rfl
    (step_resultSent rfl)
  obtain ⟨t, ht, hc⟩ := run_removing found inspect running sequences tasks
    ((s.act (.reported f.id r)).goto (.removing f rest)) rfl
  exact ⟨t, (hreport.trans hsent).trans ht, hc⟩

theorem run_container {f : Found} {rest : List Found} (hs : s.ctl = .examining (f :: rest))
    (hf : f.Inspectable inspect) :
    ∃ t, (machine found inspect running sequences tasks).Run (fun _ l => l.main) s t ∧ t.ctl = .examining rest := by
  have hexamine := run_step found inspect running sequences tasks .examine rfl (step_examine hs)
  rw [examine] at hexamine
  split at hexamine
  · obtain ⟨t, ht, hc⟩ := run_removing found inspect running sequences tasks (s.goto (.removing f rest)) rfl
    exact ⟨t, hexamine.trans ht, hc⟩
  · next hj =>
      split at hexamine
      · have hsent := run_step found inspect running sequences tasks (s := s.goto (.reattaching f rest)) .reconcileSent
          rfl (step_reconcileSent rfl)
        exact ⟨_, hexamine.trans hsent, rfl⟩
      · split at hexamine
        · next hstatus =>
            obtain ⟨t, ht, hc⟩ := run_inspecting found inspect running sequences tasks (s.goto (.inspecting f rest)) rfl
              (hf ⟨hj, hstatus⟩)
            exact ⟨t, hexamine.trans ht, hc⟩
        · exact ⟨_, hexamine, rfl⟩

theorem run_containers {pre rest : List Found} (hs : s.ctl = .examining (pre ++ rest))
    (hpre : ∀ f ∈ pre, f.Inspectable inspect) :
    ∃ t, (machine found inspect running sequences tasks).Run (fun _ l => l.main) s t ∧ t.ctl = .examining rest := by
  induction pre generalizing s with
  | nil => exact ⟨s, .refl, hs⟩
  | cons f pre ih =>
      obtain ⟨t, ht, hc⟩ := run_container found inspect running sequences tasks hs (hpre f List.mem_cons_self)
      obtain ⟨u, hu, hc'⟩ := ih hc fun g hg => hpre g (List.mem_cons_of_mem _ hg)
      exact ⟨u, ht.trans hu, hc'⟩

end Runs

/-- `_reconcile` returns, and the session comes to its listening loop. Every container is handled on the way,
and one that cannot be inspected keeps no later session from its loop. -/
structure Completes (found : Option Listing) (inspect : ContainerId → Inspection) (running : Dict String ContainerId)
    (sequences : Dict String Nat) (tasks : List ReattachTask) : Prop where
  returns : ∀ s, (machine (found.map Listing.containers) inspect running sequences tasks).Reachable s → s.ctl ≠ .raised
  reaches : ∀ s, (machine (found.map Listing.containers) inspect running sequences tasks).Reachable s →
    ∃ t, (machine (found.map Listing.containers) inspect running sequences tasks).Run (fun _ l => l.main) s t ∧
      t.ctl = .listening
  handled : ∀ s, (machine (found.map Listing.containers) inspect running sequences tasks).Reachable s →
    s.ctl = .listening → ∀ l, found = some l → ∀ f ∈ l.containers,
      s.log.filter (fun a => a.target = some f.id) = f.acts inspect ∧ (f.Runs → Tracked s f)
  later : ∀ l, found = some l → ∀ f ∈ l.containers, ¬ f.Inspectable inspect → ∀ l' : Listing, f ∈ l'.containers →
    ∀ running sequences tasks, ∃ s, (machine (some l'.containers) inspect running sequences tasks).Reachable s ∧
      s.ctl = .listening

theorem filter_acts {l : Listing} {f : Found} (hf : f ∈ l.containers) :
    (l.containers.flatMap (Found.acts inspect)).filter (fun a => a.target = some f.id) = f.acts inspect := by
  obtain ⟨pre, post, hl⟩ := List.append_of_mem hf
  have hnodup := l.nodup
  rw [hl, List.map_append, List.map_cons, List.nodup_append, List.nodup_cons] at hnodup
  have hother : ∀ fs : List Found, (∀ g ∈ fs, g.id ≠ f.id) →
      (fs.flatMap (Found.acts inspect)).filter (fun a => a.target = some f.id) = [] := by
    intro fs hne
    rw [List.filter_eq_nil_iff]
    intro a ha
    obtain ⟨g, hg, hga⟩ := List.mem_flatMap.mp ha
    simpa [Found.target_acts inspect hga] using hne g hg
  have hself : (f.acts inspect).filter (fun a => a.target = some f.id) = f.acts inspect := by
    rw [List.filter_eq_self]
    intro a ha
    simpa using Found.target_acts inspect ha
  rw [hl, List.flatMap_append, List.flatMap_cons, List.filter_append, List.filter_append, hself, hother, hother,
    List.nil_append, List.append_nil]
  · exact fun g hg he => hnodup.2.1.1 (List.mem_map.mpr ⟨g, hg, he⟩)
  · exact fun g hg he => hnodup.2.2 g.id (List.mem_map_of_mem hg) f.id List.mem_cons_self he

theorem filter_acted (s : Reconcile) (id : ContainerId) :
    s.acted.filter (fun a => a.target = some id) = s.log.filter fun a => a.target = some id := by
  rw [acted, List.filter_filter]
  refine List.filter_congr fun a _ => ?_
  cases a.target <;> simp

/-- The loop comes to its end, if what remains of the list can be inspected. -/
theorem run_listening (s : Reconcile) {rest : List Found} (hs : s.ctl = .examining rest)
    (hok : ∀ f ∈ rest, f.Inspectable inspect) :
    ∃ t, (machine found inspect running sequences tasks).Run (fun _ l => l.main) s t ∧ t.ctl = .listening := by
  have hrest : s.ctl = .examining (rest ++ []) := by rw [hs, List.append_nil]
  obtain ⟨t, ht, hc⟩ := run_containers found inspect running sequences tasks hrest hok
  exact ⟨_, ht.trans (run_step found inspect running sequences tasks .examine rfl (step_examine hc)), rfl⟩

theorem reaches_listening {l : Listing} (hok : ∀ f ∈ l.containers, f.Inspectable inspect) (hI : Through inspect l s) :
    ∃ t, (machine (some l.containers) inspect running sequences tasks).Run (fun _ l => l.main) s t ∧
      t.ctl = .listening := by
  obtain ⟨done, hat, -, -⟩ := hI
  have hafter : ∀ {rest : List Found} {u : Reconcile}, (∀ f ∈ rest, f ∈ l.containers) → u.ctl = .examining rest →
      (machine (some l.containers) inspect running sequences tasks).Run (fun _ l => l.main) s u →
      ∃ t, (machine (some l.containers) inspect running sequences tasks).Run (fun _ l => l.main) s t ∧
        t.ctl = .listening := by
    intro rest u hmem hu hrun
    obtain ⟨t, ht, hc⟩ := run_listening u hu fun f hf => hok f (hmem f hf)
    exact ⟨t, hrun.trans ht, hc⟩
  have hrest : ∀ {f : Found} {rest : List Found}, l.containers = done ++ f :: rest → ∀ g ∈ rest, g ∈ l.containers := by
    intro f rest hl g hg
    rw [hl]
    exact List.mem_append_right _ (List.mem_cons_of_mem _ hg)
  rw [At] at hat
  cases hc : s.ctl with
  | listing =>
      have hstep : s.step (some l.containers) inspect .listed = some (s.goto (.examining l.containers)) := by
        cases s
        cases hc
        rfl
      exact hafter (fun _ hf => hf) rfl (run_step _ inspect running sequences tasks .listed rfl hstep)
  | examining rest =>
      rw [hc] at hat
      refine hafter (fun f hf => ?_) hc .refl
      rw [hat.1]
      exact List.mem_append_right _ hf
  | reattaching f rest =>
      rw [hc] at hat
      exact hafter (hrest hat.1) rfl
        (run_step _ inspect running sequences tasks .reconcileSent rfl (step_reconcileSent hc))
  | inspecting f rest =>
      rw [hc] at hat
      have hf : f ∈ l.containers := by
        rw [hat.1]
        exact List.mem_append_right _ List.mem_cons_self
      obtain ⟨t, ht, hct⟩ := run_inspecting (some l.containers) inspect running sequences tasks s hc
        (hok f hf hat.2.1)
      exact hafter (hrest hat.1) hct ht
  | reporting f r rest =>
      rw [hc] at hat
      have hsent := run_step (some l.containers) inspect running sequences tasks .resultSent rfl (step_resultSent hc)
      obtain ⟨t, ht, hct⟩ := run_removing (some l.containers) inspect running sequences tasks
        ((s.act (.reported f.id r)).goto (.removing f rest)) rfl
      exact hafter (hrest hat.1) hct (hsent.trans ht)
  | removing f rest =>
      rw [hc] at hat
      obtain ⟨t, ht, hct⟩ := run_removing (some l.containers) inspect running sequences tasks s hc
      exact hafter (hrest hat.1) hct ht
  | listening => exact ⟨s, .refl, hc⟩
  | raised =>
      rw [hc] at hat
      obtain ⟨f, rest, hl, hf, -⟩ := hat
      exact absurd (hok f (by rw [hl]; exact List.mem_append_right _ List.mem_cons_self)) hf

theorem completes_of_unlisted : Completes none inspect running sequences tasks := by
  have hctl : ∀ s, (machine none inspect running sequences tasks).Reachable s →
      s.ctl = .listing ∨ s.ctl = .listening := by
    intro s hs
    refine hs.invariant (I := fun s => s.ctl = .listing ∨ s.ctl = .listening) ?_ (.inl rfl)
    intro u label v hu _ hst
    change u.step none inspect label = some v at hst
    cases hl : label.main with
    | false => rwa [(step_task hst hl).1]
    | true =>
        unfold step at hst
        rcases hu with hc | hc <;> rw [hc] at hst <;> cases label <;> cases hl <;> cases hst
        exact .inr rfl
  constructor
  · intro s hs hc
    rcases hctl s hs with h | h <;> rw [h] at hc <;> cases hc
  · intro s hs
    rcases hctl s hs with hc | hc
    · have hstep : s.step none inspect .listed = some (s.goto .listening) := by
        cases s
        cases hc
        rfl
      exact ⟨_, run_step none inspect running sequences tasks .listed rfl hstep, rfl⟩
    · exact ⟨s, .refl, hc⟩
  · rintro _ _ _ _ ⟨⟩
  · rintro _ ⟨⟩

theorem completes_of_inspectable {l : Listing} (hok : ∀ f ∈ l.containers, f.Inspectable inspect) (hd : l.Distinct) :
    Completes (some l) inspect running sequences tasks := by
  have hthrough : ∀ s, (machine (some l.containers) inspect running sequences tasks).Reachable s →
      Through inspect l s := fun s => through_of_reachable
  constructor
  · intro s hs hc
    obtain ⟨done, hat, -, -⟩ := hthrough s hs
    rw [At, hc] at hat
    obtain ⟨f, rest, hl, hf, -⟩ := hat
    exact hf (hok f (by rw [hl]; exact List.mem_append_right _ List.mem_cons_self))
  · exact fun s hs => reaches_listening hok (hthrough s hs)
  · rintro s hs hc _ ⟨⟩ f hf
    obtain ⟨done, hat, -, htracked⟩ := hthrough s hs
    rw [At, hc] at hat
    obtain ⟨hl, hacted⟩ := hat
    rw [← hl] at hacted htracked
    refine ⟨?_, htracked hd f hf⟩
    rw [← filter_acted, hacted, filter_acts hf]
  · rintro _ ⟨⟩ f hf hbad
    exact absurd (hok f hf) hbad

variable (running sequences tasks) in
theorem run_raised {l : Listing} {f : Found} (hf : f ∈ l.containers) (hbad : ¬ f.Inspectable inspect) :
    ∃ t, (machine (some l.containers) inspect running sequences tasks).Reachable t ∧ t.ctl = .raised := by
  have hsome : (l.containers.find? fun g => decide (¬ g.Inspectable inspect)).isSome :=
    List.find?_isSome.mpr ⟨f, hf, decide_eq_true hbad⟩
  obtain ⟨x, hfind⟩ := Option.isSome_iff_exists.mp hsome
  obtain ⟨hx, pre, rest, hl, hpre⟩ := List.find?_eq_some_iff_append.mp hfind
  have hok : ∀ g ∈ pre, g.Inspectable inspect := by simpa using hpre
  obtain ⟨hfin, hres⟩ := Classical.not_imp.mp (of_decide_eq_true hx)
  have hlisted : (start running sequences tasks).step (some l.containers) inspect .listed =
      some ((start running sequences tasks).goto (.examining (pre ++ x :: rest))) := by
    rw [← hl]
    rfl
  have hstart := run_step (some l.containers) inspect running sequences tasks .listed rfl hlisted
  obtain ⟨t, ht, hc⟩ := run_containers (some l.containers) inspect running sequences tasks
    (s := (start running sequences tasks).goto (.examining (pre ++ x :: rest))) rfl hok
  have hrun : x.status ≠ "running" := by rcases hfin.2 with h | h <;> rw [h] <;> decide
  have hexamine : t.step (some l.containers) inspect .examine = some (t.goto (.inspecting x rest)) := by
    rw [step_examine hc, examine, if_neg hfin.1, if_neg hrun, if_pos hfin.2]
  have hinspect : (t.goto (.inspecting x rest)).step (some l.containers) inspect .inspected =
      some (t.goto .raised) := by
    rw [step_inspected rfl, inspected, Option.not_isSome_iff_eq_none.mp hres]
    rfl
  have hexamined := run_step (some l.containers) inspect running sequences tasks .examine rfl hexamine
  have hraised := run_step (some l.containers) inspect running sequences tasks .inspected rfl hinspect
  exact ⟨t.goto .raised, Machine.Run.reachable (((hstart.trans ht).trans hexamined).trans hraised), rfl⟩

/-- When no task has moved, every running container of the list has the entry of its job. -/
theorem distinct_of_completes {l : Listing} (h : Completes (some l) inspect running sequences tasks) : l.Distinct := by
  obtain ⟨t, ht, hc⟩ := h.reaches _ .refl
  have hquiet : ∀ j, .reattachEnded j ∉ t.log := by
    refine ht.invariant (I := fun t => ∀ j, .reattachEnded j ∉ t.log) ?_ fun _ => List.not_mem_nil
    intro u label v hu hl hst j hj
    have hstep : u.step (some l.containers) inspect label = some v := hst
    obtain ⟨more, hlog, hmore, -⟩ := step_running hstep
    rw [hlog] at hj
    rcases List.mem_append.mp hj with hj | hj
    · exact hu j hj
    · exact hmore hl j hj
  have hentry : ∀ f ∈ l.containers, f.Runs → t.running.get f.jobId = some f.id := by
    intro f hf hfr
    obtain ⟨older, newer, hlog, hget | hend⟩ := (h.handled t ht.reachable hc l rfl f hf).2 hfr
    · exact hget
    · refine absurd ?_ (hquiet f.jobId)
      rw [hlog]
      exact List.mem_append_right _ (List.mem_cons_of_mem _ hend)
  refine List.Nodup.map_on ?_ (l.nodup.of_map.filter _)
  intro f hf g hg he
  obtain ⟨hf, hfr⟩ := List.mem_filter.mp hf
  obtain ⟨hg, hgr⟩ := List.mem_filter.mp hg
  have hid : f.id = g.id := by
    have hfe := hentry f hf (of_decide_eq_true hfr)
    rw [he, hentry g hg (of_decide_eq_true hgr)] at hfe
    exact (Option.some.inj hfe).symm
  exact List.inj_on_of_nodup_map l.nodup hf hg hid

/-- A container that cannot be inspected stays, so that the session ends at it each time. -/
theorem stuck {l : Listing} {f : Found} (hf : f ∈ l.containers) (hbad : ¬ f.Inspectable inspect)
    (hs : (machine (some l.containers) inspect running sequences tasks).Reachable s) :
    s.ctl ≠ .listening ∧ .removed f.id ∉ s.log := by
  obtain ⟨done, hat, hok, -⟩ := through_of_reachable hs
  refine ⟨fun hc => ?_, fun hmem => ?_⟩
  · rw [At, hc] at hat
    exact hbad (hok f (hat.1 ▸ hf))
  · have hacted : .removed f.id ∈ s.acted := List.mem_filter.mpr ⟨hmem, rfl⟩
    obtain ⟨pre, g, post, hl, hpre, hg, hact⟩ := covered_of_at hat hok _ hacted
    have hid : g.id = f.id := Option.some.inj (Found.target_acts inspect hact).symm
    have hmem : g ∈ l.containers := by
      rw [hl]
      exact List.mem_append_right _ List.mem_cons_self
    exact hbad (List.inj_on_of_nodup_map l.nodup hmem hf hid ▸ hg)

end Reconcile

end JobSystem
