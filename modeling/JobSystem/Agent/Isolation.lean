import JobSystem.Agent.Daemon

namespace JobSystem

open Lib

section Touched

variable (inspect : ContainerId → Inspection)

/-- `_reconcile` reports, reattaches to or removes the container. -/
def Found.Touched (f : Found) : Prop :=
  f.jobId = "" ∨ f.status = "running" ∨ ((f.status = "exited" ∨ f.status = "dead") ∧ (inspect f.id).result.isSome)

theorem Found.touched_iff {f : Found} : f.Touched inspect ↔ f.acts inspect ≠ [] := by
  rw [Touched, acts]
  split
  · next hj => exact iff_of_true (.inl hj) (List.cons_ne_nil _ _)
  · next hj =>
      split
      · next hr => exact iff_of_true (.inr (.inl hr)) (List.cons_ne_nil _ _)
      · next hr =>
          split
          · next hf =>
              cases hres : (inspect f.id).result with
              | some r => exact iff_of_true (.inr (.inr ⟨hf, rfl⟩)) (List.cons_ne_nil _ _)
              | none =>
                  refine iff_of_false ?_ (fun h => h rfl)
                  rintro (h | h | ⟨-, h⟩)
                  · exact hj h
                  · exact hr h
                  · cases h
          · next hf =>
              refine iff_of_false ?_ (fun h => h rfl)
              rintro (h | h | ⟨h, -⟩)
              · exact hj h
              · exact hr h
              · exact hf h

theorem Found.Touched.inspectable {f : Found} (h : f.Touched inspect) : f.Inspectable inspect := by
  rintro ⟨hj, hf⟩
  rcases h with h | h | ⟨-, h⟩
  · exact absurd h hj
  · rw [h] at hf
    exact absurd hf (by decide)
  · exact h

end Touched

namespace Reconcile

variable {found found' : Option (List Found)} {inspect inspect' : ContainerId → Inspection} {s t : Reconcile}
  {label : ReconcileLabel} {fs : List Found}

theorem step_listed (hs : s.ctl = .listing) : s.step (some fs) inspect .listed = some (s.goto (.examining fs)) := by
  cases s
  cases hs
  rfl

/-- Only one step calls for a container, and reads what the call gives. -/
theorem step_congr (hl : label ≠ .listed)
    (hinspect : ∀ f rest, label = .inspected → s.ctl = .inspecting f rest → inspect' f.id = inspect f.id) :
    s.step found inspect' label = s.step found' inspect label := by
  refine (step_found found' hl).trans ?_
  obtain ⟨ctl⟩ := s
  cases label with
  | inspected =>
      cases ctl with
      | inspecting f rest => rw [step_inspected rfl, step_inspected rfl, hinspect f rest rfl rfl]
      | _ => rfl
  | _ => cases ctl <;> rfl

/-- A step whose calls may fail, beside one whose calls end as in `inspect`. -/
theorem step_fallible (found' : Option (List Found)) (hl : label ≠ .listed)
    (hinspect : ∀ f rest, s.ctl = .inspecting f rest → inspect' f.id = inspect f.id ∨ inspect' f.id = .failed)
    (h : s.step found inspect' label = some t) :
    s.step found' inspect label = some t ∨ (t.ctl = .raised ∧ t.acted = s.acted) := by
  by_cases hfail : ∃ f rest, label = .inspected ∧ s.ctl = .inspecting f rest ∧ inspect' f.id = .failed
  · obtain ⟨f, rest, rfl, hc, he⟩ := hfail
    rw [step_inspected hc, he] at h
    cases h
    exact .inr ⟨rfl, rfl⟩
  · refine .inl ((step_congr hl fun f rest hi hc => ?_).symm.trans h)
    rcases hinspect f rest hc with he | he
    · exact he
    · exact absurd ⟨f, rest, hi, hc, he⟩ hfail

/-- An agent without a session leaves its steps to the tasks. -/
theorem step_raised (hs : s.ctl = .raised) (h : s.step found inspect label = some t) :
    t.ctl = .raised ∧ t.acted = s.acted := by
  cases hl : label.main with
  | false =>
      obtain ⟨hctl, hacted⟩ := step_task h hl
      exact ⟨hctl.trans hs, hacted⟩
  | true =>
      obtain ⟨ctl⟩ := s
      cases hs
      cases label <;> first | cases h | cases hl

theorem step_ne_listing (hs : s.ctl ≠ .listing) (h : s.step found inspect label = some t) :
    t.ctl ≠ .listing := by
  cases hm : label.main with
  | true => exact ctl_step h hm
  | false =>
      rw [(step_task h hm).1]
      exact hs

end Reconcile

namespace Daemon

variable {d e t u : Daemon} {agentId : String} {label : DaemonLabel} {fs : List Found}

theorem mem_listManaged {f : Found} (hf : f ∈ d.listManaged) :
    ∃ c, d.containers.get f.id = some c ∧ f.labels = c.labels ∧ f.status = c.status := by
  obtain ⟨⟨id, c⟩, hc, rfl⟩ := List.mem_map.mp hf
  exact ⟨c, (Dict.lookup_eq_some d.containers.nodup).mpr (List.mem_of_mem_filter hc), rfl, rfl⟩

theorem nodup_listManaged (d : Daemon) : (d.listManaged.map Found.id).Nodup := by
  rw [listManaged, List.map_map]
  exact (List.Sublist.map _ List.filter_sublist).nodup d.containers.nodup

structure Session (d : Daemon) (agentId : String) (fs : List Found) (t : Daemon) : Prop where
  kept : Kept d t
  listed : (t.agents agentId).ctl ≠ .listing
  covered : Reconcile.Covered (d.inspect true) fs (t.agents agentId)
  through : (t.agents agentId).ctl ≠ .raised → ∃ done, Reconcile.At (d.inspect true) fs done (t.agents agentId) ∧
    ∀ f ∈ done, f.Inspectable (d.inspect true)

theorem inspect_finished {f : Found} (hd : d.Sound) (hf : f ∈ d.listManaged) (hfin : f.Finished) (hk : Kept d t)
    (ok : Bool) : t.inspect ok f.id = d.inspect true f.id ∨ t.inspect ok f.id = .failed := by
  obtain ⟨c, hc, -, hstatus⟩ := mem_listManaged hf
  have hbelow : f.id < d.next := hd.below f.id (by rw [hc]; rfl)
  have hsettled : c.settled = true := by
    rw [DaemonContainer.settled, ← hstatus]
    rcases hfin.2 with h | h <;> rw [h] <;> rfl
  rcases hk.settled f.id c hbelow hc hsettled with ht | ht
  · cases ok with
    | true => exact .inl (by rw [inspect, inspect, ht, hc])
    | false => exact .inr (by rw [inspect, ht]; rfl)
  · exact .inr (by rw [inspect, ht])

theorem Session.step (hd : d.Sound) (hfs : fs.Perm d.listManaged) (hI : Session d agentId fs t)
    (hl : label ≠ .connected agentId) (h : t.step label = some u) : Session d agentId fs u := by
  have hk : Kept d u := hI.kept.trans (kept_step h)
  have hraised : (u.agents agentId).ctl = .raised → (u.agents agentId).acted = (t.agents agentId).acted →
      Session d agentId fs u := by
    intro hc hacted
    refine ⟨hk, by rw [hc]; exact nofun, ?_, fun hne => absurd hc hne⟩
    rw [Reconcile.Covered, hacted]
    exact hI.covered
  rcases agents_step agentId h with he | ⟨hc, hacted⟩ | ⟨he, -, -⟩ | ⟨found, -, hs⟩ | ⟨l, ok, -, hne, hs⟩
  · refine ⟨hk, ?_, ?_, ?_⟩
    · rw [he]
      exact hI.listed
    · rw [he]
      exact hI.covered
    · rw [he]
      exact hI.through
  · exact hraised hc hacted
  · exact absurd he hl
  · exact absurd (Reconcile.ctl_of_listed hs) hI.listed
  · by_cases hr : (t.agents agentId).ctl = .raised
    · obtain ⟨hc, hacted⟩ := Reconcile.step_raised hr hs
      exact hraised hc hacted
    · obtain ⟨done, hat, hok⟩ := hI.through hr
      have hinspect : ∀ f rest, (t.agents agentId).ctl = .inspecting f rest →
          t.inspect ok f.id = d.inspect true f.id ∨ t.inspect ok f.id = .failed := by
        intro f rest hc
        rw [Reconcile.At, hc] at hat
        have hf : f ∈ fs := by
          rw [hat.1]
          exact List.mem_append_right _ List.mem_cons_self
        exact inspect_finished hd (hfs.mem_iff.mp hf) hat.2.1 hI.kept ok
      rcases Reconcile.step_fallible (some fs) hne hinspect hs with hs' | ⟨hc, hacted⟩
      · have hlisted := Reconcile.step_ne_listing hI.listed hs
        rcases Reconcile.at_step hat hs' with hat' | ⟨f, hf, hat', -⟩
        · exact ⟨hk, hlisted, Reconcile.covered_of_at hat' hok, fun _ => ⟨done, hat', hok⟩⟩
        · have hok' : ∀ g ∈ done ++ [f], g.Inspectable (d.inspect true) :=
            List.forall_mem_append.mpr ⟨hok, List.forall_mem_singleton.mpr hf⟩
          exact ⟨hk, hlisted, Reconcile.covered_of_at hat' hok', fun _ => ⟨_, hat', hok'⟩⟩
      · exact hraised hc hacted

theorem step_listed (h : d.step (.listed agentId (some fs)) = some e) : fs.Perm d.listManaged ∧
    (d.agents agentId).ctl = .listing ∧ e = d.setAgent agentId ((d.agents agentId).goto (.examining fs)) := by
  rw [step.eq_def] at h
  dsimp only at h
  split at h
  · next hfs =>
      obtain ⟨r, hr, rfl⟩ := Option.map_eq_some_iff.mp h
      have hc := Reconcile.ctl_of_listed hr
      rw [Reconcile.step_listed hc] at hr
      cases hr
      exact ⟨hfs fs rfl, hc, rfl⟩
  · cases h

theorem at_listed (hd : d.Sound) (hlist : d.step (.listed agentId (some fs)) = some e) :
    Reconcile.At (d.inspect true) fs [] (e.agents agentId) := by
  obtain ⟨-, hc, rfl⟩ := step_listed hlist
  rw [agents_setAgent]
  exact ⟨rfl, hd.fresh agentId hc⟩

theorem session_listed (hd : d.Sound) (hlist : d.step (.listed agentId (some fs)) = some e) :
    Session d agentId fs e := by
  have hat := at_listed hd hlist
  have hok : ∀ f ∈ ([] : List Found), f.Inspectable (d.inspect true) := fun _ hf => absurd hf List.not_mem_nil
  refine ⟨kept_step hlist, ?_, Reconcile.covered_of_at hat hok, fun _ => ⟨[], hat, hok⟩⟩
  obtain ⟨-, -, rfl⟩ := step_listed hlist
  rw [agents_setAgent]
  exact nofun

/-- What `_reconcile` touches on its way through the list is the agent's own. The way ends at the first finished
container that cannot be inspected. -/
def Owned (d : Daemon) (agentId : String) (fs : List Found) : Prop :=
  ∀ pre f post, fs = pre ++ f :: post → (∀ g ∈ pre, g.Inspectable (d.inspect true)) →
    f.Touched (d.inspect true) → d.owner f.id = agentId

def Isolated (agentId : String) (d : Daemon) : Prop :=
  ∀ a ∈ (d.agents agentId).log, ∀ id, a.target = some id → d.owner id = agentId

theorem mem_acted {r : Reconcile} {a : Act} {id : ContainerId} (ha : a ∈ r.log) (hid : a.target = some id) :
    a ∈ r.acted := List.mem_filter.mpr ⟨ha, by rw [hid]; rfl⟩

theorem below_listed {f : Found} (hd : d.Sound) (hfs : fs.Perm d.listManaged) (hf : f ∈ fs) : f.id < d.next := by
  obtain ⟨c, hc, -⟩ := mem_listManaged (hfs.mem_iff.mp hf)
  exact hd.below f.id (by rw [hc]; rfl)

theorem isolated_of_session (hd : d.Sound) (hfs : fs.Perm d.listManaged) (hown : Owned d agentId fs)
    (hI : Session d agentId fs t) : Isolated agentId t := by
  intro a ha id hid
  obtain ⟨pre, f, post, hl, hpre, -, hact⟩ := hI.covered a (mem_acted ha hid)
  have htouched : f.Touched (d.inspect true) := (Found.touched_iff _).mpr (List.ne_nil_of_mem hact)
  have hf : f ∈ fs := by
    rw [hl]
    exact List.mem_append_right _ List.mem_cons_self
  rw [Found.target_acts _ hact] at hid
  cases hid
  rw [hI.kept.owner f.id (below_listed hd hfs hf)]
  exact hown pre f post hl hpre htouched

structure Follows (d : Daemon) (agentId : String) (r : Reconcile) (t : Daemon) : Prop where
  agent : t.agents agentId = r
  listed : r.ctl ≠ .listing
  nodup : (r.pending.map Found.id).Nodup
  same : ∀ f ∈ r.pending, t.inspect true f.id = d.inspect true f.id

theorem removal_main {r : Reconcile} {l : ReconcileLabel} {id : ContainerId} (hl : l.main = true)
    (h : removal r l = some id) : l = .removed ∧ ∃ f rest, r.ctl = .removing f rest ∧ f.id = id := by
  obtain ⟨ctl⟩ := r
  cases l <;> first | cases h | cases hl
  refine ⟨rfl, ?_⟩
  cases ctl <;> cases h
  exact ⟨_, _, rfl, rfl⟩

theorem Follows.step {r r' : Reconcile} {l : ReconcileLabel} (hF : Follows d agentId r t) (hl : l.main = true)
    (h : r.step (some fs) (d.inspect true) l = some r') :
    ∃ t', t.step (.reconciled agentId l true) = some t' ∧ Follows d agentId r' t' := by
  have hne : l ≠ .listed := by
    rintro rfl
    exact hF.listed (Reconcile.ctl_of_listed h)
  obtain ⟨hpending, hremoved⟩ := Reconcile.pending_step hl hne h
  have hstep : r.step none (t.inspect true) l = some r' := by
    refine (Reconcile.step_congr hne fun f rest _ hc => hF.same f ?_).trans h
    rw [Reconcile.pending, hc]
    exact List.mem_cons_self
  have ht : t.step (.reconciled agentId l true) = some ((t.setAgent agentId r').remove true (removal r l)) := by
    rw [Daemon.step.eq_def]
    dsimp only
    rw [if_neg hne, hF.agent, hstep]
    rfl
  refine ⟨_, ht, by rw [agents_remove, agents_setAgent], Reconcile.step_ne_listing hF.listed h,
    hF.nodup.sublist (hpending.sublist.map _), fun f hf => ?_⟩
  rw [← hF.same f (hpending.subset hf), inspect, inspect]
  rcases get_remove (d := t.setAgent agentId r') true (removal r l) f.id with hg | ⟨hid, -⟩
  · rw [hg]
    rfl
  · obtain ⟨rfl, g, rest, hc, hg⟩ := removal_main hl hid
    obtain ⟨g', hc', hp⟩ := hremoved rfl
    rw [hc] at hc'
    cases hc'
    have hnodup := hF.nodup
    rw [hp, List.map_cons, List.nodup_cons, hg] at hnodup
    exact absurd (List.mem_map_of_mem hf) hnodup.1

/-- In the session that follows a listing, an agent acts on its own containers only if and only if those that the
listing makes it touch are its own. -/
theorem isolated_iff (hd : machine.Reachable d) (hlist : d.step (.listed agentId (some fs)) = some e) :
    (∀ t, machine.Run (fun _ l => l ≠ .connected agentId) e t → Isolated agentId t) ↔ Owned d agentId fs := by
  have hsound := sound_of_reachable hd
  obtain ⟨hfs, hc, he⟩ := step_listed hlist
  have hsession : ∀ t, machine.Run (fun _ l => l ≠ .connected agentId) e t → Session d agentId fs t := by
    intro t ht
    exact ht.invariant (I := Session d agentId fs) (fun _ _ _ hI hl hst => hI.step hsound hfs hl hst)
      (session_listed hsound hlist)
  constructor
  · intro h pre f post hl hpre htouched
    have hok : ∀ g ∈ pre ++ [f], g.Inspectable (d.inspect true) :=
      List.forall_mem_append.mpr ⟨hpre, List.forall_mem_singleton.mpr htouched.inspectable⟩
    have hlist' : fs = (pre ++ [f]) ++ post := by rw [hl, List.append_assoc]; rfl
    have hstart : Follows d agentId (e.agents agentId) e := by
      rw [he, agents_setAgent]
      refine ⟨agents_setAgent _, by rintro ⟨⟩, ?_, fun _ _ => rfl⟩
      exact (hfs.map Found.id).nodup_iff.mpr (nodup_listManaged d)
    have hctl : (e.agents agentId).ctl = .examining ((pre ++ [f]) ++ post) := by
      rw [he, agents_setAgent, ← hlist']
      rfl
    obtain ⟨r, hr, hrc⟩ := Reconcile.run_containers (some fs) (d.inspect true) .empty .empty [] hctl hok
    have hat : ∃ done, Reconcile.At (d.inspect true) fs done r := by
      refine hr.invariant (I := fun r => ∃ done, Reconcile.At (d.inspect true) fs done r) ?_
        ⟨[], at_listed hsound hlist⟩
      rintro s l s' ⟨done, hs⟩ - hst
      rcases Reconcile.at_step hs hst with hs' | ⟨g, -, hs', -⟩
      · exact ⟨done, hs'⟩
      · exact ⟨_, hs'⟩
    obtain ⟨done, hat⟩ := hat
    rw [Reconcile.At, hrc] at hat
    obtain ⟨hdone, hacted⟩ := hat
    obtain rfl : pre ++ [f] = done := List.append_cancel_right (hlist'.symm.trans hdone)
    obtain ⟨t, ht, hF⟩ := hr.lift (N := machine) (R := Follows d agentId) (Q := fun _ l => l ≠ .connected agentId)
      (fun s l s' u hm hst hF => by
        obtain ⟨u', hu', hF'⟩ := hF.step hm hst
        exact ⟨u', Relation.ReflTransGen.single ⟨.reconciled agentId l true, by rintro ⟨⟩, hu'⟩, hF'⟩) hstart
    obtain ⟨a, ha⟩ := List.exists_mem_of_ne_nil _ ((Found.touched_iff _).mp htouched)
    have hlog : a ∈ (t.agents agentId).log := by
      have hmem : a ∈ r.acted := by
        rw [hacted, Reconcile.flatMap_concat]
        exact List.mem_append_right _ ha
      rw [hF.agent]
      exact List.mem_of_mem_filter hmem
    have hf : f ∈ fs := by
      rw [hl]
      exact List.mem_append_right _ List.mem_cons_self
    rw [← (hsession t ht).kept.owner f.id (below_listed hsound hfs hf)]
    exact h t ht a hlog f.id (Found.target_acts _ ha)
  · exact fun hown t ht => isolated_of_session hsound hfs hown (hsession t ht)

/-- `agent-1` finds the container that it has started before it has crashed. -/
theorem isolated_once : ∃ d e fs, fs ≠ [] ∧ machine.Reachable d ∧
    d.step (.listed "agent-1" (some fs)) = some e ∧ Owned d "agent-1" fs ∧
    ∀ t, machine.Run (fun _ l => l ≠ .connected "agent-1") e t → Isolated "agent-1" t := by
  let f : Found := ⟨0, (DaemonContainer.started "job-1" "running").labels, "running"⟩
  obtain ⟨d, hd, hstep, howner⟩ := Machine.exists_run (M := machine) (P := fun _ _ => True)
    (Q := fun d => (d.step (.listed "agent-1" (some [f]))).isSome ∧ d.owner 0 = "agent-1")
    [.connected "agent-1", .listed "agent-1" (some []), .reconciled "agent-1" .examine true,
      .started "agent-1" "job-1" true, .crashed "agent-1", .connected "agent-1"] empty (by decide +kernel)
  obtain ⟨e, hlist⟩ := Option.isSome_iff_exists.mp hstep
  have hown : Owned d "agent-1" [f] := by
    intro pre g post hl _ _
    have hg : g ∈ [f] := by
      rw [hl]
      exact List.mem_append_right _ List.mem_cons_self
    rw [List.mem_singleton.mp hg]
    exact howner
  exact ⟨d, e, [f], List.cons_ne_nil _ _, hd, hlist, hown, (isolated_iff hd hlist).mpr hown⟩

/-- `agent-1` connects while a container of `agent-2` is running. -/
theorem isolated_false : ¬ ∀ d, machine.Reachable d → ∀ agentId, Isolated agentId d := by
  intro h
  let f : Found := ⟨0, (DaemonContainer.started "job-2" "running").labels, "running"⟩
  obtain ⟨d, hd, howner, hact⟩ := Machine.exists_run (M := machine) (P := fun _ _ => True)
    (Q := fun d => d.owner 0 = "agent-2" ∧ (d.agents "agent-1").log.any (fun a => a.target = some 0))
    [.connected "agent-2", .listed "agent-2" (some []), .reconciled "agent-2" .examine true,
      .started "agent-2" "job-2" true, .connected "agent-1", .listed "agent-1" (some [f]),
      .reconciled "agent-1" .examine true, .reconciled "agent-1" .reconcileSent true] empty (by decide +kernel)
  obtain ⟨a, ha, htarget⟩ := List.any_eq_true.mp hact
  have hmine := h d hd "agent-1" a ha 0 (of_decide_eq_true htarget)
  rw [howner] at hmine
  exact absurd hmine (by decide)

def Idle (r : Reconcile) : Prop := r.acted = [] ∧ (r.ctl = .listing ∨ r.ctl = .listening ∨ r.ctl = .raised)

theorem idle_step {found : Option (List Found)} {inspect : ContainerId → Inspection} {r r' : Reconcile}
    {l : ReconcileLabel} (hr : Idle r) (hl : l ≠ .listed) (h : r.step found inspect l = some r') : Idle r' := by
  cases hm : l.main with
  | false =>
      obtain ⟨hctl, hacted⟩ := Reconcile.step_task h hm
      rwa [Idle, hctl, hacted]
  | true =>
      obtain ⟨ctl⟩ := r
      rcases hr.2 with hc | hc | hc <;> cases hc <;> cases l <;> first | cases h | exact absurd rfl hl | cases hm

theorem step_connected (h : d.step (.connected agentId) = some t) : Idle (t.agents agentId) := by
  rw [step] at h
  split at h
  · cases h
    rw [agents_setAgent]
    exact ⟨rfl, .inl rfl⟩
  · cases h

/-- An agent is idle, or in a session whose listing has given it its own containers. -/
def Minding (agentId : String) (t : Daemon) : Prop := Idle (t.agents agentId) ∨
  ∃ d fs, d.Sound ∧ fs.Perm d.listManaged ∧ Owned d agentId fs ∧ Session d agentId fs t

theorem minding_step (ht : t.Sound) (hI : Minding agentId t)
    (hown : ∀ a fs, label = .listed a (some fs) → Owned t a fs) (h : t.step label = some u) : Minding agentId u := by
  rcases hI with hidle | ⟨d, fs, hd, hfs, hdown, hs⟩
  · rcases agents_step agentId h with he | ⟨hc, hacted⟩ | ⟨-, hc, hacted⟩ | ⟨found, rfl, hs⟩ | ⟨l, ok, -, hne, hs⟩
    · exact .inl (he.symm ▸ hidle)
    · exact .inl ⟨hacted.trans hidle.1, .inr (.inr hc)⟩
    · exact .inl ⟨hacted, .inl hc⟩
    · cases found with
      | some fs =>
          exact .inr ⟨t, fs, ht, (step_listed h).1, hown agentId fs rfl, session_listed ht h⟩
      | none =>
          have hgoto : (t.agents agentId).step none (t.inspect true) .listed =
              some ((t.agents agentId).goto .listening) := by
            have hc := Reconcile.ctl_of_listed hs
            generalize t.agents agentId = r at hc ⊢
            cases r
            cases hc
            rfl
          rw [hgoto] at hs
          refine .inl ?_
          rw [← Option.some.inj hs]
          exact ⟨hidle.1, .inr (.inl rfl)⟩
    · exact .inl (idle_step hidle hne hs)
  · by_cases hl : label = .connected agentId
    · subst hl
      exact .inl (step_connected h)
    · exact .inr ⟨d, fs, hd, hfs, hdown, hs.step hd hfs hl h⟩

/-- In a run whose listings all give the agents their own containers, every agent acts on its own only. -/
theorem isolated_run (h : machine.Run (fun d l => ∀ a fs, l = .listed a (some fs) → Owned d a fs) empty t) :
    Isolated agentId t := by
  have hI : t.Sound ∧ Minding agentId t := by
    refine h.invariant (I := fun t => t.Sound ∧ Minding agentId t) ?_
      ⟨sound_of_reachable .refl, .inl ⟨rfl, .inr (.inr rfl)⟩⟩
    rintro u l v ⟨hu, hI⟩ hown hst
    exact ⟨sound_step hu hst, minding_step hu hI hown hst⟩
  rcases hI.2 with ⟨hacted, -⟩ | ⟨d, fs, hd, hfs, hown, hs⟩
  · intro x hx id hid
    have hmem := mem_acted hx hid
    rw [hacted] at hmem
    cases hmem
  · exact isolated_of_session hd hfs hown hs

end Daemon

end JobSystem
