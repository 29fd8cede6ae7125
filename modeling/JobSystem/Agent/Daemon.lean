import JobSystem.Agent.Reconciling

namespace JobSystem

open Lib

structure DaemonContainer where
  labels : Dict String String
  status : String
  exitCode : Option Int
  stdout : ByteArray
  stderr : ByteArray

namespace DaemonContainer

def started (jobId status : String) : DaemonContainer where
  labels := (Dict.empty.set "job_id" jobId).set "managed_by" "job-system"
  status := status
  exitCode := none
  stdout := ⟨#[]⟩
  stderr := ⟨#[]⟩

def managed (c : DaemonContainer) : Bool := c.labels.get "managed_by" = some "job-system"

def settled (c : DaemonContainer) : Bool := c.status = "exited" || c.status = "dead"

end DaemonContainer

/-- A Docker daemon and the agents that use it, by their ids. `owner` tells which agent has started a container;
no code reads it. The log of an agent is that of its present session, and an agent without one stands at
`raised`. -/
structure Daemon where
  containers : Dict ContainerId DaemonContainer
  next : ContainerId
  owner : ContainerId → String
  agents : String → Reconcile

/-- What agents and containers do. A call for a container may fail. What `_on_job` does to the entries of
`_running` is left out, since reconciling does not read them. -/
inductive DaemonLabel
  | started (agentId jobId : String) (ok : Bool)
  | changed (id : ContainerId) (status : String) (exitCode : Option Int) (stdout stderr : ByteArray)
  | gone (id : ContainerId)
  | connected (agentId : String)
  | disconnected (agentId : String)
  | crashed (agentId : String)
  | listed (agentId : String) (found : Option (List Found))
  | reconciled (agentId : String) (label : ReconcileLabel) (ok : Bool)

namespace Reconcile

variable {found : Option (List Found)} {inspect : ContainerId → Inspection} {s t : Reconcile} {label : ReconcileLabel}

theorem ctl_step (h : s.step found inspect label = some t) (hl : label.main = true) : t.ctl ≠ .listing := by
  unfold step at h
  split at h <;> try cases hl
  · split at h <;> cases h <;> rintro ⟨⟩
  · cases h
    rw [examine.eq_def]
    repeat' split
    all_goals rintro ⟨⟩
  · cases h
    rintro ⟨⟩
  · cases h
    rw [inspected]
    split <;> rintro ⟨⟩
  · cases h
    rintro ⟨⟩
  · cases h
    rintro ⟨⟩
  · cases h

/-- Only the first step reads the listing. -/
theorem step_found (found' : Option (List Found)) (hl : label ≠ .listed) :
    s.step found inspect label = s.step found' inspect label := by
  cases label with
  | listed => exact absurd rfl hl
  | _ =>
      obtain ⟨ctl⟩ := s
      cases ctl <;> rfl

end Reconcile

namespace Daemon

def empty : Daemon := ⟨.empty, 0, fun _ => "", fun _ => { Reconcile.start .empty .empty [] with ctl := .raised }⟩

def setAgent (agentId : String) (r : Reconcile) (d : Daemon) : Daemon :=
  { d with agents := Function.update d.agents agentId r }

/-- `list_managed_containers`, in the order of their creation -/
def listManaged (d : Daemon) : List Found :=
  (d.containers.entries.filter fun e => e.2.managed).map fun e => ⟨e.1, e.2.labels, e.2.status⟩

def inspect (ok : Bool) (d : Daemon) (id : ContainerId) : Inspection :=
  match d.containers.get id with
  | some c => if ok then .read c.exitCode c.stdout c.stderr else .failed
  | none => .failed

/-- The container that a step removes: `_reconcile` itself, or `wait` in a task of `_reattach`. -/
def removal (r : Reconcile) : ReconcileLabel → Option ContainerId
  | .removed =>
      match r.ctl with
      | .removing f _ => some f.id
      | _ => none
  | .reattachWaited i _ => (r.tasks[i]?).map ReattachTask.id
  | _ => none

def remove (ok : Bool) (id : Option ContainerId) (d : Daemon) : Daemon :=
  match id with
  | some id => if ok then { d with containers := d.containers.pop id } else d
  | none => d

def step (label : DaemonLabel) (d : Daemon) : Option Daemon :=
  match label with
  | .started agentId jobId ok =>
      -- The agent may have gone since it has called.
      some { d with
        containers := d.containers.set d.next (.started jobId (if ok then "running" else "created"))
        next := d.next + 1
        owner := Function.update d.owner d.next agentId }
  | .changed id status exitCode stdout stderr =>
      match d.containers.get id with
      | some c =>
          if c.settled then none
          else some { d with containers := d.containers.set id ⟨c.labels, status, exitCode, stdout, stderr⟩ }
      | none => none
  | .gone id => some { d with containers := d.containers.pop id }
  | .connected agentId =>
      match (d.agents agentId).ctl with
      | .raised => some (d.setAgent agentId { d.agents agentId with ctl := .listing, log := [] })
      | _ => none
  | .disconnected agentId => some (d.setAgent agentId ((d.agents agentId).goto .raised))
  | .crashed agentId =>
      some (d.setAgent agentId ⟨.raised, .empty, .empty, [], (d.agents agentId).log⟩)
  | .listed agentId found =>
      if ∀ fs, found = some fs → fs.Perm d.listManaged then
        ((d.agents agentId).step found (d.inspect true) .listed).map fun r => d.setAgent agentId r
      else none
  | .reconciled agentId label ok =>
      if label = .listed then none
      else ((d.agents agentId).step none (d.inspect ok) label).map fun r =>
        (d.setAgent agentId r).remove ok (removal (d.agents agentId) label)

def machine : Machine Daemon DaemonLabel := ⟨empty, step⟩

variable {d t e : Daemon} {agentId : String} {label : DaemonLabel}

@[simp] theorem agents_setAgent (r : Reconcile) : (d.setAgent agentId r).agents agentId = r := Function.update_self _ _ _

theorem agents_setAgent_ne {a : String} (r : Reconcile) (h : a ≠ agentId) :
    (d.setAgent agentId r).agents a = d.agents a :=
  Function.update_of_ne h _ _

@[simp] theorem agents_remove (ok : Bool) (id : Option ContainerId) : (d.remove ok id).agents = d.agents := by
  rw [remove.eq_def]
  split
  · split <;> rfl
  · rfl

theorem get_remove (ok : Bool) (id : Option ContainerId) (i : ContainerId) :
    (d.remove ok id).containers.get i = d.containers.get i ∨
      (id = some i ∧ (d.remove ok id).containers.get i = none) := by
  rw [remove.eq_def]
  split
  · next j =>
      split
      · dsimp only
        rw [Dict.get_pop]
        split
        · next hi => exact .inr ⟨by rw [hi], rfl⟩
        · exact .inl rfl
      · exact .inl rfl
  · exact .inl rfl

/-- What the daemon keeps from a state to a later one. -/
structure Kept (d t : Daemon) : Prop where
  next : d.next ≤ t.next
  owner : ∀ id, id < d.next → t.owner id = d.owner id
  gone : ∀ id, id < d.next → d.containers.get id = none → t.containers.get id = none
  settled : ∀ id c, id < d.next → d.containers.get id = some c → c.settled = true →
    t.containers.get id = some c ∨ t.containers.get id = none

theorem Kept.trans {u : Daemon} (h : Kept d t) (h' : Kept t u) : Kept d u where
  next := h.next.trans h'.next
  owner id hid := (h'.owner id (hid.trans_le h.next)).trans (h.owner id hid)
  gone id hid hg := h'.gone id (hid.trans_le h.next) (h.gone id hid hg)
  settled id c hid hg hc := by
    rcases h.settled id c hid hg hc with ht | ht
    · exact h'.settled id c (hid.trans_le h.next) ht hc
    · exact .inr (h'.gone id (hid.trans_le h.next) ht)

theorem containers_step (h : d.step label = some t) :
    (∃ c a, t.containers = d.containers.set d.next c ∧ t.next = d.next + 1 ∧
      t.owner = Function.update d.owner d.next a) ∨
    (t.next = d.next ∧ t.owner = d.owner ∧
      ((∃ id c c', d.containers.get id = some c ∧ c.settled = false ∧ t.containers = d.containers.set id c') ∨
        ∀ id, t.containers.get id = d.containers.get id ∨ t.containers.get id = none)) := by
  have hremove : ∀ (u : Daemon) (ok : Bool) (x : Option ContainerId), u.containers = d.containers →
      ∀ id, (u.remove ok x).containers.get id = d.containers.get id ∨ (u.remove ok x).containers.get id = none := by
    intro u ok x hu id
    rw [← hu]
    exact (get_remove ok x id).imp_right And.right
  have hnext : ∀ (u : Daemon) (ok : Bool) (x : Option ContainerId), (u.remove ok x).next = u.next ∧
      (u.remove ok x).owner = u.owner := by
    intro u ok x
    rw [remove.eq_def]
    repeat' split
    all_goals exact ⟨rfl, rfl⟩
  unfold step at h
  split at h
  · cases h
    exact .inl ⟨_, _, rfl, rfl, rfl⟩
  · next id status exitCode stdout stderr =>
      split at h
      · next c hc =>
          split at h
          · cases h
          · next hs =>
              cases h
              exact .inr ⟨rfl, rfl, .inl ⟨id, c, _, hc, Bool.eq_false_iff.mpr hs, rfl⟩⟩
      · cases h
  · next id =>
      cases h
      exact .inr ⟨rfl, rfl, .inr (hremove d true (some id) rfl)⟩
  · split at h
    · cases h
      exact .inr ⟨rfl, rfl, .inr fun _ => .inl rfl⟩
    · cases h
  · cases h
    exact .inr ⟨rfl, rfl, .inr fun _ => .inl rfl⟩
  · cases h
    exact .inr ⟨rfl, rfl, .inr fun _ => .inl rfl⟩
  · split at h
    · obtain ⟨r, -, rfl⟩ := Option.map_eq_some_iff.mp h
      exact .inr ⟨rfl, rfl, .inr fun _ => .inl rfl⟩
    · cases h
  · next a l ok =>
      split at h
      · cases h
      · obtain ⟨r, -, rfl⟩ := Option.map_eq_some_iff.mp h
        obtain ⟨hn, ho⟩ := hnext (d.setAgent a r) ok (removal (d.agents a) l)
        exact .inr ⟨hn, ho, .inr (hremove (d.setAgent a r) ok _ rfl)⟩

theorem kept_step (h : d.step label = some t) : Kept d t := by
  rcases containers_step h with ⟨c, a, hc, hn, ho⟩ | ⟨hn, ho, ⟨i, x, y, hx, hsettled, hc⟩ | hget⟩
  · have hget : ∀ id, id < d.next → t.containers.get id = d.containers.get id := by
      intro id hid
      rw [hc, Dict.get_set, if_neg (Nat.ne_of_lt hid)]
    refine ⟨hn ▸ Nat.le_succ _, fun id hid => ?_, fun id hid hg => (hget id hid).trans hg,
      fun id x hid hg _ => .inl ((hget id hid).trans hg)⟩
    rw [ho, Function.update_of_ne (Nat.ne_of_lt hid)]
  · have hget : ∀ id, id ≠ i → t.containers.get id = d.containers.get id := by
      intro id hid
      rw [hc, Dict.get_set, if_neg hid]
    refine ⟨hn.ge, fun _ _ => by rw [ho], fun id _ hg => ?_, fun id z _ hg hz => .inl ?_⟩
    · refine (hget id ?_).trans hg
      rintro rfl
      cases hx.symm.trans hg
    · refine (hget id ?_).trans hg
      rintro rfl
      cases hx.symm.trans hg
      rw [hsettled] at hz
      cases hz
  · refine ⟨hn.ge, fun _ _ => by rw [ho], fun id _ hg => ?_, fun id z _ hg _ => ?_⟩
    · exact (hget id).elim (fun he => he.trans hg) fun he => he
    · exact (hget id).imp_left fun he => he.trans hg

theorem agents_step (a : String) (h : d.step label = some t) :
    t.agents a = d.agents a ∨
    ((t.agents a).ctl = .raised ∧ (t.agents a).acted = (d.agents a).acted) ∨
    (label = .connected a ∧ (t.agents a).ctl = .listing ∧ (t.agents a).acted = []) ∨
    (∃ found, label = .listed a found ∧ (d.agents a).step found (d.inspect true) .listed = some (t.agents a)) ∨
    ∃ l ok, label = .reconciled a l ok ∧ l ≠ .listed ∧ (d.agents a).step none (d.inspect ok) l = some (t.agents a) := by
  have hset : ∀ {b : String} {r : Reconcile}, t.agents = (d.setAgent b r).agents → t.agents a = d.agents a ∨
      b = a ∧ t.agents a = r := by
    intro b r ht
    by_cases hb : a = b
    · subst b
      exact .inr ⟨rfl, by rw [ht, agents_setAgent]⟩
    · exact .inl (by rw [ht, agents_setAgent_ne r hb])
  unfold step at h
  split at h
  · cases h
    exact .inl rfl
  · split at h
    · split at h
      · cases h
      · cases h
        exact .inl rfl
    · cases h
  · cases h
    exact .inl rfl
  · next b =>
      split at h
      · cases h
        rcases hset rfl with ht | ⟨rfl, ht⟩
        · exact .inl ht
        · exact .inr (.inr (.inl ⟨rfl, by rw [ht], by rw [ht]; rfl⟩))
      · cases h
  · next b =>
      cases h
      rcases hset rfl with ht | ⟨rfl, ht⟩
      · exact .inl ht
      · exact .inr (.inl ⟨by rw [ht]; rfl, by rw [ht]; rfl⟩)
  · next b =>
      cases h
      rcases hset rfl with ht | ⟨rfl, ht⟩
      · exact .inl ht
      · exact .inr (.inl ⟨by rw [ht], by rw [ht]; rfl⟩)
  · next b found =>
      split at h
      · obtain ⟨r, hr, rfl⟩ := Option.map_eq_some_iff.mp h
        rcases hset rfl with ht | ⟨rfl, ht⟩
        · exact .inl ht
        · exact .inr (.inr (.inr (.inl ⟨found, rfl, by rw [ht, hr]⟩)))
      · cases h
  · next b l ok =>
      split at h
      · cases h
      · next hl =>
          obtain ⟨r, hr, rfl⟩ := Option.map_eq_some_iff.mp h
          rcases hset (agents_remove _ _) with ht | ⟨rfl, ht⟩
          · exact .inl ht
          · exact .inr (.inr (.inr (.inr ⟨l, ok, rfl, hl, by rw [ht, hr]⟩)))

theorem get_step {id : ContainerId} (h : d.step label = some t) (hid : (t.containers.get id).isSome) :
    (d.containers.get id).isSome ∨ id < t.next := by
  rcases containers_step h with ⟨c, a, hc, hn, -⟩ | ⟨-, -, ⟨i, x, y, hx, -, hc⟩ | hget⟩
  · rw [hc, Dict.get_set] at hid
    split at hid
    · next he => exact .inr (by rw [he, hn]; exact Nat.lt_succ_self _)
    · exact .inl hid
  · rw [hc, Dict.get_set] at hid
    split at hid
    · next he => exact .inl (by rw [he, hx]; rfl)
    · exact .inl hid
  · rcases hget id with he | he
    · exact .inl (he ▸ hid)
    · rw [he] at hid
      cases hid

/-- Ids are given out once, and a session acts on nothing before it has its list. -/
structure Sound (d : Daemon) : Prop where
  below : ∀ id, (d.containers.get id).isSome → id < d.next
  fresh : ∀ a, (d.agents a).ctl = .listing → (d.agents a).acted = []

theorem sound_step (hI : d.Sound) (h : d.step label = some t) : t.Sound where
  below id hid := by
    rcases get_step h hid with hd | hn
    · exact (hI.below id hd).trans_le (kept_step h).next
    · exact hn
  fresh a hc := by
    have hstep : ∀ found inspect l, (d.agents a).step found inspect l = some (t.agents a) →
        (t.agents a).acted = [] := by
      intro found inspect l hs
      cases hl : l.main with
      | true => exact absurd hc (Reconcile.ctl_step hs hl)
      | false =>
          obtain ⟨hctl, hacted⟩ := Reconcile.step_task hs hl
          exact hacted.trans (hI.fresh a (hctl.symm.trans hc))
    rcases agents_step a h with he | ⟨hr, -⟩ | ⟨-, -, hacted⟩ | ⟨found, -, hs⟩ | ⟨l, ok, -, -, hs⟩
    · rw [he] at hc ⊢
      exact hI.fresh a hc
    · rw [hr] at hc
      cases hc
    · exact hacted
    · exact hstep _ _ _ hs
    · exact hstep _ _ _ hs

theorem sound_of_reachable (h : machine.Reachable d) : d.Sound := by
  have hempty : Sound empty := ⟨fun _ hid => (by cases hid), fun _ hc => (by cases hc)⟩
  exact h.invariant (I := Sound) (fun _ _ _ hI _ hst => sound_step hI hst) hempty

end Daemon

end JobSystem
