import Mathlib.Data.List.Nodup

namespace Lib

/-- A first-come-first-served lock for cooperative tasks. Between a release and
the moment the first waiter runs again the lock has no holder, and newcomers
still queue behind the waiters. -/
structure Mutex (τ : Type) where
  holder : Option τ
  waiters : List τ

namespace Mutex

variable {τ : Type}

def new : Mutex τ := ⟨none, []⟩

def free (m : Mutex τ) : Bool := m.holder.isNone && m.waiters.isEmpty

def hold (m : Mutex τ) (t : τ) : Mutex τ := { m with holder := some t }

def enqueue (m : Mutex τ) (t : τ) : Mutex τ := { m with waiters := m.waiters ++ [t] }

def release (m : Mutex τ) : Mutex τ := { m with holder := none }

/-- The first waiter takes a lock that nobody holds. -/
def wake (m : Mutex τ) : Option (τ × Mutex τ) :=
  match m.holder, m.waiters with
  | none, t :: ts => some (t, ⟨some t, ts⟩)
  | _, _ => none

/-- The lock object agrees with the tasks that are inside the section it guards
and with those that wait for it. -/
structure Tracks (m : Mutex τ) (inside waiting : τ → Prop) : Prop where
  holder_iff : ∀ t, m.holder = some t ↔ inside t
  waiter_iff : ∀ t, t ∈ m.waiters ↔ waiting t
  nodup : m.waiters.Nodup

theorem tracks_new : Tracks (new : Mutex τ) (fun _ => False) (fun _ => False) :=
  ⟨by simp [new], by simp [new], by simp [new]⟩

/-- Mutual exclusion. -/
theorem Tracks.unique {m : Mutex τ} {inside waiting : τ → Prop} (h : m.Tracks inside waiting) {t u : τ}
    (ht : inside t) (hu : inside u) : t = u := by
  have heq := ((h.holder_iff t).mpr ht).symm.trans ((h.holder_iff u).mpr hu)
  exact Option.some.inj heq

theorem Tracks.congr {m : Mutex τ} {inside waiting inside' waiting' : τ → Prop}
    (h : m.Tracks inside waiting) (hi : ∀ t, inside' t ↔ inside t) (hw : ∀ t, waiting' t ↔ waiting t) :
    m.Tracks inside' waiting' :=
  ⟨fun t => (h.holder_iff t).trans (hi t).symm, fun t => (h.waiter_iff t).trans (hw t).symm, h.nodup⟩

theorem free_iff {m : Mutex τ} {inside waiting : τ → Prop} (h : m.Tracks inside waiting) :
    m.free = true ↔ ∀ t, ¬ inside t ∧ ¬ waiting t := by
  simp only [free, Bool.and_eq_true, Option.isNone_iff_eq_none, List.isEmpty_iff,
    ← h.holder_iff, ← h.waiter_iff]
  constructor
  · rintro ⟨hh, hw⟩ t
    simp [hh, hw]
  · intro hall
    refine ⟨?_, List.eq_nil_iff_forall_not_mem.mpr fun t => (hall t).2⟩
    cases hm : m.holder with
    | none => rfl
    | some t => exact absurd hm (hall t).1

theorem Tracks.hold {m : Mutex τ} {inside waiting inside' waiting' : τ → Prop} {t : τ}
    (h : m.Tracks inside waiting) (hi : ∀ u, inside' u ↔ u = t) (hw : ∀ u, waiting' u ↔ waiting u) :
    (m.hold t).Tracks inside' waiting' where
  holder_iff u := by rw [hi]; simp [Mutex.hold, eq_comm]
  waiter_iff u := (h.waiter_iff u).trans (hw u).symm
  nodup := h.nodup

theorem Tracks.enqueue {m : Mutex τ} {inside waiting inside' waiting' : τ → Prop} {t : τ}
    (h : m.Tracks inside waiting) (ht : ¬ waiting t) (hi : ∀ u, inside' u ↔ inside u)
    (hw : ∀ u, waiting' u ↔ waiting u ∨ u = t) : (m.enqueue t).Tracks inside' waiting' where
  holder_iff u := (h.holder_iff u).trans (hi u).symm
  waiter_iff u := by rw [hw, ← h.waiter_iff]; simp [Mutex.enqueue]
  nodup := by
    refine List.nodup_append.mpr ⟨h.nodup, by simp, fun a ha b hb hab => ?_⟩
    rw [List.mem_singleton] at hb
    exact ht ((h.waiter_iff t).mp (by rwa [← hb, ← hab]))

theorem Tracks.release {m : Mutex τ} {inside waiting inside' waiting' : τ → Prop}
    (h : m.Tracks inside waiting) (hi : ∀ u, ¬ inside' u) (hw : ∀ u, waiting' u ↔ waiting u) :
    m.release.Tracks inside' waiting' where
  holder_iff u := by simp [Mutex.release, hi u]
  waiter_iff u := (h.waiter_iff u).trans (hw u).symm
  nodup := h.nodup

theorem wake_some {m m' : Mutex τ} {t : τ} (h : m.wake = some (t, m')) :
    m.holder = none ∧ m.waiters = t :: m'.waiters ∧ m'.holder = some t := by
  obtain ⟨holder, waiters⟩ := m
  cases holder with
  | some u => simp [wake] at h
  | none =>
      cases waiters with
      | nil => simp [wake] at h
      | cons u us =>
          simp only [wake, Option.some.injEq, Prod.mk.injEq] at h
          obtain ⟨rfl, rfl⟩ := h
          simp

theorem Tracks.wake {m m' : Mutex τ} {inside waiting inside' waiting' : τ → Prop} {t : τ}
    (h : m.Tracks inside waiting) (hm : m.wake = some (t, m')) (hi : ∀ u, inside' u ↔ u = t)
    (hw : ∀ u, waiting' u ↔ waiting u ∧ u ≠ t) : m'.Tracks inside' waiting' := by
  obtain ⟨_, hws, hh⟩ := wake_some hm
  have hn := h.nodup
  rw [hws, List.nodup_cons] at hn
  refine ⟨fun u => by rw [hi, hh]; simp [eq_comm], fun u => ?_, hn.2⟩
  rw [hw, ← h.waiter_iff, hws, List.mem_cons]
  constructor
  · intro hu
    exact ⟨.inr hu, fun he => hn.1 (he ▸ hu)⟩
  · rintro ⟨rfl | hu, hne⟩
    · exact absurd rfl hne
    · exact hu

theorem Tracks.wake_waiting {m m' : Mutex τ} {inside waiting : τ → Prop} {t : τ}
    (h : m.Tracks inside waiting) (hm : m.wake = some (t, m')) : waiting t ∧ ∀ u, ¬ inside u := by
  obtain ⟨hh, hws, _⟩ := wake_some hm
  refine ⟨(h.waiter_iff t).mp (by rw [hws]; exact List.mem_cons_self), fun u hu => ?_⟩
  have := (h.holder_iff u).mpr hu
  rw [hh] at this
  cases this

end Mutex

end Lib
