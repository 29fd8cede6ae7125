import Mathlib.Logic.Relation
import Mathlib.Order.WellFounded

namespace Lib

/-- A system of labelled steps. A label that is not enabled in a state has no
successor there. -/
structure Machine (S L : Type) where
  init : S
  step : L → S → Option S

namespace Machine

variable {S L : Type} (M : Machine S L)

def Next (P : S → L → Prop) (s t : S) : Prop := ∃ l, P s l ∧ M.step l s = some t

def Run (P : S → L → Prop) : S → S → Prop := Relation.ReflTransGen (M.Next P)

def Reachable (s : S) : Prop := M.Run (fun _ _ => True) M.init s

variable {M}

theorem Run.mono {P Q : S → L → Prop} (hPQ : ∀ s l, P s l → Q s l) {s t : S} (h : M.Run P s t) :
    M.Run Q s t := by
  have hnext : ∀ u v, M.Next P u v → M.Next Q u v := by
    rintro u v ⟨l, hp, hs⟩
    exact ⟨l, hPQ u l hp, hs⟩
  exact Relation.ReflTransGen.mono hnext _ _ h

theorem Run.reachable {P : S → L → Prop} {s : S} (h : M.Run P M.init s) : M.Reachable s :=
  h.mono fun _ _ _ => trivial

/-- What one step preserves, a whole run preserves. -/
theorem Run.invariant {P : S → L → Prop} {I : S → Prop}
    (hstep : ∀ s l t, I s → P s l → M.step l s = some t → I t) {s t : S} (h : M.Run P s t) (hs : I s) :
    I t := by
  induction h with
  | refl => exact hs
  | tail _ hnext ih =>
      obtain ⟨l, hp, hst⟩ := hnext
      exact hstep _ _ _ ih hp hst

/-- A property that a run comes to have is brought about by one of its steps. -/
theorem Run.crossing {P : S → L → Prop} {Q : S → Prop} {s t : S} (h : M.Run P s t) (hs : ¬ Q s)
    (ht : Q t) : ∃ u l v, M.Run P s u ∧ ¬ Q u ∧ P u l ∧ M.step l u = some v ∧ Q v ∧ M.Run P v t := by
  induction h with
  | refl => exact absurd ht hs
  | @tail b c hrun hnext ih =>
      by_cases hb : Q b
      · obtain ⟨u, l, v, hu, hnu, hp, hst, hv, hrest⟩ := ih hb
        exact ⟨u, l, v, hu, hnu, hp, hst, hv, hrest.tail hnext⟩
      · obtain ⟨l, hp, hst⟩ := hnext
        exact ⟨b, l, c, hrun, hb, hp, hst, ht, Relation.ReflTransGen.refl⟩

/-- Every step of `M` is a run of `N` between related states. -/
def Simulates {T K : Type} (M : Machine S L) (N : Machine T K) (R : S → T → Prop) : Prop :=
  ∀ s l s' t, M.step l s = some s' → R s t → ∃ t', N.Run (fun _ _ => True) t t' ∧ R s' t'

/-- What is followed step by step is followed over whole runs. -/
theorem Run.lift {T K : Type} {N : Machine T K} {R : S → T → Prop} {P : S → L → Prop} {Q : T → K → Prop}
    (hsim : ∀ s l s' t, P s l → M.step l s = some s' → R s t → ∃ t', N.Run Q t t' ∧ R s' t')
    {s s' : S} {t : T} (h : M.Run P s s') (hR : R s t) : ∃ t', N.Run Q t t' ∧ R s' t' := by
  induction h with
  | refl => exact ⟨t, Relation.ReflTransGen.refl, hR⟩
  | tail _ hnext ih =>
      obtain ⟨u, hu, hRu⟩ := ih
      obtain ⟨l, hp, hst⟩ := hnext
      obtain ⟨t', ht', hR'⟩ := hsim _ l _ u hp hst hRu
      exact ⟨t', hu.trans ht', hR'⟩

theorem Simulates.run {T K : Type} {N : Machine T K} {R : S → T → Prop} (hsim : M.Simulates N R)
    {P : S → L → Prop} {s s' : S} {t : T} (h : M.Run P s s') (hR : R s t) :
    ∃ t', N.Run (fun _ _ => True) t t' ∧ R s' t' :=
  h.lift (fun s l s' t _ hst hR => hsim s l s' t hst hR) hR

theorem Run.single {s t : S} {l : L} (h : M.step l s = some t) : M.Run (fun _ _ => True) s t :=
  Relation.ReflTransGen.single ⟨l, trivial, h⟩

/-- Runs of a machine that something else goes along with: `D` says what it may do in a step, and `R` relates it
to the machine after every step. -/
def Joint {T : Type} (M : Machine S L) (P : S → L → Prop) (D : S → L → S → T → T → Prop) (R : S → T → Prop) :
    S × T → S × T → Prop :=
  Relation.ReflTransGen fun p q => ∃ l, P p.1 l ∧ M.step l p.1 = some q.1 ∧ D p.1 l q.1 p.2 q.2 ∧ R q.1 q.2

theorem Joint.step {T : Type} {P : S → L → Prop} {D : S → L → S → T → T → Prop} {R : S → T → Prop} {p : S × T} {s s' : S}
    {t t' : T} {l : L} (h : M.Joint P D R p (s, t)) (hp : P s l) (hst : M.step l s = some s') (hD : D s l s' t t')
    (hR : R s' t') : M.Joint P D R p (s', t') := Relation.ReflTransGen.tail h ⟨l, hp, hst, hD, hR⟩

/-- What can go along with every step goes along with whole runs. -/
theorem Run.joint {T : Type} {P : S → L → Prop} {D : S → L → S → T → T → Prop} {R : S → T → Prop}
    (hsim : ∀ s l s' t, P s l → M.step l s = some s' → R s t → ∃ t', D s l s' t t' ∧ R s' t') {s s' : S} {t : T}
    (h : M.Run P s s') (hR : R s t) : ∃ t', M.Joint P D R (s, t) (s', t') ∧ R s' t' := by
  induction h with
  | refl => exact ⟨t, .refl, hR⟩
  | tail _ hnext ih =>
      obtain ⟨u, hu, hRu⟩ := ih
      obtain ⟨l, hp, hst⟩ := hnext
      obtain ⟨t', hD, hR'⟩ := hsim _ l _ u hp hst hRu
      exact ⟨t', hu.step hp hst hD hR', hR'⟩

variable (M)

def exec (P : S → L → Prop) [∀ s l, Decidable (P s l)] : List L → S → Option S
  | [], s => some s
  | l :: ls, s => if P s l then (M.step l s).bind (exec P ls) else none

variable {M}

theorem run_of_exec {P : S → L → Prop} [∀ s l, Decidable (P s l)] {ls : List L} {s t : S}
    (h : M.exec P ls s = some t) : M.Run P s t := by
  induction ls generalizing s with
  | nil => cases h; exact Relation.ReflTransGen.refl
  | cons l ls ih =>
      rw [exec] at h
      split at h
      · next hp =>
          obtain ⟨u, hu, hr⟩ := Option.bind_eq_some_iff.mp h
          exact Relation.ReflTransGen.head ⟨l, hp, hu⟩ (ih hr)
      · cases h

/-- A schedule that can be executed and ends in a state with property `Q`. -/
theorem exists_run {P : S → L → Prop} [∀ s l, Decidable (P s l)] {Q : S → Prop} [DecidablePred Q]
    (ls : List L) (s : S) (h : (M.exec P ls s).any (fun t => decide (Q t)) = true) :
    ∃ t, M.Run P s t ∧ Q t := by
  cases ht : M.exec P ls s with
  | none => rw [ht] at h; cases h
  | some t => rw [ht] at h; exact ⟨t, run_of_exec ht, of_decide_eq_true h⟩

section Settling

variable {P : S → L → Prop} {Q I : S → Prop}

/-- Every schedule of steps that meet `P` comes to an end, and a state in which it can go no further
has property `Q`. -/
inductive Settles (M : Machine S L) (P : S → L → Prop) (Q : S → Prop) : S → Prop
  | intro (s : S) (next : ∀ t, M.Next P s t → Settles M P Q t) (stuck : (∀ t, ¬ M.Next P s t) → Q s) :
      Settles M P Q s

/-- An invariant, a rank that every step lowers, and a step wherever `Q` does not hold yet. -/
theorem Settles.of_rank {α : Type} [LT α] [WellFoundedLT α] (rank : S → α)
    (hstep : ∀ s l t, I s → P s l → M.step l s = some t → I t ∧ rank t < rank s)
    (hprogress : ∀ s, I s → ¬ Q s → ∃ l t, P s l ∧ M.step l s = some t) {s : S} (hs : I s) :
    Settles M P Q s := by
  induction h : rank s using WellFoundedLT.induction generalizing s with
  | ind r ih =>
      subst h
      constructor
      · rintro t ⟨l, hp, hst⟩
        obtain ⟨ht, hlt⟩ := hstep s l t hs hp hst
        exact ih (rank t) hlt ht rfl
      · intro hstuck
        by_contra hQ
        obtain ⟨l, t, hp, hst⟩ := hprogress s hs hQ
        exact hstuck t ⟨l, hp, hst⟩

end Settling

section Observed

variable {G : Type}

/-- The machine with a ghost beside its state, which observes every step. -/
def observed (M : Machine S L) (g : G) (observe : S → L → S → G → G) : Machine (S × G) L where
  init := (M.init, g)
  step l p := (M.step l p.1).map fun t => (t, observe p.1 l t p.2)

variable {g : G} {observe : S → L → S → G → G}

theorem observed_step {l : L} {p q : S × G} :
    (M.observed g observe).step l p = some q ↔
      M.step l p.1 = some q.1 ∧ q.2 = observe p.1 l q.1 p.2 := by
  obtain ⟨t, b⟩ := q
  simp only [observed, Option.map_eq_some_iff, Prod.mk.injEq]
  constructor
  · rintro ⟨u, hu, rfl, rfl⟩
    exact ⟨hu, rfl⟩
  · rintro ⟨ht, rfl⟩
    exact ⟨t, ht, rfl, rfl⟩

/-- The ghost follows every run. -/
theorem Run.observed {P : S → L → Prop} {s t : S} (h : M.Run P s t) (a : G) :
    ∃ b, (M.observed g observe).Run (fun p l => P p.1 l) (s, a) (t, b) := by
  induction h with
  | refl => exact ⟨a, Relation.ReflTransGen.refl⟩
  | tail _ hnext ih =>
      obtain ⟨b, hb⟩ := ih
      obtain ⟨l, hp, hst⟩ := hnext
      exact ⟨observe _ l _ b, hb.tail ⟨l, hp, observed_step.mpr ⟨hst, rfl⟩⟩⟩

theorem Run.forget {P : S → L → Prop} {p q : S × G}
    (h : (M.observed g observe).Run (fun p l => P p.1 l) p q) : M.Run P p.1 q.1 := by
  induction h with
  | refl => exact Relation.ReflTransGen.refl
  | tail _ hnext ih =>
      obtain ⟨l, hp, hst⟩ := hnext
      exact ih.tail ⟨l, hp, (observed_step.mp hst).1⟩

end Observed

end Machine

end Lib
