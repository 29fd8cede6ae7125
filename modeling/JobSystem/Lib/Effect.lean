import Mathlib.Order.Defs.Unbundled

namespace Lib

/-- Computations on a state that may raise. What was written before an exception stays written. -/
abbrev Effect (ε S : Type) := ExceptT ε (StateM S)

namespace Effect

variable {ε S α β : Type}

def run (m : Effect ε S α) (s : S) : Except ε α × S := Id.run (StateT.run (ExceptT.run m) s)

def call (f : S → Except ε α × S) : Effect ε S α := ExceptT.mk f

def update (f : S → S) : Effect ε S Unit := call fun s => (.ok (), f s)

/-- The computation with every exception caught, and `a` for its result then. -/
def guarded (m : Effect ε S α) (a : α) (s : S) : α × S :=
  match m.run s with
  | (.ok b, t) => (b, t)
  | (.error _, t) => (a, t)

@[simp] theorem run_pure (a : α) (s : S) : run (pure a : Effect ε S α) s = (.ok a, s) := rfl

@[simp] theorem run_throw (e : ε) (s : S) : run (throw e : Effect ε S α) s = (.error e, s) := rfl

@[simp] theorem run_call (f : S → Except ε α × S) (s : S) : run (call f) s = f s := rfl

@[simp] theorem run_update (f : S → S) (s : S) : run (update f : Effect ε S Unit) s = (.ok (), f s) := rfl

theorem run_bind (m : Effect ε S α) (f : α → Effect ε S β) (s : S) :
    run (m >>= f) s =
      match run m s with
      | (.ok a, t) => run (f a) t
      | (.error e, t) => (.error e, t) := by
  change run (ExceptT.bind m f) s = _
  rw [run, ExceptT.bind, ExceptT.run_mk, StateT.run_bind]
  change Id.run (StateT.run (ExceptT.bindCont f (run m s).1) (run m s).2) = _
  rcases run m s with ⟨_ | _, _⟩ <;> rfl

theorem run_bind_ok {m : Effect ε S α} {f : α → Effect ε S β} {s t : S} {a : α} (h : m.run s = (.ok a, t)) :
    (m >>= f).run s = (f a).run t := by rw [run_bind, h]

theorem run_bind_error {m : Effect ε S α} {f : α → Effect ε S β} {s t : S} {e : ε} (h : m.run s = (.error e, t)) :
    (m >>= f).run s = (.error e, t) := by rw [run_bind, h]

theorem guarded_state (m : Effect ε S α) (a : α) (s : S) : (m.guarded a s).2 = (m.run s).2 := by
  rw [guarded]
  rcases m.run s with ⟨_ | _, _⟩ <;> rfl

/-- On every state the computation goes to a related one, whether it raises or not, and a result of
it has property `Q`. -/
def Keeps (R : S → S → Prop) (Q : α → Prop) (m : Effect ε S α) : Prop :=
  ∀ s, R s (m.run s).2 ∧ ∀ a, (m.run s).1 = .ok a → Q a

variable {R : S → S → Prop} {P : α → Prop} {Q : β → Prop}

namespace Keeps

theorem pure [Std.Refl R] {a : α} (ha : P a) : Keeps R P (Pure.pure a : Effect ε S α) := by
  refine fun s => ⟨Std.Refl.refl s, ?_⟩
  rintro b ⟨⟩
  exact ha

theorem throw [Std.Refl R] (e : ε) : Keeps R P (MonadExcept.throw e : Effect ε S α) :=
  fun s => ⟨Std.Refl.refl s, nofun⟩

theorem call {f : S → Except ε α × S} (hR : ∀ s, R s (f s).2) (hP : ∀ s a, (f s).1 = .ok a → P a) :
    Keeps R P (Effect.call f) :=
  fun s => ⟨hR s, hP s⟩

theorem update {f : S → S} (hR : ∀ s, R s (f s)) : Keeps R (fun _ => True) (Effect.update f : Effect ε S Unit) :=
  call hR fun _ _ _ => trivial

theorem bind [IsTrans S R] {m : Effect ε S α} {f : α → Effect ε S β} (hm : Keeps R P m)
    (hf : ∀ a, P a → Keeps R Q (f a)) : Keeps R Q (m >>= f) := by
  intro s
  obtain ⟨hR, hP⟩ := hm s
  rw [run_bind]
  revert hR hP
  rcases run m s with ⟨e | a, t⟩
  · exact fun hR _ => ⟨hR, nofun⟩
  · intro hR hP
    obtain ⟨hR', hQ⟩ := hf a (hP a rfl) t
    exact ⟨IsTrans.trans _ _ _ hR hR', hQ⟩

theorem guarded {m : Effect ε S α} (hm : Keeps R P m) {a : α} (ha : P a) (s : S) :
    R s (m.guarded a s).2 ∧ P (m.guarded a s).1 := by
  obtain ⟨hR, hP⟩ := hm s
  rw [Effect.guarded]
  revert hR hP
  rcases run m s with ⟨e | b, t⟩
  · exact fun hR _ => ⟨hR, ha⟩
  · exact fun hR hP => ⟨hR, hP b rfl⟩

end Keeps

end Effect

end Lib
