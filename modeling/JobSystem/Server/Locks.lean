import JobSystem.Server.View

namespace JobSystem

open Lib

namespace Ctl

def inside : Ctl → Option LockRef
  | locked l _ | sending l _ _ _ => some l
  | _ => none

def waiting : Ctl → Option LockRef
  | acquiring l _ => some l
  | _ => none

end Ctl

def Outside (x : Option Ctl) : Prop := x.bind Ctl.inside = none ∧ x.bind Ctl.waiting = none

theorem Return.next_outside (k : Return) : Outside k.next := by
  cases k <;> exact ⟨rfl, rfl⟩

/-- Every lock object agrees with the tasks inside and in front of its critical section. -/
def Locked (d : DispatchLocks) (ctl : Coro → Option Ctl) : Prop :=
  ∀ l, (d.mutexes l).Tracks (fun co => (ctl co).bind Ctl.inside = some l)
    (fun co => (ctl co).bind Ctl.waiting = some l)

/-- Every lock that is held or awaited is still the one in the dictionary. -/
def Kept (d : DispatchLocks) (ctl : Coro → Option Ctl) : Prop :=
  ∀ co l, (ctl co).bind Ctl.inside = some l ∨ (ctl co).bind Ctl.waiting = some l →
    d.locks.get l.agentId = some l

/-- Every lock of agent `a` that is held or awaited is still the one in the dictionary. -/
def KeptFor (a : String) (d : DispatchLocks) (ctl : Coro → Option Ctl) : Prop :=
  ∀ co l, l.agentId = a → (ctl co).bind Ctl.inside = some l ∨ (ctl co).bind Ctl.waiting = some l →
    d.locks.get a = some l

theorem kept_iff {d : DispatchLocks} {ctl : Coro → Option Ctl} : Kept d ctl ↔ ∀ a, KeptFor a d ctl := by
  constructor
  · rintro hK a co l rfl hl
    exact hK co l hl
  · intro hK co l hl
    exact hK l.agentId co l rfl hl

section

variable {d : DispatchLocks} {ctl : Coro → Option Ctl} {co : Coro} {l : LockRef}

theorem update_bind {β : Type} (f : Ctl → Option β) (x : Option Ctl) (u : Coro) :
    (Function.update ctl co x u).bind f = if u = co then x.bind f else (ctl u).bind f := by
  by_cases hu : u = co
  · subst u
    simp
  · simp [hu]

theorem bind_of_update {β : Type} {f : Ctl → Option β} {x : Option Ctl} {u : Coro} {b : β}
    (h : (Function.update ctl co x u).bind f = some b)
    (hx : x.bind f = none ∨ x.bind f = (ctl co).bind f) : (ctl u).bind f = some b := by
  rw [update_bind] at h
  split at h
  · next hu =>
      rcases hx with hn | hk
      · rw [hn] at h
        cases h
      · rw [hu, ← hk, h]
  · exact h

theorem bind_update {β : Type} {f : Ctl → Option β} {x : Option Ctl} {u : Coro} {b : β}
    (h : (ctl u).bind f = some b) (hx : (ctl co).bind f = none ∨ x.bind f = (ctl co).bind f) :
    (Function.update ctl co x u).bind f = some b := by
  rw [update_bind]
  split
  · next hu =>
      subst u
      rcases hx with hn | hk
      · rw [hn] at h
        cases h
      · rw [hk, h]
  · exact h

theorem Locked.unique (h : Locked d ctl) {co' : Coro} (hc : (ctl co).bind Ctl.inside = some l)
    (hc' : (ctl co').bind Ctl.inside = some l) : co = co' := (h l).unique hc hc'

/-- A task moves, and with it the one lock that it enters, leaves or queues for. -/
theorem Locked.at (h : Locked d ctl) {m : Mutex Coro} {x : Option Ctl}
    (hm : m.Tracks (fun u => (if u = co then x.bind Ctl.inside else (ctl u).bind Ctl.inside) = some l)
      (fun u => (if u = co then x.bind Ctl.waiting else (ctl u).bind Ctl.waiting) = some l))
    (hi : ∀ l', l' ≠ l → (x.bind Ctl.inside = some l' ↔ (ctl co).bind Ctl.inside = some l'))
    (hw : ∀ l', l' ≠ l → (x.bind Ctl.waiting = some l' ↔ (ctl co).bind Ctl.waiting = some l')) :
    Locked (d.update l m) (Function.update ctl co x) := by
  intro l'
  simp only [update_bind]
  by_cases hl : l' = l
  · subst l'
    rwa [DispatchLocks.mutexes_update, Function.update_self]
  · rw [DispatchLocks.mutexes_update, Function.update_of_ne hl]
    refine (h l').congr (fun u => ?_) fun u => ?_
    · split
      · next hu => rw [hu, hi l' hl]
      · exact Iff.rfl
    · split
      · next hu => rw [hu, hw l' hl]
      · exact Iff.rfl

theorem Locked.stay (h : Locked d ctl) {x : Option Ctl}
    (hi : x.bind Ctl.inside = (ctl co).bind Ctl.inside)
    (hw : x.bind Ctl.waiting = (ctl co).bind Ctl.waiting) :
    Locked d (Function.update ctl co x) := by
  intro l
  simp only [update_bind]
  refine (h l).congr (fun u => ?_) fun u => ?_
  · split
    · next hu => rw [hu, hi]
    · exact Iff.rfl
  · split
    · next hu => rw [hu, hw]
    · exact Iff.rfl

theorem Locked.move (h : Locked d ctl) {x : Option Ctl} (hold : Outside (ctl co)) (hnew : Outside x) :
    Locked d (Function.update ctl co x) :=
  h.stay (hnew.1.trans hold.1.symm) (hnew.2.trans hold.2.symm)

theorem Locked.release (h : Locked d ctl) {x : Option Ctl} (hold : (ctl co).bind Ctl.inside = some l)
    (hwait : (ctl co).bind Ctl.waiting = none) (hnew : Outside x) :
    Locked (d.update l (d.mutexes l).release) (Function.update ctl co x) := by
  refine h.at ((h l).release (fun u hu => ?_) fun u => ?_) (fun l' hl => ?_) fun l' _ => ?_
  · split at hu
    · rw [hnew.1] at hu; cases hu
    · next hne => exact hne (h.unique hu hold)
  · split
    · next hu => rw [hu, hnew.2, hwait]
    · exact Iff.rfl
  · rw [hnew.1, hold]
    simpa using hl.symm
  · rw [hnew.2, hwait]

theorem Locked.hold (h : Locked d ctl) {k : Return} (hold : Outside (ctl co))
    (hf : (d.mutexes l).free = true) :
    Locked (d.update l ((d.mutexes l).hold co)) (Function.update ctl co (some (.locked l k))) := by
  have hnone := (Mutex.free_iff (h l)).mp hf
  refine h.at ((h l).hold (fun u => ?_) fun u => ?_) (fun l' hl => ?_) fun l' _ => ?_
  · split
    · next hu => simp [hu, Ctl.inside]
    · next hu => simpa [hu] using (hnone u).1
  · split
    · next hu => rw [hu, hold.2]; rfl
    · exact Iff.rfl
  · rw [hold.1]
    simpa [Ctl.inside] using hl.symm
  · rw [hold.2]; rfl

theorem Locked.enqueue (h : Locked d ctl) {k : Return} (hold : Outside (ctl co)) :
    Locked (d.update l ((d.mutexes l).enqueue co)) (Function.update ctl co (some (.acquiring l k))) := by
  refine h.at ((h l).enqueue (by rw [hold.2]; simp) (fun u => ?_) fun u => ?_) (fun l' _ => ?_) fun l' hl => ?_
  · split
    · next hu => rw [hu, hold.1]; rfl
    · exact Iff.rfl
  · split
    · next hu => simp [hu, Ctl.waiting]
    · next hu => simp [hu]
  · rw [hold.1]; rfl
  · rw [hold.2]
    simpa [Ctl.waiting] using hl.symm

theorem Locked.wake (h : Locked d ctl) {k : Return} {m : Mutex Coro}
    (hin : (ctl co).bind Ctl.inside = none) (hm : (d.mutexes l).wake = some (co, m)) :
    Locked (d.update l m) (Function.update ctl co (some (.locked l k))) := by
  obtain ⟨hwait, hnone⟩ := (h l).wake_waiting hm
  refine h.at ((h l).wake hm (fun u => ?_) fun u => ?_) (fun l' hl => ?_) fun l' hl => ?_
  · split
    · next hu => simp [hu, Ctl.inside]
    · next hu => simpa [hu] using hnone u
  · split
    · next hu => simp [hu, Ctl.waiting]
    · next hu => simp [hu]
  · rw [hin]
    simpa [Ctl.inside] using hl.symm
  · rw [hwait]
    simpa [Ctl.waiting] using hl.symm

theorem KeptFor.unique {a : String} (hK : KeptFor a d ctl) (hL : Locked d ctl) {co' : Coro} {l' : LockRef}
    (hc : (ctl co).bind Ctl.inside = some l) (hc' : (ctl co').bind Ctl.inside = some l')
    (ha : l.agentId = a) (ha' : l'.agentId = a) : co = co' := by
  have hl := hK co l ha (.inl hc)
  have hl' := hK co' l' ha' (.inl hc')
  cases hl.symm.trans hl'
  exact hL.unique hc hc'

theorem Kept.unique (hK : Kept d ctl) (hL : Locked d ctl) {co' : Coro} {l' : LockRef}
    (hc : (ctl co).bind Ctl.inside = some l) (hc' : (ctl co').bind Ctl.inside = some l')
    (ha : l.agentId = l'.agentId) : co = co' :=
  (kept_iff.mp hK l'.agentId).unique hL hc hc' ha rfl

theorem sending_inside {o : ObjId} {job : Job} {k : Return} (hc : ctl co = some (.sending l o job k)) :
    (ctl co).bind Ctl.inside = some l := by
  rw [hc]
  rfl

theorem Kept.sender (hK : Kept d ctl) (hL : Locked d ctl) {co' : Coro} {l' : LockRef} {o o' : ObjId}
    {job job' : Job} {k k' : Return} (hc : ctl co = some (.sending l o job k))
    (hc' : ctl co' = some (.sending l' o' job' k')) (ha : l.agentId = l'.agentId) : co = co' :=
  hK.unique hL (sending_inside hc) (sending_inside hc') ha

theorem KeptFor.stay {a : String} (h : KeptFor a d ctl) {x : Option Ctl}
    (hx : ∀ l, x.bind Ctl.inside = some l ∨ x.bind Ctl.waiting = some l →
      (ctl co).bind Ctl.inside = some l ∨ (ctl co).bind Ctl.waiting = some l) :
    KeptFor a d (Function.update ctl co x) := by
  intro u l ha hu
  rw [update_bind, update_bind] at hu
  split at hu
  · exact h co l ha (hx l hu)
  · exact h u l ha hu

theorem lockFor_agentId (a : String) (d : DispatchLocks) : (d.lockFor a).1.agentId = a := by
  rw [DispatchLocks.lockFor]
  cases hg : d.locks.get a with
  | none => rfl
  | some l => exact (d.keyed hg).1

theorem KeptFor.lockFor {b : String} (h : KeptFor b d ctl) {a : String} {x : Ctl} {m : Mutex Coro}
    (hx : ∀ l, x.inside = some l ∨ x.waiting = some l → l = (d.lockFor a).1) :
    KeptFor b ((d.lockFor a).2.update (d.lockFor a).1 m) (Function.update ctl co (some x)) := by
  have hget : (d.lockFor a).2.locks.get a = some (d.lockFor a).1 := by
    rw [DispatchLocks.lockFor]
    cases hg : d.locks.get a with
    | none => exact Dict.get_set_self _ _ _
    | some l => exact hg
  have hother : ∀ l, d.locks.get b = some l → (d.lockFor a).2.locks.get b = some l := by
    intro l hb
    rw [DispatchLocks.lockFor]
    cases hg : d.locks.get a with
    | none =>
        dsimp only
        rw [Dict.get_set, if_neg, hb]
        rintro rfl
        rw [hg] at hb
        cases hb
    | some l' => exact hb
  intro u l hl hu
  rw [update_bind, update_bind] at hu
  split at hu
  · obtain rfl := hx l hu
    rw [← hl, lockFor_agentId]
    exact hget
  · exact hother _ (h u l hl hu)

theorem KeptFor.forget {b : String} (h : KeptFor b d ctl) (hL : Locked d ctl) {a : String}
    (hf : a = b → ∀ l, d.locks.get a = some l → (d.mutexes l).free = true) : KeptFor b (d.forget a) ctl := by
  intro u l hb hu
  have hl := h u l hb hu
  rw [DispatchLocks.forget, Dict.get_pop, if_neg]
  · exact hl
  · rintro rfl
    obtain ⟨hi, hw⟩ := (Mutex.free_iff (hL l)).mp (hf rfl l hl) u
    exact hu.elim hi hw

theorem lockFor_mutexes (a : String) (d : DispatchLocks) : (d.lockFor a).2.mutexes = d.mutexes := by
  rw [DispatchLocks.lockFor]
  cases d.locks.get a <;> rfl

theorem Locked.lockFor (h : Locked d ctl) (a : String) : Locked (d.lockFor a).2 ctl := by
  intro l
  rw [lockFor_mutexes]
  exact h l

end

namespace Server

variable {cfg : Config} {s s' : Server} {label : Label}

/-- A handler with a binding ends only while nobody holds or awaits the
dispatch lock of the agent it is bound to. -/
def lockSafe (s : Server) : Label → Bool
  | .handlerEnd c =>
      match s.handlers c with
      | some (some a) =>
          decide (a = "") || (s.dispatchLocks.locks.get a).all fun l => (s.dispatchLocks.mutexes l).free
      | _ => true
  | _ => true

theorem locked_start (jobs : JobTable) : Locked (start jobs).dispatchLocks (start jobs).ctl := by
  intro l
  apply Mutex.tracks_new.congr <;> simp [start]

theorem kept_start (jobs : JobTable) : Kept (start jobs).dispatchLocks (start jobs).ctl := by
  intro co l hl
  simp [start] at hl

theorem locked_step (hL : Locked s.dispatchLocks s.ctl) (h : View cfg s label s') :
    Locked s'.dispatchLocks s'.ctl := by
  have hout : ∀ {co x}, s.ctl co = x → Outside x → Outside (s.ctl co) := fun hc hx => hc ▸ hx
  cases h with
  | tick | connect | drop | ended | forgot | quiet | acked | touched | started | resultRaised | resultKept
    | heartbeatScan => exact hL
  | registered _ _ _ _ hc | resultFreed _ _ _ _ _ _ _ _ _ hc | submitted _ _ _ _ _ _ _ hc
    | cancelBegun _ _ _ _ hc | ackScan _ hc | timeoutScan _ hc =>
      exact hL.move (hout hc ⟨rfl, rfl⟩) ⟨rfl, rfl⟩
  | scanEnded _ _ _ hc | scanSkipped _ _ _ _ hc | staleFailed _ _ _ _ _ _ hc | requeued _ _ _ _ _ hc
    | cancelSending _ _ _ _ _ hc => exact hL.move (hout hc ⟨rfl, rfl⟩) ⟨rfl, rfl⟩
  | timeoutMoved x y loop _ hc hx hy =>
      obtain ⟨now, jobs, rfl⟩ := hx
      refine hL.move (hout hc ⟨rfl, rfl⟩) ?_
      rcases hy with ⟨rfl, _⟩ | ⟨_, ⟨_, _, rfl⟩ | ⟨_, _, _, rfl⟩⟩ <;> exact ⟨rfl, rfl⟩
  | timedOut _ _ _ _ _ x _ hx hc | cancelled _ _ _ _ x _ _ hx hc =>
      rcases hc with ⟨_, _, rfl⟩ | ⟨_, _, _, rfl⟩ <;> exact hL.move (hout hx ⟨rfl, rfl⟩) ⟨rfl, rfl⟩
  | woken co l k m _ hc hm => exact hL.wake (by rw [hc]; rfl) hm
  | entered co a k _ hc hm => exact (hL.lockFor a).hold (hout hc ⟨rfl, rfl⟩) hm
  | queued co a k _ hc => exact (hL.lockFor a).enqueue (hout hc ⟨rfl, rfl⟩)
  | left co l k _ hc => exact hL.release (by rw [hc]; rfl) (by rw [hc]; rfl) k.next_outside
  | sent co l o job k _ _ hc | sendClosed co l o job k _ hc =>
      exact hL.release (by rw [hc]; rfl) (by rw [hc]; rfl) k.next_outside
  | sentUnrecorded co l o job k out _ hc =>
      exact hL.release (by rw [hc]; rfl) (by rw [hc]; rfl) ⟨rfl, rfl⟩
  | sendBegun co l k o job _ hc => exact hL.stay (by rw [hc]; rfl) (by rw [hc]; rfl)

theorem keptFor_step {a : String} (hK : KeptFor a s.dispatchLocks s.ctl) (hL : Locked s.dispatchLocks s.ctl)
    (hsafe : ∀ c, label = .handlerEnd c → s.handlers c = some (some a) → a ≠ "" →
      ∀ l, s.dispatchLocks.locks.get a = some l → (s.dispatchLocks.mutexes l).free = true)
    (h : View cfg s label s') : KeptFor a s'.dispatchLocks s'.ctl := by
  have hmove : ∀ {co x}, Outside x → KeptFor a s.dispatchLocks (Function.update s.ctl co x) := fun hx =>
    hK.stay fun l hl => by rw [hx.1, hx.2] at hl; simp at hl
  cases h with
  | tick | connect | drop | ended | quiet | acked | touched | started | resultRaised | resultKept
    | heartbeatScan => exact hK
  | forgot c b _ _ hb ha =>
      refine hK.forget hL ?_
      rintro rfl
      exact hsafe c rfl hb ha
  | registered | resultFreed | submitted | cancelBegun | ackScan | timeoutScan | scanEnded | scanSkipped
    | staleFailed | requeued | cancelSending | timedOut | cancelled => exact hmove ⟨rfl, rfl⟩
  | timeoutMoved x y loop _ _ _ hy =>
      apply hmove
      rcases hy with ⟨rfl, _⟩ | ⟨_, ⟨_, _, rfl⟩ | ⟨_, _, _, rfl⟩⟩ <;> exact ⟨rfl, rfl⟩
  | woken co l k m _ hc hm => exact hK.stay (by rw [hc]; simp [Ctl.inside, Ctl.waiting])
  | entered co a k | queued co a k => exact hK.lockFor (by simp [Ctl.inside, Ctl.waiting])
  | left co l k | sent co l o job k | sendClosed co l o job k => exact hmove k.next_outside
  | sentUnrecorded => exact hmove ⟨rfl, rfl⟩
  | sendBegun co l k o job _ hc => exact hK.stay (by rw [hc]; simp [Ctl.inside, Ctl.waiting])

theorem kept_step (hK : Kept s.dispatchLocks s.ctl) (hL : Locked s.dispatchLocks s.ctl)
    (hsafe : s.lockSafe label = true) (h : View cfg s label s') : Kept s'.dispatchLocks s'.ctl := by
  refine kept_iff.mpr fun a => keptFor_step (kept_iff.mp hK a) hL ?_ h
  rintro c rfl hb ha l hl
  simpa [lockSafe, hb, ha, hl] using hsafe

end Server

end JobSystem
