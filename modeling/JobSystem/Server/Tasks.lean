import JobSystem.Server.Dispatch

namespace JobSystem

def Return.Of (co : Coro) : Return → Prop
  | .register c _ => co = .handler c
  | .result => ∃ c, co = .handler c
  | .submit _ => ∃ n, co = .api n
  | .scan _ _ => co = .ackWatcher

def CancelReturn.Of (co : Coro) : CancelReturn → Prop
  | .user n => co = .api n
  | .fire _ _ => co = .timeoutWatcher

def Ctl.Of (co : Coro) : Ctl → Prop
  | .dispatch _ k | .acquiring _ k | .locked _ k | .sending _ _ _ k => k.Of co
  | .scanAck _ _ => co = .ackWatcher
  | .scanTimeout _ _ => co = .timeoutWatcher
  | .sendCancel _ k | .sendingCancel _ k => k.Of co

theorem Return.next_of {co : Coro} {k : Return} (h : k.Of co) : ∀ x ∈ k.next, x.Of co := by
  cases k <;> rintro _ ⟨⟩
  exact h

namespace Server

/-- Every task stands at a point of its own code. -/
def Placed (s : Server) : Prop := ∀ co x, s.ctl co = some x → x.Of co

variable {cfg : Config} {s s' : Server} {label : Label}

theorem placed_step (hP : Placed s) (h : View cfg s label s') : Placed s' := by
  have hupdate : ∀ {u x}, s'.ctl = Function.update s.ctl u x → (∀ y ∈ x, y.Of u) → Placed s' := by
    intro u x hx hu co y hy
    rw [hx] at hy
    rcases update_some hy with ⟨rfl, hyx⟩ | ⟨_, hold⟩
    · exact hu y hyx
    · exact hP co y hold
  cases h with
  | registered => exact hupdate rfl (by rintro _ ⟨⟩; exact rfl)
  | resultFreed c => exact hupdate rfl (by rintro _ ⟨⟩; exact ⟨c, rfl⟩)
  | submitted n => exact hupdate rfl (by rintro _ ⟨⟩; exact ⟨n, rfl⟩)
  | cancelBegun | ackScan | timeoutScan => exact hupdate rfl (by rintro _ ⟨⟩; exact rfl)
  | woken co _ k _ _ hu | entered co _ k _ hu | queued co _ k _ hu =>
      have hk : k.Of co := hP _ _ hu
      exact hupdate rfl (by rintro _ ⟨⟩; exact hk)
  | sendBegun co _ k _ _ _ hu =>
      have hk : k.Of co := hP _ _ hu
      exact hupdate rfl (by rintro _ ⟨⟩; exact hk)
  | left co _ k _ hu =>
      have hk : k.Of co := hP _ _ hu
      exact hupdate rfl (Return.next_of hk)
  | sent co _ _ _ k _ _ hu | sendClosed co _ _ _ k _ hu =>
      have hk : k.Of co := hP _ _ hu
      exact hupdate rfl (Return.next_of hk)
  | sentUnrecorded | scanEnded | cancelled => exact hupdate rfl (by rintro _ ⟨⟩)
  | scanSkipped | staleFailed | requeued => exact hupdate rfl (by rintro _ ⟨⟩; exact rfl)
  | timeoutMoved _ y _ _ _ _ hy =>
      refine hupdate rfl ?_
      rcases hy with ⟨rfl, _⟩ | ⟨_, ⟨_, _, rfl⟩ | ⟨_, _, _, rfl⟩⟩
      · rintro _ ⟨⟩
      · rintro _ ⟨⟩
        exact rfl
      · rintro _ ⟨⟩
        exact rfl
  | cancelSending co _ k _ _ hu =>
      have hk : k.Of co := hP _ _ hu
      exact hupdate rfl (by rintro _ ⟨⟩; exact hk)
  | timedOut _ co _ _ _ _ _ hu hx =>
      refine hupdate rfl ?_
      rintro _ ⟨⟩
      have hof := hP _ _ hu
      rcases hx with ⟨_, _, rfl⟩ | ⟨_, _, _, rfl⟩ <;> exact hof
  | _ => exact hP

theorem placed_of_reachable {jobs : JobTable} (h : (machine cfg jobs).Reachable s) : Placed s :=
  h.invariant (I := Placed) (fun _ _ _ hI _ hst => placed_step hI (step_view hst)) fun _ _ hc => by cases hc

end Server

end JobSystem
