import JobSystem.Server.Acknowledge
import JobSystem.Server.Sockets

namespace JobSystem

open Lib

def Ctl.dispatching : Ctl → Option String
  | .dispatch a _ => some a
  | .acquiring l _ | .locked l _ | .sending l _ _ _ => some l.agentId
  | _ => none

def HasPending (a : String) (jobs : JobTable) : Prop :=
  ∃ j job, record j jobs = some job ∧ job.agentId = a ∧ job.state = .pending

theorem HasPending.pendingJobs_ne {a : String} {jobs : JobTable} (h : HasPending a jobs) :
    Server.pendingJobs a jobs ≠ [] := by
  obtain ⟨j, job, hj, ha, hs⟩ := h
  have hmem : job ∈ Server.pendingJobs a jobs :=
    mem_pendingJobs.mpr ⟨by rw [record_jobId hj]; exact hj, hs, fun _ => ha⟩
  exact List.ne_nil_of_mem hmem

namespace Server

def InProgress (a : String) (s : Server) : Prop := ∃ co, (s.ctl co).bind Ctl.dispatching = some a

def Scanned (s : Server) : Prop :=
  ∀ co now jobs, (s.ctl co).bind Ctl.scanning = some (now, jobs) →
    ∀ job ∈ jobs, ∃ b, record job.jobId s.jobs = some b ∧ b.agentId = job.agentId

variable {cfg : Config} {s s' : Server} {label : Label}

theorem scanned_step (hS : Scanned s) (h : View cfg s label s') : Scanned s' := by
  intro co now rest hc job hjob
  have hold : ∃ b, record job.jobId s.jobs = some b ∧ b.agentId = job.agentId := by
    rcases view_scanning h hc with ⟨jobs, hjobs, hsub⟩ | ⟨_, _, rfl⟩
    · exact hS co now jobs hjobs job (hsub.mem hjob)
    · exact ⟨job, (mem_list.mp hjob).1, rfl⟩
  obtain ⟨b, hb, hbj⟩ := hold
  obtain ⟨b', hb', hbb⟩ := view_agentId h hb
  exact ⟨b', hb', hbb.trans hbj⟩

theorem scanned_start (jobs : JobTable) : Scanned (start jobs) := by
  intro co now rest hc
  simp [start] at hc

theorem view_dispatching (h : View cfg s label s') {co : Coro} {a : String}
    (hd : (s.ctl co).bind Ctl.dispatching = some a) :
    (s'.ctl co).bind Ctl.dispatching = some a ∨
      ∃ l, (s.ctl co).bind Ctl.inside = some l ∧ l.agentId = a ∧
        ((∀ o, s.agents.get a = some o → (s.agents.conns o).inFlight = 0 →
            s.sockets (s.agents.conns o).ws = true → ¬ HasPending a s.jobs) ∨
          ∃ o job k out, label = .sendReturned co out ∧ s.ctl co = some (.sending l o job k) ∧
            (s'.agents = s.agents.markBusy o ∨ s.sockets (s.agents.conns o).ws = false)) := by
  have hother : ∀ {u x}, s'.ctl = Function.update s.ctl u x → u ≠ co →
      (s'.ctl co).bind Ctl.dispatching = some a := by
    intro u x hx hne
    rw [hx, Function.update_of_ne hne.symm]
    exact hd
  cases h with
  | registered _ _ _ _ hu | resultFreed _ _ _ _ _ _ _ _ _ hu | submitted _ _ _ _ _ _ _ hu
    | cancelBegun _ _ _ _ hu | ackScan _ hu | timeoutScan _ hu =>
      exact .inl (bind_update hd (.inl (by rw [hu]; rfl)))
  | scanEnded _ _ _ hu | scanSkipped _ _ _ _ hu | staleFailed _ _ _ _ _ _ hu | requeued _ _ _ _ _ hu
    | cancelSending _ _ _ _ _ hu => exact .inl (bind_update hd (.inl (by rw [hu]; rfl)))
  | timeoutMoved x y loop _ hu hx =>
      obtain ⟨_, _, rfl⟩ := hx
      exact .inl (bind_update hd (.inl (by rw [hu]; rfl)))
  | timedOut _ _ _ _ _ _ _ hu hx | cancelled _ _ _ _ _ _ _ hu hx =>
      rcases hx with ⟨_, _, rfl⟩ | ⟨_, _, _, rfl⟩ <;>
        exact .inl (bind_update hd (.inl (by rw [hu]; rfl)))
  | woken _ _ _ _ _ hu | sendBegun _ _ _ _ _ _ hu => exact .inl (bind_update hd (.inr (by rw [hu]; rfl)))
  | entered _ b _ _ hu | queued _ b _ _ hu =>
      refine .inl (bind_update hd (.inr ?_))
      rw [hu]
      exact congrArg some (lockFor_agentId b _)
  | left u l k hl hu why =>
      by_cases hco : u = co
      · subst u
        rw [hu] at hd ⊢
        cases hd
        refine .inr ⟨l, rfl, rfl, .inl fun o ho hidle hs hp => ?_⟩
        exact hp.pendingJobs_ne (why o ho hidle hs)
      · exact .inl (hother rfl hco)
  | sent u l o job k _ _ hu =>
      by_cases hco : u = co
      · subst u
        rw [hu] at hd ⊢
        cases hd
        exact .inr ⟨l, rfl, rfl, .inr ⟨o, job, k, _, rfl, rfl, .inl rfl⟩⟩
      · exact .inl (hother rfl hco)
  | sentUnrecorded u l o job k out _ hu =>
      by_cases hco : u = co
      · subst u
        rw [hu] at hd ⊢
        cases hd
        exact .inr ⟨l, rfl, rfl, .inr ⟨o, job, k, _, rfl, rfl, .inl rfl⟩⟩
      · exact .inl (hother rfl hco)
  | sendClosed u l o job k _ hu hs =>
      by_cases hco : u = co
      · subst u
        rw [hu] at hd ⊢
        cases hd
        exact .inr ⟨l, rfl, rfl, .inr ⟨o, job, k, _, rfl, rfl, .inr hs⟩⟩
      · exact .inl (hother rfl hco)
  | _ => exact .inl hd

theorem stored_hasPending {op : Op} {jobs : JobTable} {a : String} (hc : op.created = none)
    (hreq : ∀ t j, op ≠ .requeue t j) (h : HasPending a (stored op jobs)) : HasPending a jobs := by
  obtain ⟨j, b, hb, ha, hs⟩ := h
  rcases stored_cases op jobs j with hk | ⟨_, hk⟩ | ⟨_, c, hcr, _⟩
  · exact ⟨j, b, hk ▸ hb, ha, hs⟩
  · rw [hk] at hb
    obtain ⟨job, hjob, rfl⟩ := Option.map_eq_some_iff.mp hb
    rw [op.effect_agentId] at ha
    by_cases hp : job.state = .pending
    · exact ⟨j, job, hjob, ha, hp⟩
    · obtain ⟨_, t, k, rfl⟩ := Op.effect_pending hs hp
      exact absurd rfl (hreq t k)
  · rw [hc] at hcr
    cases hcr

/-- An agent comes to have a pending job by a step that goes on to dispatch for it. -/
theorem view_hasPending (hS : Scanned s) (h : View cfg s label s') {a : String}
    (hp : HasPending a s'.jobs) : HasPending a s.jobs ∨ InProgress a s' := by
  cases h with
  | started | sent | staleFailed | timedOut | cancelled =>
      exact .inl (stored_hasPending rfl (by rintro _ _ ⟨⟩) hp)
  | resultKept c b j x o e err | resultFreed c b j x o e err =>
      rcases completion_cases s.clock j x o e err with ⟨_, h⟩ | h <;> dsimp only at hp <;>
        rw [h] at hp <;>
        exact .inl (stored_hasPending rfl (by rintro _ _ ⟨⟩) hp)
  | submitted n id cid req r =>
      obtain ⟨j, b, hb, ha, hs⟩ := hp
      rcases stored_cases (.submit id cid s.clock s.clock req.toRequest) s.jobs j with hk | ⟨⟨⟩, _⟩ | ⟨_, c, hc, _, hk⟩
      · exact .inl ⟨j, b, hk ▸ hb, ha, hs⟩
      · cases hc
        cases hk.symm.trans hb
        refine .inr ⟨.api n, ?_⟩
        dsimp only
        rw [Function.update_self, ← ha]
        rfl
  | requeued now job rest _ _ hc =>
      obtain ⟨j, b, hb, ha, hs⟩ := hp
      rcases stored_cases (.requeue s.clock job.jobId) s.jobs j with hk | ⟨ht, hk⟩ | ⟨_, _, ⟨⟩, _⟩
      · exact .inl ⟨j, b, hk ▸ hb, ha, hs⟩
      · cases ht
        obtain ⟨p, hp, hpa⟩ := hS .ackWatcher now (job :: rest) (by rw [hc]; rfl) job List.mem_cons_self
        rw [hk, hp] at hb
        cases hb
        rw [Op.effect_agentId, hpa] at ha
        refine .inr ⟨.ackWatcher, ?_⟩
        dsimp only
        rw [Function.update_self, ← ha]
        rfl
  | _ => exact .inl hp

/-- A task that has yet to reach its lock is the one that runs. -/
def Looping (s : Server) : Prop := ∀ co a k, s.ctl co = some (.dispatch a k) → s.loop = some co

theorem looping_step (hR : Looping s) (h : View cfg s label s') : Looping s' := by
  intro co a k hc
  have hmove : ∀ {u x}, s'.ctl = Function.update s.ctl u x → (s.loop = none ∨ s.loop = some u) →
      (∀ a k, x = some (.dispatch a k) → s'.loop = some u) → s'.loop = some co := by
    intro u x hx hl hnew
    rw [hx] at hc
    rcases update_some hc with ⟨rfl, he⟩ | ⟨hne, he⟩
    · exact hnew a k he
    · have hco := hR co a k he
      rcases hl with hl | hl <;> rw [hl] at hco <;> cases hco
      exact absurd rfl hne
  cases h with
  | registered _ _ _ hl | resultFreed _ _ _ _ _ _ _ _ hl | submitted _ _ _ _ _ _ hl =>
      exact hmove rfl (.inl hl) fun _ _ _ => rfl
  | cancelBegun _ _ _ hl | ackScan hl | timeoutScan hl | woken _ _ _ _ hl =>
      exact hmove rfl (.inl hl) (by simp)
  | entered _ _ _ hl | queued _ _ _ hl | sendBegun _ _ _ _ _ hl => exact hmove rfl (.inr hl) (by simp)
  | left _ _ k' hl => exact hmove rfl (.inr hl) (by cases k' <;> simp [Return.next])
  | sent _ _ _ _ k' _ hl | sendClosed _ _ _ _ k' hl =>
      exact hmove rfl (.inl hl) (by cases k' <;> simp [Return.next])
  | sentUnrecorded _ _ _ _ _ _ hl => exact hmove rfl (.inl hl) (by simp)
  | scanEnded _ _ hl | scanSkipped _ _ _ hl | staleFailed _ _ _ _ _ hl =>
      exact hmove rfl (.inr hl) (by simp)
  | requeued _ _ _ _ hl => exact hmove rfl (.inr hl) fun _ _ _ => rfl
  | timeoutMoved _ y _ hl _ _ hy =>
      refine hmove rfl (.inr hl) fun a k he => ?_
      rcases hy with ⟨rfl, _⟩ | ⟨_, ⟨_, _, rfl⟩ | ⟨_, _, _, rfl⟩⟩ <;> cases he
  | cancelSending _ _ _ _ hl => exact hmove rfl (.inr hl) (by simp)
  | timedOut _ _ _ _ _ _ _ _ hx | cancelled _ _ _ _ _ _ _ _ hx =>
      rcases hx with ⟨_, hl, _⟩ | ⟨_, _, hl, _⟩
      · exact hmove rfl (.inr hl) (by simp)
      · exact hmove rfl (.inl hl) (by simp)
  | _ => exact hR co a k hc

theorem looping_start (jobs : JobTable) : Looping (start jobs) := by
  intro co a k hc
  cases hc

/-- With nothing on the loop and the lock of an agent free, no dispatch for it is in progress. -/
theorem not_inProgress (hL : Locked s.dispatchLocks s.ctl) (hK : Kept s.dispatchLocks s.ctl)
    (hR : Looping s) (hl : s.loop = none) {a : String}
    (hf : (s.dispatchLocks.locks.get a).all (fun l => (s.dispatchLocks.mutexes l).free) = true) :
    ¬ InProgress a s := by
  rintro ⟨co, hd⟩
  have hfree :
      ∀ l, l.agentId = a → (s.ctl co).bind Ctl.inside = some l ∨
        (s.ctl co).bind Ctl.waiting = some l →
      False := by
    rintro l rfl hin
    rw [hK co l hin] at hf
    obtain ⟨hi, hw⟩ := (Mutex.free_iff (hL l)).mp hf co
    exact hin.elim hi hw
  cases hc : s.ctl co with
  | none => rw [hc] at hd; cases hd
  | some x =>
      rw [hc] at hd hfree
      cases x with
      | dispatch b k => rw [hR co b k hc] at hl; cases hl
      | acquiring l k => exact hfree l (Option.some.inj hd) (.inr rfl)
      | locked l k | sending l o job k => exact hfree l (Option.some.inj hd) (.inl rfl)
      | _ => cases hd

theorem view_register {c : ConnId} {a : String} (h : View cfg s (.frame c (some (.register a))) s') :
    s.ctl (.handler c) = none ∧ (s'.ctl (.handler c)).bind Ctl.dispatching = some a := by
  cases h with
  | quiet _ _ _ hq => cases hq
  | registered _ _ _ _ hc =>
      dsimp only
      rw [Function.update_self]
      exact ⟨hc, rfl⟩
  | timedOut _ _ _ _ _ _ _ _ hc | cancelled _ _ _ _ _ _ _ _ hc => rcases hc with ⟨⟨⟩, _⟩ | ⟨_, ⟨⟩, _⟩

theorem view_result {c : ConnId} {j : String} {x : Int} {out e : PyStr} {err : Option PyStr}
    (h : View cfg s (.frame c (some (.result j x out e err))) s')
    (hx : bindableResult x out e err = true) {a : String}
    (hb : s.handlers c = some (some a)) (ha : a ≠ "") :
    s'.agents = freeSlot a s.agents ∧ (s'.ctl (.handler c)).bind Ctl.dispatching = some a := by
  cases h with
  | quiet _ _ _ hq => cases hq
  | resultRaised _ _ _ _ _ _ _ _ hx' => rw [hx] at hx'; cases hx'
  | resultKept _ b _ _ _ _ _ _ _ hb' hf =>
      rw [hb] at hb'
      cases hb'
      simp [truthy, ha] at hf
  | resultFreed _ b _ _ _ _ _ _ _ _ hb' =>
      rw [hb] at hb'
      cases hb'
      refine ⟨rfl, ?_⟩
      dsimp only
      rw [Function.update_self]
      rfl
  | timedOut _ _ _ _ _ _ _ _ hc | cancelled _ _ _ _ _ _ _ _ hc => rcases hc with ⟨⟨⟩, _⟩ | ⟨_, ⟨⟩, _⟩

end Server

end JobSystem
