import JobSystem.Server.Attempts
import JobSystem.Server.Progress
import JobSystem.Server.Tasks

namespace JobSystem

open Lib

def AgentFrame.reported : AgentFrame → Option String
  | .started j | .result j _ _ _ _ | .reconcile j _ _ => some j
  | .register _ | .ack _ | .log _ _ _ _ | .heartbeat _ => none

def Label.isFrameOf (c : ConnId) : Label → Bool
  | .frame c' _ => c' = c
  | _ => false

namespace Server

def Report (t : Instant) (f : AgentFrame) (a b : Job) : Prop :=
  (f = .started a.jobId ∧ a.state = .dispatched ∧ b.state = .running ∧ b = a.transition t .dispatched .running) ∨
    ∃ x o e err, f = .result a.jobId x o e err ∧ a.state = .running ∧ (b.state = .succeeded ∨ b.state = .failed) ∧
      b = (completion t a.jobId x o e err).effect a

variable {cfg : Config} {s s' : Server}

theorem completion_state {t : Instant} {j : String} {x : Int} {o e : PyStr} {err : Option PyStr}
    {a : Job} (ha : a.state = .running) : ((completion t j x o e err).effect a).state = .succeeded ∨
      ((completion t j x o e err).effect a).state = .failed := by
  rw [Op.effect_state, ha]
  rcases completion_cases t j x o e err with ⟨_, h⟩ | h <;> rw [h] <;> simp [Op.next]

def Changes (t : Instant) (f : AgentFrame) (k : String) (T T' : JobTable) : Prop :=
  (record k T = none → record k T' = none) ∧
    ∀ a, record k T = some a → ∃ b, record k T' = some b ∧
      (b = a ∨ (f.reported = some k ∧ b.agentId = a.agentId ∧ Report t f a b))

theorem Changes.refl (t : Instant) (f : AgentFrame) (k : String) (T : JobTable) : Changes t f k T T :=
  ⟨id, fun a ha => ⟨a, ha, .inl rfl⟩⟩

theorem changes_stored {t : Instant} {f : AgentFrame} {k : String} {T : JobTable} {op : Op}
    (hnew : op.created = none)
    (hreport : ∀ a, record k T = some a → op.target = some k → op.effect a ≠ a →
      f.reported = some k ∧ Report t f a (op.effect a)) :
    Changes t f k T (stored op T) := by
  refine ⟨fun hn => ?_, fun a ha => ?_⟩
  · rcases stored_cases op T k with hk | ⟨_, hk⟩ | ⟨_, b, hb, _⟩
    · exact hk.trans hn
    · rw [hk, hn, Option.map_none]
    · rw [hnew] at hb
      cases hb
  · rcases stored_some op ha with hk | ⟨ht, hk⟩
    · exact ⟨a, hk, .inl rfl⟩
    · by_cases he : op.effect a = a
      · exact ⟨a, by rw [hk, he], .inl rfl⟩
      · obtain ⟨hnamed, hrep⟩ := hreport a ha ht he
        exact ⟨_, hk, .inr ⟨hnamed, op.effect_agentId a, hrep⟩⟩

theorem changes_started (t : Instant) (j k : String) (T : JobTable) :
    Changes t (.started j) k T (stored (.markRunning t j) T) := by
  refine changes_stored (rfl) fun a ha ht hne => ?_
  obtain ⟨⟩ := ht
  have hd : a.state = .dispatched := by
    by_contra hs
    exact hne (Job.transition_of_ne hs)
  have hr : ((Op.markRunning t j).effect a).state = .running := by
    rw [Op.effect_state, hd]
    rfl
  have hid := record_jobId ha
  exact ⟨rfl, .inl ⟨by rw [hid], hd, hr, rfl⟩⟩

theorem changes_result (t : Instant) (j k : String) (x : Int) (o e : PyStr) (err : Option PyStr)
    (T : JobTable) : Changes t (.result j x o e err) k T (stored (completion t j x o e err) T) := by
  have hnew : (completion t j x o e err).created = none := by
    rcases completion_cases t j x o e err with ⟨_, h⟩ | h <;> rw [h] <;> rfl
  refine changes_stored hnew fun a ha ht hne => ?_
  rw [completion_target] at ht
  obtain ⟨⟩ := ht
  have hid := record_jobId ha
  have hrun : a.state = .running := by
    by_contra hs
    rcases completion_cases t j x o e err with ⟨_, h⟩ | h
    · rw [h] at hne
      exact hne (Job.complete_of_ne hs)
    · rw [h] at hne
      exact hne (Job.complete_of_ne hs)
  exact ⟨rfl, .inr ⟨x, o, e, err, by rw [hid], hrun, completion_state hrun, by rw [hid]⟩⟩

theorem changes_frame {c : ConnId} {f : AgentFrame} (hf : f.reported.isSome)
    (h : View cfg s (.frame c (some f)) s') (k : String) : Changes s.clock f k s.jobs s'.jobs := by
  cases h with
  | quiet => exact .refl _ _ _ _
  | acked | touched | registered => cases hf
  | resultRaised => exact .refl _ _ _ _
  | started _ j => exact changes_started s.clock j k s.jobs
  | resultKept _ _ j x o e err => exact changes_result s.clock j k x o e err s.jobs
  | resultFreed _ _ j x o e err => exact changes_result s.clock j k x o e err s.jobs
  | timedOut _ _ _ _ _ _ _ _ hcase | cancelled _ _ _ _ _ _ _ _ hcase =>
      rcases hcase with ⟨he, _⟩ | ⟨_, he, _⟩ <;> cases he

/-- The handler of connection `c` goes on with what it is at. -/
def goesOn (c : ConnId) (s : Server) : Label → Bool
  | .run => s.loop = some (.handler c)
  | .wake co | .sendReturned co _ => co = .handler c
  | _ => false

def DispatchesOne (a : String) (s t : Server) : Prop :=
  ∃ j x y, record j s.jobs = some x ∧ x.agentId = a ∧ x.state = .pending ∧
    record j t.jobs = some y ∧ y.agentId = a ∧ y.state = .dispatched ∧ ∀ k, k ≠ j → record k t.jobs = record k s.jobs

def Aimed (s : Server) : Prop := ∀ co l o job k, s.ctl co = some (.sending l o job k) → l.agentId ≠ "" →
  ∃ r, record job.jobId s.jobs = some r ∧ r.agentId = l.agentId

theorem aimed_step {label : Label} (hA : Aimed s) (h : View cfg s label s') : Aimed s' := by
  intro co l o job k hc hl
  rcases view_sending h hc with hc | hbegun
  · obtain ⟨r, hr, ha⟩ := hA co l o job k hc hl
    obtain ⟨r', hr', ha'⟩ := view_agentId h hr
    exact ⟨r', hr', ha'.trans ha⟩
  · obtain ⟨hr, _, ha⟩ := pending_head hbegun.pending
    exact ⟨job, by rw [hbegun.jobs]; exact hr, ha hl⟩

theorem aimed_of_reachable {jobs : JobTable} (h : (machine cfg jobs).Reachable s) : Aimed s :=
  h.invariant (I := Aimed) (fun _ _ _ hI _ hst => aimed_step hI (step_view hst)) fun _ _ _ _ _ hc => by cases hc

/-- A task that goes on in `dispatch_pending` is through with it, or in it for the same agent. Only when its send has
returned does it write. -/
theorem view_goesOn {label : Label} {c : ConnId} (hP : Placed s) (h : View cfg s label s')
    (hl : label.isFrameOf c = false) :
    (s.goesOn c label = false ∧ s'.ctl (.handler c) = s.ctl (.handler c)) ∨
    (∃ x, s.ctl (.handler c) = some x ∧ s'.jobs = s.jobs ∧
      ∀ y, s'.ctl (.handler c) = some y → y.dispatching = x.dispatching) ∨
    ∃ l o job k, s.ctl (.handler c) = some (.sending l o job k) ∧ s'.ctl (.handler c) = none ∧
      s'.jobs = stored (.markDispatchedWithAttempt s.clock s.clock job.jobId) s.jobs := by
  have hstays : ∀ {co z}, s'.ctl = Function.update s.ctl co z → co ≠ .handler c → s.goesOn c label = false →
      s.goesOn c label = false ∧ s'.ctl (.handler c) = s.ctl (.handler c) :=
    fun ht hne hg => ⟨hg, by rw [ht, Function.update_of_ne hne.symm]⟩
  have hforeign : ∀ {co x z}, s.ctl co = some x → ¬ x.Of (.handler c) → s'.ctl = Function.update s.ctl co z →
      s.goesOn c label = decide (co = .handler c) →
      s.goesOn c label = false ∧ s'.ctl (.handler c) = s.ctl (.handler c) := by
    intro co x z hx hof ht hg
    have hne : co ≠ .handler c := by
      rintro rfl
      exact hof (hP _ _ hx)
    exact hstays ht hne (by rw [hg, decide_eq_false hne])
  have hmoves : ∀ {co x z}, s.ctl co = some x → s'.ctl = Function.update s.ctl co z → s'.jobs = s.jobs →
      s.goesOn c label = decide (co = .handler c) → (co = .handler c → ∀ y ∈ z, y.dispatching = x.dispatching) →
      (s.goesOn c label = false ∧ s'.ctl (.handler c) = s.ctl (.handler c)) ∨
        ∃ x, s.ctl (.handler c) = some x ∧ s'.jobs = s.jobs ∧
          ∀ y, s'.ctl (.handler c) = some y → y.dispatching = x.dispatching := by
    intro co x z hx ht hj hg hz
    by_cases hco : co = .handler c
    · subst hco
      refine .inr ⟨x, hx, hj, fun y hy => hz rfl y ?_⟩
      rwa [ht, Function.update_self] at hy
    · exact .inl (hstays ht hco (by rw [hg, decide_eq_false hco]))
  have hrun : ∀ {co}, s.loop = some co → s.goesOn c .run = decide (co = .handler c) := by
    intro co hloop
    simp [goesOn, hloop]
  have hnext : ∀ {k : Return}, k.Of (.handler c) → k.next = none := by
    intro k hk
    cases k <;> first | rfl | cases hk
  cases h with
  | quiet _ _ _ hq =>
      refine .inl ⟨?_, rfl⟩
      cases label <;> first | rfl | cases hq
  | registered c' | resultFreed c' =>
      refine .inl (hstays rfl ?_ rfl)
      rintro ⟨⟩
      exact absurd rfl (of_decide_eq_false hl)
  | submitted | cancelBegun | ackScan | timeoutScan => exact .inl (hstays rfl Coro.noConfusion rfl)
  | scanEnded _ _ hloop | scanSkipped _ _ _ hloop | staleFailed _ _ _ _ _ hloop | requeued _ _ _ _ hloop
    | timeoutMoved _ _ _ hloop =>
      exact .inl (hstays rfl Coro.noConfusion (by rw [hrun hloop]; rfl))
  | woken co l k _ _ hx => exact (hmoves hx rfl rfl rfl fun _ => by rintro _ ⟨⟩; rfl).imp_right .inl
  | entered co a k hloop hx | queued co a k hloop hx =>
      refine (hmoves hx rfl rfl (hrun hloop) fun _ => ?_).imp_right .inl
      rintro _ ⟨⟩
      exact congrArg some (lockFor_agentId a s.dispatchLocks)
  | sendBegun co l k o job hloop hx =>
      exact (hmoves hx rfl rfl (hrun hloop) fun _ => by rintro _ ⟨⟩; rfl).imp_right .inl
  | left co l k hloop hx =>
      refine (hmoves hx rfl rfl (hrun hloop) ?_).imp_right .inl
      rintro rfl
      rw [hnext (hP _ _ hx)]
      rintro _ ⟨⟩
  | sent co l o job k _ _ hx =>
      by_cases hco : co = .handler c
      · subst hco
        refine .inr (.inr ⟨l, o, job, k, hx, ?_, rfl⟩)
        exact (Function.update_self _ _ _).trans (hnext (hP _ _ hx))
      · exact .inl (hstays rfl hco (decide_eq_false hco))
  | sentUnrecorded co l o job k _ _ hx =>
      exact (hmoves hx rfl rfl rfl fun _ => by rintro _ ⟨⟩).imp_right .inl
  | sendClosed co l o job k _ hx =>
      refine (hmoves hx rfl rfl rfl ?_).imp_right .inl
      rintro rfl
      rw [hnext (hP _ _ hx)]
      rintro _ ⟨⟩
  | cancelSending co job k o hloop hx =>
      refine .inl (hforeign hx ?_ rfl (hrun hloop))
      cases k <;> rintro ⟨⟩
  | timedOut _ co job now rest x _ hx hw | cancelled _ co job n x _ _ hx hw =>
      refine .inl (hforeign hx ?_ rfl ?_)
      · rcases hw with ⟨_, _, rfl⟩ | ⟨_, _, _, rfl⟩ <;> rintro ⟨⟩
      · rcases hw with ⟨rfl, hloop, _⟩ | ⟨_, rfl, _⟩
        · exact hrun hloop
        · rfl
  | _ => exact .inl ⟨rfl, rfl⟩

/-- The handler of a connection is in no call, or `_on_result` has called `dispatch_pending` for `a`. -/
def Dispatching (c : ConnId) (a : Option String) (s : Server) : Prop :=
  ∀ x, s.ctl (.handler c) = some x → ∃ b, a = some b ∧ b ≠ "" ∧ x.dispatching = some b

theorem dispatchesOne_of_stored {T T' : Server} {a : String} {job r : Job} {t₁ t₂ : Instant}
    (hr : record job.jobId T.jobs = some r) (ha : r.agentId = a)
    (hT : T'.jobs = stored (.markDispatchedWithAttempt t₁ t₂ job.jobId) T.jobs) :
    (∀ k, record k T'.jobs = record k T.jobs) ∨ DispatchesOne a T T' := by
  have hother : ∀ k, k ≠ job.jobId → record k T'.jobs = record k T.jobs := by
    intro k hk
    rw [hT]
    rcases stored_cases (.markDispatchedWithAttempt t₁ t₂ job.jobId) T.jobs k with h | ⟨ht, _⟩ | ⟨_, b, hb, _⟩
    · exact h
    · exact absurd (Option.some.inj ht).symm hk
    · cases hb
  have hsame : record job.jobId T'.jobs = some r → ∀ k, record k T'.jobs = record k T.jobs := by
    intro h k
    by_cases hk : k = job.jobId
    · rw [hk, h, hr]
    · exact hother k hk
  rcases stored_some (.markDispatchedWithAttempt t₁ t₂ job.jobId) hr with h | ⟨_, h⟩
  · exact .inl (hsame (by rw [hT, h]))
  · by_cases hp : r.state = .pending
    · refine .inr ⟨job.jobId, r, _, hr, ha, hp, by rw [hT]; exact h, ?_, ?_, hother⟩
      · rw [Op.effect_agentId]
        exact ha
      · rw [Op.effect_state, hp]
        rfl
    · refine .inl (hsame ?_)
      rw [hT, h, Op.effect, Job.dispatch, if_neg hp]

/-- What the handler does to the table until its next frame: at most one job of its agent is dispatched, and then the
handler is through. -/
theorem goesOn_writes {c : ConnId} {a : Option String} {label : Label} (hP : Placed s) (hA : Aimed s)
    (hD : Dispatching c a s) (h : View cfg s label s') (hl : label.isFrameOf c = false) :
    Dispatching c a s' ∧ (s.goesOn c label = true → (∀ k, record k s'.jobs = record k s.jobs) ∨
      s'.ctl (.handler c) = none ∧ ∃ b, a = some b ∧ DispatchesOne b s s') := by
  rcases view_goesOn hP h hl with ⟨hg, hctl⟩ | ⟨x, hx, hjobs, hctl⟩ | ⟨l, o, job, k, hx, hctl, hjobs⟩
  · refine ⟨fun y hy => hD y (hctl ▸ hy), fun hgo => ?_⟩
    rw [hg] at hgo
    cases hgo
  · obtain ⟨b, hab, hb, hdisp⟩ := hD x hx
    refine ⟨fun y hy => ⟨b, hab, hb, (hctl y hy).trans hdisp⟩, fun _ => .inl fun k => by rw [hjobs]⟩
  · obtain ⟨b, hab, hb, hdisp⟩ := hD _ hx
    obtain rfl : l.agentId = b := Option.some.inj hdisp
    obtain ⟨r, hr, ha⟩ := hA _ l o job k hx hb
    refine ⟨fun y hy => ?_, fun _ => (dispatchesOne_of_stored hr ha hjobs).imp_right fun h => ⟨hctl, _, hab, h⟩⟩
    rw [hctl] at hy
    cases hy

theorem rests {jobs : JobTable} {c : ConnId} {t : Server} (hs : (machine cfg jobs).Reachable s)
    (hc : s.ctl (.handler c) = none) (h : (machine cfg jobs).Run (fun _ l => l.isFrameOf c = false) s t) :
    t.ctl (.handler c) = none := by
  have hI : Placed t ∧ t.ctl (.handler c) = none := by
    refine h.invariant (I := fun t => Placed t ∧ t.ctl (.handler c) = none) ?_ ⟨placed_of_reachable hs, hc⟩
    rintro u l v ⟨hP, hu⟩ hl hst
    refine ⟨placed_step hP (step_view hst), ?_⟩
    rcases view_goesOn hP (step_view hst) hl with ⟨_, hctl⟩ | ⟨x, hx, _⟩ | ⟨_, _, _, _, hx, _⟩
    · rw [hctl, hu]
    · cases hu.symm.trans hx
    · cases hu.symm.trans hx
  exact hI.2

theorem frame_idle {c : ConnId} {f : Option AgentFrame} (h : step cfg (.frame c f) s = some s') :
    s.ctl (.handler c) = none := by
  simp only [step] at h
  split at h
  · exact (of_idle h).2.1
  · cases h

theorem dispatching_frame {c : ConnId} {f : AgentFrame} (hf : f.reported.isSome) (hidle : s.ctl (.handler c) = none)
    (h : View cfg s (.frame c (some f)) s') : ∃ a, Dispatching c a s' ∧
      ∀ b, a = some b → (∃ j x o e err, f = .result j x o e err) ∧ s.handlers c = some (some b) := by
  have hquiet : s'.ctl = s.ctl → ∃ a, Dispatching c a s' ∧
      ∀ b, a = some b → (∃ j x o e err, f = .result j x o e err) ∧ s.handlers c = some (some b) := by
    refine fun hctl => ⟨none, fun x hx => ?_, by rintro b ⟨⟩⟩
    rw [hctl, hidle] at hx
    cases hx
  cases h with
  | acked | touched | registered => cases hf
  | resultFreed _ a j x o e err _ _ _ hb ha =>
      refine ⟨some a, fun y hy => ?_, ?_⟩
      · change Function.update s.ctl (.handler c) _ (.handler c) = some y at hy
        rw [Function.update_self] at hy
        cases hy
        exact ⟨a, rfl, ha, rfl⟩
      · rintro b ⟨⟩
        exact ⟨⟨j, x, o, e, err, rfl⟩, hb⟩
  | timedOut _ _ _ _ _ _ _ _ hcase | cancelled _ _ _ _ _ _ _ _ hcase =>
      rcases hcase with ⟨he, _⟩ | ⟨_, he, _⟩ <;> cases he
  | _ => exact hquiet rfl

/-- Whatever its connection is bound to, a report changes no record but that of the job it names, which keeps its agent:
`started` a dispatched one, `result` a running one, and `reconcile` none at all. Until the next frame of the connection,
its handler then changes at most one record more, when `dispatch_pending` sends a pending job of the agent that the
connection is bound to, and only after a result. -/
theorem report_changes_named (cfg : Config) (jobs : JobTable) {s s' : Server} (hs : (machine cfg jobs).Reachable s)
    {c : ConnId} {f : AgentFrame} (hf : f.reported.isSome) (hst : step cfg (.frame c (some f)) s = some s') :
    (∀ k, (record k s.jobs = none → record k s'.jobs = none) ∧
      ∀ a, record k s.jobs = some a → ∃ b, record k s'.jobs = some b ∧
        (b = a ∨ (f.reported = some k ∧ b.agentId = a.agentId ∧ Report s.clock f a b))) ∧
      ∀ u l v, (machine cfg jobs).Run (fun _ l => l.isFrameOf c = false) s' u → l.isFrameOf c = false →
        step cfg l u = some v → u.goesOn c l = true →
        (∀ k, record k v.jobs = record k u.jobs) ∨
          (∃ j x o e err, f = .result j x o e err) ∧ (∃ a, s.handlers c = some (some a) ∧ DispatchesOne a u v) ∧
            ∀ w, (machine cfg jobs).Run (fun _ l => l.isFrameOf c = false) v w → w.ctl (.handler c) = none := by
  have hreach : (machine cfg jobs).Reachable s' := hs.tail ⟨.frame c (some f), trivial, hst⟩
  obtain ⟨a, hD, hwhy⟩ := dispatching_frame hf (frame_idle hst) (step_view hst)
  refine ⟨changes_frame hf (step_view hst), fun u l v hu hl huv hgo => ?_⟩
  have hureach : (machine cfg jobs).Reachable u := hreach.trans (hu.mono fun _ _ _ => trivial)
  have hI : Placed u ∧ Aimed u ∧ Dispatching c a u := by
    refine hu.invariant (I := fun u => Placed u ∧ Aimed u ∧ Dispatching c a u) ?_
      ⟨placed_of_reachable hreach, aimed_of_reachable hreach, hD⟩
    rintro s₁ l₁ s₂ ⟨hP, hA, hD⟩ hl hst
    exact ⟨placed_step hP (step_view hst), aimed_step hA (step_view hst), (goesOn_writes hP hA hD (step_view hst) hl).1⟩
  rcases (goesOn_writes hI.1 hI.2.1 hI.2.2 (step_view huv) hl).2 hgo with hsame | ⟨hctl, b, hab, hone⟩
  · exact .inl hsame
  · obtain ⟨hresult, hb⟩ := hwhy b hab
    exact .inr ⟨hresult, ⟨b, hb, hone⟩, fun w hw => rests (hureach.tail ⟨l, trivial, huv⟩) hctl hw⟩

def threeConnections : List Label :=
  ackedDispatch ++ [.connect, .frame 1 (some (.register "agent-2")), .run, .run, .connect]

/-- The result of `job_1` is followed by the dispatch of `job_2`. -/
theorem report_changes_named_result : ∃ s s' u v, (machine .default .empty).Reachable s ∧
    step .default (.frame 0 (some (.result "job_1" 0 "" "" none))) s = some s' ∧
      stateOf "job_1" s'.jobs = some .succeeded ∧
    (machine .default .empty).Run (fun _ l => l.isFrameOf 0 = false) s' u ∧
      step .default (.sendReturned (.handler 0) .sent) u = some v ∧ stateOf "job_2" u.jobs = some .pending ∧
      stateOf "job_2" v.jobs = some .dispatched ∧
      ((∀ k, record k v.jobs = record k u.jobs) ∨
        (∃ j x o e err, AgentFrame.result "job_1" 0 "" "" none = .result j x o e err) ∧
        (∃ a, s.handlers 0 = some (some a) ∧ DispatchesOne a u v) ∧
        ∀ w, (machine .default .empty).Run (fun _ l => l.isFrameOf 0 = false) v w → w.ctl (.handler 0) = none) := by
  have hexec : ((machine .default .empty).exec (fun _ _ => True) (threeConnections ++ [.frame 0 (some (.started "job_1")),
      .submit 1 "job_2" "c2" (.alpine "agent-1" agent_1_ne), .run, .run]) (start .empty)).any (fun s =>
      decide ((step .default (.frame 0 (some (.result "job_1" 0 "" "" none))) s).any (fun s' =>
        decide (stateOf "job_1" s'.jobs = some .succeeded ∧ ((machine .default .empty).exec
          (fun _ l => l.isFrameOf 0 = false) [.run, .run] s').any (fun u => decide (
            stateOf "job_2" u.jobs = some .pending ∧ (step .default (.sendReturned (.handler 0) .sent) u).any (fun v =>
              decide (stateOf "job_2" v.jobs = some .dispatched)) = true)) = true)) = true)) = true := by decide +kernel
  obtain ⟨s, hs, hres⟩ := Machine.exists_run _ _ hexec
  obtain ⟨s', hst, hres⟩ := (Option.any_eq_true _ _).mp hres
  obtain ⟨hdone, hrun⟩ := of_decide_eq_true hres
  obtain ⟨u, hu, hpending, hsent⟩ := Machine.exists_run _ _ hrun
  obtain ⟨v, huv, hdispatched⟩ := (Option.any_eq_true _ _).mp hsent
  exact ⟨s, s', u, v, hs, hst, hdone, hu, huv, hpending, of_decide_eq_true hdispatched,
    (report_changes_named .default .empty hs rfl hst).2 u _ v hu rfl huv (by simp [goesOn])⟩

/-- `agent-2` starts the job of `agent-1`, and a connection without an agent completes it. -/
theorem report_owned_false : ∃ s t u, (machine .default .empty).Reachable s ∧
    step .default (.frame 1 (some (.started "job_1"))) s = some t ∧
    step .default (.frame 2 (some (.result "job_1" 0 "" "" none))) t = some u ∧
    s.handlers 1 = some (some "agent-2") ∧ t.handlers 2 = some none ∧
    (record "job_1" s.jobs).map (fun a => (a.agentId, a.state)) = some ("agent-1", .dispatched) ∧
    (record "job_1" t.jobs).map (fun a => (a.agentId, a.state)) = some ("agent-1", .running) ∧
    (record "job_1" u.jobs).map (fun a => (a.agentId, a.state)) = some ("agent-1", .succeeded) := by
  have hexec : ((machine .default .empty).exec (fun _ _ => True) threeConnections (start .empty)).any (fun s =>
      decide ((step .default (.frame 1 (some (.started "job_1"))) s).any (fun t =>
        decide ((step .default (.frame 2 (some (.result "job_1" 0 "" "" none))) t).any (fun u =>
          decide (s.handlers 1 = some (some "agent-2") ∧ t.handlers 2 = some none ∧
            (record "job_1" s.jobs).map (fun a => (a.agentId, a.state)) = some ("agent-1", .dispatched) ∧
            (record "job_1" t.jobs).map (fun a => (a.agentId, a.state)) = some ("agent-1", .running) ∧
            (record "job_1" u.jobs).map (fun a => (a.agentId, a.state)) = some ("agent-1", .succeeded))) = true)) =
        true)) = true := by decide +kernel
  obtain ⟨s, hs, ht⟩ := Machine.exists_run _ _ hexec
  obtain ⟨t, hst, ht⟩ := (Option.any_eq_true _ _).mp ht
  obtain ⟨u, htu, hu⟩ := (Option.any_eq_true _ _).mp (of_decide_eq_true ht)
  exact ⟨s, t, u, hs, hst, htu, of_decide_eq_true hu⟩

end Server

end JobSystem
