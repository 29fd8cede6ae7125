import JobSystem.Server.CancelResponse
import JobSystem.Server.Sockets
import JobSystem.Server.StaleScan
import JobSystem.Server.Supersede

namespace JobSystem

open Lib

def Obs.isJobWritten (j : String) : Obs → Bool
  | .jobWritten _ k => k = j
  | _ => false

namespace Server

def messages (j : String) (s : Server) : Nat := s.history.countP (Obs.isJobWritten j)

/-- Agent `a`, which is on connection `c`, says nothing about `j` and gets no other job, nobody
cancels `j`, and a scan begins only when the last update of a dispatched `j` is too long ago. -/
def silent (cfg : Config) (a j : String) (c : ConnId) (s : Server) : Label → Bool
  | .drop c' => c' ≠ c
  | .frame _ (some (.ack k)) | .frame _ (some (.started k)) => k ≠ j
  | .frame c' (some (.result k _ _ _ _)) => decide (k ≠ j) && decide (s.handlers c' ≠ some (some a))
  | .submit _ _ _ req => req.agentId ≠ a
  | .cancel _ k => k ≠ j
  | .ackScan => (record j s.jobs).any fun x => decide (1 ≤ x.dispatchAttempts) && ackOverdue cfg s.clock x
  | _ => true

def unanswered (cfg : Config) (a j : String) (c : ConnId) (s : Server) (label : Label) : Bool :=
  s.sparesOthers a label && s.undisturbed cfg a c label && s.silent cfg a j c label && s.routesOwn label &&
    s.recorded label

def countScans (s : Server) (label : Label) (_ : Server) (n : Nat) : Nat :=
  match label, s.loop, s.ctl .ackWatcher with
  | .run, some .ackWatcher, some (.scanAck _ []) => n + 1
  | _, _, _ => n

/-- Job `j` of agent `a` waits for its first dispatch: the agent is idle on the open connection `c`,
it has no other job, and no task is busy with either. -/
structure FirstDispatch (a j : String) (c : ConnId) (s : Server) : Prop where
  named : a ≠ ""
  entry : ∃ o, s.agents.get a = some o ∧ (s.agents.conns o).ws = c ∧ (s.agents.conns o).inFlight = 0
  socket : s.sockets c = true
  job : ∃ x, record j s.jobs = some x ∧ x.agentId = a ∧ x.state = .pending ∧ x.dispatchAttempts = 0
  only : ∀ k x, record k s.jobs = some x → x.agentId = a → k = j
  unsent : s.messages j = 0
  undispatched : ∀ co l, (s.ctl co).bind Ctl.inside = some l ∨ (s.ctl co).bind Ctl.waiting = some l →
    l.agentId ≠ a
  unwritten : ∀ co l o job k, s.ctl co = some (.sending l o job k) → job.jobId ≠ j
  uncancelled : ∀ co, (s.ctl co).bind Ctl.cancels ≠ some j
  unscanned : (s.ctl .ackWatcher).bind Ctl.scanning = none

section Steps

variable {cfg : Config} {s s' : Server} {label : Label} {a j : String} {c : ConnId}

theorem unanswered_iff : s.unanswered cfg a j c label = true ↔ s.sparesOthers a label = true ∧
    s.undisturbed cfg a c label = true ∧ s.silent cfg a j c label = true ∧ s.routesOwn label = true ∧
      s.recorded label = true := by
  simp [unanswered, and_assoc]

theorem view_messages (h : View cfg s label s') (j : String) :
    s'.messages j = s.messages j ∨ ∃ co l o job k, Begun s label s' co l o job k ∧ job.jobId = j := by
  cases h with
  | sendBegun co l k o job hl hc ho hidle hp hs =>
      by_cases hj : job.jobId = j
      · refine .inr ⟨co, l, o, job, k, ?_, hj⟩
        exact ⟨rfl, hl, hc, ho, hidle, hp, hs, rfl, rfl, rfl, Function.update_self _ _ _⟩
      · exact .inl (by simp [messages, Obs.isJobWritten, hj])
  | acked | registered | resultRaised | resultKept | resultFreed | sent | sentUnrecorded | cancelled =>
      exact .inl (by simp [messages, Obs.isJobWritten])
  | staleFailed | requeued =>
      left
      dsimp only [messages]
      split
      · simp [Obs.isJobWritten]
      · rfl
  | _ => exact .inl rfl

theorem Begun.messages {co : Coro} {l : LockRef} {o : ObjId} {job : Job} {k : Return}
    (h : Begun s label s' co l o job k) (hj : job.jobId = j) : s'.messages j = s.messages j + 1 := by
  simp [Server.messages, h.history, Obs.isJobWritten, hj]

def Made (s : Server) : Prop := ∀ co l o job k, s.ctl co = some (.sending l o job k) →
  o < s.agents.next ∧ (s.agents.conns o).agentId = l.agentId

theorem made_step (hM : Made s) (h : View cfg s label s') : Made s' := by
  intro co l o job k hc
  have hold : o < s.agents.next ∧ (s.agents.conns o).agentId = l.agentId := by
    rcases view_sending h hc with hc' | hb
    · exact hM co l o job k hc'
    · exact s.agents.keyed hb.entry
  obtain ⟨hlt, -, hid, -⟩ := view_conn h hold.1
  exact ⟨hlt, hid.trans hold.2⟩

theorem record_failStale {jobs : JobTable} (hB : SQLiteJobRepository.Bound jobs) {x : Job}
    (hx : record j jobs = some x) (t₁ t₂ : Instant) (error : String) :
    record j (stored (.failStaleDispatch t₁ t₂ j error) jobs) =
      some ((Op.failStaleDispatch t₁ t₂ j error).effect x) := by
  cases ht : x.state.isTerminal with
  | true =>
      rcases stored_some (.failStaleDispatch t₁ t₂ j error) hx with hk | ⟨-, hk⟩
      · rw [hk, Op.effect_terminal _ ht]
      · exact hk
  | false =>
      obtain ⟨r, T, hex, hrec⟩ := failStaleDispatch_some hB hx ht t₁ t₂ error
      rw [show stored (.failStaleDispatch t₁ t₂ j error) jobs = T from stored_eq hex]
      exact hrec

/-- While nobody answers, only the end of a send and a scan change the record of `j`. -/
theorem view_silent (h : View cfg s label s') (hsilent : s.silent cfg a j c label = true)
    (hcancel : ∀ co, (s.ctl co).bind Ctl.cancels ≠ some j) {x : Job} (hx : record j s.jobs = some x)
    (hrun : x.state ≠ .running) :
    record j s'.jobs = some x ∨
      (∃ co l o job k, label = .sendReturned co .sent ∧ s.ctl co = some (.sending l o job k) ∧
        job.jobId = j ∧
        record j s'.jobs = some ((Op.markDispatchedWithAttempt s.clock s.clock j).effect x)) ∨
      Handled cfg s label s' j := by
  have hother : ∀ {op : Op}, (op.target = some j → (op.effect x) = x) →
      record j (stored op s.jobs) = some x := by
    intro op hop
    rcases stored_some op hx with hk | ⟨ht, hk⟩
    · exact hk
    · rw [hk, hop ht]
  cases h with
  | started c' k =>
      refine .inl (hother fun ht => ?_)
      cases ht
      simp [silent] at hsilent
  | resultKept c' b k y out e err | resultFreed c' b k y out e err =>
      refine .inl (hother fun ht => ?_)
      rw [completion_target] at ht
      cases ht
      simp [silent] at hsilent
  | submitted => exact .inl (hother nofun)
  | sent co l o job k attempt hl hc hok =>
      by_cases hj : job.jobId = j
      · subst j
        exact .inr (.inl ⟨co, l, o, job, k, rfl, hc, rfl, stored_effect rfl hok hx⟩)
      · exact .inl (hother fun ht => absurd (Option.some.inj ht) hj)
  | staleFailed now job rest error events hl hc ho hm =>
      by_cases hj : job.jobId = j
      · subst j
        exact .inr (.inr (.failed now job rest error rfl hc rfl hm rfl))
      · exact .inl (hother fun ht => absurd (Option.some.inj ht) hj)
  | requeued now job rest events hl hc ho hm =>
      by_cases hj : job.jobId = j
      · subst j
        exact .inr (.inr (.requeued now job rest rfl hc rfl hm rfl))
      · exact .inl (hother fun ht => absurd (Option.some.inj ht) hj)
  | timedOut => exact .inl (hother fun _ => Job.transition_of_ne hrun)
  | cancelled l co job n y events state hy hcase =>
      refine .inl (hother fun ht => ?_)
      cases ht
      refine absurd ?_ (hcancel co)
      rcases hcase with ⟨_, _, rfl⟩ | ⟨_, _, _, rfl⟩ <;> rw [hy] <;> rfl
  | _ => exact .inl hx

theorem view_stays (h : View cfg s label s') (hun : s.unanswered cfg a j c label = true) {o : ObjId}
    (ho : s.agents.get a = some o) (hws : (s.agents.conns o).ws = c) (hsock : s.sockets c = true) :
    s'.agents.get a = some o ∧ (s'.agents.conns o).ws = c ∧ s'.sockets c = true := by
  obtain ⟨hspare, hund, hsilent, -, -⟩ := unanswered_iff.mp hun
  obtain ⟨o', ho', hws'⟩ := onConn_step ⟨o, ho, hws⟩ hspare hund h
  have hold : s.agents.get a = some o' := by
    rcases view_entry h ho' with ⟨hold, -⟩ | ⟨c', rfl, -⟩
    · exact hold
    · simp [undisturbed] at hund
  cases ho.symm.trans hold
  refine ⟨ho', hws', ?_⟩
  cases h with
  | connect =>
      dsimp only
      by_cases hc : c = s.nextConn
      · rw [hc, Function.update_self]
      · rw [Function.update_of_ne hc, hsock]
  | drop c' =>
      have hne : c' ≠ c := by simpa [silent] using hsilent
      exact (Function.update_of_ne hne.symm _ _).trans hsock
  | ended c' | forgot c' =>
      have hne : c' ≠ c := by simpa [undisturbed] using hund
      exact (Function.update_of_ne hne.symm _ _).trans hsock
  | _ => exact hsock

theorem view_only (h : View cfg s label s') (hsilent : s.silent cfg a j c label = true)
    (honly : ∀ k x, record k s.jobs = some x → x.agentId = a → k = j) :
    ∀ k x, record k s'.jobs = some x → x.agentId = a → k = j := by
  intro k y hy ha
  rcases view_jobs h with hj | ⟨op, hj, hp⟩
  · exact honly k y (hj ▸ hy) ha
  · rw [hj] at hy
    rcases stored_cases op s.jobs k with hk | ⟨-, hk⟩ | ⟨-, b, hb, -, hk⟩
    · exact honly k y (hk ▸ hy) ha
    · rw [hk] at hy
      obtain ⟨x, hx, rfl⟩ := Option.map_eq_some_iff.mp hy
      exact honly k x hx ((op.effect_agentId x).symm.trans ha)
    · cases hy.symm.trans hk
      cases hp with
      | submitted n id cid req =>
          cases hb
          have hne : req.agentId ≠ a := by simpa [silent] using hsilent
          exact absurd ha hne
      | result _ i y o e err t =>
          rcases completion_cases t i y o e err with ⟨_, he⟩ | he <;> rw [he] at hb <;> cases hb
      | _ => cases hb

inductive Phase (cfg : Config) (a j : String) (o : ObjId) (s : Server) (n : Nat) (x : Job) : Prop
  | unsent (hp : x.state = .pending) (hz : x.dispatchAttempts = 0) (hidle : (s.agents.conns o).inFlight = 0)
      (hw : s.messages j = 0) (hn : n = 0) (hscan : (s.ctl .ackWatcher).bind Ctl.scanning = none)
      (hs : ∀ co l o' job k, s.ctl co = some (.sending l o' job k) → l.agentId ≠ a ∧ job.jobId ≠ j)
  | sending (co : Coro) (l : LockRef) (job : Job) (k : Return) (hc : s.ctl co = some (.sending l o job k))
      (hl : l.agentId = a) (hj : job.jobId = j) (hp : x.state = .pending) (hz : x.dispatchAttempts = 0)
      (hw : s.messages j = 1) (hn : n = 0) (hscan : (s.ctl .ackWatcher).bind Ctl.scanning = none)
      (hs : ∀ co' l' o' job' k', s.ctl co' = some (.sending l' o' job' k') → co' ≠ co →
        l'.agentId ≠ a ∧ job'.jobId ≠ j)
  | sent (hz : x.dispatchAttempts = 1) (hbusy : (s.agents.conns o).inFlight ≠ 0) (hw : s.messages j = 1)
      (hs : ∀ co l o' job k, s.ctl co = some (.sending l o' job k) → l.agentId ≠ a ∧ job.jobId ≠ j)
      (hx : (x.state = .dispatched ∧ n = 0 ∧ ∀ now rest,
          (s.ctl .ackWatcher).bind Ctl.scanning = some (now, rest) → ∃ e ∈ rest, e.jobId = j) ∨
        (x.state = .failed ∧ cfg.maxDispatchAttempts ≤ 1) ∨
        (x.state = .pending ∧ 1 < cfg.maxDispatchAttempts))

structure Watched (cfg : Config) (a j : String) (c : ConnId) (o : ObjId) (s : Server) (n : Nat) (x : Job) :
    Prop where
  locked : Locked s.dispatchLocks s.ctl
  kept : KeptFor a s.dispatchLocks s.ctl
  current : Current s
  bound : SQLiteJobRepository.Bound s.jobs
  made : Made s
  entry : s.agents.get a = some o
  ws : (s.agents.conns o).ws = c
  socket : s.sockets c = true
  record : record j s.jobs = some x
  agentId : x.agentId = a
  only : ∀ k y, JobSystem.record k s.jobs = some y → y.agentId = a → k = j
  uncancelled : ∀ co, (s.ctl co).bind Ctl.cancels ≠ some j
  overdue : ∀ now rest, (s.ctl .ackWatcher).bind Ctl.scanning = some (now, rest) →
    ∀ e ∈ rest, e.jobId = j → ackOverdue cfg now e = true
  phase : Phase cfg a j o s n x

section Watched

variable {o : ObjId} {n : Nat} {x : Job}

theorem Watched.begun_iff (hW : Watched cfg a j c o s n x) (hroute : s.routesOwn label = true)
    {co : Coro} {l : LockRef} {o' : ObjId} {job : Job} {k : Return}
    (hb : Begun s label s' co l o' job k) : l.agentId = a ↔ job.jobId = j := by
  have hrec := (pending_head hb.pending).1
  constructor
  · intro hl
    exact hW.only _ _ hrec ((hb.agentId hroute).trans hl)
  · rintro rfl
    cases hW.record.symm.trans hrec
    exact (hb.agentId hroute).symm.trans hW.agentId

theorem Watched.not_handled (hW : Watched cfg a j c o s n x) (hp : x.state = .pending) :
    ¬ Handled cfg s label s' j := by
  have hlist :
      ∀ now job rest, s.ctl .ackWatcher = some (.scanAck now (job :: rest)) → job.jobId ≠ j := by
    rintro now job rest hc rfl
    obtain ⟨-, hknown⟩ := hW.current now (job :: rest) (by rw [hc]; rfl)
    obtain ⟨y, hy, hne, -⟩ := hknown job List.mem_cons_self
    cases hW.record.symm.trans hy
    exact hne hp
  rintro (⟨now, job, rest, error, -, hc, hj, -, -⟩ | ⟨now, job, rest, -, hc, hj, -, -⟩)
  · exact hlist now job rest hc hj
  · exact hlist now job rest hc hj

theorem countScans_of_none (t : Server) (h : (s.ctl .ackWatcher).bind Ctl.scanning = none) :
    countScans s label t n = n := by
  unfold countScans
  split
  · next hc =>
      rw [hc] at h
      cases h
  · rfl

theorem Watched.unscanned (hW : Watched cfg a j c o s n x) (hsilent : s.silent cfg a j c label = true)
    (hz : x.dispatchAttempts = 0) (hscan : (s.ctl .ackWatcher).bind Ctl.scanning = none)
    (h : View cfg s label s') : (s'.ctl .ackWatcher).bind Ctl.scanning = none := by
  by_contra hne
  obtain ⟨⟨now, rest⟩, hc⟩ := Option.ne_none_iff_exists'.mp hne
  rcases view_list h hc with hold | ⟨rfl, -⟩ | ⟨job, hold, -⟩
  · rw [hscan] at hold
    cases hold
  · simp [silent, hW.record, hz] at hsilent
  · rw [hscan] at hold
    cases hold

theorem Watched.inFlight_le (hW : Watched cfg a j c o s n x) (h : View cfg s label s')
    (hs : ∀ co l job k out, label = .sendReturned co out → s.ctl co = some (.sending l o job k) →
      l.agentId ≠ a) : (s'.agents.conns o).inFlight ≤ (s.agents.conns o).inFlight := by
  rcases (view_conn h (s.agents.get_lt hW.entry)).2.2.2 with hle | ⟨co, l, job, k, out, hlabel, hc⟩
  · exact hle
  · have hown : (s.agents.conns o).agentId = a := (s.agents.keyed hW.entry).2
    exact absurd ((hW.made co l o job k hc).2.symm.trans hown) (hs co l job k out hlabel hc)

theorem Watched.unsent_step (hW : Watched cfg a j c o s n x) (hun : s.unanswered cfg a j c label = true)
    (h : View cfg s label s') (hp : x.state = .pending) (hz : x.dispatchAttempts = 0)
    (hidle : (s.agents.conns o).inFlight = 0) (hw : s.messages j = 0) (hn : n = 0)
    (hscan : (s.ctl .ackWatcher).bind Ctl.scanning = none)
    (hs : ∀ co l o' job k, s.ctl co = some (.sending l o' job k) → l.agentId ≠ a ∧ job.jobId ≠ j) :
    ∃ y, JobSystem.record j s'.jobs = some y ∧ Phase cfg a j o s' (countScans s label s' n) y := by
  obtain ⟨-, -, hsilent, hroute, -⟩ := unanswered_iff.mp hun
  have hrec : JobSystem.record j s'.jobs = some x := by
    rcases view_silent h hsilent hW.uncancelled hW.record (by rw [hp]; rintro ⟨⟩) with
      hk | ⟨co, l, o', job, k, -, hc, hj, -⟩ | hh
    · exact hk
    · exact absurd hj (hs co l o' job k hc).2
    · exact absurd hh (hW.not_handled hp)
  have hscan' := hW.unscanned hsilent hz hscan h
  have hn' : countScans s label s' n = 0 := (countScans_of_none s' hscan).trans hn
  refine ⟨x, hrec, ?_⟩
  by_cases hbegun : ∃ co l o' job k, Begun s label s' co l o' job k ∧ job.jobId = j
  · obtain ⟨co, l, o', job, k, hb, hj⟩ := hbegun
    have hla := (hW.begun_iff hroute hb).mpr hj
    have ho' : o' = o := Option.some.inj (hb.entry.symm.trans (hla ▸ hW.entry))
    subst o'
    refine .sending co l job k hb.sending hla hj hp hz ?_ hn' hscan' ?_
    · rw [hb.messages hj, hw]
    · intro co' l' o' job' k' hc' hne
      rcases view_sending h hc' with hold | hb'
      · exact hs co' l' o' job' k' hold
      · exact absurd (Option.some.inj (hb'.loop.symm.trans hb.loop)) hne
  · refine .unsent hp hz ?_ ?_ hn' hscan' ?_
    · have hle := hW.inFlight_le h fun co l job k out _ hc => (hs co l o job k hc).1
      omega
    · rcases view_messages h j with hm | hb
      · exact hm.trans hw
      · exact absurd hb hbegun
    · intro co l o' job k hc
      rcases view_sending h hc with hold | hb
      · exact hs co l o' job k hold
      · have hj : job.jobId ≠ j := fun hj => hbegun ⟨co, l, o', job, k, hb, hj⟩
        exact ⟨fun hla => hj ((hW.begun_iff hroute hb).mp hla), hj⟩

/-- While `a` is sent to, no other task gets into its critical section. -/
theorem Watched.not_begun (hW : Watched cfg a j c o s n x) {co co' : Coro} {l l' : LockRef}
    {o' o'' : ObjId} {job job' : Job} {k k' : Return} (hc : s.ctl co = some (.sending l o' job k))
    (hl : l.agentId = a) (hb : Begun s label s' co' l' o'' job' k') : l'.agentId ≠ a := by
  intro hl'
  have hin : (s.ctl co').bind Ctl.inside = some l' := by
    rw [hb.locked]
    rfl
  obtain rfl := hW.kept.unique hW.locked (sending_inside hc) hin hl hl'
  cases hc.symm.trans hb.locked

theorem Watched.sending_step (hW : Watched cfg a j c o s n x) (hun : s.unanswered cfg a j c label = true)
    (h : View cfg s label s') {co : Coro} {l : LockRef} {job : Job} {k : Return}
    (hc : s.ctl co = some (.sending l o job k)) (hl : l.agentId = a) (hj : job.jobId = j)
    (hp : x.state = .pending) (hz : x.dispatchAttempts = 0) (hw : s.messages j = 1) (hn : n = 0)
    (hscan : (s.ctl .ackWatcher).bind Ctl.scanning = none)
    (hs : ∀ co' l' o' job' k', s.ctl co' = some (.sending l' o' job' k') → co' ≠ co →
      l'.agentId ≠ a ∧ job'.jobId ≠ j) :
    ∃ y, JobSystem.record j s'.jobs = some y ∧ Phase cfg a j o s' (countScans s label s' n) y := by
  obtain ⟨-, -, hsilent, hroute, hrecorded⟩ := unanswered_iff.mp hun
  have hscan' := hW.unscanned hsilent hz hscan h
  have hn' : countScans s label s' n = 0 := (countScans_of_none s' hscan).trans hn
  have hw' : s'.messages j = 1 := by
    rcases view_messages h j with hm | ⟨co', l', o', job', k', hb, hj'⟩
    · exact hm.trans hw
    · exact absurd ((hW.begun_iff hroute hb).mpr hj') (hW.not_begun hc hl hb)
  have hs' : ∀ co' l' o' job' k', s'.ctl co' = some (.sending l' o' job' k') → co' ≠ co →
      l'.agentId ≠ a ∧ job'.jobId ≠ j := by
    intro co' l' o' job' k' hc' hne
    rcases view_sending h hc' with hold | hb
    · exact hs co' l' o' job' k' hold hne
    · have hla := hW.not_begun hc hl hb
      exact ⟨hla, fun hj' => hla ((hW.begun_iff hroute hb).mpr hj')⟩
  by_cases hret : ∃ out, label = .sendReturned co out
  · -- the send comes back, and the store takes the record
    obtain ⟨out, rfl⟩ := hret
    have hopen : s.sockets (s.agents.conns o).ws = true := hW.ws ▸ hW.socket
    have hgone : (s'.ctl co).bind Ctl.inside = none := view_returned h hc
    have hmarked : s'.agents = s.agents.markBusy o ∧ JobSystem.record j s'.jobs =
        some ((Op.markDispatchedWithAttempt s.clock s.clock j).effect x) := by
      cases h with
      | quiet _ _ _ hq => cases hq
      | sent co' l' o' job' k' attempt hl' hc' hok =>
          cases hc.symm.trans hc'
          subst j
          exact ⟨rfl, stored_effect rfl hok hW.record⟩
      | sentUnrecorded co' l' o' job' k' out hl' hc' hf =>
          cases hc.symm.trans hc'
          rw [recorded_sending hc] at hrecorded
          rcases hf with rfl | ⟨rfl, hf⟩
          · cases hrecorded
          · rw [hf] at hrecorded
            cases hrecorded
      | sendClosed co' l' o' job' k' hl' hc' hsock =>
          cases hc.symm.trans hc'
          rw [hopen] at hsock
          cases hsock
      | timedOut _ _ _ _ _ _ _ hx hcase | cancelled _ _ _ _ _ _ _ hx hcase =>
          rcases hcase with ⟨⟨⟩, _⟩ | ⟨_, he, _, rfl⟩
          cases he
          cases hc.symm.trans hx
    obtain ⟨hagents, hrec⟩ := hmarked
    refine ⟨_, hrec, .sent ?_ ?_ hw' ?_ (.inl ⟨?_, hn', ?_⟩)⟩
    · rw [Op.effect_attempts (by rintro _ _ ⟨⟩), hz, Op.effect_state, hp]
      rfl
    · rw [hagents, AgentRegistry.conns_markBusy, if_pos rfl]
      exact Nat.succ_ne_zero _
    · intro co' l' o' job' k' hc'
      refine hs' co' l' o' job' k' hc' ?_
      rintro rfl
      rw [hc'] at hgone
      cases hgone
    · rw [Op.effect_state, hp]
      rfl
    · intro now rest hsc
      rw [hscan'] at hsc
      cases hsc
  · have hother : ∀ co' l' o' job' k' out, label = .sendReturned co' out →
        s.ctl co' = some (.sending l' o' job' k') → l'.agentId ≠ a ∧ job'.jobId ≠ j := by
      intro co' l' o' job' k' out hlabel hc'
      refine hs co' l' o' job' k' hc' ?_
      rintro rfl
      exact hret ⟨out, hlabel⟩
    have hrec : JobSystem.record j s'.jobs = some x := by
      rcases view_silent h hsilent hW.uncancelled hW.record (by rw [hp]; nofun) with
        hk | ⟨co', l', o', job', k', hlabel, hc', hj', -⟩ | hh
      · exact hk
      · exact absurd hj' (hother co' l' o' job' k' _ hlabel hc').2
      · exact absurd hh (hW.not_handled hp)
    have hc' : s'.ctl co = some (.sending l o job k) := by
      rcases view_sending_next h hc with hc' | ⟨out, hlabel, -⟩
      · exact hc'
      · exact absurd ⟨out, hlabel⟩ hret
    exact ⟨x, hrec, .sending co l job k hc' hl hj hp hz hw' hn' hscan' hs'⟩

theorem Watched.handled (hW : Watched cfg a j c o s n x) (hz : x.dispatchAttempts = 1)
    (hh : Handled cfg s label s' j) :
    ∃ y, JobSystem.record j s'.jobs = some y ∧ y.dispatchAttempts = 1 ∧
      (x.state = .dispatched → (y.state = .failed ∧ cfg.maxDispatchAttempts ≤ 1) ∨
        (y.state = .pending ∧ 1 < cfg.maxDispatchAttempts)) ∧ (x.state = .failed → y = x) := by
  have hatt : ∀ now job rest, s.ctl .ackWatcher = some (.scanAck now (job :: rest)) → job.jobId = j →
      job.dispatchAttempts = 1 := by
    rintro now job rest hc rfl
    obtain ⟨-, hknown⟩ := hW.current now (job :: rest) (by rw [hc]; rfl)
    obtain ⟨y, hy, -, hatt⟩ := hknown job List.mem_cons_self
    cases hW.record.symm.trans hy
    omega
  have hkeep : ∀ {op : Op}, (∀ t i, op ≠ .markDispatched t i) → op.next .pending ≠ .dispatched →
      (op.effect x).dispatchAttempts = 1 := by
    intro op hop hne
    rw [Op.effect_attempts hop, if_neg, hz]
    rintro ⟨hp, hd⟩
    rw [Op.effect_state, hp] at hd
    exact hne hd
  rcases hh with ⟨now, job, rest, error, -, hc, hj, hm, hjobs⟩ | ⟨now, job, rest, -, hc, hj, hm, hjobs⟩
  · rw [hatt now job rest hc hj] at hm
    have hy := record_failStale hW.bound hW.record s.clock s.clock error
    rw [← hjobs] at hy
    refine ⟨_, hy, hkeep (by rintro _ _ ⟨⟩) (by nofun), fun hd => .inl ⟨?_, by exact_mod_cast hm⟩, fun hf => ?_⟩
    · rw [Op.effect_state, hd]
      rfl
    · exact Op.effect_terminal _ (by rw [hf]; rfl)
  · rw [hatt now job rest hc hj] at hm
    have hy := stored_effect (show (Op.requeue s.clock j).target = some j from rfl) rfl hW.record
    rw [← hjobs] at hy
    refine ⟨_, hy, hkeep (by rintro _ _ ⟨⟩) (by nofun), fun hd => .inr ⟨?_, by exact_mod_cast hm⟩, fun hf => ?_⟩
    · rw [Op.effect_state, hd]
      rfl
    · exact Op.effect_terminal _ (by rw [hf]; rfl)

/-- A dispatched job stays on the list until the scan has looked at it. -/
theorem Watched.listed_step (hW : Watched cfg a j c o s n x)
    (hsilent : s.silent cfg a j c label = true) (h : View cfg s label s')
    (hd : x.state = .dispatched) (hkeep : ¬ Handled cfg s label s' j)
    (hlist : ∀ now rest, (s.ctl .ackWatcher).bind Ctl.scanning = some (now, rest) → ∃ e ∈ rest, e.jobId = j) :
    ∀ now rest, (s'.ctl .ackWatcher).bind Ctl.scanning = some (now, rest) →
      ∃ e ∈ rest, e.jobId = j := by
  intro now rest hc
  rcases view_list h hc with hold | ⟨rfl, -, rfl, -⟩ | ⟨job, hold, hdone⟩
  · exact hlist now rest hold
  · have hid := record_jobId hW.record
    refine ⟨x, mem_list.mpr ⟨hid.symm ▸ hW.record, ?_⟩, hid⟩
    simp [Job.matches, hd]
  · obtain ⟨e, he, hej⟩ := hlist now _ hold
    rcases List.mem_cons.mp he with rfl | he
    · have hover := hW.overdue now _ hold e List.mem_cons_self hej
      exact absurd (hej ▸ hdone hover) hkeep
    · exact ⟨e, he, hej⟩

theorem Watched.sent_step (hW : Watched cfg a j c o s n x)
    (hun : s.unanswered cfg a j c label = true) (h : View cfg s label s')
    (hz : x.dispatchAttempts = 1) (hbusy : (s.agents.conns o).inFlight ≠ 0) (hw : s.messages j = 1)
    (hs : ∀ co l o' job k, s.ctl co = some (.sending l o' job k) → l.agentId ≠ a ∧ job.jobId ≠ j)
    (hx : (x.state = .dispatched ∧ n = 0 ∧ ∀ now rest,
        (s.ctl .ackWatcher).bind Ctl.scanning = some (now, rest) → ∃ e ∈ rest, e.jobId = j) ∨
      (x.state = .failed ∧ cfg.maxDispatchAttempts ≤ 1) ∨
      (x.state = .pending ∧ 1 < cfg.maxDispatchAttempts)) :
    ∃ y, JobSystem.record j s'.jobs = some y ∧ Phase cfg a j o s' (countScans s label s' n) y := by
  obtain ⟨-, hund, hsilent, hroute, -⟩ := unanswered_iff.mp hun
  have hnot : ∀ co l o' job k, Begun s label s' co l o' job k → l.agentId ≠ a := by
    rintro co l o' job k hb rfl
    cases hW.entry.symm.trans hb.entry
    exact hbusy hb.idle
  have hw' : s'.messages j = 1 := by
    rcases view_messages h j with hm | ⟨co, l, o', job, k, hb, hj⟩
    · exact hm.trans hw
    · exact absurd ((hW.begun_iff hroute hb).mpr hj) (hnot co l o' job k hb)
  have hs' :
      ∀ co l o' job k, s'.ctl co = some (.sending l o' job k) → l.agentId ≠ a ∧ job.jobId ≠ j := by
    intro co l o' job k hc
    rcases view_sending h hc with hold | hb
    · exact hs co l o' job k hold
    · have hla := hnot co l o' job k hb
      exact ⟨hla, fun hj => hla ((hW.begun_iff hroute hb).mpr hj)⟩
  have hbusy' : (s'.agents.conns o).inFlight ≠ 0 := by
    intro hidle
    obtain ⟨ho', -, -⟩ := view_stays h hun hW.entry hW.ws hW.socket
    rcases view_idle h ho' hidle with ⟨-, hold⟩ | ⟨c', rfl⟩ | ⟨c', i, y, out, e, err, rfl, hb, -⟩
    · exact hbusy hold
    · simp [undisturbed] at hund
    · simp [silent, hb] at hsilent
  have hrun : x.state ≠ .running := by
    rcases hx with ⟨hd, -⟩ | ⟨hf, -⟩ | ⟨hp, -⟩
    · rw [hd]; rintro ⟨⟩
    · rw [hf]; rintro ⟨⟩
    · rw [hp]; rintro ⟨⟩
  by_cases hh : Handled cfg s label s' j
  · obtain ⟨y, hy, hyz, hyd, hyf⟩ := hW.handled hz hh
    refine ⟨y, hy, .sent hyz hbusy' hw' hs' (.inr ?_)⟩
    rcases hx with ⟨hd, -⟩ | ⟨hf, hm⟩ | ⟨hp, -⟩
    · exact hyd hd
    · exact .inl ⟨by rw [hyf hf, hf], hm⟩
    · exact absurd hh (hW.not_handled hp)
  · have hrec : JobSystem.record j s'.jobs = some x := by
      rcases view_silent h hsilent hW.uncancelled hW.record hrun with
        hk | ⟨co, l, o', job, k, -, hc, hj, -⟩ | hh'
      · exact hk
      · exact absurd hj (hs co l o' job k hc).2
      · exact absurd hh' hh
    refine ⟨x, hrec, .sent hz hbusy' hw' hs' ?_⟩
    rcases hx with ⟨hd, hn, hlist⟩ | hx
    · refine .inl ⟨hd, ?_, hW.listed_step hsilent h hd hh hlist⟩
      unfold countScans
      split
      · next hl hc =>
          obtain ⟨e, he, -⟩ := hlist _ [] (by rw [hc]; rfl)
          cases he
      · exact hn
    · exact .inr hx

theorem watched_step (hW : Watched cfg a j c o s n x) (hun : s.unanswered cfg a j c label = true)
    (h : View cfg s label s') : ∃ y, Watched cfg a j c o s' (countScans s label s' n) y := by
  obtain ⟨hspare, hund, hsilent, hroute, hrecorded⟩ := unanswered_iff.mp hun
  obtain ⟨hentry, hws, hsocket⟩ := view_stays h hun hW.entry hW.ws hW.socket
  obtain ⟨y, hy, hphase⟩ : ∃ y, JobSystem.record j s'.jobs = some y ∧
      Phase cfg a j o s' (countScans s label s' n) y := by
    rcases hW.phase with ⟨hp, hz, hidle, hw, hn, hscan, hs⟩ |
      ⟨co, l, job, k, hc, hl, hj, hp, hz, hw, hn, hscan, hs⟩ | ⟨hz, hbusy, hw, hs, hx⟩
    · exact hW.unsent_step hun h hp hz hidle hw hn hscan hs
    · exact hW.sending_step hun h hc hl hj hp hz hw hn hscan hs
    · exact hW.sent_step hun h hz hbusy hw hs hx
  refine ⟨y, locked_step hW.locked h, ?_, current_step hW.current h, bound_step hW.bound h, made_step hW.made h,
    hentry, hws, hsocket, hy, ?_, view_only h hsilent hW.only, ?_, ?_, hphase⟩
  · refine keptFor_step hW.kept hW.locked ?_ h
    rintro c' rfl hb ha
    -- the handler is neither that of `c` nor that of a superseded connection
    have hne : c' ≠ c := by simpa [undisturbed] using hund
    simp [sparesOthers, hb, ha, hW.entry, hW.ws, hne.symm] at hspare
  · obtain ⟨y', hy', hag⟩ := view_agentId h hW.record
    cases hy.symm.trans hy'
    exact hag.trans hW.agentId
  · intro co hc
    rcases view_cancels h hc with hold | ⟨n', -, rfl, -, -⟩
    · exact hW.uncancelled co hold
    · simp [silent] at hsilent
  · intro now rest hc e he hej
    rcases view_list h hc with hold | ⟨rfl, rfl, rfl, -⟩ | ⟨job, hold, -⟩
    · exact hW.overdue now rest hold e he hej
    · have hrec := (mem_list.mp he).1
      rw [hej] at hrec
      cases hW.record.symm.trans hrec
      have hover : 1 ≤ x.dispatchAttempts ∧ ackOverdue cfg s.clock x = true := by
        simpa [silent, hW.record] using hsilent
      exact hover.2
    · exact hW.overdue now _ hold e (List.mem_cons_of_mem _ he) hej

end Watched

end Steps

theorem FirstDispatch.watched {cfg : Config} {jobs : JobTable} {s : Server} {a j : String}
    {c : ConnId} (hf : FirstDispatch a j c s) (hjobs : SQLiteJobRepository.Bound jobs)
    (hs : (machine cfg jobs).Reachable s) : ∃ o x, Watched cfg a j c o s 0 x := by
  obtain ⟨o, ho, hws, hidle⟩ := hf.entry
  obtain ⟨x, hx, hag, hp, hz⟩ := hf.job
  have hsend : ∀ co l o' job k, s.ctl co = some (.sending l o' job k) → l.agentId ≠ a ∧ job.jobId ≠ j :=
    fun co l o' job k hc => ⟨hf.undispatched co l (.inl (sending_inside hc)), hf.unwritten co l o' job k hc⟩
  have hinv := hs.invariant (I := fun s => Locked s.dispatchLocks s.ctl ∧ Made s)
    (fun _ _ _ hI _ hst => ⟨locked_step hI.1 (step_view hst), made_step hI.2 (step_view hst)⟩)
    ⟨locked_start jobs, fun _ _ _ _ _ hc => by cases hc⟩
  refine ⟨o, x, hinv.1, fun co l hl hc => absurd hl (hf.undispatched co l hc), current_of_reachable hs,
    bound_of_reachable hjobs hs, hinv.2, ho, hws, hf.socket, hx, hag, hf.only, hf.uncancelled, ?_,
    .unsent hp hz hidle hf.unsent rfl hf.unscanned hsend⟩
  intro now rest hc
  rw [hf.unscanned] at hc
  cases hc

/-- Retry exhaustion: after `m` scans a job that its agent never answers about is `FAILED` with `m`
attempts and `m` messages exactly if `m` is one. A requeued job finds the connection still busy. -/
theorem retry_exhausted_iff (cfg : Config) {jobs : JobTable}
    (hjobs : SQLiteJobRepository.Bound jobs) {a j : String} {c : ConnId} {s t : Server} {m : Nat}
    (hm : 1 ≤ m) (hcfg : cfg.maxDispatchAttempts = m) (hs : (machine cfg jobs).Reachable s)
    (hfirst : FirstDispatch a j c s)
    (ht : ((machine cfg jobs).observed 0 countScans).Run (fun p l => p.1.unanswered cfg a j c l = true)
      (s, 0) (t, m)) :
    stateOf j t.jobs = some .failed ∧ dispatchAttempts j t.jobs = m ∧ t.messages j = m ↔ m = 1 := by
  obtain ⟨o, x, hW⟩ := hfirst.watched hjobs hs
  obtain ⟨y, hy⟩ := ht.invariant (I := fun p => ∃ y, Watched cfg a j c o p.1 p.2 y)
    (by
      rintro u l v ⟨y, hy⟩ hun hst
      obtain ⟨hst, hghost⟩ := Machine.observed_step.mp hst
      rw [hghost]
      exact watched_step hy hun (step_view hst)) ⟨x, hW⟩
  rw [stateOf, dispatchAttempts, hy.record, Option.map_some, Option.elim_some]
  rcases hy.phase with ⟨-, -, -, -, hn, -⟩ | ⟨_, _, _, _, -, -, -, -, -, -, hn, -⟩ | ⟨hz, -, hw, -, hx⟩
  · exact absurd hn (by omega)
  · exact absurd hn (by omega)
  · rw [hz, hw]
    constructor
    · rintro ⟨-, h, -⟩
      exact h.symm
    · rintro rfl
      rcases hx with ⟨-, hn, -⟩ | ⟨hf, -⟩ | ⟨-, hlt⟩
      · cases hn
      · exact ⟨congrArg some hf, rfl, rfl⟩
      · rw [hcfg] at hlt
        exact absurd hlt (lt_irrefl _)

def oneJob : JobTable := stored (submitAlpine "job_1") .empty

def registering : Server :=
  { start oneJob with
    nextConn := 1
    sockets := Function.update (fun _ => false) 0 true
    handlers := Function.update (fun _ => none) 0 (some none) }.onRegister 0 "agent-1"

theorem bound_oneJob : SQLiteJobRepository.Bound oneJob :=
  SQLiteJobRepository.bound_after (submitAlpine "job_1") bound_empty

theorem ctl_registering : registering.ctl =
    Function.update (fun _ => none) (.handler 0) (some (.dispatch "agent-1" (.register 0 "agent-1"))) := rfl

theorem registering_reachable (cfg : Config) : (machine cfg oneJob).Reachable registering := by
  have hexec : (machine cfg oneJob).exec (fun _ _ => True) [.connect, .frame 0 (some (.register "agent-1"))]
      (start oneJob) = some registering := rfl
  exact Machine.run_of_exec hexec

theorem firstDispatch_registering : FirstDispatch "agent-1" "job_1" 0 registering where
  named := by decide
  entry := ⟨0, rfl, rfl, rfl⟩
  socket := rfl
  job := ⟨_, rfl, rfl, rfl, rfl⟩
  only := by
    intro k x hx _
    rcases stored_cases (submitAlpine "job_1") .empty k with hk | ⟨ht, -⟩ | ⟨-, b, hb, hid, -⟩
    · cases hk.symm.trans hx
    · cases ht
    · cases hb
      exact hid.symm
  unsent := rfl
  undispatched co l hl := by
    rw [ctl_registering, update_bind, update_bind] at hl
    split at hl <;> rcases hl with hl | hl <;> cases hl
  unwritten co l o job k hc := by rcases update_some hc with ⟨-, hx⟩ | ⟨-, hx⟩ <;> cases hx
  uncancelled co hc := by
    rw [ctl_registering, update_bind] at hc
    split at hc <;> cases hc
  unscanned := rfl

def oneScan : List Label :=
  [.run, .run, .sendReturned (.handler 0) .sent, .tick sixSeconds, .ackScan, .run, .run]

theorem retry_exhausted_once : ∃ t,
    ((machine ⟨5000000, 1, 30000000⟩ oneJob).observed 0 countScans).Run
      (fun p l => p.1.unanswered ⟨5000000, 1, 30000000⟩ "agent-1" "job_1" 0 l = true) (registering, 0) (t, 1) ∧
    (stateOf "job_1" t.jobs = some .failed ∧ dispatchAttempts "job_1" t.jobs = 1 ∧ t.messages "job_1" = 1 ↔
      1 = 1) := by
  have hexec : (((machine ⟨5000000, 1, 30000000⟩ oneJob).observed 0 countScans).exec
      (fun p l => p.1.unanswered ⟨5000000, 1, 30000000⟩ "agent-1" "job_1" 0 l = true) oneScan
      (registering, 0)).any (fun p => decide (p.2 = 1)) = true := by decide +kernel
  obtain ⟨⟨t, n⟩, ht, rfl⟩ := Machine.exists_run _ _ hexec
  exact ⟨t, ht, retry_exhausted_iff _ bound_oneJob (m := 1) le_rfl rfl (registering_reachable _)
    firstDispatch_registering ht⟩

/-- The first scan requeues the job, and the dispatch that follows finds the connection busy. The
other two scans have nothing to look at. -/
def threeScans : List Label :=
  [.run, .run, .sendReturned (.handler 0) .sent, .tick sixSeconds, .ackScan, .run, .run, .run, .run,
    .tick twelveSeconds, .ackScan, .run, .tick eighteenSeconds, .ackScan, .run]

theorem retry_exhausted_false : ¬ ∀ (cfg : Config) (jobs : JobTable) (a j : String) (c : ConnId)
    (s t : Server) (m : Nat), 1 ≤ m → cfg.maxDispatchAttempts = m → SQLiteJobRepository.Bound jobs →
    (machine cfg jobs).Reachable s → FirstDispatch a j c s →
    ((machine cfg jobs).observed 0 countScans).Run (fun p l => p.1.unanswered cfg a j c l = true)
      (s, 0) (t, m) →
      stateOf j t.jobs = some .failed ∧ dispatchAttempts j t.jobs = m ∧ t.messages j = m := by
  intro hall
  have hexec : (((machine .default oneJob).observed 0 countScans).exec
      (fun p l => p.1.unanswered .default "agent-1" "job_1" 0 l = true) threeScans
      (registering, 0)).any (fun p => decide (p.2 = 3 ∧ stateOf "job_1" p.1.jobs = some .pending)) = true := by
    decide +kernel
  obtain ⟨⟨t, n⟩, ht, hn, hpend⟩ := Machine.exists_run _ _ hexec
  change n = 3 at hn
  subst n
  obtain ⟨hfail, -⟩ :=
    hall .default oneJob "agent-1" "job_1" 0 registering t 3 (by decide) rfl bound_oneJob
    (registering_reachable _) firstDispatch_registering ht
  cases hpend.symm.trans hfail

end Server

end JobSystem
