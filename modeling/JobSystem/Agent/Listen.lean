import JobSystem.Agent.Open

namespace JobSystem

open Lib

namespace Agent

def runs (j : String) (a : Agent) : Bool :=
  a.containers.entries.any fun e => decide (e.2.jobId = j) && decide (e.2.status = .running)

variable {agentId : String} {inbox : ConnId → List ServerFrame} {a a' : Agent} {label : AgentLabel}

theorem runs_iff {j : String} : a.runs j = true ↔
    ∃ id k, a.containers.get id = some k ∧ k.jobId = j ∧ k.status = .running := by
  simp only [runs, List.any_eq_true, Bool.and_eq_true, decide_eq_true_eq]
  constructor
  · rintro ⟨e, he, hj, hrun⟩
    exact ⟨e.1, e.2, (Dict.lookup_eq_some a.containers.nodup).mpr he, hj, hrun⟩
  · rintro ⟨id, k, hk, hj, hrun⟩
    exact ⟨(id, k), (Dict.lookup_eq_some a.containers.nodup).mp hk, hj, hrun⟩

theorem runs_of_get {j : String} (h : ∀ id k, a'.containers.get id = some k → k.status = .running →
    a.containers.get id = some k) (hrun : a'.runs j = true) : a.runs j = true := by
  obtain ⟨id, k, hk, hj, hst⟩ := runs_iff.mp hrun
  exact runs_iff.mpr ⟨id, k, h id k hk hst, hj, hst⟩

theorem runs_removeContainer {j : String} {removed : Bool} {id : ContainerId} {b : Agent}
    (hrun : (b.removeContainer removed id).runs j = true) (hb : b.containers = a.containers) : a.runs j = true := by
  refine runs_of_get (fun i k hk _ => ?_) hrun
  rw [← hb]
  cases removed with
  | false => exact hk
  | true => exact Dict.get_of_get_pop hk

theorem runs_exited {j : String} {id : ContainerId} {k : Container} {x : Int} {out err : String}
    (hrun : Agent.runs j { a with containers := a.containers.set id { k with status := .exited x out err } } = true) :
    a.runs j = true := by
  refine runs_of_get (fun i k' hk' hst => ?_) hrun
  have hk' : (a.containers.set id { k with status := .exited x out err }).get i = some k' := hk'
  rw [Dict.get_set] at hk'
  split at hk'
  · cases hk'
    cases hst
  · exact hk'

/-- The task of `run` comes to wait for a container when it has announced it. No container is started meanwhile. -/
theorem act_waiting (h : Act agentId inbox a label a') {c : ConnId} {j : String} {id : ContainerId}
    (hm : a'.main = .waiting c j id) : a'.read = a.read ∧ (∀ k, a'.runs k = true → a.runs k = true) ∧
      (a.main = .waiting c j id ∨ (label = .sent ∧ a.main = .announcing c j id)) := by
  cases h with
  | sent c' f x ho hr =>
      cases hx : a.main <;> rw [hx] at ho <;> cases ho <;> cases hm
      exact ⟨rfl, fun _ hk => hk, .inr ⟨rfl, rfl⟩⟩
  | heartbeat => exact ⟨rfl, fun _ hk => hk, .inl hm⟩
  | exited => exact ⟨rfl, fun _ hk => runs_exited hk, .inl hm⟩
  -- A task of `_reattach` is through with a container, whether it removes it or not.
  | reattachWaited i removed | reattachFailed i removed =>
      refine ⟨?_, fun _ hk => runs_removeContainer hk rfl, .inl ?_⟩
      · cases removed <;> rfl
      · cases removed <;> exact hm
  | reattachSent => exact ⟨rfl, fun _ hk => hk, .inl hm⟩
  | examined c' i k rest x hm' hx => rcases hx with ⟨_, rfl⟩ | rfl | rfl | rfl <;> cases hm
  | _ => cases hm

end Agent

namespace OpenAgent

def nextUnread (s : OpenAgent) : Option ServerFrame := s.inbox[s.agent.read]?

/-- A cancel of job `j` is for the job `k` that the listener waits for, or for another one that runs. -/
def concerns (j k : String) (s : OpenAgent) : Bool := decide (k = j) || s.agent.runs j

/-- The listener waits for the exit of a container, of job `j` or while one of `j` runs too, and
the next unread frame is a cancel of `j`. -/
def Blocked (j : String) (s : OpenAgent) : Prop :=
  ∃ c k id reason, s.agent.main = .waiting c k id ∧ s.nextUnread = some (.cancel j reason) ∧
    s.concerns j k = true

/-- The containers of job `j` that run are the one that `_running` has for it. -/
def inHand (j : String) (s : OpenAgent) : Bool :=
  s.agent.containers.entries.all fun e =>
    e.2.jobId ≠ j || e.2.status ≠ .running || s.agent.running.get j = some e.1

/-- No cancel of such a job is next when the wait begins, or arrives next while it lasts. -/
def waitsFreely (s : OpenAgent) : OpenLabel → Bool
  | .arrives (.cancel j _) =>
      match s.agent.main with
      | .waiting _ k _ => !s.concerns j k || decide (s.inbox.length ≠ s.agent.read)
      | _ => true
  | .agent .sent =>
      match s.agent.main, s.nextUnread with
      | .announcing _ k _, some (.cancel j _) => !s.concerns j k
      | _, _ => true
  | _ => true

/-- A cancel is read when every container of its job that runs is in `_running`. -/
def readsInHand (s : OpenAgent) : OpenLabel → Bool
  | .agent .read =>
      match s.agent.main, s.nextUnread with
      | .listening _, some (.cancel j _) => s.inHand j
      | _, _ => true
  | _ => true

def cancelsInTime (s : OpenAgent) (l : OpenLabel) : Bool := s.waitsFreely l && s.readsInHand l

/-- A cancel that is read goes on to kill every container of its job that runs. -/
def Heeds (s : OpenAgent) (l : OpenLabel) (s' : OpenAgent) : Prop :=
  ∀ c j reason, l = .agent .read → s.agent.main = .listening c → s.nextUnread = some (.cancel j reason) →
    ∀ id k, s.agent.containers.get id = some k → k.jobId = j → k.status = .running → s'.agent.main = .killing c id

variable {agentId : String} {s s' : OpenAgent}

theorem blocked_arrives {f : ServerFrame} (hs : ∀ j, ¬ s.Blocked j) :
    (∀ j, ¬ Blocked j { s with inbox := s.inbox ++ [f] }) ↔ s.waitsFreely (.arrives f) = true := by
  have hnew : ∀ j reason, (s.inbox ++ [f])[s.agent.read]? = some (.cancel j reason) →
      s.nextUnread = some (.cancel j reason) ∨ (s.inbox.length = s.agent.read ∧ f = .cancel j reason) := by
    intro j reason hf
    rw [List.getElem?_append] at hf
    split at hf
    · exact .inl hf
    · rw [List.getElem?_singleton] at hf
      split at hf
      · exact .inr ⟨by omega, Option.some.inj hf⟩
      · cases hf
  constructor
  · intro hno
    cases f with
    | job => rfl
    | cancel j reason =>
        rw [waitsFreely]
        split
        · next c k id hm =>
            by_contra hcond
            simp only [Bool.or_eq_true, Bool.not_eq_true', decide_eq_true_eq, not_or, not_not,
              Bool.not_eq_false] at hcond
            refine hno j ⟨c, k, id, reason, hm, ?_, hcond.1⟩
            rw [nextUnread]
            simp [← hcond.2]
        · rfl
  · rintro hcond j ⟨c, k, id, reason, hm, hf, hj⟩
    rcases hnew j reason hf with hold | ⟨hlen, rfl⟩
    · exact hs j ⟨c, k, id, reason, hm, hold, hj⟩
    · have hj : s.concerns j k = true := hj
      have hm : s.agent.main = .waiting c k id := hm
      simp [waitsFreely, hm, hj, hlen] at hcond

theorem blocked_agent {l : AgentLabel} (h : step agentId (.agent l) s = some s')
    (hs : ∀ j, ¬ s.Blocked j) : (∀ j, ¬ s'.Blocked j) ↔ s.waitsFreely (.agent l) = true := by
  obtain ⟨_, a, rfl, hact⟩ := of_agent h
  constructor
  · intro hno
    cases hl : l with
    | sent =>
        subst l
        rw [waitsFreely]
        split
        · next c k id j reason hm hf =>
            by_contra hj
            rw [Bool.not_eq_true', Bool.not_eq_false] at hj
            cases hact with
            | sent c' f x ho =>
                rw [hm] at ho
                cases ho
                exact hno j ⟨_, k, id, reason, rfl, hf, hj⟩
            | reattaching _ _ _ _ hm' => rw [hm] at hm'; cases hm'
            | ended _ hl => rcases hl with hl | hl <;> cases hl
            | listens _ _ hl => rcases hl with ⟨hl, _⟩ | ⟨hl, _⟩ <;> cases hl
        · rfl
    | _ => rfl
  · rintro hcond j ⟨c, k, id, reason, hm, hf, hj⟩
    obtain ⟨hread, hruns, hfrom⟩ := Agent.act_waiting hact hm
    have hf' : s.nextUnread = some (.cancel j reason) := by
      rw [nextUnread, ← hread]
      exact hf
    have hj' : s.concerns j k = true := by
      simp only [concerns, Bool.or_eq_true, decide_eq_true_eq] at hj ⊢
      exact hj.imp_right (hruns j)
    rcases hfrom with hm | ⟨rfl, hm⟩
    · exact hs j ⟨c, k, id, reason, hm, hf', hj'⟩
    · simp [waitsFreely, hm, hf', hj'] at hcond

theorem blocked_step {label : OpenLabel} (h : step agentId label s = some s') (hs : ∀ j, ¬ s.Blocked j) :
    (∀ j, ¬ s'.Blocked j) ↔ s.waitsFreely label = true := by
  cases label with
  | arrives f =>
      obtain ⟨_, ⟨⟩⟩ := Option.ite_none_right_eq_some.mp h
      exact blocked_arrives hs
  | connect =>
      simp only [step] at h
      split at h
      · cases h
        refine iff_of_true ?_ rfl
        rintro j ⟨_, _, _, _, hm, _⟩
        cases hm
      · cases h
  | drop =>
      cases h
      exact iff_of_true hs rfl
  | agent l => exact blocked_agent h hs

theorem inHand_iff {j : String} : s.inHand j = true ↔ ∀ id k, s.agent.containers.get id = some k → k.jobId = j →
    k.status = .running → s.agent.running.get j = some id := by
  simp only [inHand, List.all_eq_true, Bool.or_eq_true, decide_eq_true_eq]
  constructor
  · intro h id k hk hj hrun
    rcases h (id, k) ((Dict.lookup_eq_some s.agent.containers.nodup).mp hk) with (hne | hne) | hid
    · exact absurd hj hne
    · exact absurd hrun hne
    · exact hid
  · intro h e he
    by_cases hj : e.2.jobId = j
    · by_cases hrun : e.2.status = .running
      · exact .inr (h e.1 e.2 ((Dict.lookup_eq_some s.agent.containers.nodup).mpr he) hj hrun)
      · exact .inl (.inr hrun)
    · exact .inl (.inl hj)

theorem read_cancel (agentId : String) {c : ConnId} {j reason : String} (hm : s.agent.main = .listening c)
    (hf : s.nextUnread = some (.cancel j reason)) : ∃ s', step agentId (.agent .read) s = some s' ∧
      s'.agent.main = (s.agent.running.get j).elim (.listening c) (.killing c) := by
  rw [nextUnread] at hf
  cases hr : s.agent.running.get j with
  | none =>
      refine ⟨{ s with agent := { s.agent with read := s.agent.read + 1, main := .listening c } }, ?_, rfl⟩
      simp only [step, permits, if_true, Agent.step, hm, hf, Option.map_some, Agent.dispatch, Agent.onCancel, hr]
      rfl
  | some id =>
      refine ⟨{ s with agent := { s.agent with read := s.agent.read + 1, main := .killing c id } }, ?_, rfl⟩
      simp only [step, permits, if_true, Agent.step, hm, hf, Option.map_some, Agent.dispatch, Agent.onCancel, hr]
      rfl

theorem heeds_step {l : OpenLabel} (h : step agentId l s = some s') : Heeds s l s' ↔ s.readsInHand l = true := by
  by_cases hread : l = .agent .read
  · subst hread
    rw [readsInHand]
    split
    · next c j reason hm hf =>
        obtain ⟨t, ht, hmain⟩ := read_cancel agentId hm hf
        cases h.symm.trans ht
        rw [inHand_iff]
        constructor
        · intro hheeds id k hk hj hrun
          have hkill := hmain.symm.trans (hheeds c j reason rfl hm hf id k hk hj hrun)
          cases hr : s.agent.running.get j with
          | none => rw [hr] at hkill; cases hkill
          | some i => rw [hr] at hkill; cases hkill; rfl
        · intro hin c' j' reason' _ hm' hf' id k hk hj hrun
          cases hm.symm.trans hm'
          cases hf.symm.trans hf'
          rw [hmain, hin id k hk hj hrun]
          rfl
    · next hne =>
        refine iff_of_true ?_ rfl
        intro c j reason _ hm hf
        exact absurd hf (hne c j reason hm)
  · refine iff_of_true (fun _ _ _ hl => absurd hl hread) ?_
    cases l with
    | agent l => cases l <;> first | rfl | exact absurd rfl hread
    | _ => rfl

def runsJob : List OpenLabel :=
  [.connect, .agent .sent, .agent (.listed true), .agent .examine,
    .arrives (.job "job_1" "c1" "alpine" ["true"] 60000),
    .agent .read, .agent .sent, .agent (.startReturned .started), .agent .sent]

/-- The agent is restarted while the container runs and takes the job up again, and then gets a
cancel of it. -/
def cancelAfterRestart : List OpenLabel :=
  runsJob ++ [.agent (.crashed none), .connect, .agent .sent, .agent (.listed true), .agent .examine,
    .agent .sent,
    .agent .examine, .arrives (.cancel "job_1" "user")]

def listens (c : ConnId) (s : OpenAgent) : Bool :=
  match s.agent.main with
  | .listening c' => decide (c' = c)
  | _ => false

theorem listens_iff {c : ConnId} : s.listens c = true ↔ s.agent.main = .listening c := by
  rw [listens]
  split
  · next c' hm => simp [hm]
  · next hne => simpa using hne c

def isBlocked (j : String) (s : OpenAgent) : Bool :=
  match s.agent.main, s.nextUnread with
  | .waiting _ k _, some (.cancel j' _) => decide (j' = j) && s.concerns j k
  | _, _ => false

theorem isBlocked_iff {j : String} : s.isBlocked j = true ↔ s.Blocked j := by
  rw [isBlocked]
  split
  · next c k id j' reason hm hf =>
      rw [Bool.and_eq_true, decide_eq_true_eq]
      constructor
      · rintro ⟨rfl, hj⟩
        exact ⟨c, k, id, reason, hm, hf, hj⟩
      · rintro ⟨_, _, _, _, hm', hf', hj⟩
        cases hm.symm.trans hm'
        cases hf.symm.trans hf'
        exact ⟨rfl, hj⟩
  · next hne =>
      refine iff_of_false nofun ?_
      rintro ⟨c, k, id, reason, hm, hf, _⟩
      exact hne c k id j reason hm hf

end OpenAgent

end JobSystem
