import JobSystem.Agent.Step
import JobSystem.Lib.Machine
import JobSystem.Lib.Utf8

namespace JobSystem

open Lib

structure Found where
  id : ContainerId
  labels : Dict String String
  status : String
  deriving DecidableEq

/-- How the Docker calls of `_inspect_exited_blocking` end. The state of a container may lack the exit code. -/
inductive Inspection
  | failed
  | read (exitCode : Option Int) (stdout stderr : ByteArray)

def Inspection.result : Inspection → Option (Int × String × String)
  | failed => none
  | read exitCode stdout stderr => do
      let stdout ← Utf8.decode stdout
      let stderr ← Utf8.decode stderr
      return (exitCode.getD 1, stdout, stderr)

namespace Found

/-- The label `job_id`. A missing one is the same as an empty one. -/
def jobId (f : Found) : String := (f.labels.get "job_id").getD ""

def Runs (f : Found) : Prop := f.jobId ≠ "" ∧ f.status = "running"

def Finished (f : Found) : Prop := f.jobId ≠ "" ∧ (f.status = "exited" ∨ f.status = "dead")

instance (f : Found) : Decidable f.Runs := inferInstanceAs (Decidable (_ ∧ _))

instance (f : Found) : Decidable f.Finished := inferInstanceAs (Decidable (_ ∧ _))

end Found

/-- What a reconciling agent does, for statements about whole runs. The last two are acts of `_reattach`. -/
inductive Act
  | reconciled (id : ContainerId) (jobId : String)
  | reported (id : ContainerId) (result : JobResult)
  | removed (id : ContainerId)
  | reattachReported (id : ContainerId) (result : JobResult)
  | reattachEnded (jobId : String)

namespace Act

def frame : Act → Option AgentFrame
  | reconciled _ jobId => some (.reconcile jobId "running" none)
  | reported _ r | reattachReported _ r => some r.frame
  | removed _ | reattachEnded _ => none

/-- The container on which `_reconcile` acts itself. -/
def target : Act → Option ContainerId
  | reconciled id _ | reported id _ | removed id => some id
  | reattachReported _ _ | reattachEnded _ => none

end Act

inductive ReconcileCtl
  | listing
  | examining (rest : List Found)
  | reattaching (f : Found) (rest : List Found)
  | inspecting (f : Found) (rest : List Found)
  | reporting (f : Found) (result : JobResult) (rest : List Found)
  | removing (f : Found) (rest : List Found)
  | listening
  | raised

structure ReattachTask where
  jobId : String
  id : ContainerId
  result : Option JobResult

/-- An agent that goes through its containers, with the dictionaries that it writes to and the tasks that it
has made. -/
structure Reconcile where
  ctl : ReconcileCtl
  running : Dict String ContainerId
  sequences : Dict String Nat
  tasks : List ReattachTask
  log : List Act

/-- The awaited calls that return, and the steps of the tasks. The sends of the session succeed; a task may have
kept the socket of an earlier one. -/
inductive ReconcileLabel
  | listed
  | examine
  | reconcileSent
  | inspected
  | resultSent
  | removed
  | reattachWaited (i : Nat) (result : Option (Int × String × String))
  | reattachSent (i : Nat) (ok : Bool)
  deriving DecidableEq

def ReconcileLabel.main : ReconcileLabel → Bool
  | reattachWaited _ _ | reattachSent _ _ => false
  | _ => true

namespace Reconcile

def start (running : Dict String ContainerId) (sequences : Dict String Nat) (tasks : List ReattachTask) : Reconcile :=
  ⟨.listing, running, sequences, tasks, []⟩

def goto (x : ReconcileCtl) (s : Reconcile) : Reconcile := { s with ctl := x }

def act (a : Act) (s : Reconcile) : Reconcile := { s with log := s.log ++ [a] }

def examine (rest : List Found) (s : Reconcile) : Reconcile :=
  match rest with
  | [] => s.goto .listening
  | f :: rest =>
      if f.jobId = "" then s.goto (.removing f rest)
      else if f.status = "running" then s.goto (.reattaching f rest)
      else if f.status = "exited" ∨ f.status = "dead" then s.goto (.inspecting f rest)
      else s.goto (.examining rest)

def reattach (f : Found) (rest : List Found) (s : Reconcile) : Reconcile :=
  let task : ReattachTask := ⟨f.jobId, f.id, none⟩
  { s with
    ctl := .examining rest
    running := s.running.set f.jobId f.id
    sequences := s.sequences.set f.jobId 0
    tasks := s.tasks ++ [task]
    log := s.log ++ [.reconciled f.id f.jobId] }

def inspected (outcome : Inspection) (f : Found) (rest : List Found) (s : Reconcile) : Reconcile :=
  match outcome.result with
  | some (exitCode, stdout, stderr) => s.goto (.reporting f (jobResult f.jobId exitCode stdout stderr none) rest)
  | none => s.goto .raised

def reattachEnd (i : Nat) (t : ReattachTask) (s : Reconcile) : Reconcile :=
  { s with running := s.running.pop t.jobId, tasks := s.tasks.eraseIdx i }.act (.reattachEnded t.jobId)

def reattachWaited (i : Nat) (t : ReattachTask) (result : Option (Int × String × String)) (s : Reconcile) : Reconcile :=
  match result with
  | some (exitCode, stdout, stderr) =>
      { s with tasks := s.tasks.set i { t with result := some (jobResult t.jobId exitCode stdout stderr none) } }
  | none => s.reattachEnd i t

def reattachSent (i : Nat) (t : ReattachTask) (r : JobResult) (ok : Bool) (s : Reconcile) : Reconcile :=
  (if ok then s.act (.reattachReported t.id r) else s).reattachEnd i t

/-- A step where the listing gives `found`, unless it raises, and the calls for a container end as in `inspect`. -/
def step (found : Option (List Found)) (inspect : ContainerId → Inspection) (label : ReconcileLabel) (s : Reconcile) :
    Option Reconcile :=
  match label, s.ctl with
  | .listed, .listing =>
      match found with
      | some fs => some (s.goto (.examining fs))
      | none => some (s.goto .listening)
  | .examine, .examining rest => some (s.examine rest)
  | .reconcileSent, .reattaching f rest => some (s.reattach f rest)
  | .inspected, .inspecting f rest => some (s.inspected (inspect f.id) f rest)
  | .resultSent, .reporting f r rest => some ((s.act (.reported f.id r)).goto (.removing f rest))
  | .removed, .removing f rest => some ((s.act (.removed f.id)).goto (.examining rest))
  | .reattachWaited i result, _ =>
      match s.tasks[i]? with
      | some t => if t.result.isSome then none else some (s.reattachWaited i t result)
      | none => none
  | .reattachSent i ok, _ =>
      match s.tasks[i]? with
      | some t => t.result.map fun r => s.reattachSent i t r ok
      | none => none
  | _, _ => none

def machine (found : Option (List Found)) (inspect : ContainerId → Inspection) (running : Dict String ContainerId)
    (sequences : Dict String Nat) (tasks : List ReattachTask) : Machine Reconcile ReconcileLabel :=
  ⟨start running sequences tasks, step found inspect⟩

end Reconcile

section Acts

variable (inspect : ContainerId → Inspection)

def Found.Inspectable (f : Found) : Prop := f.Finished → (inspect f.id).result.isSome

instance (f : Found) : Decidable (f.Inspectable inspect) := inferInstanceAs (Decidable (_ → _))

def Found.acts (f : Found) : List Act :=
  if f.jobId = "" then [.removed f.id]
  else if f.status = "running" then [.reconciled f.id f.jobId]
  else if f.status = "exited" ∨ f.status = "dead" then
    match (inspect f.id).result with
    | some (exitCode, stdout, stderr) =>
        [.reported f.id (jobResult f.jobId exitCode stdout stderr none), .removed f.id]
    | none => []
  else []

theorem Found.acts_runs {f : Found} (h : f.Runs) : f.acts inspect = [.reconciled f.id f.jobId] := by
  rw [acts, if_neg h.1, if_pos h.2]

theorem Found.acts_finished {f : Found} (h : f.Finished) {exitCode : Int} {stdout stderr : String}
    (hr : (inspect f.id).result = some (exitCode, stdout, stderr)) :
    f.acts inspect = [.reported f.id (jobResult f.jobId exitCode stdout stderr none), .removed f.id] := by
  have hrun : f.status ≠ "running" := by rcases h.2 with h | h <;> rw [h] <;> decide
  rw [acts, if_neg h.1, if_neg hrun, if_pos h.2, hr]

theorem Found.target_acts {f : Found} {a : Act} (ha : a ∈ f.acts inspect) : a.target = some f.id := by
  rw [acts] at ha
  split at ha
  · rw [List.mem_singleton.mp ha]
    rfl
  · split at ha
    · rw [List.mem_singleton.mp ha]
      rfl
    · split at ha
      · split at ha
        · rcases List.mem_cons.mp ha with rfl | ha
          · rfl
          · rw [List.mem_singleton.mp ha]
            rfl
        · cases ha
      · cases ha

end Acts

namespace Reconcile

variable {found : Option (List Found)} {inspect : ContainerId → Inspection} {running : Dict String ContainerId}
  {sequences : Dict String Nat} {tasks : List ReattachTask} {s t : Reconcile} {label : ReconcileLabel}

def acted (s : Reconcile) : List Act := s.log.filter fun a => a.target.isSome

/-- `_reconcile` has gone through `done`, and `fs` is the whole list. -/
def At (inspect : ContainerId → Inspection) (fs done : List Found) (s : Reconcile) : Prop :=
  match s.ctl with
  | .listing => done = [] ∧ s.acted = []
  | .examining rest => fs = done ++ rest ∧ s.acted = done.flatMap (Found.acts inspect)
  | .reattaching f rest => fs = done ++ f :: rest ∧ f.Runs ∧ s.acted = done.flatMap (Found.acts inspect)
  | .inspecting f rest => fs = done ++ f :: rest ∧ f.Finished ∧ s.acted = done.flatMap (Found.acts inspect)
  | .reporting f r rest => fs = done ++ f :: rest ∧ s.acted = done.flatMap (Found.acts inspect) ∧
      f.Inspectable inspect ∧ f.acts inspect = [.reported f.id r, .removed f.id]
  | .removing f rest => fs = done ++ f :: rest ∧ f.Inspectable inspect ∧ ∃ before,
      s.acted = done.flatMap (Found.acts inspect) ++ before ∧ f.acts inspect = before ++ [.removed f.id]
  | .listening => fs = done ∧ s.acted = done.flatMap (Found.acts inspect)
  | .raised => ∃ f rest, fs = done ++ f :: rest ∧ ¬ f.Inspectable inspect ∧
      s.acted = done.flatMap (Found.acts inspect)

/-- A running container has its entry, from its frame on until a task of its job ends. -/
def Tracked (s : Reconcile) (f : Found) : Prop := ∃ older newer,
  s.log = older ++ .reconciled f.id f.jobId :: newer ∧
    (s.running.get f.jobId = some f.id ∨ .reattachEnded f.jobId ∈ newer)

theorem acted_append (s : Reconcile) (a : Act) :
    (s.log ++ [a]).filter (fun a => a.target.isSome) = s.acted ++ if a.target.isSome then [a] else [] := by
  rw [List.filter_append, acted]
  cases a <;> rfl

theorem reattachEnd_spec (i : Nat) (u : ReattachTask) (s : Reconcile) :
    (s.reattachEnd i u).ctl = s.ctl ∧ (s.reattachEnd i u).acted = s.acted := by
  refine ⟨rfl, ?_⟩
  exact (acted_append s (.reattachEnded u.jobId)).trans (List.append_nil _)

theorem reattachSent_spec (i : Nat) (u : ReattachTask) (r : JobResult) (ok : Bool) (s : Reconcile) :
    (s.reattachSent i u r ok).ctl = s.ctl ∧ (s.reattachSent i u r ok).acted = s.acted := by
  cases ok with
  | false => exact reattachEnd_spec i u s
  | true =>
      obtain ⟨hctl, hacted⟩ := reattachEnd_spec i u (s.act (.reattachReported u.id r))
      refine ⟨hctl, hacted.trans ?_⟩
      exact (acted_append s (.reattachReported u.id r)).trans (List.append_nil _)

theorem reattachWaited_spec (i : Nat) (u : ReattachTask) (result : Option (Int × String × String)) (s : Reconcile) :
    (s.reattachWaited i u result).ctl = s.ctl ∧ (s.reattachWaited i u result).acted = s.acted := by
  cases result with
  | none => exact reattachEnd_spec i u s
  | some r => exact ⟨rfl, rfl⟩

theorem step_task (h : s.step found inspect label = some t) (hl : label.main = false) :
    t.ctl = s.ctl ∧ t.acted = s.acted := by
  cases label with
  | reattachWaited i result =>
      rw [step] at h
      split at h
      · split at h
        · cases h
        · cases h
          exact reattachWaited_spec _ _ _ _
      · cases h
  | reattachSent i ok =>
      rw [step] at h
      split at h
      · obtain ⟨r, -, rfl⟩ := Option.map_eq_some_iff.mp h
        exact reattachSent_spec _ _ _ _ _
      · cases h
  | _ => cases hl

theorem At.congr {fs done : List Found} (h : At inspect fs done s) (hctl : t.ctl = s.ctl) (hacted : t.acted = s.acted) :
    At inspect fs done t := by
  rw [At] at h ⊢
  rwa [hctl, hacted]

theorem flatMap_concat {fs : List Found} {f : Found} :
    (fs ++ [f]).flatMap (Found.acts inspect) = fs.flatMap (Found.acts inspect) ++ f.acts inspect := by
  rw [List.flatMap_append, List.flatMap_cons, List.flatMap_nil, List.append_nil]

theorem at_examine {fs done rest : List Found} (hfs : fs = done ++ rest)
    (hacted : s.acted = done.flatMap (Found.acts inspect)) :
    At inspect fs done (s.examine rest) ∨
      ∃ f, f.Inspectable inspect ∧ At inspect fs (done ++ [f]) (s.examine rest) ∧
        (f.Runs → Tracked (s.examine rest) f) := by
  cases rest with
  | nil => exact .inl ⟨hfs.trans (List.append_nil _), hacted⟩
  | cons f rest =>
      rw [examine]
      split
      · next hj =>
          refine .inl ⟨hfs, fun h => absurd hj h.1, [], by rw [List.append_nil]; exact hacted, ?_⟩
          rw [Found.acts, if_pos hj, List.nil_append]
      · next hj =>
          split
          · next hr => exact .inl ⟨hfs, ⟨hj, hr⟩, hacted⟩
          · next hr =>
              split
              · next hf => exact .inl ⟨hfs, ⟨hj, hf⟩, hacted⟩
              · next hf =>
                  have hnone : f.acts inspect = [] := by rw [Found.acts, if_neg hj, if_neg hr, if_neg hf]
                  refine .inr ⟨f, fun h => absurd h.2 hf, ⟨by rw [hfs, List.append_assoc]; rfl, ?_⟩,
                    fun h => absurd h.2 hr⟩
                  rw [flatMap_concat, hnone, List.append_nil]
                  exact hacted

/-- A step of `_reconcile` leaves the list where it was, or goes one container on. -/
theorem at_step {fs done : List Found} (hI : At inspect fs done s) (h : s.step (some fs) inspect label = some t) :
    At inspect fs done t ∨
      ∃ f, f.Inspectable inspect ∧ At inspect fs (done ++ [f]) t ∧ (f.Runs → Tracked t f) := by
  cases hl : label.main with
  | false =>
      obtain ⟨hctl, hacted⟩ := step_task h hl
      exact .inl (hI.congr hctl hacted)
  | true =>
      unfold step at h
      split at h <;> try cases hl
      · next hc =>
          cases h
          rw [At, hc] at hI
          obtain ⟨rfl, hacted⟩ := hI
          exact .inl ⟨rfl, hacted⟩
      · next rest hc =>
          cases h
          rw [At, hc] at hI
          exact at_examine hI.1 hI.2
      · next f rest hc =>
          cases h
          rw [At, hc] at hI
          obtain ⟨rfl, hruns, hacted⟩ := hI
          refine .inr ⟨f, ?_, ⟨?_, ?_⟩, fun _ => ⟨s.log, [], rfl, .inl (Dict.get_set_self _ _ _)⟩⟩
          · rintro ⟨-, hf⟩
            rw [hruns.2] at hf
            exact absurd hf (by decide)
          · rw [List.append_assoc]
            rfl
          · rw [flatMap_concat, Found.acts_runs inspect hruns, ← hacted]
            exact acted_append s _
      · next f rest hc =>
          cases h
          rw [At, hc] at hI
          obtain ⟨rfl, hf, hacted⟩ := hI
          rw [inspected]
          cases hr : (inspect f.id).result with
          | some r =>
              obtain ⟨exitCode, stdout, stderr⟩ := r
              exact .inl ⟨rfl, hacted, fun _ => by rw [hr]; rfl, Found.acts_finished inspect hf hr⟩
          | none =>
              refine .inl ⟨f, rest, rfl, fun hok => ?_, hacted⟩
              have hsome := hok hf
              rw [hr] at hsome
              cases hsome
      · next f r rest hc =>
          cases h
          rw [At, hc] at hI
          obtain ⟨rfl, hacted, hok, hacts⟩ := hI
          refine .inl ⟨rfl, hok, [.reported f.id r], ?_, hacts⟩
          rw [← hacted]
          exact acted_append s _
      · next f rest hc =>
          cases h
          rw [At, hc] at hI
          obtain ⟨rfl, hok, before, hacted, hacts⟩ := hI
          refine .inr ⟨f, hok, ⟨?_, ?_⟩, fun hruns => ?_⟩
          · rw [List.append_assoc]
            rfl
          · rw [flatMap_concat, hacts, ← List.append_assoc, ← hacted]
            exact acted_append s _
          · rw [Found.acts_runs inspect hruns] at hacts
            have hlast := congrArg List.getLast? hacts
            rw [List.getLast?_concat] at hlast
            cases hlast
      · cases h

end Reconcile

end JobSystem
