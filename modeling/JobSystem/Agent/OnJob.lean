import JobSystem.Agent.Step
import JobSystem.Lib.Machine
import JobSystem.Lib.Utf8

namespace JobSystem

open Lib

/-- What `next(stream)` returns: the bytes of a chunk, or another object, for
which the text that `str` gives. -/
inductive RawChunk
  | bytes (data : ByteArray)
  | other (text : String)

def RawChunk.text : RawChunk → String
  | bytes data => Utf8.decodeReplace data
  | other text => text

/-- How the Docker calls of `_wait_blocking` end. -/
inductive WaitOutcome
  | failed
  | exited (statusCode : Int) (stdout stderr : ByteArray)

/-- What a container does. A log stream that cannot be opened has no chunks,
and one that raises has those before. -/
structure ContainerRun where
  start : StartOutcome
  chunks : List RawChunk
  wait : WaitOutcome

namespace ContainerRun

def streamLogs (chunks : List RawChunk) : List String := (chunks.map RawChunk.text).filter (· ≠ "")

def waitBlocking (run : ContainerRun) : Option (Int × String × String) :=
  match run.wait with
  | .failed => none
  | .exited statusCode stdout stderr => do
      let stdout ← Utf8.decode stdout
      let stderr ← Utf8.decode stderr
      return (statusCode, stdout, stderr)

end ContainerRun

/-- The task of `_stream`: made but not begun, waiting for a chunk, or about
to send one. -/
inductive StreamTask
  | created
  | fetching (rest : List RawChunk)
  | sending (sequence : Nat) (text : String) (rest : List RawChunk)
  | done

/-- The points at which `_on_job` awaits something, and its two ends. -/
inductive OnJobCtl
  | acking
  | starting
  | announcing
  | waiting
  | reporting (result : JobResult)
  | returned
  | raised

def OnJobCtl.ended : OnJobCtl → Option Bool
  | .returned => some true
  | .raised => some false
  | _ => none

theorem OnJobCtl.ended_eq {x : OnJobCtl} :
    (x.ended = some true → x = .returned) ∧ (x.ended = some false → x = .raised) := by
  cases x <;> simp [OnJobCtl.ended]

/-- A call of `_on_job` with its streaming task, the dictionaries of the agent
that it writes to, and the frames that it has sent. -/
structure OnJob where
  ctl : OnJobCtl
  streaming : StreamTask
  running : Dict String ContainerId
  sequences : Dict String Nat
  sent : List AgentFrame

inductive OnJobLabel
  | ackSent
  | startReturned
  | startedSent
  | streamBegun
  | fetched
  | chunkSent
  | streamEnded
  | waitReturned
  | resultSent
  deriving DecidableEq

namespace OnJob

def start (running : Dict String ContainerId) (sequences : Dict String Nat) : OnJob :=
  ⟨.acking, .done, running, sequences, []⟩

def send (f : AgentFrame) (s : OnJob) : OnJob := { s with sent := s.sent ++ [f] }

def goto (x : OnJobCtl) (s : OnJob) : OnJob := { s with ctl := x }

/-- The end of `_stream` behind its `try`. -/
def endStream (jobId : String) (s : OnJob) : OnJob :=
  { s with streaming := .done, sequences := s.sequences.pop jobId }

/-- `stream_logs` gets a chunk, and `_stream` a number for it. -/
def fetched (jobId : String) (chunk : RawChunk) (rest : List RawChunk) (s : OnJob) : OnJob :=
  if chunk.text = "" then { s with streaming := .fetching rest }
  else
    let seq := (s.sequences.get jobId).getD 0 + 1
    { s with sequences := s.sequences.set jobId seq, streaming := .sending seq chunk.text rest }

/-- `streaming.cancel()`. A task that has not begun does not come to its `finally`, and a
send in which one is cancelled counts as never written. -/
def cancelStreaming (jobId : String) (s : OnJob) : OnJob :=
  match s.streaming with
  | .created => { s with streaming := .done }
  | .fetching _ | .sending _ _ _ => s.endStream jobId
  | .done => s

def startReturned (jobId : String) (id : ContainerId) (run : ContainerRun) (s : OnJob) : OnJob :=
  match run.start with
  | .started =>
      { s with running := s.running.set jobId id, sequences := s.sequences.set jobId 0 }.goto .announcing
  | .failed error _ => s.goto (.reporting (jobResult jobId 1 "" error (some error)))

def waitReturned (jobId : String) (run : ContainerRun) (s : OnJob) : OnJob :=
  let s := { s with running := s.running.pop jobId }.cancelStreaming jobId
  match run.waitBlocking with
  | some (exitCode, stdout, stderr) => s.goto (.reporting (jobResult jobId exitCode stdout stderr none))
  | none => s.goto .raised

def step (jobId : String) (id : ContainerId) (run : ContainerRun) (label : OnJobLabel) (s : OnJob) :
    Option OnJob :=
  match label, s.ctl, s.streaming with
  | .ackSent, .acking, _ => some ((s.send (.ack jobId)).goto .starting)
  | .startReturned, .starting, _ => some (s.startReturned jobId id run)
  | .startedSent, .announcing, _ =>
      some { (s.send (.started jobId)).goto .waiting with streaming := .created }
  | .streamBegun, .waiting, .created => some { s with streaming := .fetching run.chunks }
  | .fetched, .waiting, .fetching (chunk :: rest) => some (s.fetched jobId chunk rest)
  | .chunkSent, .waiting, .sending seq text rest =>
      some { s.send (.log jobId "stdout" seq text) with streaming := .fetching rest }
  | .streamEnded, .waiting, .fetching [] => some (s.endStream jobId)
  | .waitReturned, .waiting, _ => some (s.waitReturned jobId run)
  | .resultSent, .reporting r, _ => some ((s.send r.frame).goto .returned)
  | _, _, _ => none

def machine (jobId : String) (id : ContainerId) (run : ContainerRun) (running : Dict String ContainerId)
    (sequences : Dict String Nat) : Machine OnJob OnJobLabel := ⟨start running sequences, step jobId id run⟩

def owed (run : ContainerRun) (s : OnJob) : List String :=
  match s.streaming with
  | .created => ContainerRun.streamLogs run.chunks
  | .fetching rest => ContainerRun.streamLogs rest
  | .sending _ text rest => text :: ContainerRun.streamLogs rest
  | .done => []

def logFrames (jobId : String) (texts : List String) : List AgentFrame :=
  (texts.zipIdx 1).map fun p => .log jobId "stdout" p.2 p.1

/-- The call beside what its streaming task still had to send when `wait` returned. -/
def recorded (jobId : String) (id : ContainerId) (run : ContainerRun) (running : Dict String ContainerId)
    (sequences : Dict String Nat) : Machine (OnJob × List String) OnJobLabel :=
  (machine jobId id run running sequences).observed [] fun s label _ lost =>
    if label = .waitReturned then s.owed run else lost

def Counted (jobId : String) (n : Nat) (s : OnJob) : Prop :=
  match s.streaming with
  | .created | .fetching _ => s.sequences.get jobId = some n
  | .sending seq _ _ => seq = n + 1 ∧ s.sequences.get jobId = some (n + 1)
  | .done => True

/-- The frames of a call whose container was started, with what was not sent of the log. -/
def Logged (jobId : String) (run : ContainerRun) (frames : List AgentFrame) (lost : List String) : Prop :=
  ∃ texts, texts ++ lost = ContainerRun.streamLogs run.chunks ∧
    frames = [.ack jobId, .started jobId] ++ logFrames jobId texts

/-- The result that a call has to report, and the frames before it. -/
def Reports (jobId : String) (run : ContainerRun) (frames : List AgentFrame) (lost : List String)
    (r : JobResult) : Prop :=
  (∃ error left, run.start = .failed error left ∧ frames = [.ack jobId] ∧
    r = jobResult jobId 1 "" error (some error)) ∨
  (run.start = .started ∧ Logged jobId run frames lost ∧ ∃ exitCode stdout stderr,
    run.waitBlocking = some (exitCode, stdout, stderr) ∧ r = jobResult jobId exitCode stdout stderr none)

def Progress (jobId : String) (run : ContainerRun) (s : OnJob) (lost : List String) : Prop :=
  match s.ctl with
  | .acking => s.sent = []
  | .starting => s.sent = [.ack jobId]
  | .announcing => run.start = .started ∧ s.sent = [.ack jobId] ∧ s.sequences.get jobId = some 0
  | .waiting => run.start = .started ∧ Logged jobId run s.sent (s.owed run) ∧
      ∃ n, s.Counted jobId n ∧ s.sent.length = n + 2
  | .reporting r => Reports jobId run s.sent lost r
  | .returned => ∃ frames r, s.sent = frames ++ [r.frame] ∧ Reports jobId run frames lost r
  | .raised => run.start = .started ∧ run.waitBlocking = none

section Steps

variable {jobId : String} {id : ContainerId} {run : ContainerRun} {s t : OnJob} {lost : List String}
  {label : OnJobLabel}

theorem logFrames_concat (texts : List String) (text : String) :
    logFrames jobId (texts ++ [text]) =
      logFrames jobId texts ++ [.log jobId "stdout" ((texts.length + 1 : Nat) : Int) text] := by
  simp [logFrames, List.zipIdx_append, Nat.add_comm]

@[simp] theorem length_logFrames (texts : List String) : (logFrames jobId texts).length = texts.length := by
  simp [logFrames]

theorem streamLogs_cons (chunk : RawChunk) (rest : List RawChunk) :
    ContainerRun.streamLogs (chunk :: rest) =
      if chunk.text = "" then ContainerRun.streamLogs rest else chunk.text :: ContainerRun.streamLogs rest := by
  by_cases h : chunk.text = "" <;> simp [ContainerRun.streamLogs, h]

@[simp] theorem sent_cancelStreaming : (s.cancelStreaming jobId).sent = s.sent := by
  rw [cancelStreaming]
  split <;> rfl

theorem progress_waiting (hx : s.ctl = .waiting) : Progress jobId run s lost ↔
    run.start = .started ∧ Logged jobId run s.sent (s.owed run) ∧
      ∃ n, s.Counted jobId n ∧ s.sent.length = n + 2 := by
  rw [Progress, hx]

theorem progress_waitReturned (hx : s.ctl = .waiting) (hP : Progress jobId run s lost) :
    Progress jobId run (s.waitReturned jobId run) (s.owed run) := by
  obtain ⟨hstart, hlog, -⟩ := (progress_waiting hx).mp hP
  have hsent : ({ s with running := s.running.pop jobId }.cancelStreaming jobId).sent = s.sent :=
    sent_cancelStreaming
  rw [waitReturned]
  cases hw : run.waitBlocking with
  | none => exact ⟨hstart, hw⟩
  | some r =>
      obtain ⟨exitCode, stdout, stderr⟩ := r
      rw [← hsent] at hlog
      exact .inr ⟨hstart, hlog, exitCode, stdout, stderr, hw, rfl⟩

theorem progress_fetched {chunk : RawChunk} {rest : List RawChunk} (hx : s.ctl = .waiting)
    (hs : s.streaming = .fetching (chunk :: rest)) (hP : Progress jobId run s lost) :
    Progress jobId run (s.fetched jobId chunk rest) lost := by
  obtain ⟨hstart, hlog, n, hn, hlen⟩ := (progress_waiting hx).mp hP
  rw [Counted, hs] at hn
  have howed : s.owed run = ContainerRun.streamLogs (chunk :: rest) := by rw [owed, hs]
  rw [howed, streamLogs_cons] at hlog
  rw [fetched, hn]
  split
  · next ht =>
      rw [if_pos ht] at hlog
      exact Iff.mpr (progress_waiting hx) ⟨hstart, hlog, n, hn, hlen⟩
  · next ht =>
      rw [if_neg ht] at hlog
      exact Iff.mpr (progress_waiting hx) ⟨hstart, hlog, n, ⟨rfl, Dict.get_set_self _ _ _⟩, hlen⟩

theorem progress_chunkSent {seq : Nat} {text : String} {rest : List RawChunk} (hx : s.ctl = .waiting)
    (hs : s.streaming = .sending seq text rest) (hP : Progress jobId run s lost) :
    Progress jobId run { s.send (.log jobId "stdout" seq text) with streaming := .fetching rest } lost := by
  obtain ⟨hstart, ⟨texts, hall, hsent⟩, n, hn, hlen⟩ := (progress_waiting hx).mp hP
  rw [Counted, hs] at hn
  obtain ⟨hseq, hget⟩ := hn
  have howed : s.owed run = text :: ContainerRun.streamLogs rest := by rw [owed, hs]
  have hcount : texts.length = n := by
    rw [hsent] at hlen
    simpa using hlen
  refine Iff.mpr (progress_waiting hx) ⟨hstart, ⟨texts ++ [text], ?_, ?_⟩, n + 1, hget, ?_⟩
  · rw [← hall, howed, List.append_assoc]
    rfl
  · change s.sent ++ [.log jobId "stdout" seq text] = _
    rw [logFrames_concat, hcount, ← hseq, hsent, List.append_assoc]
  · change (s.sent ++ [AgentFrame.log jobId "stdout" seq text]).length = _
    rw [List.length_append, hlen, List.length_singleton]

theorem progress_step (h : s.step jobId id run label = some t) (hP : Progress jobId run s lost) :
    Progress jobId run t (if label = .waitReturned then s.owed run else lost) := by
  unfold step at h
  split at h <;> cases h
  · next hx =>
      rw [Progress, hx] at hP
      simp [Progress, send, goto, hP]
  · next hx =>
      rw [Progress, hx] at hP
      rw [startReturned]
      cases hr : run.start with
      | started => exact ⟨hr, hP, Dict.get_set_self _ _ _⟩
      | failed error left => exact .inl ⟨error, left, hr, hP, rfl⟩
  · next hx =>
      rw [Progress, hx] at hP
      obtain ⟨hstart, hsent, hget⟩ := hP
      refine ⟨hstart, ⟨[], rfl, ?_⟩, 0, hget, ?_⟩
      · simp [send, goto, hsent, logFrames]
      · simp [send, goto, hsent]
  · next hx hs =>
      obtain ⟨hstart, hlog, n, hn, hlen⟩ := (progress_waiting hx).mp hP
      rw [owed, hs] at hlog
      rw [Counted, hs] at hn
      exact Iff.mpr (progress_waiting hx) ⟨hstart, hlog, n, hn, hlen⟩
  · next chunk rest hx hs => exact progress_fetched hx hs hP
  · next seq text rest hx hs => exact progress_chunkSent hx hs hP
  · next hx hs =>
      obtain ⟨hstart, hlog, n, -, hlen⟩ := (progress_waiting hx).mp hP
      rw [owed, hs] at hlog
      exact Iff.mpr (progress_waiting hx) ⟨hstart, hlog, n, trivial, hlen⟩
  · next hx => exact progress_waitReturned hx hP
  · next r hx =>
      rw [Progress, hx] at hP
      exact ⟨s.sent, r, rfl, hP⟩

theorem progress_of_reachable {running : Dict String ContainerId} {sequences : Dict String Nat}
    {p : OnJob × List String} (hp : (recorded jobId id run running sequences).Reachable p) :
    Progress jobId run p.1 p.2 := by
  refine Machine.Run.invariant (I := fun p : OnJob × List String => Progress jobId run p.1 p.2) ?_ hp rfl
  rintro u label v hI - hst
  obtain ⟨hst, hghost⟩ := Machine.observed_step.mp hst
  rw [hghost]
  exact progress_step hst hI

def todo (run : ContainerRun) (s : OnJob) : Nat :=
  match s.ctl with
  | .acking => 2 * run.chunks.length + 8
  | .starting => 2 * run.chunks.length + 7
  | .announcing => 2 * run.chunks.length + 6
  | .waiting => 3 + match s.streaming with
      | .created => 2 * run.chunks.length + 2
      | .fetching rest => 2 * rest.length + 1
      | .sending _ _ rest => 2 * rest.length + 2
      | .done => 0
  | .reporting _ => 1
  | .returned | .raised => 0

theorem todo_step (h : s.step jobId id run label = some t) : t.todo run < s.todo run := by
  have hwait : s.ctl = .waiting → 3 ≤ s.todo run := by
    intro hx
    rw [todo, hx]
    exact Nat.le_add_right _ _
  unfold step at h
  split at h <;> cases h
  · next hx => simp [todo, hx, send, goto]
  · next hx =>
      rw [startReturned]
      cases run.start <;> simp [todo, hx, goto]
  · next hx =>
      simp [todo, hx, send, goto]
      omega
  · next hx hs => simp [todo, hx, hs]
  · next chunk rest hx hs =>
      rw [fetched]
      split
      · simp [todo, hx, hs]
      · simp [todo, hx, hs]
        omega
  · next seq text rest hx hs => simp [todo, hx, hs, send]
  · next hx hs => simp [todo, hx, hs, endStream]
  · next hx =>
      have hle := hwait hx
      have hnew : (s.waitReturned jobId run).todo run ≤ 1 := by
        rw [waitReturned]
        cases run.waitBlocking <;> simp [todo, goto]
      omega
  · next r hx => simp [todo, hx, send, goto]

theorem step_enabled (jobId : String) (id : ContainerId) (run : ContainerRun) (s : OnJob)
    (h : s.ctl ≠ .returned ∧ s.ctl ≠ .raised) : ∃ label t, s.step jobId id run label = some t := by
  cases hx : s.ctl with
  | acking => exact ⟨.ackSent, _, by simp [step, hx]; rfl⟩
  | starting => exact ⟨.startReturned, _, by simp [step, hx]; rfl⟩
  | announcing => exact ⟨.startedSent, _, by simp [step, hx]; rfl⟩
  | waiting => exact ⟨.waitReturned, _, by simp [step, hx]; rfl⟩
  | reporting r => exact ⟨.resultSent, _, by simp [step, hx]; rfl⟩
  | returned => exact absurd hx h.1
  | raised => exact absurd hx h.2

end Steps

/-- The frames of a call: an ack, and the error of a container that did not start, or the start, the
log and the exit of one that did. -/
def Protocol (jobId : String) (run : ContainerRun) (frames : List AgentFrame) : Prop :=
  (∃ error left, run.start = .failed error left ∧
    frames = [.ack jobId, .result jobId 1 "" error (some error)]) ∨
  (run.start = .started ∧ ∃ texts exitCode out err stdout stderr error, run.wait = .exited exitCode out err ∧
    frames = [.ack jobId, .started jobId] ++ logFrames jobId texts ++
      [.result jobId exitCode stdout stderr error])

/-- The container does not start, or `wait` reads its exit and both its outputs are UTF-8. -/
def Decodable (run : ContainerRun) : Prop :=
  run.start ≠ .started ∨ ∃ exitCode out err, run.wait = .exited exitCode out err ∧
    out.IsValidUTF8 ∧ err.IsValidUTF8

theorem waitBlocking_eq_some {run : ContainerRun} {exitCode : Int} {stdout stderr : String} :
    run.waitBlocking = some (exitCode, stdout, stderr) ↔ ∃ out err, run.wait = .exited exitCode out err ∧
      Utf8.decode out = some stdout ∧ Utf8.decode err = some stderr := by
  rw [ContainerRun.waitBlocking]
  cases run.wait with
  | failed => simp
  | exited statusCode out err =>
      cases ho : Utf8.decode out with
      | none => simp [ho]
      | some o =>
          cases he : Utf8.decode err with
          | none => simp [ho, he]
          | some e => simp [ho, he]

theorem decodable_iff {run : ContainerRun} (h : run.start = .started) :
    Decodable run ↔ ∃ r, run.waitBlocking = some r := by
  constructor
  · rintro (hne | ⟨exitCode, out, err, hw, hout, herr⟩)
    · exact absurd h hne
    · obtain ⟨stdout, ho⟩ := Utf8.decode_eq_some.mpr hout
      obtain ⟨stderr, he⟩ := Utf8.decode_eq_some.mpr herr
      exact ⟨(exitCode, stdout, stderr), waitBlocking_eq_some.mpr ⟨out, err, hw, ho, he⟩⟩
  · rintro ⟨⟨exitCode, stdout, stderr⟩, hr⟩
    obtain ⟨out, err, hw, ho, he⟩ := waitBlocking_eq_some.mp hr
    exact .inr ⟨exitCode, out, err, hw, Utf8.decode_eq_some.mp ⟨_, ho⟩, Utf8.decode_eq_some.mp ⟨_, he⟩⟩

theorem jobResult_frame (jobId : String) (exitCode : Int) (stdout stderr : String) :
    ∃ error, (jobResult jobId exitCode stdout stderr none).frame =
      .result jobId exitCode stdout stderr error := by
  rw [jobResult]
  split <;> exact ⟨_, rfl⟩

theorem Reports.protocol {jobId : String} {run : ContainerRun} {frames : List AgentFrame} {lost : List String}
    {r : JobResult} (h : Reports jobId run frames lost r) :
    Protocol jobId run (frames ++ [r.frame]) ∧ Decodable run := by
  rcases h with ⟨error, left, hr, rfl, rfl⟩ | ⟨hstart, ⟨texts, -, rfl⟩, exitCode, stdout, stderr, hw, rfl⟩
  · exact ⟨.inl ⟨error, left, hr, rfl⟩, .inl (by rw [hr]; nofun)⟩
  · obtain ⟨out, err, hexit, -, -⟩ := waitBlocking_eq_some.mp hw
    obtain ⟨error, hframe⟩ := jobResult_frame jobId exitCode stdout stderr
    exact ⟨.inr ⟨hstart, texts, exitCode, out, err, stdout, stderr, error, hexit, by rw [hframe]⟩,
      (decodable_iff hstart).mpr ⟨_, hw⟩⟩

/-- Agent job protocol: every call of `_on_job` comes to an end, and it has then sent what the
protocol asks for and returned to the listener exactly if its container did not start, or its exit
could be read and its outputs were UTF-8. -/
theorem job_protocol_iff (jobId : String) (id : ContainerId) (run : ContainerRun)
    (running : Dict String ContainerId) (sequences : Dict String Nat) {s : OnJob}
    (hs : (machine jobId id run running sequences).Reachable s) :
    (s.ctl = .returned ∨ s.ctl = .raised →
      (Protocol jobId run s.sent ∧ s.ctl = .returned ↔ Decodable run)) ∧
      (s.ctl ≠ .returned ∧ s.ctl ≠ .raised → ∃ label t, s.step jobId id run label = some t) ∧
        ∀ label t, s.step jobId id run label = some t → t.todo run < s.todo run := by
  refine ⟨?_, step_enabled jobId id run s, fun label t => todo_step⟩
  obtain ⟨lost, hrun⟩ : ∃ lost, (recorded jobId id run running sequences).Reachable (s, lost) := hs.observed []
  have hP : Progress jobId run s lost := progress_of_reachable hrun
  rintro (hx | hx)
  · rw [Progress, hx] at hP
    obtain ⟨frames, r, hsent, hr⟩ := hP
    rw [hsent]
    exact iff_of_true ⟨hr.protocol.1, hx⟩ hr.protocol.2
  · rw [Progress, hx] at hP
    obtain ⟨hstart, hw⟩ := hP
    refine iff_of_false (fun h => by rw [hx] at h; cases h.2) fun h => ?_
    obtain ⟨r, hr⟩ := (decodable_iff hstart).mp h
    rw [hw] at hr
    cases hr

def binaryOutput : ContainerRun := ⟨.started, [.bytes ⟨#[255]⟩], .exited 0 ⟨#[255]⟩ ⟨#[]⟩⟩

def textOutput : ContainerRun := ⟨.started, [.bytes ⟨#[111, 107]⟩], .exited 0 ⟨#[111, 107]⟩ ⟨#[]⟩⟩

def drainedFirst : List OnJobLabel :=
  [.ackSent, .startReturned, .startedSent, .streamBegun, .fetched, .chunkSent, .streamEnded, .waitReturned]

theorem job_protocol_false : ¬ ∀ (jobId : String) (id : ContainerId) (run : ContainerRun)
    (running : Dict String ContainerId) (sequences : Dict String Nat) (s : OnJob),
    (machine jobId id run running sequences).Reachable s → s.ctl = .returned ∨ s.ctl = .raised →
      Protocol jobId run s.sent ∧ s.ctl = .returned := by
  intro hall
  have hexec : ((machine "job_1" 0 binaryOutput .empty .empty).exec (fun _ _ => True) drainedFirst
      (machine "job_1" 0 binaryOutput .empty .empty).init).any (fun s => decide
        (s.ctl.ended = some false)) = true := by decide +kernel
  obtain ⟨s, hs, hend⟩ := Machine.exists_run _ _ hexec
  have hraised := OnJobCtl.ended_eq.2 hend
  obtain ⟨-, hreturned⟩ := hall _ _ _ _ _ s hs (.inr hraised)
  rw [hraised] at hreturned
  cases hreturned

theorem job_protocol_text : ∃ s, (machine "job_1" 0 textOutput .empty .empty).Reachable s ∧
    s.ctl = .returned ∧ s.sent = [.ack "job_1", .started "job_1", .log "job_1" "stdout" 1 "ok",
      .result "job_1" 0 "ok" "" none] ∧
    (Protocol "job_1" textOutput s.sent ∧ s.ctl = .returned ↔ Decodable textOutput) := by
  have hexec : ((machine "job_1" 0 textOutput .empty .empty).exec (fun _ _ => True) (drainedFirst ++ [.resultSent])
      (machine "job_1" 0 textOutput .empty .empty).init).any (fun s => decide
        (s.ctl.ended = some true ∧ s.sent = [.ack "job_1", .started "job_1", .log "job_1" "stdout" 1 "ok",
          .result "job_1" 0 "ok" "" none])) = true := by decide +kernel
  obtain ⟨s, hs, hend, hsent⟩ := Machine.exists_run _ _ hexec
  have hreturned := OnJobCtl.ended_eq.1 hend
  exact ⟨s, hs, hreturned, hsent, (job_protocol_iff "job_1" 0 textOutput .empty .empty hs).1 (.inl hreturned)⟩

/-- Final log completeness: the frames of a call that has reported the exit of its container carry the
whole log, in order, exactly if nothing of it was still to be sent when `wait` returned. -/
theorem final_log_complete_iff (jobId : String) (id : ContainerId) (run : ContainerRun)
    (running : Dict String ContainerId) (sequences : Dict String Nat) (hstart : run.start = .started)
    {p : OnJob × List String} (hp : (recorded jobId id run running sequences).Reachable p)
    (hend : p.1.ctl = .returned) :
    (∃ r : JobResult, p.1.sent = [.ack jobId, .started jobId] ++
        logFrames jobId (ContainerRun.streamLogs run.chunks) ++ [r.frame]) ↔ p.2 = [] := by
  have hP : Progress jobId run p.1 p.2 := progress_of_reachable hp
  rw [Progress, hend] at hP
  obtain ⟨frames, r, hsent, hr⟩ := hP
  rcases hr with ⟨error, left, hf, -⟩ | ⟨-, ⟨texts, hall, rfl⟩, -⟩
  · rw [hstart] at hf
    cases hf
  · constructor
    · rintro ⟨r', hsent'⟩
      have hlen := congrArg List.length (hsent.symm.trans hsent')
      simp only [List.length_append, List.length_cons, List.length_nil, length_logFrames, ← hall] at hlen
      exact List.length_eq_zero_iff.mp (by omega)
    · intro hlost
      rw [hlost, List.append_nil] at hall
      exact ⟨r, by rw [hsent, hall]⟩

def cancelledFirst : List OnJobLabel := [.ackSent, .startReturned, .startedSent, .waitReturned, .resultSent]

theorem final_log_complete_false : ¬ ∀ (jobId : String) (id : ContainerId) (run : ContainerRun)
    (running : Dict String ContainerId) (sequences : Dict String Nat) (s : OnJob), run.start = .started →
    (machine jobId id run running sequences).Reachable s → s.ctl = .returned →
      ∃ r : JobResult, s.sent = [.ack jobId, .started jobId] ++
        logFrames jobId (ContainerRun.streamLogs run.chunks) ++ [r.frame] := by
  intro hall
  have hexec : ((machine "job_1" 0 textOutput .empty .empty).exec (fun _ _ => True) cancelledFirst
      (machine "job_1" 0 textOutput .empty .empty).init).any (fun s => decide
        (s.ctl.ended = some true ∧ s.sent.length = 3 ∧
          (ContainerRun.streamLogs textOutput.chunks).length = 1)) = true := by decide +kernel
  obtain ⟨s, hs, hend, hsent, hchunks⟩ := Machine.exists_run _ _ hexec
  obtain ⟨r, hall⟩ := hall _ _ _ _ _ s rfl hs (OnJobCtl.ended_eq.1 hend)
  have hlen := congrArg List.length hall
  simp only [List.length_append, List.length_cons, List.length_nil, length_logFrames, hchunks, hsent] at hlen
  omega

theorem final_log_complete_drained : ∃ p, (recorded "job_1" 0 textOutput .empty .empty).Reachable p ∧
    p.1.ctl = .returned ∧ p.2 = [] ∧
    ((∃ r : JobResult, p.1.sent = [.ack "job_1", .started "job_1"] ++
      logFrames "job_1" (ContainerRun.streamLogs textOutput.chunks) ++ [r.frame]) ↔ p.2 = []) := by
  have hexec : ((recorded "job_1" 0 textOutput .empty .empty).exec (fun _ _ => True)
      (drainedFirst ++ [.resultSent]) (recorded "job_1" 0 textOutput .empty .empty).init).any (fun p => decide
        (p.1.ctl.ended = some true ∧ p.2 = [])) = true := by decide +kernel
  obtain ⟨p, hp, hend, hlost⟩ := Machine.exists_run _ _ hexec
  have hreturned := OnJobCtl.ended_eq.1 hend
  exact ⟨p, hp, hreturned, hlost, final_log_complete_iff "job_1" 0 textOutput .empty .empty rfl hp hreturned⟩

end OnJob

end JobSystem
