import JobSystem.Agent.OnJob

namespace JobSystem

open Lib

namespace ContainerRun

theorem join_filter (texts : List String) : String.join (texts.filter (· ≠ "")) = String.join texts := by
  induction texts with
  | nil => rfl
  | cons text rest ih =>
      by_cases h : text = ""
      · rw [List.filter_cons_of_neg (by simp [h]), ih, String.join_cons, h, String.empty_append]
      · rw [List.filter_cons_of_pos (by simp [h]), String.join_cons, String.join_cons, ih]

/-- The chunks are decoded one by one. The empty texts that are left out do not matter. -/
theorem join_streamLogs (pieces : List ByteArray) :
    String.join (streamLogs (pieces.map .bytes)) = String.join (pieces.map Utf8.decodeReplace) := by
  rw [streamLogs, join_filter, List.map_map]
  rfl

/-- Chunked decoding: the texts that `stream_logs` yields for the chunks of an output that is UTF-8
are, put together, the output exactly if no chunk ends inside a character. -/
theorem chunked_decoding_iff {output : ByteArray} {text : String} (htext : Utf8.decode output = some text)
    {pieces : List ByteArray} (hpieces : output.data.toList = pieces.flatMap (·.data.toList)) :
    String.join (streamLogs (pieces.map .bytes)) = text ↔ ∀ b ∈ pieces, b.IsValidUTF8 := by
  rw [join_streamLogs]
  exact Utf8.join_decodeReplace_iff htext hpieces

/-- `é` in two chunks of one byte. -/
theorem chunked_decoding_false : ¬ ∀ (output : ByteArray) (text : String) (pieces : List ByteArray),
    Utf8.decode output = some text → output.data.toList = pieces.flatMap (·.data.toList) →
      (∀ b ∈ pieces, b.data.toList ≠ []) → String.join (streamLogs (pieces.map .bytes)) = text := by
  intro hall
  have hjoin : String.join (streamLogs ([⟨#[0xC3]⟩, ⟨#[0xA9]⟩].map .bytes)) = "é" :=
    hall ⟨#[0xC3, 0xA9]⟩ "é" _ (by decide +kernel) rfl (by simp)
  have hsplit : String.join (streamLogs ([⟨#[0xC3]⟩, ⟨#[0xA9]⟩].map .bytes)) = "\uFFFD\uFFFD" := by
    decide +kernel
  rw [hsplit] at hjoin
  exact absurd hjoin (by decide)

theorem chunked_decoding_characters :
    (String.join (streamLogs ([⟨#[0xC3, 0xA9]⟩, ⟨#[33]⟩].map .bytes)) = "é!" ↔
      ∀ b ∈ [(⟨#[0xC3, 0xA9]⟩ : ByteArray), ⟨#[33]⟩], b.IsValidUTF8) ∧
    String.join (streamLogs ([⟨#[0xC3, 0xA9]⟩, ⟨#[33]⟩].map .bytes)) = "é!" :=
  have hdecode : Utf8.decode ⟨#[0xC3, 0xA9, 33]⟩ = some "é!" := by decide +kernel
  ⟨chunked_decoding_iff hdecode rfl, by decide +kernel⟩

end ContainerRun

namespace OnJob

/-- If the whole log was sent of a container that writes to its stdout alone, then it reads as the
stdout of the result exactly if no chunk ends inside a character. -/
theorem log_reads_stdout_iff {jobId : String} {id : ContainerId} {run : ContainerRun}
    {running : Dict String ContainerId} {sequences : Dict String Nat} {exitCode : Int} {out err : ByteArray}
    {pieces : List ByteArray} (hstart : run.start = .started) (hwait : run.wait = .exited exitCode out err)
    (hchunks : run.chunks = pieces.map .bytes) (hout : out.data.toList = pieces.flatMap (·.data.toList))
    {p : OnJob × List String} (hp : (recorded jobId id run running sequences).Reachable p)
    (hend : p.1.ctl = .returned) (hlost : p.2 = []) :
    ∃ texts stdout stderr error, p.1.sent = [.ack jobId, .started jobId] ++ logFrames jobId texts ++
        [.result jobId exitCode stdout stderr error] ∧
      (String.join texts = stdout ↔ ∀ b ∈ pieces, b.IsValidUTF8) := by
  have hP : Progress jobId run p.1 p.2 := progress_of_reachable hp
  rw [Progress, hend] at hP
  obtain ⟨frames, r, hframes, hr⟩ := hP
  rcases hr with ⟨error, left, hf, -⟩ | ⟨-, ⟨texts, hall, rfl⟩, code, stdout, stderr, hw, rfl⟩
  · rw [hstart] at hf
    cases hf
  · obtain ⟨out', err', hexit, hdecode, -⟩ := waitBlocking_eq_some.mp hw
    cases hwait.symm.trans hexit
    rw [hlost, List.append_nil, hchunks] at hall
    obtain ⟨error, hframe⟩ := jobResult_frame jobId exitCode stdout stderr
    refine ⟨texts, stdout, stderr, error, by rw [hframes, hframe], ?_⟩
    rw [hall, ContainerRun.join_streamLogs]
    exact Utf8.join_decodeReplace_iff hdecode hout

end OnJob

end JobSystem
