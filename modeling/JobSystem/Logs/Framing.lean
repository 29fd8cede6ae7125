import JobSystem.Lib.EventStream
import JobSystem.Lib.RoundTrip
import JobSystem.Logs.Live

namespace JobSystem

open Lib JsonDoc

/-- A string of Python: a Unicode text, in which single surrogates may also stand. -/
abbrev Text := { s : List Nat // IsText s }

variable (it : Interpreter) (room : Nat)

def logPayload (chunk : LogChunk Text Text) : JsonDoc :=
  .obj [(field "stream", .str chunk.stream), (field "sequence", .int chunk.sequence), (field "chunk", .str chunk.chunk)]

def formatLogEvent (chunk : LogChunk Text Text) : Except DumpsError String := do
  let payload ← (logPayload chunk).dumps it (room + 1)
  return "event: log\ndata: " ++ payload ++ "\n\n"

def formatEndEvent : String := "event: end\ndata: {}\n\n"

def formatEvent : StreamEvent Text Text → Except DumpsError String
  | .log chunk => formatLogEvent it room chunk
  | .endEvent => .ok formatEndEvent

def formatEvents : List (StreamEvent Text Text) → Except DumpsError String
  | [] => .ok ""
  | e :: es => do
      let first ← formatEvent it room e
      let rest ← formatEvents es
      return first ++ rest

def readChunk : JsonDoc → Option (LogChunk (List Nat) (List Nat))
  | .obj fields =>
      match Dict.lookup (field "stream") fields, Dict.lookup (field "sequence") fields,
        Dict.lookup (field "chunk") fields with
      | some (.str stream), some (.int (.ofNat sequence)), some (.str chunk) => some ⟨stream, sequence, chunk⟩
      | _, _, _ => none
  | _ => none

def readEvent (e : ServerEvent) : Option (StreamEvent (List Nat) (List Nat)) :=
  match loads it (room + 1) (codes e.data) with
  | .error _ => none
  | .ok v =>
      if e.name = ['l', 'o', 'g'] then (readChunk v).map .log
      else if e.name = ['e', 'n', 'd'] then some .endEvent
      else none

def LogChunk.values (chunk : LogChunk Text Text) : LogChunk (List Nat) (List Nat) :=
  ⟨chunk.stream, chunk.sequence, chunk.chunk⟩

def StreamEvent.values : StreamEvent Text Text → StreamEvent (List Nat) (List Nat)
  | .log chunk => .log chunk.values
  | .endEvent => .endEvent

def StreamEvent.server (it : Interpreter) : StreamEvent Text Text → ServerEvent
  | .log chunk => ⟨['l', 'o', 'g'], (logPayload chunk).text it⟩
  | .endEvent => ⟨['e', 'n', 'd'], ['\x7b', '\x7d']⟩

theorem oneLine_of_printable {cs : List Char} (h : Printable cs) : EventStream.OneLine cs := by
  intro ch hch
  have hle := (h ch hch).1
  constructor <;> rintro rfl <;> revert hle <;> decide

theorem server_oneLine (e : StreamEvent Text Text) :
    EventStream.OneLine (e.server it).name ∧ EventStream.OneLine (e.server it).data ∧ (e.server it).name ≠ [] := by
  cases e with
  | log chunk =>
      have hname : EventStream.OneLine ['l', 'o', 'g'] := EventStream.oneLine_of_all (by decide)
      exact ⟨hname, oneLine_of_printable (printable_text it _), List.cons_ne_nil _ _⟩
  | endEvent =>
      have hname : EventStream.OneLine ['e', 'n', 'd'] := EventStream.oneLine_of_all (by decide)
      have hdata : EventStream.OneLine ['\x7b', '\x7d'] := EventStream.oneLine_of_all (by decide)
      exact ⟨hname, hdata, List.cons_ne_nil _ _⟩

section Events

variable {it room}

theorem wellFormed_logPayload (chunk : LogChunk Text Text) : (logPayload chunk).WellFormed it := by
  have hkeys : [field "stream", field "sequence", field "chunk"].Nodup := by decide
  simp only [logPayload, WellFormed, WellFormedFields]
  exact ⟨hkeys, ⟨isText_codes _, chunk.stream.2⟩, ⟨isText_codes _, trivial⟩, ⟨isText_codes _, chunk.chunk.2⟩, trivial⟩

theorem check_logPayload (chunk : LogChunk Text Text) :
    check it (room + 1) (logPayload chunk) =
      if it.maxDigits < (Nat.toDigits 10 chunk.sequence).length then .error .tooManyDigits else .ok () := by
  simp only [logPayload, check, checkFields, Int.natAbs_natCast]
  split <;> rfl

theorem readChunk_logPayload (chunk : LogChunk Text Text) : readChunk (logPayload chunk) = some chunk.values := rfl

variable (it room) in
/-- The text of an event is that of the event stream, if the payload can be put in text. -/
theorem formatEvent_eq (e : StreamEvent Text Text) :
    (formatEvent it room e = .ok (String.ofList (EventStream.format (e.server it).name (e.server it).data)) ∧
      readEvent it room (e.server it) = some e.values) ∨
    ∃ chunk, e = .log chunk ∧ it.maxDigits < (Nat.toDigits 10 chunk.sequence).length ∧
      formatEvent it room e = .error .tooManyDigits := by
  cases e with
  | endEvent => exact Or.inl ⟨rfl, by rfl⟩
  | log chunk =>
      by_cases hlong : it.maxDigits < (Nat.toDigits 10 chunk.sequence).length
      · refine Or.inr ⟨chunk, rfl, hlong, ?_⟩
        rw [formatEvent, formatLogEvent, dumps, check_logPayload, if_pos hlong]
        rfl
      · have hdumps : (logPayload chunk).dumps it (room + 1) = .ok (String.ofList ((logPayload chunk).text it)) := by
          rw [dumps, check_logPayload, if_neg hlong]
          rfl
        refine Or.inl ⟨?_, ?_⟩
        · have htext : "event: log\ndata: " ++ String.ofList ((logPayload chunk).text it) ++ "\n\n" =
              String.ofList (EventStream.format ['l', 'o', 'g'] ((logPayload chunk).text it)) := by
            apply String.toList_injective
            simp [EventStream.format, EventStream.eventLine, EventStream.dataLine]
          rw [formatEvent, formatLogEvent, hdumps, StreamEvent.server, ← htext]
          rfl
        · have hloads := loads_dumps (wellFormed_logPayload chunk) hdumps (Nat.le_refl _)
          rw [String.toList_ofList] at hloads
          rw [readEvent, StreamEvent.server, hloads]
          dsimp only
          rw [readChunk_logPayload]
          rfl

variable (it room) in
/-- What the client reads in the events of a generator is what the generator emitted. -/
theorem formatEvents_eq (es : List (StreamEvent Text Text)) :
    (formatEvents it room es =
        .ok (String.ofList ((es.map (StreamEvent.server it)).flatMap fun e => EventStream.format e.name e.data)) ∧
      (es.map (StreamEvent.server it)).map (readEvent it room) = es.map fun e => some e.values) ∨
    formatEvents it room es = .error .tooManyDigits ∧
      ∃ chunk, .log chunk ∈ es ∧ it.maxDigits < (Nat.toDigits 10 chunk.sequence).length := by
  induction es with
  | nil => exact Or.inl ⟨rfl, rfl⟩
  | cons e es ih =>
      rcases formatEvent_eq it room e with ⟨htext, hread⟩ | ⟨chunk, rfl, hlong, herr⟩
      · rcases ih with ⟨hrest, hreads⟩ | ⟨herr, chunk, hmem, hlong⟩
        · refine Or.inl ⟨?_, ?_⟩
          · rw [formatEvents, htext, hrest, List.map_cons, List.flatMap_cons, String.ofList_append]
            rfl
          · rw [List.map_cons, List.map_cons, List.map_cons, hread, hreads]
        · refine Or.inr ⟨?_, chunk, List.mem_cons_of_mem _ hmem, hlong⟩
          rw [formatEvents, htext, herr]
          rfl
      · refine Or.inr ⟨?_, chunk, List.mem_cons_self, hlong⟩
        rw [formatEvents, herr]
        rfl

end Events

/-- The response for any chunks and the end event is parsed into one log event for every chunk, with its
stream, sequence and text, in order, and the end event. No response is made only if a sequence number has
more digits than `json.dumps` puts in text. -/
theorem sse_round_trip (chunks : List (LogChunk Text Text)) :
    match formatEvents it room (chunks.map .log ++ [.endEvent]) with
    | .ok text =>
        (EventStream.parse text.toList).map (readEvent it room) =
          chunks.map (fun chunk => some (.log chunk.values)) ++ [some .endEvent]
    | .error _ => ∃ chunk ∈ chunks, it.maxDigits < (Nat.toDigits 10 chunk.sequence).length := by
  rcases formatEvents_eq it room (chunks.map .log ++ [.endEvent]) with
    ⟨htext, hread⟩ | ⟨herr, chunk, hmem, hlong⟩
  · have hlines : ∀ e ∈ (chunks.map StreamEvent.log ++ [StreamEvent.endEvent]).map (StreamEvent.server it),
        EventStream.OneLine e.name ∧ EventStream.OneLine e.data ∧ e.name ≠ [] := by
      intro e he
      obtain ⟨e', -, rfl⟩ := List.mem_map.mp he
      exact server_oneLine it e'
    have hparse := EventStream.parse_formats hlines
    rw [htext]
    dsimp only
    rw [String.toList_ofList, hparse, hread, List.map_append, List.map_map]
    rfl
  · rw [herr]
    refine ⟨chunk, ?_, hlong⟩
    simpa using hmem

end JobSystem
