namespace Lib

/-- Server-sent events, as a browser parses them. Fields other than `event` and `data` make no event and
are left out. -/
structure ServerEvent where
  name : List Char
  data : List Char
  deriving DecidableEq

namespace EventStream

/-- The complete lines of a text. They end with LF, CR or both; `cr` says that a CR came last. -/
def lines (cr : Bool) (line : List Char) : List Char → List (List Char)
  | [] => []
  | ch :: cs =>
      if ch = '\n' then if cr then lines false [] cs else line :: lines false [] cs
      else if ch = '\r' then line :: lines true [] cs
      else lines false (line ++ [ch]) cs

/-- The buffers of the parser. Every data line adds itself and a line feed. -/
structure Buffers where
  name : List Char
  data : List Char

def Buffers.empty : Buffers := ⟨[], []⟩

def fieldValue : List Char → List Char
  | ' ' :: cs => cs
  | cs => cs

def setField (name value : List Char) (b : Buffers) : Buffers :=
  if name = ['e', 'v', 'e', 'n', 't'] then { b with name := value }
  else if name = ['d', 'a', 't', 'a'] then { b with data := b.data ++ value ++ ['\n'] }
  else b

def splitColon : List Char → List Char × Option (List Char)
  | [] => ([], none)
  | ':' :: cs => ([], some cs)
  | ch :: cs => ((ch :: (splitColon cs).1), (splitColon cs).2)

/-- A line that is not empty. With a colon in front it is a comment, whose name no field has. -/
def setLine (line : List Char) (b : Buffers) : Buffers :=
  let (name, value) := splitColon line
  setField name (fieldValue (value.getD [])) b

def dispatch (b : Buffers) : List ServerEvent :=
  if b.data = [] then []
  else [⟨if b.name = [] then ['m', 'e', 's', 's', 'a', 'g', 'e'] else b.name, b.data.dropLast⟩]

def events (b : Buffers) : List (List Char) → List ServerEvent
  | [] => []
  | [] :: rest => dispatch b ++ events .empty rest
  | line :: rest => events (setLine line b) rest

/-- The events of a response, without the byte order mark it may begin with. -/
def parse (s : List Char) : List ServerEvent :=
  events .empty (lines false [] (if s.head? = some '\uFEFF' then s.tail else s))

def OneLine (cs : List Char) : Prop := ∀ ch ∈ cs, ch ≠ '\n' ∧ ch ≠ '\r'

theorem lines_append {cs : List Char} (h : OneLine cs) (line rest : List Char) :
    lines false line (cs ++ '\n' :: rest) = (line ++ cs) :: lines false [] rest := by
  induction cs generalizing line with
  | nil => simp [lines]
  | cons ch cs ih =>
      obtain ⟨hlf, hcr⟩ := h ch List.mem_cons_self
      rw [List.cons_append, lines, if_neg hlf, if_neg hcr, ih fun c hc => h c (List.mem_cons_of_mem _ hc),
        List.append_assoc, List.singleton_append]

theorem oneLine_of_all {cs : List Char} (h : (cs.all fun ch => decide (ch ≠ '\n' ∧ ch ≠ '\r')) = true) : OneLine cs :=
  fun ch hch => of_decide_eq_true (List.all_eq_true.mp h ch hch)

theorem OneLine.append {cs ds : List Char} (hc : OneLine cs) (hd : OneLine ds) : OneLine (cs ++ ds) := by
  intro ch h
  rcases List.mem_append.mp h with h | h
  · exact hc ch h
  · exact hd ch h

def eventLine (name : List Char) : List Char := ['e', 'v', 'e', 'n', 't', ':', ' '] ++ name

def dataLine (data : List Char) : List Char := ['d', 'a', 't', 'a', ':', ' '] ++ data

def format (name data : List Char) : List Char :=
  eventLine name ++ '\n' :: (dataLine data ++ '\n' :: ['\n'])

theorem oneLine_eventLine {name : List Char} (h : OneLine name) : OneLine (eventLine name) :=
  OneLine.append (oneLine_of_all (by decide)) h

theorem oneLine_dataLine {data : List Char} (h : OneLine data) : OneLine (dataLine data) :=
  OneLine.append (oneLine_of_all (by decide)) h

theorem lines_format {name data : List Char} (hname : OneLine name) (hdata : OneLine data) (rest : List Char) :
    lines false [] (format name data ++ rest) = eventLine name :: dataLine data :: [] :: lines false [] rest := by
  have hblank : OneLine [] := nofun
  rw [format, List.append_assoc, List.cons_append, lines_append (oneLine_eventLine hname), List.append_assoc,
    List.cons_append, lines_append (oneLine_dataLine hdata)]
  exact congrArg (fun ls => eventLine name :: dataLine data :: ls) (lines_append hblank [] rest)

/-- One event is dispatched, and the parser is at its start again. -/
theorem events_format {name data : List Char} (hname : OneLine name) (hdata : OneLine data) (hne : name ≠ [])
    (rest : List Char) :
    events .empty (lines false [] (format name data ++ rest)) =
      ⟨name, data⟩ :: events .empty (lines false [] rest) := by
  have hset : setLine (dataLine data) (setLine (eventLine name) .empty) = ⟨name, data ++ ['\n']⟩ := rfl
  rw [lines_format hname hdata]
  change events (setLine (dataLine data) (setLine (eventLine name) .empty)) ([] :: lines false [] rest) = _
  rw [hset, events, dispatch, if_neg (by simp), if_neg hne, List.dropLast_concat, List.singleton_append]

theorem parse_formats {evs : List ServerEvent} (h : ∀ e ∈ evs, OneLine e.name ∧ OneLine e.data ∧ e.name ≠ []) :
    parse (evs.flatMap fun e => format e.name e.data) = evs := by
  have hevents : events .empty (lines false [] (evs.flatMap fun e => format e.name e.data)) = evs := by
    induction evs with
    | nil => rfl
    | cons e evs ih =>
        obtain ⟨hname, hdata, hne⟩ := h e List.mem_cons_self
        rw [List.flatMap_cons, events_format hname hdata hne, ih fun e' he => h e' (List.mem_cons_of_mem _ he)]
  have hmark : (evs.flatMap fun e => format e.name e.data).head? ≠ some '\uFEFF' := by
    cases evs with
    | nil => nofun
    | cons e evs => rw [List.flatMap_cons]; nofun
  rw [parse, if_neg hmark, hevents]

end EventStream

end Lib
