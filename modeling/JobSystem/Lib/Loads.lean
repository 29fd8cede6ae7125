import JobSystem.Lib.Dict
import JobSystem.Lib.Document
import Mathlib.Data.List.DropRight

namespace Lib

namespace JsonDoc

/-- What `json.loads` raises: `JSONDecodeError`, `UnicodeDecodeError` for bytes that are no text,
`ValueError` for an integer with too many digits, and `RecursionError`. -/
inductive LoadsError
  | decode
  | unicode
  | tooManyDigits
  | recursion
  deriving DecidableEq

section Strings

/-- The point inside a string: what was read, with the escaped high surrogate at its end kept apart. -/
inductive Scan
  | plain (done : List Nat) (high : Option Nat)
  | backslash (done : List Nat) (high : Option Nat)
  | hex (done : List Nat) (high : Option Nat) (left value : Nat)

def hexValue (ch : Char) : Option Nat :=
  if '0' ≤ ch ∧ ch ≤ '9' then some (ch.toNat - '0'.toNat)
  else if 'a' ≤ ch ∧ ch ≤ 'f' then some (ch.toNat - 'a'.toNat + 10)
  else if 'A' ≤ ch ∧ ch ≤ 'F' then some (ch.toNat - 'A'.toNat + 10)
  else none

def unescape : Char → Option Nat
  | '"' => some '"'.toNat
  | '\\' => some '\\'.toNat
  | '/' => some '/'.toNat
  | 'b' => some 0x08
  | 'f' => some 0x0C
  | 'n' => some 0x0A
  | 'r' => some 0x0D
  | 't' => some 0x09
  | _ => none

def arrive (done : List Nat) (u : Nat) : Scan :=
  if isHigh u then .plain done (some u) else .plain (done ++ [u]) none

def accept (done : List Nat) (high : Option Nat) (u : Nat) : Scan :=
  match high with
  | none => arrive done u
  | some h =>
      if isLow u then .plain (done ++ [0x10000 + (h - 0xD800) * 0x400 + (u - 0xDC00)]) none
      else arrive (done ++ [h]) u

/-- One code point inside a string. The closing quote gives the string. -/
def scan (c : Nat) : Scan → Except LoadsError (List Nat ⊕ Scan)
  | .plain done high =>
      if c = '"'.toNat then .ok (.inl (done ++ high.toList))
      else if c = '\\'.toNat then .ok (.inr (.backslash done high))
      else if c < 0x20 then .error .decode
      else .ok (.inr (.plain (done ++ high.toList ++ [c]) none))
  | .backslash done high =>
      if c = 'u'.toNat then .ok (.inr (.hex done high 3 0))
      else
        match unescape (Char.ofNat c) with
        | some u => .ok (.inr (.plain (done ++ high.toList ++ [u]) none))
        | none => .error .decode
  | .hex done high left value =>
      match hexValue (Char.ofNat c) with
      | none => .error .decode
      | some d =>
          match left with
          | 0 => .ok (.inr (accept done high (16 * value + d)))
          | left + 1 => .ok (.inr (.hex done high left (16 * value + d)))

end Strings

section Numbers

inductive Phase
  | sign
  | zero
  | whole
  | point
  | fraction
  | mark
  | expSign
  | exponent
  deriving DecidableEq

/-- A number as far as it was read: its digits, how many of them stand after the point, and the exponent. -/
structure Number where
  negative : Bool
  digits : List Char
  scale : Nat
  expNegative : Bool
  expDigits : List Char
  phase : Phase

namespace Number

def start (negative : Bool) (phase : Phase) (digits : List Char) : Number := ⟨negative, digits, 0, false, [], phase⟩

def signed (negative : Bool) (n : Nat) : Int := if negative then -n else n

def push (ch : Char) (x : Number) : Option Number :=
  match x.phase with
  | .sign =>
      if ch = '0' then some { x with digits := [ch], phase := .zero }
      else if ch.isDigit then some { x with digits := [ch], phase := .whole }
      else none
  | .zero | .whole =>
      if ch.isDigit ∧ x.phase = .whole then some { x with digits := x.digits ++ [ch] }
      else if ch = '.' then some { x with phase := .point }
      else if ch = 'e' ∨ ch = 'E' then some { x with phase := .mark }
      else none
  | .point | .fraction =>
      if ch.isDigit then
        some { x with digits := x.digits ++ [ch], scale := x.scale + 1, phase := .fraction }
      else if x.phase = .fraction ∧ (ch = 'e' ∨ ch = 'E') then some { x with phase := .mark }
      else none
  | .mark =>
      if ch = '+' ∨ ch = '-' then some { x with expNegative := ch = '-', phase := .expSign }
      else if ch.isDigit then some { x with expDigits := [ch], phase := .exponent }
      else none
  | .expSign | .exponent =>
      if ch.isDigit then some { x with expDigits := x.expDigits ++ [ch], phase := .exponent } else none

/-- The digits without the zeros at their end, and the exponent that goes with them. -/
def decimal (x : Number) : Int × Int :=
  let ds := x.digits.rdropWhile (· = '0')
  let m := Nat.ofDigitChars 10 ds 0
  let e := signed x.expNegative (Nat.ofDigitChars 10 x.expDigits 0) - x.scale + (x.digits.length - ds.length : Nat)
  if m = 0 then (0, 0) else (signed x.negative m, e)

variable (it : Interpreter)

def toFloat (x : Number) : JsonDoc :=
  match it.nearest x.decimal.1 x.decimal.2 with
  | some value => .float value
  | none => .infinity x.negative

def toInt (x : Number) : Except LoadsError JsonDoc :=
  if it.maxDigits < x.digits.length then .error .tooManyDigits
  else .ok (.int (signed x.negative (Nat.ofDigitChars 10 x.digits 0)))

/-- A point or an exponent without digits does not belong to the number and cannot stand
behind it, but the integer in front is converted first. -/
def finish (x : Number) : Except LoadsError JsonDoc :=
  match x.phase with
  | .sign => .error .decode
  | .zero | .whole => x.toInt it
  | .fraction | .exponent => .ok (x.toFloat it)
  | .point => do
      let _ ← x.toInt it
      .error .decode
  | .mark | .expSign => do
      if x.scale = 0 then
        let _ ← x.toInt it
      .error .decode

end Number

end Numbers

section Machine

inductive Frame
  | items (vs : List JsonDoc)
  | fields (kvs : List (List Nat × JsonDoc)) (key : List Nat)

inductive Mode
  | value
  | first
  | literal (rest : List Char) (v : JsonDoc)
  | number (x : Number)
  | string (s : Scan)
  | firstKey
  | key (kvs : List (List Nat × JsonDoc))
  | keyText (kvs : List (List Nat × JsonDoc)) (s : Scan)
  | colon (kvs : List (List Nat × JsonDoc)) (key : List Nat)
  | afterItem (vs : List JsonDoc)
  | afterField (kvs : List (List Nat × JsonDoc))
  | done (v : JsonDoc)

structure State where
  stack : List Frame
  mode : Mode

def isSpace (ch : Char) : Bool := ch = ' ' || ch = '\t' || ch = '\n' || ch = '\r'

def settle (v : JsonDoc) : List Frame → State
  | [] => ⟨[], .done v⟩
  | .items vs :: stack => ⟨stack, .afterItem (vs ++ [v])⟩
  | .fields kvs key :: stack => ⟨stack, .afterField (Dict.insert key v kvs)⟩

/-- A value begins. `depth` containers may be open at once. -/
def begin (depth : Nat) (ch : Char) (stack : List Frame) : Except LoadsError State :=
  if ch = '"' then .ok ⟨stack, .string (.plain [] none)⟩
  else if ch = '[' then if depth ≤ stack.length then .error .recursion else .ok ⟨stack, .first⟩
  else if ch = '\x7b' then if depth ≤ stack.length then .error .recursion else .ok ⟨stack, .firstKey⟩
  else if ch = 'n' then .ok ⟨stack, .literal ['u', 'l', 'l'] .null⟩
  else if ch = 't' then .ok ⟨stack, .literal ['r', 'u', 'e'] (.bool true)⟩
  else if ch = 'f' then .ok ⟨stack, .literal ['a', 'l', 's', 'e'] (.bool false)⟩
  else if ch = 'N' then .ok ⟨stack, .literal ['a', 'N'] .nan⟩
  else if ch = 'I' then .ok ⟨stack, .literal ['n', 'f', 'i', 'n', 'i', 't', 'y'] (.infinity false)⟩
  else if ch = '-' then .ok ⟨stack, .number (.start true .sign [])⟩
  else if ch = '0' then .ok ⟨stack, .number (.start false .zero [ch])⟩
  else if ch.isDigit then .ok ⟨stack, .number (.start false .whole [ch])⟩
  else .error .decode

def after (ch : Char) (st : State) : Except LoadsError State :=
  match st.mode with
  | .afterItem vs =>
      if isSpace ch then .ok st
      else if ch = ',' then .ok ⟨.items vs :: st.stack, .value⟩
      else if ch = ']' then .ok (settle (.arr vs) st.stack)
      else .error .decode
  | .afterField kvs =>
      if isSpace ch then .ok st
      else if ch = ',' then .ok ⟨st.stack, .key kvs⟩
      else if ch = '\x7d' then .ok (settle (.obj kvs) st.stack)
      else .error .decode
  | _ => if isSpace ch then .ok st else .error .decode

def step (it : Interpreter) (depth c : Nat) (st : State) : Except LoadsError State :=
  let ch := Char.ofNat c
  match st.mode with
  | .value => if isSpace ch then .ok st else begin depth ch st.stack
  | .first =>
      if isSpace ch then .ok st
      else if ch = ']' then .ok (settle (.arr []) st.stack)
      else begin depth ch (.items [] :: st.stack)
  | .literal [] _ => .error .decode
  | .literal [d] v => if ch = d then .ok (settle v st.stack) else .error .decode
  | .literal (d :: rest) v => if ch = d then .ok ⟨st.stack, .literal rest v⟩ else .error .decode
  | .number x =>
      if ch = 'I' ∧ x.phase = .sign then
        .ok ⟨st.stack, .literal ['n', 'f', 'i', 'n', 'i', 't', 'y'] (.infinity true)⟩
      else
        match x.push ch with
        | some x => .ok ⟨st.stack, .number x⟩
        | none => do
            let v ← x.finish it
            after ch (settle v st.stack)
  | .string s => do
      match ← scan c s with
      | .inl text => .ok (settle (.str text) st.stack)
      | .inr s => .ok ⟨st.stack, .string s⟩
  | .firstKey =>
      if isSpace ch then .ok st
      else if ch = '"' then .ok ⟨st.stack, .keyText [] (.plain [] none)⟩
      else if ch = '\x7d' then .ok (settle (.obj []) st.stack)
      else .error .decode
  | .key kvs =>
      if isSpace ch then .ok st
      else if ch = '"' then .ok ⟨st.stack, .keyText kvs (.plain [] none)⟩
      else .error .decode
  | .keyText kvs s => do
      match ← scan c s with
      | .inl text => .ok ⟨st.stack, .colon kvs text⟩
      | .inr s => .ok ⟨st.stack, .keyText kvs s⟩
  | .colon kvs key =>
      if isSpace ch then .ok st
      else if ch = ':' then .ok ⟨.fields kvs key :: st.stack, .value⟩
      else .error .decode
  | .afterItem _ | .afterField _ | .done _ => after ch st

def finish (it : Interpreter) (st : State) : Except LoadsError JsonDoc :=
  match st.mode, st.stack with
  | .done v, _ => .ok v
  | .number x, [] => x.finish it
  | .number x, _ :: _ => do
      let _ ← x.finish it
      .error .decode
  | _, _ => .error .decode

def run (it : Interpreter) (depth : Nat) : List Nat → State → Except LoadsError JsonDoc
  | [], st => finish it st
  | c :: cs, st => do run it depth cs (← step it depth c st)

def loads (it : Interpreter) (depth : Nat) (s : List Nat) : Except LoadsError JsonDoc := run it depth s ⟨[], .value⟩

end Machine

end JsonDoc

end Lib
