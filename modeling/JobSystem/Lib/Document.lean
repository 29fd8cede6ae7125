import Mathlib.Data.List.Nodup

namespace Lib

def isSurrogate (c : Nat) : Bool := 0xD800 ≤ c && c ≤ 0xDFFF

/-- A Python `str`. One with a surrogate among its code points has no encoding. -/
inductive PyStr
  | text (s : String)
  | surrogate (points : List Nat) (valid : ∀ c ∈ points, c < 0x110000) (lone : ∃ c ∈ points, isSurrogate c = true)
  deriving DecidableEq

namespace PyStr

instance : Coe String PyStr := ⟨text⟩

def encodes : PyStr → Bool
  | text _ => true
  | surrogate _ _ _ => false

/-- `if value:` on an optional string. -/
def truthy : Option PyStr → Bool
  | none => false
  | some s => s ≠ text ""

@[simp] theorem encodes_text (s : String) : (text s).encodes = true := rfl

@[simp] theorem truthy_none : truthy none = false := rfl

@[simp] theorem truthy_some (s : PyStr) : truthy (some s) = decide (s ≠ text "") := rfl

end PyStr

/-- JSON values. A float is kept as the decimal number that its text denotes. -/
inductive Json
  | null
  | bool (b : Bool)
  | int (n : Int)
  | float (mantissa exponent : Int)
  | str (s : PyStr)
  | arr (items : List Json)
  | obj (fields : List (String × Json))

/-- The values that Python's `json` reads and writes. A string is a list of code points. -/
inductive JsonDoc
  | null
  | bool (b : Bool)
  | int (n : Int)
  | float (x : Rat)
  | infinity (negative : Bool)
  | nan
  | str (s : List Nat)
  | arr (items : List JsonDoc)
  | obj (fields : List (List Nat × JsonDoc))

def codes (cs : List Char) : List Nat := cs.map Char.toNat

theorem codes_append (cs ds : List Char) : codes (cs ++ ds) = codes cs ++ codes ds := List.map_append

def PyStr.codes : PyStr → List Nat
  | text s => Lib.codes s.toList
  | surrogate points _ _ => points

@[simp] theorem PyStr.codes_text (s : String) : (text s).codes = Lib.codes s.toList := rfl

def isHigh (c : Nat) : Bool := 0xD800 ≤ c && c ≤ 0xDBFF

def isLow (c : Nat) : Bool := 0xDC00 ≤ c && c ≤ 0xDFFF

/-- The parameters of a Python interpreter: the digits that an integer may have in a text, the float nearest
to `m * 10 ^ e`, where there is one, and the mantissa and exponent of the `repr` of a float. -/
structure Interpreter where
  maxDigits : Nat
  nearest : Int → Int → Option Rat
  repr : Rat → Int × Int

/-- The default limit, and the floats that are small integers. -/
def Interpreter.default : Interpreter where
  maxDigits := 4300
  nearest m e := if e = 0 then some m else none
  repr x := (x.num, 0)

namespace JsonDoc

/-- `bool(value)` -/
def truthy : JsonDoc → Bool
  | null => false
  | bool b => b
  | int n => n ≠ 0
  | float x => x ≠ 0
  | infinity _ | nan => true
  | str s => !s.isEmpty
  | arr items => !items.isEmpty
  | obj fields => !fields.isEmpty

def field (s : String) : List Nat := codes s.toList

section OfJson

variable (it : Interpreter)

mutual

def ofJson : Json → JsonDoc
  | .null => .null
  | .bool b => .bool b
  | .int n => .int n
  | .float m e =>
      match it.nearest m e with
      | some x => .float x
      | none => .infinity (m < 0)
  | .str s => .str s.codes
  | .arr vs => .arr (ofItems vs)
  | .obj kvs => .obj (ofFields kvs)

def ofItems : List Json → List JsonDoc
  | [] => []
  | v :: vs => ofJson v :: ofItems vs

def ofFields : List (String × Json) → List (List Nat × JsonDoc)
  | [] => []
  | (k, v) :: kvs => (codes k.toList, ofJson v) :: ofFields kvs

end

end OfJson

section Text

def hexUnit (u : Nat) : List Char :=
  ['\\', 'u', Nat.digitChar (u / 4096 % 16), Nat.digitChar (u / 256 % 16), Nat.digitChar (u / 16 % 16),
    Nat.digitChar (u % 16)]

/-- One code point inside a string, with `ensure_ascii`. -/
def escape (c : Nat) : List Char :=
  if c = '"'.toNat then ['\\', '"']
  else if c = '\\'.toNat then ['\\', '\\']
  else if c = 0x0A then ['\\', 'n']
  else if c = 0x0D then ['\\', 'r']
  else if c = 0x09 then ['\\', 't']
  else if c = 0x0C then ['\\', 'f']
  else if c = 0x08 then ['\\', 'b']
  else if 0x20 ≤ c ∧ c ≤ 0x7E then [Char.ofNat c]
  else if c < 0x10000 then hexUnit c
  else hexUnit (0xD800 + (c - 0x10000) / 0x400) ++ hexUnit (0xDC00 + (c - 0x10000) % 0x400)

def strText (s : List Nat) : List Char := '"' :: s.flatMap escape ++ ['"']

def signText (negative : Bool) : List Char := if negative then ['-'] else []

def intText (n : Int) : List Char := signText (n < 0) ++ Nat.toDigits 10 n.natAbs

def exponentText (e : Int) : List Char :=
  'e' :: (if e < 0 then '-' else '+') ::
    (List.replicate (2 - (Nat.toDigits 10 e.natAbs).length) '0' ++ Nat.toDigits 10 e.natAbs)

/-- `repr` of the digits `ds` with the decimal point after the first `point` of them. -/
def reprDigits (ds : List Char) (point : Int) : List Char :=
  if -4 < point ∧ point ≤ 0 then '0' :: '.' :: (List.replicate point.natAbs '0' ++ ds)
  else if 0 < point ∧ point ≤ 16 then
    if point < ds.length then ds.take point.natAbs ++ '.' :: ds.drop point.natAbs
    else ds ++ List.replicate (point.natAbs - ds.length) '0' ++ ['.', '0']
  else
    match ds with
    | [] => []
    | [d] => d :: exponentText (point - 1)
    | d :: rest => d :: '.' :: rest ++ exponentText (point - 1)

def floatText (m e : Int) : List Char :=
  signText (m < 0) ++ reprDigits (Nat.toDigits 10 m.natAbs) ((Nat.toDigits 10 m.natAbs).length + e)

variable (it : Interpreter)

mutual

/-- The text of a value, with the default separators. -/
def text : JsonDoc → List Char
  | .null => ['n', 'u', 'l', 'l']
  | .bool true => ['t', 'r', 'u', 'e']
  | .bool false => ['f', 'a', 'l', 's', 'e']
  | .int n => intText n
  | .float x => floatText (it.repr x).1 (it.repr x).2
  | .infinity negative => signText negative ++ ['I', 'n', 'f', 'i', 'n', 'i', 't', 'y']
  | .nan => ['N', 'a', 'N']
  | .str s => strText s
  | .arr [] => ['[', ']']
  | .arr (v :: vs) => '[' :: text v ++ textItems vs
  | .obj [] => ['{', '}']
  | .obj ((k, v) :: kvs) => '{' :: strText k ++ ':' :: ' ' :: text v ++ textFields kvs

def textItems : List JsonDoc → List Char
  | [] => [']']
  | v :: vs => ',' :: ' ' :: text v ++ textItems vs

def textFields : List (List Nat × JsonDoc) → List Char
  | [] => ['}']
  | (k, v) :: kvs => ',' :: ' ' :: strText k ++ ':' :: ' ' :: text v ++ textFields kvs

end

/-- Only printable ASCII characters: nothing is left of line ends and other control characters. -/
def Printable (cs : List Char) : Prop := ∀ ch ∈ cs, 0x20 ≤ ch.toNat ∧ ch.toNat ≤ 0x7E

theorem printable_of_all {cs : List Char} (h : (cs.all fun ch => decide (0x20 ≤ ch.toNat ∧ ch.toNat ≤ 0x7E)) = true) :
    Printable cs := fun ch hch => of_decide_eq_true (List.all_eq_true.mp h ch hch)

theorem Printable.append {cs ds : List Char} (hc : Printable cs) (hd : Printable ds) : Printable (cs ++ ds) := by
  intro ch h
  rcases List.mem_append.mp h with h | h
  · exact hc ch h
  · exact hd ch h

theorem Printable.cons {ch : Char} {cs : List Char} (hc : 0x20 ≤ ch.toNat ∧ ch.toNat ≤ 0x7E) (hcs : Printable cs) :
    Printable (ch :: cs) := List.forall_mem_cons.mpr ⟨hc, hcs⟩

theorem printable_digitChar : ∀ d < 16, 0x20 ≤ (Nat.digitChar d).toNat ∧ (Nat.digitChar d).toNat ≤ 0x7E := by decide

theorem printable_hexUnit (u : Nat) : Printable (hexUnit u) := by
  have hdigit : ∀ n, 0x20 ≤ (Nat.digitChar (n % 16)).toNat ∧ (Nat.digitChar (n % 16)).toNat ≤ 0x7E := fun n =>
    printable_digitChar _ (Nat.mod_lt n (by decide))
  rw [hexUnit]
  exact .cons (by decide) (.cons (by decide) (.cons (hdigit _) (.cons (hdigit _) (.cons (hdigit _)
    (.cons (hdigit _) nofun)))))

theorem printable_escape (c : Nat) : Printable (escape c) := by
  rw [escape]
  repeat
    split
    · exact .cons (by decide) (.cons (by decide) nofun)
  split
  · next h =>
      have hval : (Char.ofNat c).toNat = c := by
        rw [Char.ofNat, dif_pos (Or.inl (by omega))]
        rfl
      exact .cons (by rwa [hval]) nofun
  · split
    · exact printable_hexUnit c
    · exact (printable_hexUnit _).append (printable_hexUnit _)

theorem printable_strText (s : List Nat) : Printable (strText s) := by
  refine .append (.cons (by decide) ?_) (.cons (by decide) nofun)
  intro ch h
  obtain ⟨c, -, hc⟩ := List.mem_flatMap.mp h
  exact printable_escape c ch hc

theorem printable_zeros (k : Nat) : Printable (List.replicate k '0') := by
  intro ch h
  rw [List.eq_of_mem_replicate h]
  decide

theorem printable_toDigits (n : Nat) : Printable (Nat.toDigits 10 n) := by
  intro ch h
  obtain ⟨hl, hu⟩ := Char.isDigit_iff_toNat.mp (Nat.isDigit_of_mem_toDigits (by decide) (by decide) h)
  exact ⟨Nat.le_trans (by decide) hl, Nat.le_trans hu (by decide)⟩

theorem printable_signText (negative : Bool) : Printable (signText negative) := by
  cases negative
  · exact nofun
  · exact .cons (by decide) nofun

theorem printable_exponentText (e : Int) : Printable (exponentText e) := by
  refine .cons (by decide) (.cons ?_ ((printable_zeros _).append (printable_toDigits _)))
  split <;> decide

theorem printable_reprDigits {ds : List Char} (h : Printable ds) (p : Int) : Printable (reprDigits ds p) := by
  rw [reprDigits.eq_def]
  split
  · exact .cons (by decide) (.cons (by decide) ((printable_zeros _).append h))
  · split
    · split
      · exact .append (fun ch hc => h ch (List.mem_of_mem_take hc))
          (.cons (by decide) fun ch hc => h ch (List.mem_of_mem_drop hc))
      · exact (h.append (printable_zeros _)).append (.cons (by decide) (.cons (by decide) nofun))
    · split
      · exact nofun
      · exact .cons (h _ List.mem_cons_self) (printable_exponentText _)
      · exact .append (.cons (h _ List.mem_cons_self) (.cons (by decide) fun ch hc => h ch (List.mem_cons_of_mem _ hc)))
          (printable_exponentText _)

mutual

theorem printable_text : ∀ v : JsonDoc, Printable (v.text it)
  | .null => by rw [text]; exact printable_of_all (by decide)
  | .bool true => by rw [text]; exact printable_of_all (by decide)
  | .bool false => by rw [text]; exact printable_of_all (by decide)
  | .int n => by rw [text]; exact (printable_signText _).append (printable_toDigits _)
  | .float x => by
      rw [text]
      exact (printable_signText _).append (printable_reprDigits (printable_toDigits _) _)
  | .infinity negative => by
      rw [text]
      exact (printable_signText _).append (printable_of_all (by decide))
  | .nan => by rw [text]; exact printable_of_all (by decide)
  | .str s => by rw [text]; exact printable_strText s
  | .arr [] => by rw [text]; exact printable_of_all (by decide)
  | .arr (v :: vs) => by
      rw [text]
      exact .append (.cons (by decide) (printable_text v)) (printable_textItems vs)
  | .obj [] => by rw [text]; exact printable_of_all (by decide)
  | .obj ((k, v) :: kvs) => by
      rw [text]
      exact .append (.append (.cons (by decide) (printable_strText k))
        (.cons (by decide) (.cons (by decide) (printable_text v)))) (printable_textFields kvs)

theorem printable_textItems : ∀ vs : List JsonDoc, Printable (textItems it vs)
  | [] => by rw [textItems]; exact printable_of_all (by decide)
  | v :: vs => by
      rw [textItems]
      exact .append (.cons (by decide) (.cons (by decide) (printable_text v))) (printable_textItems vs)

theorem printable_textFields : ∀ kvs : List (List Nat × JsonDoc), Printable (textFields it kvs)
  | [] => by rw [textFields]; exact printable_of_all (by decide)
  | (k, v) :: kvs => by
      rw [textFields]
      exact .append (.append (.cons (by decide) (.cons (by decide) (printable_strText k)))
        (.cons (by decide) (.cons (by decide) (printable_text v)))) (printable_textFields kvs)

end

end Text

/-- `ValueError` for a long integer and `RecursionError`. -/
inductive DumpsError
  | tooManyDigits
  | recursion
  deriving DecidableEq

section Check

variable (it : Interpreter)

mutual

/-- What `dumps` raises with room on the stack for `room` containers in each other. -/
def check (room : Nat) : JsonDoc → Except DumpsError Unit
  | .int n => if it.maxDigits < (Nat.toDigits 10 n.natAbs).length then .error .tooManyDigits else .ok ()
  | .arr vs =>
      match room with
      | 0 => .error .recursion
      | room + 1 => checkItems room vs
  | .obj kvs =>
      match room with
      | 0 => .error .recursion
      | room + 1 => checkFields room kvs
  | _ => .ok ()

def checkItems (room : Nat) : List JsonDoc → Except DumpsError Unit
  | [] => .ok ()
  | v :: vs => do
      check room v
      checkItems room vs

def checkFields (room : Nat) : List (List Nat × JsonDoc) → Except DumpsError Unit
  | [] => .ok ()
  | (_, v) :: kvs => do
      check room v
      checkFields room kvs

end

mutual

def nesting : JsonDoc → Nat
  | .arr vs => nestingItems vs + 1
  | .obj kvs => nestingFields kvs + 1
  | _ => 0

def nestingItems : List JsonDoc → Nat
  | [] => 0
  | v :: vs => max (nesting v) (nestingItems vs)

def nestingFields : List (List Nat × JsonDoc) → Nat
  | [] => 0
  | (_, v) :: kvs => max (nesting v) (nestingFields kvs)

end

mutual

def digits : JsonDoc → Nat
  | .int n => (Nat.toDigits 10 n.natAbs).length
  | .arr vs => digitsItems vs
  | .obj kvs => digitsFields kvs
  | _ => 0

def digitsItems : List JsonDoc → Nat
  | [] => 0
  | v :: vs => max (digits v) (digitsItems vs)

def digitsFields : List (List Nat × JsonDoc) → Nat
  | [] => 0
  | (_, v) :: kvs => max (digits v) (digitsFields kvs)

end

theorem seq_eq_ok {x y : Except DumpsError Unit} : (do x; y) = .ok () ↔ x = .ok () ∧ y = .ok () := by
  rcases x with - | ⟨⟨⟩⟩
  · exact ⟨nofun, nofun⟩
  · exact ⟨fun h => ⟨rfl, h⟩, fun h => h.2⟩

mutual

/-- A value can be put in text if it nests and counts within the limits. -/
theorem check_eq_ok : ∀ (room : Nat) (v : JsonDoc),
    check it room v = .ok () ↔ v.nesting ≤ room ∧ v.digits ≤ it.maxDigits
  | room, .null | room, .bool _ | room, .float _ | room, .infinity _ | room, .nan | room, .str _ => by
      simp [check, nesting, digits]
  | room, .int n => by
      have hflat : (JsonDoc.int n).nesting = 0 := by simp [nesting]
      rw [check, hflat, digits]
      split
      · next h => exact ⟨nofun, fun hle => absurd h (Nat.not_lt.mpr hle.2)⟩
      · next h => exact ⟨fun _ => ⟨Nat.zero_le _, Nat.not_lt.mp h⟩, fun _ => rfl⟩
  | 0, .arr vs => by
      rw [check, nesting]
      exact ⟨nofun, fun h => absurd h.1 (Nat.not_succ_le_zero _)⟩
  | room + 1, .arr vs => by
      rw [check, nesting, digits, checkItems_eq_ok room vs, Nat.add_le_add_iff_right]
  | 0, .obj kvs => by
      rw [check, nesting]
      exact ⟨nofun, fun h => absurd h.1 (Nat.not_succ_le_zero _)⟩
  | room + 1, .obj kvs => by
      rw [check, nesting, digits, checkFields_eq_ok room kvs, Nat.add_le_add_iff_right]

theorem checkItems_eq_ok : ∀ (room : Nat) (vs : List JsonDoc),
    checkItems it room vs = .ok () ↔ nestingItems vs ≤ room ∧ digitsItems vs ≤ it.maxDigits
  | room, [] => by simp [checkItems, nestingItems, digitsItems]
  | room, v :: vs => by
      rw [checkItems, seq_eq_ok, check_eq_ok room v, checkItems_eq_ok room vs, nestingItems, digitsItems,
        Nat.max_le, Nat.max_le, and_and_and_comm]

theorem checkFields_eq_ok : ∀ (room : Nat) (kvs : List (List Nat × JsonDoc)),
    checkFields it room kvs = .ok () ↔ nestingFields kvs ≤ room ∧ digitsFields kvs ≤ it.maxDigits
  | room, [] => by simp [checkFields, nestingFields, digitsFields]
  | room, (k, v) :: kvs => by
      rw [checkFields, seq_eq_ok, check_eq_ok room v, checkFields_eq_ok room kvs, nestingFields, digitsFields,
        Nat.max_le, Nat.max_le, and_and_and_comm]

end

/-- `json.dumps(v)` -/
def dumps (room : Nat) (v : JsonDoc) : Except DumpsError String := do
  check it room v
  return String.ofList (v.text it)

end Check

end JsonDoc

end Lib
