import JobSystem.Lib.Loads

namespace Lib

/-- The decoders that `json.loads` may choose for bytes, with surrogates passed through. Their results are
code points. -/
inductive Encoding
  | utf8
  | utf8Sig
  | utf16 (bigEndian mark : Bool)
  | utf32 (bigEndian mark : Bool)
  deriving DecidableEq

namespace Encoding

def detect (bs : List UInt8) : Encoding :=
  if [0x00, 0x00, 0xFE, 0xFF].isPrefixOf bs then .utf32 true true
  else if [0xFF, 0xFE, 0x00, 0x00].isPrefixOf bs then .utf32 false true
  else if [0xFE, 0xFF].isPrefixOf bs then .utf16 true true
  else if [0xFF, 0xFE].isPrefixOf bs then .utf16 false true
  else if [0xEF, 0xBB, 0xBF].isPrefixOf bs then .utf8Sig
  else
    match bs with
    | b₀ :: b₁ :: b₂ :: b₃ :: _ =>
        if b₀ = 0 then if b₁ = 0 then .utf32 true false else .utf16 true false
        else if b₁ = 0 then if b₂ = 0 ∧ b₃ = 0 then .utf32 false false else .utf16 false false
        else .utf8
    | [b₀, b₁] =>
        if b₀ = 0 then .utf16 true false
        else if b₁ = 0 then .utf16 false false
        else .utf8
    | _ => .utf8

def isContinuation (b : UInt8) : Bool := 0x80 ≤ b.toNat && b.toNat ≤ 0xBF

def decodeUtf8 : List UInt8 → Option (List Nat)
  | [] => some []
  | b₀ :: bs =>
      if b₀.toNat < 0x80 then (decodeUtf8 bs).map (b₀.toNat :: ·)
      else
        match bs with
        | [] => none
        | b₁ :: bs =>
            if !isContinuation b₁ then none
            else if 0xC2 ≤ b₀.toNat ∧ b₀.toNat ≤ 0xDF then
              (decodeUtf8 bs).map (((b₀.toNat - 0xC0) * 0x40 + (b₁.toNat - 0x80)) :: ·)
            else
              match bs with
              | [] => none
              | b₂ :: bs =>
                  let c := ((b₀.toNat - 0xE0) * 0x40 + (b₁.toNat - 0x80)) * 0x40 + (b₂.toNat - 0x80)
                  if !isContinuation b₂ then none
                  else if 0xE0 ≤ b₀.toNat ∧ b₀.toNat ≤ 0xEF then
                    if c < 0x800 then none else (decodeUtf8 bs).map (c :: ·)
                  else
                    match bs with
                    | [] => none
                    | b₃ :: bs =>
                        let c := (((b₀.toNat - 0xF0) * 0x40 + (b₁.toNat - 0x80)) * 0x40 + (b₂.toNat - 0x80)) * 0x40 +
                          (b₃.toNat - 0x80)
                        if isContinuation b₃ ∧ 0xF0 ≤ b₀.toNat ∧ b₀.toNat ≤ 0xF4 ∧ 0x10000 ≤ c ∧ c < 0x110000 then
                          (decodeUtf8 bs).map (c :: ·)
                        else none

def units16 (bigEndian : Bool) : List UInt8 → Option (List Nat)
  | [] => some []
  | [_] => none
  | b₀ :: b₁ :: bs =>
      let u := if bigEndian then b₀.toNat * 0x100 + b₁.toNat else b₁.toNat * 0x100 + b₀.toNat
      (units16 bigEndian bs).map (u :: ·)

/-- A high and a low surrogate make one code point. -/
def joinUnits : List Nat → List Nat
  | [] => []
  | [u] => [u]
  | u :: v :: us =>
      if isHigh u && isLow v then (0x10000 + (u - 0xD800) * 0x400 + (v - 0xDC00)) :: joinUnits us
      else u :: joinUnits (v :: us)

def decodeUtf32 (bigEndian : Bool) : List UInt8 → Option (List Nat)
  | [] => some []
  | b₀ :: b₁ :: b₂ :: b₃ :: bs =>
      let c :=
        if bigEndian then ((b₀.toNat * 0x100 + b₁.toNat) * 0x100 + b₂.toNat) * 0x100 + b₃.toNat
        else ((b₃.toNat * 0x100 + b₂.toNat) * 0x100 + b₁.toNat) * 0x100 + b₀.toNat
      if c < 0x110000 then (decodeUtf32 bigEndian bs).map (c :: ·) else none
  | _ => none

def decode (bs : List UInt8) : Encoding → Option (List Nat)
  | utf8 => decodeUtf8 bs
  | utf8Sig => decodeUtf8 (bs.drop 3)
  | utf16 bigEndian mark => (units16 bigEndian (if mark then bs.drop 2 else bs)).map joinUnits
  | utf32 bigEndian mark => decodeUtf32 bigEndian (if mark then bs.drop 4 else bs)

end Encoding

namespace JsonDoc

def loadsBytes (it : Interpreter) (depth : Nat) (bs : List UInt8) : Except LoadsError JsonDoc :=
  match (Encoding.detect bs).decode bs with
  | none => .error .unicode
  | some s => loads it depth s

end JsonDoc

end Lib
