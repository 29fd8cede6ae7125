import Mathlib.Data.List.Basic
import Mathlib.Order.Nat

namespace Lib

namespace Utf8

/-- A character whose first bytes have been read: how many are to come, the range of the next one,
and the code so far. -/
structure Pending where
  needed : Nat
  lower : Nat
  upper : Nat
  code : Nat

def replacement : Char := Char.ofNat 0xFFFD

/-- The first byte of a character. What cannot begin one is replaced. -/
def first (b : Nat) : List Char × Option Pending :=
  if b < 0x80 then ([Char.ofNat b], none)
  else if 0xC2 ≤ b ∧ b ≤ 0xDF then ([], some ⟨0, 0x80, 0xBF, b - 0xC0⟩)
  else if 0xE0 ≤ b ∧ b ≤ 0xEF then
    ([], some ⟨1, if b = 0xE0 then 0xA0 else 0x80, if b = 0xED then 0x9F else 0xBF, b - 0xE0⟩)
  else if 0xF0 ≤ b ∧ b ≤ 0xF4 then
    ([], some ⟨2, if b = 0xF0 then 0x90 else 0x80, if b = 0xF4 then 0x8F else 0xBF, b - 0xF0⟩)
  else ([replacement], none)

/-- A further byte. If it does not fit, what was read so far is replaced as one, and the byte begins
the next character. -/
def further (p : Pending) (b : Nat) : List Char × Option Pending :=
  if p.lower ≤ b ∧ b ≤ p.upper then
    match p.needed with
    | 0 => ([Char.ofNat (p.code * 64 + (b - 0x80))], none)
    | n + 1 => ([], some ⟨n, 0x80, 0xBF, p.code * 64 + (b - 0x80)⟩)
  else (replacement :: (first b).1, (first b).2)

def step : Option Pending → Nat → List Char × Option Pending
  | none, b => first b
  | some p, b => further p b

def decodeFrom : Option Pending → List UInt8 → List Char
  | none, [] => []
  | some _, [] => [replacement]
  | p, b :: bs => (step p b.toNat).1 ++ decodeFrom (step p b.toNat).2 bs

/-- `bytes.decode("utf-8", errors="replace")` -/
def decodeReplace (bytes : ByteArray) : String := String.ofList (decodeFrom none bytes.data.toList)

/-- `bytes.decode()`, which raises for bytes that are no UTF-8. -/
def decode (bytes : ByteArray) : Option String := String.fromUTF8? bytes

theorem decode_eq_some {bytes : ByteArray} : (∃ s, decode bytes = some s) ↔ bytes.IsValidUTF8 := by
  rw [decode, String.fromUTF8?]
  split
  · next h => exact iff_of_true ⟨_, rfl⟩ h
  · next h => exact iff_of_false nofun h

theorem further_done {p : Pending} {b : Nat} (hn : p.needed = 0) (hl : p.lower ≤ b) (hu : b ≤ p.upper) :
    further p b = ([Char.ofNat (p.code * 64 + (b - 0x80))], none) := by
  rw [further, if_pos ⟨hl, hu⟩, hn]

theorem further_more {p : Pending} {b n : Nat} (hn : p.needed = n + 1) (hl : p.lower ≤ b) (hu : b ≤ p.upper) :
    further p b = ([], some ⟨n, 0x80, 0xBF, p.code * 64 + (b - 0x80)⟩) := by
  rw [further, if_pos ⟨hl, hu⟩, hn]

theorem decodeFrom_encodeChar (c : Char) (bs : List UInt8) :
    decodeFrom none (String.utf8EncodeChar c ++ bs) = c :: decodeFrom none bs := by
  have hvalid : c.val.toNat < 0xD800 ∨ (0xDFFF < c.val.toNat ∧ c.val.toNat < 0x110000) := c.valid
  have hc : Char.ofNat c.val.toNat = c := Char.ofNat_toNat c
  have hbyte : ∀ n, n < 256 → (UInt8.ofNat n).toNat = n := fun n hn => UInt8.toNat_ofNat_of_lt' hn
  rw [String.utf8EncodeChar]
  generalize c.val.toNat = v at hvalid hc
  split
  · next h =>
      rw [List.singleton_append, decodeFrom, hbyte v (by omega), step, first, if_pos (by omega), hc]
      rfl
  · split
    · next h =>
        have hcode : (v / 64 % 0x20 + 0xC0 - 0xC0) * 64 + (v % 0x40 + 0x80 - 0x80) = v := by omega
        rw [List.cons_append, List.singleton_append, decodeFrom, hbyte _ (by omega), step, first, if_neg (by omega),
          if_pos (by omega), List.nil_append, decodeFrom, hbyte _ (by omega), step,
          further_done rfl (by dsimp only; omega) (by dsimp only; omega), hcode, hc]
        rfl
    · split
      · next h =>
          have hcode : ((v / 4096 % 0x10 + 0xE0 - 0xE0) * 64 + (v / 64 % 0x40 + 0x80 - 0x80)) * 64 +
              (v % 0x40 + 0x80 - 0x80) = v := by omega
          rw [List.cons_append, List.cons_append, List.singleton_append, decodeFrom, hbyte _ (by omega), step, first,
            if_neg (by omega), if_neg (by omega), if_pos (by omega), List.nil_append, decodeFrom,
            hbyte _ (by omega), step, further_more rfl (by dsimp only; split <;> omega)
              (by dsimp only; split <;> omega),
            List.nil_append, decodeFrom, hbyte _ (by omega), step,
            further_done rfl (by dsimp only; omega) (by dsimp only; omega), hcode, hc]
          rfl
      · next h =>
          have hcode : (((v / 262144 % 0x08 + 0xF0 - 0xF0) * 64 + (v / 4096 % 0x40 + 0x80 - 0x80)) * 64 +
              (v / 64 % 0x40 + 0x80 - 0x80)) * 64 + (v % 0x40 + 0x80 - 0x80) = v := by omega
          rw [List.cons_append, List.cons_append, List.cons_append, List.singleton_append, decodeFrom,
            hbyte _ (by omega), step, first, if_neg (by omega), if_neg (by omega), if_neg (by omega),
            if_pos (by omega), List.nil_append, decodeFrom, hbyte _ (by omega), step,
            further_more rfl (by dsimp only; split <;> omega) (by dsimp only; split <;> omega), List.nil_append,
            decodeFrom, hbyte _ (by omega), step, further_more rfl (by dsimp only; omega) (by dsimp only; omega),
            List.nil_append, decodeFrom, hbyte _ (by omega), step,
            further_done rfl (by dsimp only; omega) (by dsimp only; omega), hcode, hc]
          rfl

theorem decodeFrom_append (cs : List Char) (bs : List UInt8) :
    decodeFrom none (cs.flatMap String.utf8EncodeChar ++ bs) = cs ++ decodeFrom none bs := by
  induction cs with
  | nil => rfl
  | cons c cs ih => rw [List.flatMap_cons, List.append_assoc, decodeFrom_encodeChar, ih, List.cons_append]

theorem toList_utf8Encode (cs : List Char) : cs.utf8Encode.data.toList = cs.flatMap String.utf8EncodeChar := by
  simp [List.utf8Encode]

theorem decodeReplace_utf8Encode (cs : List Char) : decodeReplace cs.utf8Encode = String.ofList cs := by
  have happ := decodeFrom_append cs []
  rw [List.append_nil] at happ
  rw [decodeReplace, toList_utf8Encode, happ, decodeFrom, List.append_nil]

/-- Where decoding succeeds, decoding with replacement gives the same text. -/
theorem decodeReplace_eq {bytes : ByteArray} {s : String} (h : decode bytes = some s) :
    decodeReplace bytes = s := by
  rw [decode, String.fromUTF8?] at h
  split at h
  · next hv =>
      cases h
      obtain ⟨cs, rfl⟩ := hv
      exact decodeReplace_utf8Encode cs
  · cases h

/-- Pieces that are UTF-8 each can be decoded one by one. -/
theorem decodeFrom_flatMap {pieces : List ByteArray} (h : ∀ b ∈ pieces, b.IsValidUTF8) :
    String.ofList (decodeFrom none (pieces.flatMap (·.data.toList))) =
      String.join (pieces.map decodeReplace) := by
  induction pieces with
  | nil => rfl
  | cons b rest ih =>
      obtain ⟨cs, rfl⟩ := h b List.mem_cons_self
      rw [List.flatMap_cons, toList_utf8Encode, decodeFrom_append, String.ofList_append, List.map_cons,
        String.join_cons, decodeReplace_utf8Encode, ih fun b' hb => h b' (List.mem_cons_of_mem _ hb)]

/-- A byte that cannot begin a character. -/
def isContinuation (b : UInt8) : Bool := 0x80 ≤ b.toNat && b.toNat ≤ 0xBF

def countLeads (bs : List UInt8) : Nat := bs.countP fun b => !isContinuation b

/-- The next byte of the character is one that cannot begin another. -/
def Pending.Bounded (p : Pending) : Prop := 0x80 ≤ p.lower ∧ p.upper ≤ 0xBF

theorem first_bounded {b : Nat} {p : Pending} (h : (first b).2 = some p) : p.Bounded := by
  rw [first] at h
  split at h
  · cases h
  · split at h
    · cases h
      exact ⟨le_rfl, le_rfl⟩
    · split at h
      · cases h
        refine ⟨?_, ?_⟩ <;> dsimp only <;> split <;> omega
      · split at h
        · cases h
          refine ⟨?_, ?_⟩ <;> dsimp only <;> split <;> omega
        · cases h

theorem further_bounded {p q : Pending} {b : Nat} (h : (further p b).2 = some q) : q.Bounded := by
  rw [further] at h
  split at h
  · split at h
    · cases h
    · cases h
      exact ⟨le_rfl, le_rfl⟩
  · exact first_bounded h

theorem first_continuation {b : UInt8} (h : isContinuation b = true) : first b.toNat = ([replacement], none) := by
  obtain ⟨hl, hu⟩ : 0x80 ≤ b.toNat ∧ b.toNat ≤ 0xBF := by simpa [isContinuation] using h
  rw [first, if_neg (by omega), if_neg (by omega), if_neg (by omega), if_neg (by omega)]

theorem one_le_first (b : Nat) : 1 ≤ (first b).1.length + (first b).2.toList.length := by
  rw [first]
  split
  · exact le_rfl
  · split
    · exact le_rfl
    · split
      · exact le_rfl
      · split <;> exact le_rfl

theorem one_le_further (p : Pending) (b : Nat) : 1 ≤ (further p b).1.length + (further p b).2.toList.length := by
  rw [further]
  split
  · split <;> exact le_rfl
  · exact Nat.le_add_right_of_le (Nat.succ_le_succ (Nat.zero_le _))

/-- Every byte that begins a character and every character in progress give a character or more. -/
theorem countLeads_le (bs : List UInt8) {p : Option Pending} (hp : ∀ q, p = some q → q.Bounded) :
    countLeads bs + p.toList.length ≤ (decodeFrom p bs).length := by
  induction bs generalizing p with
  | nil => cases p <;> exact le_rfl
  | cons b bs ih =>
      have hnext : ∀ q, (step p b.toNat).2 = some q → q.Bounded := by
        cases p with
        | none => exact fun q hq => first_bounded hq
        | some p => exact fun q hq => further_bounded hq
      have hrest := ih hnext
      have hbyte : countLeads [b] + p.toList.length ≤
          (step p b.toNat).1.length + (step p b.toNat).2.toList.length := by
        have hle : countLeads [b] ≤ 1 := List.countP_le_length
        cases p with
        | none => exact hle.trans (one_le_first _)
        | some p =>
            by_cases hfits : p.lower ≤ b.toNat ∧ b.toNat ≤ p.upper
            · have hcont : countLeads [b] = 0 := by
                obtain ⟨hl, hu⟩ := hp p rfl
                simp [countLeads, isContinuation]
                omega
              rw [hcont]
              exact one_le_further p _
            · have hfirst := one_le_first b.toNat
              rw [step, further, if_neg hfits]
              simp only [List.length_cons, Option.toList_some, List.length_nil]
              omega
      have hsum : countLeads (b :: bs) = countLeads [b] + countLeads bs := by
        rw [countLeads, countLeads, countLeads, ← List.countP_append]
        rfl
      rw [decodeFrom, List.length_append, hsum]
      omega

/-- A text that begins in the middle of a character is decoded to one character more. -/
theorem countLeads_lt {b : UInt8} {bs : List UInt8} (h : isContinuation b = true) :
    countLeads (b :: bs) < (decodeFrom none (b :: bs)).length := by
  have hle := countLeads_le bs (p := none) nofun
  have hcount : countLeads (b :: bs) = countLeads bs := List.countP_cons_of_neg (by simp [h])
  rw [decodeFrom, step, first_continuation h, hcount]
  exact Nat.lt_of_le_of_lt hle (Nat.lt_succ_self _)

theorem utf8EncodeChar_eq (c : Char) : ∃ b bs, String.utf8EncodeChar c = b :: bs ∧
    isContinuation b = false ∧ ∀ b' ∈ bs, isContinuation b' = true := by
  have hvalid : c.val.toNat < 0xD800 ∨ (0xDFFF < c.val.toNat ∧ c.val.toNat < 0x110000) := c.valid
  have hbyte : ∀ n, n < 256 → (UInt8.ofNat n).toNat = n := fun n hn => UInt8.toNat_ofNat_of_lt' hn
  have hlead : ∀ n, n < 256 → n < 0x80 ∨ 0xBF < n → isContinuation (UInt8.ofNat n) = false := by
    intro n hn h
    rw [isContinuation, hbyte n hn]
    simp
    omega
  have hcont : ∀ n, n < 0x40 → isContinuation (UInt8.ofNat (n + 0x80)) = true := by
    intro n hn
    rw [isContinuation, hbyte _ (by omega)]
    simp
    omega
  rw [String.utf8EncodeChar]
  generalize c.val.toNat = v at hvalid
  split
  · exact ⟨_, _, rfl, hlead v (by omega) (by omega), by simp⟩
  · split
    · refine ⟨_, _, rfl, hlead _ (by omega) (by omega), ?_⟩
      exact List.forall_mem_singleton.mpr (hcont _ (by omega))
    · split
      · refine ⟨_, _, rfl, hlead _ (by omega) (by omega), ?_⟩
        exact List.forall_mem_cons.mpr ⟨hcont _ (by omega), List.forall_mem_singleton.mpr (hcont _ (by omega))⟩
      · refine ⟨_, _, rfl, hlead _ (by omega) (by omega), ?_⟩
        exact List.forall_mem_cons.mpr ⟨hcont _ (by omega), List.forall_mem_cons.mpr
          ⟨hcont _ (by omega), List.forall_mem_singleton.mpr (hcont _ (by omega))⟩⟩

theorem countLeads_encode (cs : List Char) : countLeads (cs.flatMap String.utf8EncodeChar) = cs.length := by
  induction cs with
  | nil => rfl
  | cons c cs ih =>
      obtain ⟨b, bs, hc, hb, hbs⟩ := utf8EncodeChar_eq c
      have hone : countLeads (String.utf8EncodeChar c) = 1 := by
        rw [hc, countLeads, List.countP_cons_of_pos (by simp [hb]),
          List.countP_eq_zero.mpr fun b' hb' => by simp [hbs b' hb']]
      rw [countLeads] at hone ih ⊢
      rw [List.flatMap_cons, List.countP_append, hone, ih, List.length_cons, Nat.add_comm]

/-- A text is cut between two characters where the next byte begins one. -/
theorem encode_split {cs : List Char} {xs ys : List UInt8} (h : cs.flatMap String.utf8EncodeChar = xs ++ ys)
    (hys : ∀ b, ys.head? = some b → isContinuation b = false) :
    ∃ cs₁ cs₂ : List Char, xs = cs₁.flatMap String.utf8EncodeChar ∧ ys = cs₂.flatMap String.utf8EncodeChar := by
  induction cs generalizing xs with
  | nil =>
      obtain ⟨rfl, rfl⟩ := List.append_eq_nil_iff.mp h.symm
      exact ⟨[], [], rfl, rfl⟩
  | cons c cs ih =>
      rw [List.flatMap_cons] at h
      rcases List.append_eq_append_iff.mp h with ⟨rest, rfl, hrest⟩ | ⟨rest, hc, hrest⟩
      · obtain ⟨cs₁, cs₂, rfl, rfl⟩ := ih hrest
        exact ⟨c :: cs₁, cs₂, by rw [List.flatMap_cons], rfl⟩
      · cases xs with
        | nil => exact ⟨[], c :: cs, rfl, by rw [List.flatMap_cons, h, List.nil_append]⟩
        | cons x xs =>
            cases rest with
            | nil => exact ⟨[c], cs, by simpa using hc.symm, by simpa using hrest⟩
            | cons y rest =>
                -- the cut would be inside the character
                obtain ⟨b, bs, hb, -, hbs⟩ := utf8EncodeChar_eq c
                rw [hb, List.cons_append, List.cons.injEq] at hc
                have hy := hys y (by rw [hrest]; rfl)
                rw [hbs y (by rw [hc.2]; simp)] at hy
                cases hy

theorem isValidUTF8_of_encode {bytes : ByteArray} {cs : List Char}
    (h : bytes.data.toList = cs.flatMap String.utf8EncodeChar) : bytes.IsValidUTF8 := by
  refine ⟨cs, ByteArray.ext (Array.toList_inj.mp ?_)⟩
  rw [toList_utf8Encode, h]

/-- If no piece of a text begins in the middle of a character, all pieces are texts. -/
theorem isValidUTF8_pieces {pieces : List ByteArray} {cs : List Char}
    (h : cs.flatMap String.utf8EncodeChar = pieces.flatMap (·.data.toList))
    (hp : ∀ b ∈ pieces, ∀ x, b.data.toList.head? = some x → isContinuation x = false) :
    ∀ b ∈ pieces, b.IsValidUTF8 := by
  induction pieces generalizing cs with
  | nil => nofun
  | cons b rest ih =>
      have hrest : ∀ c ∈ rest, ∀ x, c.data.toList.head? = some x → isContinuation x = false :=
        fun c hc => hp c (List.mem_cons_of_mem _ hc)
      have hhead : ∀ x, (rest.flatMap (·.data.toList)).head? = some x → isContinuation x = false := by
        intro x hx
        rw [List.head?_flatMap] at hx
        obtain ⟨c, hc, hcx⟩ := List.exists_of_findSome?_eq_some hx
        exact hrest c hc x hcx
      rw [List.flatMap_cons] at h
      obtain ⟨cs₁, cs₂, hb, htail⟩ := encode_split h hhead
      intro c hc
      rcases List.mem_cons.mp hc with rfl | hc
      · exact isValidUTF8_of_encode hb
      · exact ih htail.symm hrest c hc

theorem length_decodeReplace (bytes : ByteArray) :
    (decodeReplace bytes).length = (decodeFrom none bytes.data.toList).length := by
  rw [decodeReplace, String.length_ofList]

/-- Pieces that are decoded one by one give at least as many characters as begin in them, and more if
one of them begins in the middle of a character. -/
theorem countLeads_pieces (pieces : List ByteArray) :
    countLeads (pieces.flatMap (·.data.toList)) ≤ (String.join (pieces.map decodeReplace)).length ∧
      (countLeads (pieces.flatMap (·.data.toList)) = (String.join (pieces.map decodeReplace)).length →
        ∀ b ∈ pieces, ∀ x, b.data.toList.head? = some x → isContinuation x = false) := by
  induction pieces with
  | nil => exact ⟨Nat.zero_le _, nofun⟩
  | cons b rest ih =>
      obtain ⟨hrest, heq⟩ := ih
      have hb := countLeads_le b.data.toList (p := none) nofun
      rw [← length_decodeReplace, Option.toList_none, List.length_nil, Nat.add_zero] at hb
      have hsum : countLeads ((b :: rest).flatMap (·.data.toList)) =
          countLeads b.data.toList + countLeads (rest.flatMap (·.data.toList)) := List.countP_append
      rw [hsum, List.map_cons, String.join_cons, String.length_append]
      refine ⟨Nat.add_le_add hb hrest, fun hsame c hc x hx => ?_⟩
      rcases List.mem_cons.mp hc with rfl | hc
      · cases hcont : isContinuation x with
        | false => rfl
        | true =>
            obtain ⟨xs, hxs⟩ := List.head?_eq_some_iff.mp hx
            have hlt : countLeads (x :: xs) < (decodeFrom none (x :: xs)).length := countLeads_lt hcont
            rw [← hxs, ← length_decodeReplace] at hlt
            omega
      · exact heq (by omega) c hc x hx

/-- Decoding the pieces of a text one by one gives the text exactly if each of them is a text. -/
theorem join_decodeReplace_iff {bytes : ByteArray} {s : String} (hs : decode bytes = some s)
    {pieces : List ByteArray} (hp : bytes.data.toList = pieces.flatMap (·.data.toList)) :
    String.join (pieces.map decodeReplace) = s ↔ ∀ b ∈ pieces, b.IsValidUTF8 := by
  constructor
  · intro hjoin
    obtain ⟨cs, rfl⟩ := decode_eq_some.mp ⟨s, hs⟩
    rw [toList_utf8Encode] at hp
    refine isValidUTF8_pieces hp ((countLeads_pieces pieces).2 ?_)
    rw [hjoin, ← hp, countLeads_encode, ← decodeReplace_eq hs, decodeReplace_utf8Encode, String.length_ofList]
  · intro hvalid
    rw [← decodeFrom_flatMap hvalid, ← hp]
    exact decodeReplace_eq hs

end Utf8

end Lib
