import JobSystem.Lib.Loads
import Mathlib.Data.List.Chain

namespace Lib

namespace JsonDoc

section Strings

def scans : List Nat → Scan → Option Scan
  | [], s => some s
  | c :: cs, s =>
      match scan c s with
      | .ok (.inr s') => scans cs s'
      | _ => none

theorem scans_append {cs ds : List Nat} {s s' : Scan} (h : scans cs s = some s') :
    scans (cs ++ ds) s = scans ds s' := by
  induction cs generalizing s with
  | nil => cases h; rfl
  | cons c cs ih =>
      rw [List.cons_append, scans]
      rw [scans] at h
      split at h
      · exact ih h
      · cases h

theorem hexValue_digitChar : ∀ d < 16, hexValue (Nat.digitChar d) = some d := by decide

theorem scan_hex (done : List Nat) (high : Option Nat) (left value : Nat) {d : Nat} (hd : d < 16) :
    scan (Nat.digitChar d).toNat (.hex done high left value) = .ok (.inr
      (match left with
        | 0 => accept done high (16 * value + d)
        | left + 1 => .hex done high left (16 * value + d))) := by
  rw [scan, Char.ofNat_toNat, hexValue_digitChar d hd]
  cases left <;> rfl

theorem scans_hexUnit (done : List Nat) (high : Option Nat) {u : Nat} (hu : u < 0x10000) :
    scans (codes (hexUnit u)) (.plain done high) = some (accept done high u) := by
  have hmod : ∀ n, n % 16 < 16 := fun n => Nat.mod_lt n (by decide)
  have hvalue : 16 * (16 * (16 * (16 * 0 + u / 4096 % 16) + u / 256 % 16) + u / 16 % 16) + u % 16 = u := by omega
  rw [hexUnit, codes, List.map_cons, List.map_cons, scans]
  change scans _ (.hex done high 3 0) = _
  simp only [List.map_cons, List.map_nil, scans, scan_hex _ _ _ _ (hmod _)]
  rw [hvalue]

theorem accept_of_not_low {done : List Nat} {high : Option Nat} {u : Nat} (h : high.isSome → isLow u = false) :
    accept done high u = arrive (done ++ high.toList) u := by
  cases high with
  | none => simp [accept]
  | some hi => simp [accept, h rfl]

theorem arrive_of_not_high {done : List Nat} {u : Nat} (h : isHigh u = false) :
    arrive done u = .plain (done ++ [u]) none := by simp [arrive, h]

/-- The text of a code point is read back as that code point, if it does not complete a surrogate pair. -/
theorem scans_escape (done : List Nat) (high : Option Nat) {c : Nat} (hc : c < 0x110000)
    (hlow : high.isSome → isLow c = false) :
    scans (codes (escape c)) (.plain done high) = some (arrive (done ++ high.toList) c) := by
  rw [escape]
  repeat
    split
    · next he => subst he; rfl
  split
  · next h =>
      have hval : (Char.ofNat c).toNat = c := by
        rw [Char.ofNat, dif_pos (Or.inl (by omega))]
        rfl
      have hhigh : isHigh c = false := by simp [isHigh]; omega
      rw [codes, List.map_singleton, hval, scans, scan, if_neg ‹_›, if_neg ‹_›, if_neg (by omega),
        arrive_of_not_high hhigh]
      rfl
  · split
    · next h => rw [scans_hexUnit done high h, accept_of_not_low hlow]
    · next h =>
        have hhi : isHigh (0xD800 + (c - 0x10000) / 0x400) = true := by simp [isHigh]; omega
        have hnot : isLow (0xD800 + (c - 0x10000) / 0x400) = false := by simp [isLow]; omega
        have hlo : isLow (0xDC00 + (c - 0x10000) % 0x400) = true := by simp [isLow]; omega
        have hhigh : isHigh c = false := by simp [isHigh]; omega
        have hjoin : 0x10000 + (0xD800 + (c - 0x10000) / 0x400 - 0xD800) * 0x400 +
            (0xDC00 + (c - 0x10000) % 0x400 - 0xDC00) = c := by omega
        rw [codes_append, scans_append (scans_hexUnit done high (by omega)), accept_of_not_low fun _ => hnot,
          arrive, if_pos hhi, scans_hexUnit _ _ (by omega), accept, if_pos hlo, hjoin, arrive_of_not_high hhigh]

/-- A string that JSON can hold: no two surrogates in it stand where a pair would. -/
structure IsText (s : List Nat) : Prop where
  lt : ∀ c ∈ s, c < 0x110000
  unpaired : s.IsChain fun a b => isHigh a = true → isLow b = false

theorem isText_codes (cs : List Char) : IsText (codes cs) := by
  have hvalid : ∀ ch : Char, ch.toNat < 0xD800 ∨ (0xDFFF < ch.toNat ∧ ch.toNat < 0x110000) := fun ch => ch.valid
  constructor
  · intro c hc
    obtain ⟨ch, -, rfl⟩ := List.mem_map.mp hc
    have h := hvalid ch
    omega
  · have hlow : ∀ c ∈ codes cs, isLow c = false := by
      intro c hc
      obtain ⟨ch, -, rfl⟩ := List.mem_map.mp hc
      have h := hvalid ch
      simp [isLow]
      omega
    have hpairs : (codes cs).Pairwise fun a b => isHigh a = true → isLow b = false :=
      List.pairwise_of_forall_mem_list fun _ _ b hb _ => hlow b hb
    exact hpairs.isChain

theorem scans_escapes {s : List Nat} (done : List Nat) (high : Option Nat) (hlt : ∀ c ∈ s, c < 0x110000)
    (hchain : (high.toList ++ s).IsChain fun a b => isHigh a = true → isLow b = false)
    (hhigh : ∀ h, high = some h → isHigh h = true) :
    ∃ done' high', scans (codes (s.flatMap escape)) (.plain done high) = some (.plain done' high') ∧
      done' ++ high'.toList = done ++ high.toList ++ s := by
  induction s generalizing done high with
  | nil => exact ⟨done, high, rfl, (List.append_nil _).symm⟩
  | cons c s ih =>
      have hlow : high.isSome → isLow c = false := by
        intro hs
        obtain ⟨h, rfl⟩ := Option.isSome_iff_exists.mp hs
        exact (List.isChain_cons.mp hchain).1 c rfl (hhigh h rfl)
      have hrest : (c :: s).IsChain fun a b => isHigh a = true → isLow b = false := hchain.right_of_append
      have htail : ∀ c ∈ s, c < 0x110000 := fun d hd => hlt d (List.mem_cons_of_mem _ hd)
      rw [List.flatMap_cons, codes_append, scans_append (scans_escape done high (hlt c List.mem_cons_self) hlow),
        arrive]
      split
      · next hc =>
          obtain ⟨done', high', hs, heq⟩ := ih (done ++ high.toList) (some c) htail hrest
            (fun h he => by cases he; exact hc)
          exact ⟨done', high', hs, by rw [heq, Option.toList_some, List.append_assoc _ [c], List.singleton_append]⟩
      · obtain ⟨done', high', hs, heq⟩ := ih (done ++ high.toList ++ [c]) none htail hrest.of_cons nofun
        exact ⟨done', high', hs, by rw [heq, Option.toList_none, List.append_nil, List.append_assoc _ [c],
          List.singleton_append]⟩

/-- The text of a string is read back up to its closing quote. -/
theorem scans_text {s : List Nat} (h : IsText s) :
    ∃ done high, scans (codes (s.flatMap escape)) (.plain [] none) = some (.plain done high) ∧
      done ++ high.toList = s :=
  scans_escapes [] none h.lt h.unpaired nofun

end Strings

section Numbers

namespace Number

def pushes : List Char → Number → Option Number
  | [], x => some x
  | ch :: cs, x => (x.push ch).bind (pushes cs)

theorem pushes_append {cs ds : List Char} {x y : Number} (h : pushes cs x = some y) :
    pushes (cs ++ ds) x = pushes ds y := by
  induction cs generalizing x with
  | nil => cases h; rfl
  | cons ch cs ih =>
      obtain ⟨z, hz, hrest⟩ := Option.bind_eq_some_iff.mp h
      rw [List.cons_append, pushes, hz, Option.bind_some, ih hrest]

theorem pushes_whole {ds : List Char} (hds : ∀ d ∈ ds, d.isDigit = true) {x : Number} (hx : x.phase = .whole) :
    pushes ds x = some { x with digits := x.digits ++ ds } := by
  induction ds generalizing x with
  | nil => rw [List.append_nil]; rfl
  | cons d ds ih =>
      have hd := hds d List.mem_cons_self
      have hpush : x.push d = some { x with digits := x.digits ++ [d] } := by simp [push, hx, hd]
      have hrest := ih (fun d' h => hds d' (List.mem_cons_of_mem _ h)) (x := { x with digits := x.digits ++ [d] }) hx
      rw [pushes, hpush, Option.bind_some, hrest, List.append_assoc, List.singleton_append]

theorem pushes_fraction {ds : List Char} (hds : ∀ d ∈ ds, d.isDigit = true) {x : Number}
    (hx : x.phase = .point ∨ x.phase = .fraction) (hne : ds ≠ []) :
    pushes ds x = some { x with digits := x.digits ++ ds, scale := x.scale + ds.length, phase := .fraction } := by
  induction ds generalizing x with
  | nil => exact absurd rfl hne
  | cons d ds ih =>
      have hd := hds d List.mem_cons_self
      have hpush : x.push d = some { x with digits := x.digits ++ [d], scale := x.scale + 1, phase := .fraction } := by
        rcases hx with hx | hx <;> simp [push, hx, hd]
      rw [pushes, hpush, Option.bind_some]
      cases ds with
      | nil => rfl
      | cons e es =>
          rw [ih (fun d' h => hds d' (List.mem_cons_of_mem _ h)) (Or.inr rfl) (List.cons_ne_nil _ _),
            List.append_assoc, List.singleton_append, Nat.add_assoc, Nat.add_comm 1, ← List.length_cons]

theorem pushes_exponent {ds : List Char} (hds : ∀ d ∈ ds, d.isDigit = true) {x : Number}
    (hx : x.phase = .expSign ∨ x.phase = .exponent) (hne : ds ≠ []) :
    pushes ds x = some { x with expDigits := x.expDigits ++ ds, phase := .exponent } := by
  induction ds generalizing x with
  | nil => exact absurd rfl hne
  | cons d ds ih =>
      have hd := hds d List.mem_cons_self
      have hpush : x.push d = some { x with expDigits := x.expDigits ++ [d], phase := .exponent } := by
        rcases hx with hx | hx <;> simp [push, hx, hd]
      rw [pushes, hpush, Option.bind_some]
      cases ds with
      | nil => rfl
      | cons e es =>
          rw [ih (fun d' h => hds d' (List.mem_cons_of_mem _ h)) (Or.inr rfl) (List.cons_ne_nil _ _),
            List.append_assoc, List.singleton_append]

end Number

theorem toDigits_isDigit (n : Nat) : ∀ d ∈ Nat.toDigits 10 n, d.isDigit = true :=
  fun _ hd => Nat.isDigit_of_mem_toDigits (by decide) (by decide) hd

theorem toDigits_concat (n : Nat) : ∃ ds, Nat.toDigits 10 n = ds ++ [Nat.digitChar (n % 10)] := by
  rw [Nat.toDigits_eq_if (by decide)]
  split
  · next h => exact ⟨[], by rw [Nat.mod_eq_of_lt h, List.nil_append]⟩
  · exact ⟨_, rfl⟩

theorem digitChar_ne_zero : ∀ k < 10, k ≠ 0 → Nat.digitChar k ≠ '0' := by decide

theorem toDigits_head {n : Nat} (hn : 0 < n) : ∃ d ds, Nat.toDigits 10 n = d :: ds ∧ d ≠ '0' := by
  induction n using Nat.strong_induction_on with
  | _ n ih =>
      rw [Nat.toDigits_eq_if (by decide)]
      split
      · next h => exact ⟨_, [], rfl, digitChar_ne_zero n h (by omega)⟩
      · obtain ⟨d, ds, hds, hd⟩ := ih (n / 10) (by omega) (by omega)
        exact ⟨d, ds ++ [Nat.digitChar (n % 10)], by rw [hds, List.cons_append], hd⟩

theorem rdropWhile_zeros (ds : List Char) (k : Nat) :
    (ds ++ List.replicate k '0').rdropWhile (· = '0') = ds.rdropWhile (· = '0') := by
  induction k with
  | zero => rw [List.replicate_zero, List.append_nil]
  | succ k ih => rw [List.replicate_succ', ← List.append_assoc, List.rdropWhile_concat_pos _ _ _ (by decide), ih]

theorem isDigit_zeros_append (k : Nat) {ds : List Char} (hds : ∀ d ∈ ds, d.isDigit = true) :
    ∀ d ∈ List.replicate k '0' ++ ds, d.isDigit = true := by
  intro d hd
  rcases List.mem_append.mp hd with hd | hd
  · rw [List.eq_of_mem_replicate hd]
    rfl
  · exact hds d hd

namespace Number

/-- Zeros around the digits of a mantissa change only the exponent. -/
theorem decimal_eq {x : Number} {m z k : Nat} (hm : m % 10 ≠ 0)
    (hx : x.digits = List.replicate z '0' ++ Nat.toDigits 10 m ++ List.replicate k '0') :
    x.decimal = (signed x.negative m,
      signed x.expNegative (Nat.ofDigitChars 10 x.expDigits 0) - x.scale + k) := by
  obtain ⟨ds, hds⟩ := toDigits_concat m
  have hlast : Nat.digitChar (m % 10) ≠ '0' := digitChar_ne_zero _ (Nat.mod_lt m (by decide)) hm
  have hdrop : x.digits.rdropWhile (· = '0') = List.replicate z '0' ++ Nat.toDigits 10 m := by
    rw [hx, rdropWhile_zeros, hds, ← List.append_assoc, List.rdropWhile_concat_neg _ _ _ (by simpa using hlast)]
  have hvalue : Nat.ofDigitChars 10 (List.replicate z '0' ++ Nat.toDigits 10 m) 0 = m := by
    rw [Nat.ofDigitChars_append, Nat.ofDigitChars_replicate_zero, Nat.mul_zero, Nat.ofDigitChars_ten_toDigits]
  have hlen : x.digits.length - (List.replicate z '0' ++ Nat.toDigits 10 m).length = k := by
    rw [hx, List.length_append, List.length_replicate, Nat.add_sub_cancel_left]
  have hne : m ≠ 0 := fun h => hm (by rw [h])
  simp only [decimal, hdrop, hvalue, hlen, hne, if_false]

theorem decimal_zero {x : Number} (hx : ∀ d ∈ x.digits, d = '0') : x.decimal = (0, 0) := by
  have hdrop : x.digits.rdropWhile (· = '0') = [] :=
    List.rdropWhile_eq_nil_iff.mpr fun d hd => decide_eq_true (hx d hd)
  simp only [decimal, hdrop, Nat.ofDigitChars_nil, if_true]

theorem signed_natAbs (n : Int) : signed (decide (n < 0)) n.natAbs = n := by
  rw [signed]
  split
  · next h =>
      have hneg := of_decide_eq_true h
      omega
  · next h =>
      have hpos : ¬ n < 0 := fun hneg => h (decide_eq_true hneg)
      omega

theorem pushes_exponentText {x : Number} (hx : x.phase = .whole ∨ x.phase = .fraction) (hd : x.expDigits = [])
    (e : Int) : ∃ y, pushes (exponentText e) x = some y ∧ y.phase = .exponent ∧ y.negative = x.negative ∧
      y.digits = x.digits ∧ y.scale = x.scale ∧
      signed y.expNegative (Nat.ofDigitChars 10 y.expDigits 0) = e := by
  have hmark : x.push 'e' = some { x with phase := .mark } := by
    rcases hx with hx | hx <;> simp [push, hx]
  have hsign : ({ x with phase := .mark } : Number).push (if e < 0 then '-' else '+') =
      some { x with expNegative := e < 0, phase := .expSign } := by
    by_cases he : e < 0 <;> simp [push, he]
  have hdigits := isDigit_zeros_append (2 - (Nat.toDigits 10 e.natAbs).length) (toDigits_isDigit e.natAbs)
  let y : Number := { x with
    expNegative := e < 0
    expDigits := List.replicate (2 - (Nat.toDigits 10 e.natAbs).length) '0' ++ Nat.toDigits 10 e.natAbs
    phase := .exponent }
  refine ⟨y, ?_, rfl, rfl, rfl, rfl, ?_⟩
  · rw [exponentText, pushes, hmark, Option.bind_some, pushes, hsign, Option.bind_some,
      pushes_exponent hdigits (Or.inl rfl) (by simp), hd, List.nil_append]
  · dsimp only [y]
    rw [Nat.ofDigitChars_append, Nat.ofDigitChars_replicate_zero, Nat.mul_zero, Nat.ofDigitChars_ten_toDigits,
      signed_natAbs]

theorem pushes_start (negative : Bool) {d : Char} {ds : List Char} (hd : d ≠ '0')
    (hds : ∀ c ∈ d :: ds, c.isDigit = true) :
    pushes (d :: ds) (start negative .sign []) = some (start negative .whole (d :: ds)) := by
  have hpush : (start negative .sign []).push d = some (start negative .whole [d]) := by
    simp [push, start, hd, hds d List.mem_cons_self]
  rw [pushes, hpush, Option.bind_some, pushes_whole (fun c hc => hds c (List.mem_cons_of_mem _ hc)) rfl]
  rfl

theorem pushes_toDigits (negative : Bool) (n : Nat) :
    pushes (Nat.toDigits 10 n) (start negative .sign []) =
      some (start negative (if n = 0 then .zero else .whole) (Nat.toDigits 10 n)) := by
  by_cases hn : n = 0
  · subst n
    cases negative <;> rfl
  · obtain ⟨d, ds, hds, hd⟩ := toDigits_head (Nat.pos_of_ne_zero hn)
    have hall := toDigits_isDigit n
    rw [hds] at hall ⊢
    rw [pushes_start negative hd hall, if_neg hn]

/-- The number that the characters make when they are read from its sign on. -/
structure Gives (negative : Bool) (cs : List Char) (m : Nat) (e : Int) (x : Number) : Prop where
  reads : pushes cs (start negative .sign []) = some x
  isFloat : x.phase = .fraction ∨ x.phase = .exponent
  signs : x.negative = negative
  value : x.decimal = (signed negative m, e)

section Repr

variable (negative : Bool) {m : Nat} {e : Int}

/-- `0.00123` -/
theorem gives_small (hm : m % 10 ≠ 0) {p : Int} (hp : p = (Nat.toDigits 10 m).length + e) (hle : p ≤ 0) :
    ∃ x, Gives negative ('0' :: '.' :: (List.replicate p.natAbs '0' ++ Nat.toDigits 10 m)) m e x := by
  refine ⟨⟨negative, '0' :: (List.replicate p.natAbs '0' ++ Nat.toDigits 10 m),
    p.natAbs + (Nat.toDigits 10 m).length, false, [], .fraction⟩, ?_, Or.inl rfl, rfl, ?_⟩
  · have hpoint : pushes ['0', '.'] (start negative .sign []) = some (start negative .point ['0']) := by
      cases negative <;> rfl
    have hread : pushes ('0' :: '.' :: (List.replicate p.natAbs '0' ++ Nat.toDigits 10 m)) (start negative .sign []) =
        pushes (List.replicate p.natAbs '0' ++ Nat.toDigits 10 m) (start negative .point ['0']) := pushes_append hpoint
    rw [pushes_fraction (isDigit_zeros_append _ (toDigits_isDigit m)) (Or.inl rfl) (by simp)] at hread
    rw [List.length_append, List.length_replicate] at hread
    simpa [start] using hread
  · rw [decimal_eq (z := p.natAbs + 1) (k := 0) hm (by simp [List.replicate_succ])]
    have hscale : (0 : Int) - ((p.natAbs + (Nat.toDigits 10 m).length : Nat) : Int) + (0 : Nat) = e := by omega
    exact Prod.ext rfl hscale

/-- `12.3` -/
theorem gives_inside (hm : m % 10 ≠ 0) {p : Int} (hp : p = (Nat.toDigits 10 m).length + e) (hpos : 0 < p)
    (hlt : p < (Nat.toDigits 10 m).length) :
    ∃ x, Gives negative ((Nat.toDigits 10 m).take p.natAbs ++ '.' :: (Nat.toDigits 10 m).drop p.natAbs) m e x := by
  obtain ⟨d, ds, hds, hd⟩ := toDigits_head (n := m) (by omega)
  have hall := toDigits_isDigit m
  have htake : (Nat.toDigits 10 m).take p.natAbs = d :: ds.take (p.natAbs - 1) := by
    rw [hds, List.take_cons (by omega)]
  have hdrop : (Nat.toDigits 10 m).drop p.natAbs ≠ [] := by
    rw [Ne, List.drop_eq_nil_iff]
    omega
  have hwhole : pushes (d :: ds.take (p.natAbs - 1)) (start negative .sign []) =
      some (start negative .whole (d :: ds.take (p.natAbs - 1))) :=
    pushes_start negative hd fun c hc => hall c (List.mem_of_mem_take (by rwa [htake]))
  refine ⟨⟨negative, Nat.toDigits 10 m, (Nat.toDigits 10 m).length - p.natAbs, false, [], .fraction⟩, ?_,
    Or.inl rfl, rfl, ?_⟩
  · rw [htake, pushes_append hwhole, ← htake]
    have hpoint : (start negative .whole ((Nat.toDigits 10 m).take p.natAbs)).push '.' =
        some (start negative .point ((Nat.toDigits 10 m).take p.natAbs)) := rfl
    rw [pushes, hpoint, Option.bind_some,
      pushes_fraction (fun c hc => hall c (List.mem_of_mem_drop hc)) (Or.inl rfl) hdrop]
    simp [start]
  · rw [decimal_eq (z := 0) (k := 0) hm (by simp)]
    simp [signed]
    omega

/-- `12300.0` -/
theorem gives_whole (hm : m % 10 ≠ 0) {p : Int} (hp : p = (Nat.toDigits 10 m).length + e)
    (hle : (Nat.toDigits 10 m).length ≤ p) :
    ∃ x, Gives negative (Nat.toDigits 10 m ++
      List.replicate (p.natAbs - (Nat.toDigits 10 m).length) '0' ++ ['.', '0']) m e x := by
  have hwhole := pushes_toDigits negative m
  rw [if_neg (by omega : m ≠ 0)] at hwhole
  refine ⟨⟨negative, Nat.toDigits 10 m ++ List.replicate (p.natAbs - (Nat.toDigits 10 m).length + 1) '0', 1,
    false, [], .fraction⟩, ?_, Or.inl rfl, rfl, ?_⟩
  · rw [List.append_assoc, pushes_append hwhole,
      pushes_append (pushes_whole (fun d hd => by rw [List.eq_of_mem_replicate hd]; rfl) rfl),
      List.replicate_succ', ← List.append_assoc]
    rfl
  · rw [decimal_eq (z := 0) (k := p.natAbs - (Nat.toDigits 10 m).length + 1) hm (by simp)]
    simp [signed]
    omega

/-- `1e+45` -/
theorem gives_digit (hm : m % 10 ≠ 0) {p : Int} (hp : p = (Nat.toDigits 10 m).length + e) {d : Char}
    (hds : Nat.toDigits 10 m = [d]) : ∃ x, Gives negative (d :: exponentText (p - 1)) m e x := by
  have hwhole := pushes_toDigits negative m
  rw [if_neg (by omega : m ≠ 0), hds] at hwhole
  obtain ⟨x, hread, hphase, hneg, hdig, hscale, hexp⟩ :=
    pushes_exponentText (x := start negative .whole [d]) (Or.inl rfl) rfl (p - 1)
  refine ⟨x, (pushes_append hwhole).trans hread, Or.inr hphase, hneg, ?_⟩
  rw [decimal_eq (z := 0) (k := 0) hm (by simp [hdig, hds, start]), hneg, hexp, hscale]
  simp [start, hds] at hp ⊢
  omega

/-- `1.23e+45` -/
theorem gives_exponent (hm : m % 10 ≠ 0) {p : Int} (hp : p = (Nat.toDigits 10 m).length + e) {d c : Char}
    {ds : List Char} (hds : Nat.toDigits 10 m = d :: c :: ds) :
    ∃ x, Gives negative (d :: '.' :: (c :: ds) ++ exponentText (p - 1)) m e x := by
  obtain ⟨d', ds', hds', hd⟩ := toDigits_head (n := m) (by omega)
  rw [hds] at hds'
  cases hds'
  have hall := toDigits_isDigit m
  rw [hds] at hall
  have hwhole : pushes [d] (start negative .sign []) = some (start negative .whole [d]) :=
    pushes_start negative hd fun c' hc => hall c' (by simp_all)
  have hfrac := pushes_fraction (fun c' hc => hall c' (List.mem_cons_of_mem _ hc))
    (x := start negative .point [d]) (Or.inl rfl) (List.cons_ne_nil c ds)
  let y : Number := ⟨negative, d :: c :: ds, (c :: ds).length, false, [], .fraction⟩
  have hy : pushes (d :: '.' :: (c :: ds)) (start negative .sign []) = some y := by
    have hsplit : pushes (d :: '.' :: (c :: ds)) (start negative .sign []) =
        pushes ('.' :: (c :: ds)) (start negative .whole [d]) := pushes_append hwhole
    refine hsplit.trans (hfrac.trans ?_)
    simp [start, y]
  obtain ⟨x, hread, hphase, hneg, hdig, hscale, hexp⟩ := pushes_exponentText (x := y) (Or.inr rfl) rfl (p - 1)
  refine ⟨x, (pushes_append hy).trans hread, Or.inr hphase, hneg, ?_⟩
  rw [decimal_eq (z := 0) (k := 0) hm (by simp [hdig, hds, y]), hneg, hexp, hscale]
  simp [y, hds] at hp ⊢
  omega

/-- What `repr` writes for a float is read as a float with its decimal number. -/
theorem gives_reprDigits (hm : m % 10 ≠ 0 ∨ (m = 0 ∧ e = 0)) :
    ∃ x, Gives negative (reprDigits (Nat.toDigits 10 m) ((Nat.toDigits 10 m).length + e)) m e x := by
  rcases hm with hm | ⟨rfl, rfl⟩
  · rw [reprDigits.eq_def]
    split
    · next h => exact gives_small negative hm rfl h.2
    · split
      · next h =>
          split
          · next hlt => exact gives_inside negative hm rfl h.1 hlt
          · next hle => exact gives_whole negative hm rfl (Int.not_lt.mp hle)
      · obtain ⟨d, ds, hds, -⟩ := toDigits_head (n := m) (by omega)
        cases ds with
        | nil =>
            have hx := gives_digit (e := e) negative hm rfl hds
            rwa [hds] at hx ⊢
        | cons c ds =>
            have hx := gives_exponent (e := e) negative hm rfl hds
            rwa [hds] at hx ⊢
  · refine ⟨⟨negative, ['0', '0'], 1, false, [], .fraction⟩, ?_, Or.inl rfl, rfl, ?_⟩
    · cases negative <;> rfl
    · rw [decimal_zero (by simp)]
      cases negative <;> rfl

end Repr

end Number

end Numbers

end JsonDoc

end Lib
