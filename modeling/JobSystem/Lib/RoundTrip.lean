import JobSystem.Lib.Scanning

namespace Lib

namespace JsonDoc

section Machine

variable {it : Interpreter} {depth : Nat}

theorem run_cons {c : Nat} {cs : List Nat} {s t : State} (h : step it depth c s = .ok t) :
    run it depth (c :: cs) s = run it depth cs t := by rw [run, h]; rfl

theorem run_scans (mode : Scan → Mode) {cs rest : List Nat} {s s' : Scan} (h : scans cs s = some s') {stack : List Frame}
    (hmode : ∀ c s s', scan c s = .ok (.inr s') →
      step it depth c ⟨stack, mode s⟩ = .ok ⟨stack, mode s'⟩) :
    run it depth (cs ++ rest) ⟨stack, mode s⟩ = run it depth rest ⟨stack, mode s'⟩ := by
  induction cs generalizing s with
  | nil => cases h; rfl
  | cons c cs ih =>
      rw [scans] at h
      split at h
      · next hs => rw [List.cons_append, run_cons (hmode _ _ _ hs), ih h]
      · cases h

theorem run_string {s : List Nat} (hs : IsText s) (rest : List Nat) (stack : List Frame) :
    run it depth (codes (strText s) ++ rest) ⟨stack, .value⟩ = run it depth rest (settle (.str s) stack) := by
  obtain ⟨done, high, hscan, rfl⟩ := scans_text hs
  rw [strText, codes_append, List.append_assoc, codes, List.map_cons, List.cons_append,
    run_cons (t := ⟨stack, .string (.plain [] none)⟩) rfl]
  refine (run_scans .string hscan ?_).trans (run_cons rfl)
  intro c s s' h
  simp only [step, h]
  rfl

theorem run_key {key : List Nat} (hkey : IsText key) (rest : List Nat) (stack : List Frame)
    (kvs : List (List Nat × JsonDoc)) {mode : Mode}
    (hmode : step it depth '"'.toNat ⟨stack, mode⟩ = .ok ⟨stack, .keyText kvs (.plain [] none)⟩) :
    run it depth (codes (strText key ++ [':', ' ']) ++ rest) ⟨stack, mode⟩ =
      run it depth rest ⟨.fields kvs key :: stack, .value⟩ := by
  obtain ⟨done, high, hscan, rfl⟩ := scans_text hkey
  rw [strText, codes_append, codes_append, List.append_assoc, List.append_assoc, codes, List.map_cons,
    List.cons_append, run_cons hmode]
  refine (run_scans (.keyText kvs) hscan ?_).trans ?_
  · intro c s s' h
    simp only [step, h]
    rfl
  · exact (run_cons (t := ⟨stack, .colon kvs (done ++ high.toList)⟩) rfl).trans
      ((run_cons (t := ⟨.fields kvs (done ++ high.toList) :: stack, .value⟩) rfl).trans (run_cons rfl))

theorem run_number {cs : List Char} {rest : List Nat} {x y : Number} (h : Number.pushes cs x = some y)
    (stack : List Frame) :
    run it depth (codes cs ++ rest) ⟨stack, .number x⟩ = run it depth rest ⟨stack, .number y⟩ := by
  induction cs generalizing x with
  | nil => cases h; rfl
  | cons ch cs ih =>
      obtain ⟨z, hz, hrest⟩ := Option.bind_eq_some_iff.mp h
      have hinf : ¬(ch = 'I' ∧ x.phase = .sign) := by
        rintro ⟨rfl, hp⟩
        simp [Number.push, hp] at hz
      have hstep : step it depth ch.toNat ⟨stack, .number x⟩ = .ok ⟨stack, .number z⟩ := by
        simp only [step, Char.ofNat_toNat, hinf, if_false, hz]
      rw [codes, List.map_cons, List.cons_append, run_cons hstep]
      exact ih hrest

def Delimits (rest : List Nat) : Prop := ∀ c, rest.head? = some c → ∃ ch ∈ [',', ']', '\x7d'], c = ch.toNat

theorem settle_after (v : JsonDoc) (stack : List Frame) (c : Nat) :
    step it depth c (settle v stack) = after (Char.ofNat c) (settle v stack) := by
  rcases stack with - | ⟨vs | ⟨kvs, key⟩, stack⟩ <;> rfl

theorem run_delimited {x : Number} {v : JsonDoc} {rest : List Nat} (hx : x.finish it = .ok v)
    (hrest : Delimits rest) (stack : List Frame) :
    run it depth rest ⟨stack, .number x⟩ = run it depth rest (settle v stack) := by
  cases rest with
  | nil =>
      rw [run, run, finish.eq_def]
      rcases stack with - | ⟨vs | ⟨kvs, key⟩, stack⟩
      · exact hx
      · dsimp only
        rw [hx]
        rfl
      · dsimp only
        rw [hx]
        rfl
  | cons c cs =>
      obtain ⟨ch, hch, rfl⟩ := hrest c rfl
      have hpush : x.push ch = none := by
        simp only [List.mem_cons, List.not_mem_nil, or_false] at hch
        rcases hch with rfl | rfl | rfl <;> rw [Number.push] <;> split <;> simp
      have hinf : ¬(ch = 'I' ∧ x.phase = .sign) := by
        rintro ⟨rfl, -⟩
        revert hch
        decide
      rw [run, run, settle_after]
      simp only [step, Char.ofNat_toNat, hinf, if_false, hpush, hx]
      rfl

theorem begin_digit {d : Char} (hd : d.isDigit = true) {x : Number}
    (hx : (Number.start false .sign []).push d = some x) (stack : List Frame) :
    begin depth d stack = .ok ⟨stack, .number x⟩ := by
  have hne : ∀ ch : Char, ch.isDigit = false → ¬ d = ch := by
    rintro ch hch rfl
    rw [hd] at hch
    cases hch
  rw [begin, if_neg (hne _ rfl), if_neg (hne _ rfl), if_neg (hne _ rfl), if_neg (hne _ rfl), if_neg (hne _ rfl),
    if_neg (hne _ rfl), if_neg (hne _ rfl), if_neg (hne _ rfl), if_neg (hne _ rfl)]
  by_cases hz : d = '0'
  · subst d
    cases hx
    rfl
  · rw [if_neg hz, if_pos hd]
    simp [Number.push, Number.start, hz, hd] at hx
    rw [← hx]
    rfl

theorem isSpace_digit {d : Char} (hd : d.isDigit = true) : isSpace d = false := by
  rw [← Bool.not_eq_true]
  intro hs
  simp only [isSpace, Bool.or_eq_true, decide_eq_true_eq] at hs
  rcases hs with ((rfl | rfl) | rfl) | rfl <;> cases hd

theorem run_numberText {negative : Bool} {d : Char} {ds : List Char} {x : Number} {v : JsonDoc} {rest : List Nat}
    (hd : d.isDigit = true) (hx : Number.pushes (d :: ds) (.start negative .sign []) = some x)
    (hv : x.finish it = .ok v) (hrest : Delimits rest) (stack : List Frame) :
    run it depth (codes (signText negative ++ d :: ds) ++ rest) ⟨stack, .value⟩ =
      run it depth rest (settle v stack) := by
  cases negative with
  | true =>
      rw [signText, if_pos rfl, List.singleton_append, codes, List.map_cons, List.cons_append,
        run_cons (t := ⟨stack, .number (.start true .sign [])⟩) rfl]
      exact (run_number hx stack).trans (run_delimited hv hrest stack)
  | false =>
      obtain ⟨y, hy, hrun⟩ := Option.bind_eq_some_iff.mp hx
      have hstep : step it depth d.toNat ⟨stack, .value⟩ = .ok ⟨stack, .number y⟩ := by
        simp only [step, Char.ofNat_toNat, isSpace_digit hd, begin_digit hd hy, Bool.false_eq_true, if_false]
      rw [signText, if_neg Bool.false_ne_true, List.nil_append, codes, List.map_cons, List.cons_append,
        run_cons hstep]
      exact (run_number hrun stack).trans (run_delimited hv hrest stack)

theorem pushes_head {negative : Bool} {cs : List Char} {x : Number}
    (h : Number.pushes cs (.start negative .sign []) = some x) (hx : x.phase ≠ .sign) :
    ∃ d ds, cs = d :: ds ∧ d.isDigit = true := by
  cases cs with
  | nil => cases h; exact absurd rfl hx
  | cons d ds =>
      obtain ⟨y, hy, -⟩ := Option.bind_eq_some_iff.mp h
      refine ⟨d, ds, rfl, ?_⟩
      by_cases hd : d = '0'
      · subst d; rfl
      · cases hdig : d.isDigit with
        | true => rfl
        | false => simp [Number.push, Number.start, hd, hdig] at hy

theorem run_intText {n : Int} (hn : (Nat.toDigits 10 n.natAbs).length ≤ it.maxDigits) {rest : List Nat}
    (hrest : Delimits rest) (stack : List Frame) :
    run it depth (codes (intText n) ++ rest) ⟨stack, .value⟩ = run it depth rest (settle (.int n) stack) := by
  have hread := Number.pushes_toDigits (decide (n < 0)) n.natAbs
  obtain ⟨d, ds, hds, hd⟩ := pushes_head hread (by dsimp only [Number.start]; split <;> nofun)
  have hfinish : (Number.start (decide (n < 0)) (if n.natAbs = 0 then .zero else .whole)
      (Nat.toDigits 10 n.natAbs)).finish it = .ok (.int n) := by
    have hint : (Number.start (decide (n < 0)) (if n.natAbs = 0 then .zero else .whole)
        (Nat.toDigits 10 n.natAbs)).toInt it = .ok (.int n) := by
      rw [Number.toInt, if_neg (by dsimp only [Number.start]; omega)]
      dsimp only [Number.start]
      rw [Nat.ofDigitChars_ten_toDigits, Number.signed_natAbs]
    rw [Number.finish]
    by_cases hz : n.natAbs = 0
    · rw [if_pos hz] at hint ⊢
      exact hint
    · rw [if_neg hz] at hint ⊢
      exact hint
  rw [hds] at hread hfinish
  rw [intText, hds]
  exact run_numberText hd hread hfinish hrest stack

/-- A float is read in its `repr`, whose mantissa has no trailing zeros. -/
def IsFloat (it : Interpreter) (x : Rat) : Prop :=
  ((it.repr x).1.natAbs % 10 ≠ 0 ∨ ((it.repr x).1 = 0 ∧ (it.repr x).2 = 0)) ∧
    it.nearest (it.repr x).1 (it.repr x).2 = some x

/-- The characters of the `repr` of a float, and the number that they make. -/
theorem floatText_eq {m e : Int} (h : m.natAbs % 10 ≠ 0 ∨ (m = 0 ∧ e = 0)) :
    ∃ d ds x, floatText m e = signText (decide (m < 0)) ++ d :: ds ∧ d.isDigit = true ∧
      Number.pushes (d :: ds) (.start (decide (m < 0)) .sign []) = some x ∧
      (x.phase = .fraction ∨ x.phase = .exponent) ∧ x.decimal = (m, e) := by
  obtain ⟨x, hx⟩ := Number.gives_reprDigits (decide (m < 0)) (m := m.natAbs) (e := e)
    (h.imp_right fun h => ⟨by rw [h.1]; rfl, h.2⟩)
  obtain ⟨d, ds, hds, hd⟩ := pushes_head hx.reads (by rcases hx.isFloat with h | h <;> rw [h] <;> nofun)
  have hread := hx.reads
  rw [hds] at hread
  refine ⟨d, ds, x, by rw [floatText, hds], hd, hread, hx.isFloat, ?_⟩
  rw [hx.value, Number.signed_natAbs]

theorem run_floatText {x : Rat} (h : IsFloat it x) {rest : List Nat} (hrest : Delimits rest) (stack : List Frame) :
    run it depth (codes (floatText (it.repr x).1 (it.repr x).2) ++ rest) ⟨stack, .value⟩ =
      run it depth rest (settle (.float x) stack) := by
  obtain ⟨hm, hnear⟩ := h
  obtain ⟨d, ds, y, htext, hd, hread, hphase, hvalue⟩ := floatText_eq hm
  have hfinish : y.finish it = .ok (.float x) := by
    have hfloat : y.toFloat it = .float x := by rw [Number.toFloat, hvalue, hnear]
    rw [Number.finish]
    rcases hphase with h | h <;> rw [h, ← hfloat]
  rw [htext]
  exact run_numberText hd hread hfinish hrest stack

end Machine

section Values

mutual

/-- The values of Python: strings whose surrogates are unpaired, floats, and dictionaries. -/
def WellFormed (it : Interpreter) : JsonDoc → Prop
  | .float x => IsFloat it x
  | .str s => IsText s
  | .arr vs => WellFormedItems it vs
  | .obj kvs => (kvs.map Prod.fst).Nodup ∧ WellFormedFields it kvs
  | _ => True

def WellFormedItems (it : Interpreter) : List JsonDoc → Prop
  | [] => True
  | v :: vs => WellFormed it v ∧ WellFormedItems it vs

def WellFormedFields (it : Interpreter) : List (List Nat × JsonDoc) → Prop
  | [] => True
  | (k, v) :: kvs => (IsText k ∧ WellFormed it v) ∧ WellFormedFields it kvs

end

variable {it : Interpreter} {depth : Nat}

/-- No value begins with a space or a bracket that closes. -/
theorem text_head {v : JsonDoc} (hv : v.WellFormed it) :
    ∃ ch cs, v.text it = ch :: cs ∧ isSpace ch = false ∧ ch ≠ ']' := by
  have hdigit : ∀ {d : Char}, d.isDigit = true → isSpace d = false ∧ d ≠ ']' := fun hd =>
    ⟨isSpace_digit hd, by rintro rfl; cases hd⟩
  have hnum : ∀ {negative : Bool} {body : List Char} {d : Char} {ds : List Char}, body = d :: ds → d.isDigit = true →
      ∃ ch cs, signText negative ++ body = ch :: cs ∧ isSpace ch = false ∧ ch ≠ ']' := by
    rintro (- | -) body d ds rfl hd
    · exact ⟨d, ds, rfl, hdigit hd⟩
    · exact ⟨'-', d :: ds, rfl, rfl, by decide⟩
  cases v with
  | null => exact ⟨_, _, by rw [text], rfl, by decide⟩
  | bool b => cases b <;> exact ⟨_, _, by rw [text], rfl, by decide⟩
  | int n =>
      obtain ⟨d, ds, hds, hd⟩ := pushes_head (Number.pushes_toDigits true n.natAbs)
        (by dsimp only [Number.start]; split <;> nofun)
      rw [text, intText]
      exact hnum hds hd
  | float x =>
      rw [WellFormed] at hv
      obtain ⟨d, ds, -, htext, hd, -⟩ := floatText_eq hv.1
      rw [text, htext]
      exact hnum rfl hd
  | infinity negative => cases negative <;> exact ⟨_, _, by rw [text]; rfl, rfl, by decide⟩
  | nan => exact ⟨_, _, by rw [text], rfl, by decide⟩
  | str s => exact ⟨_, _, by rw [text, strText]; rfl, rfl, by decide⟩
  | arr vs =>
      cases vs with
      | nil => exact ⟨'[', [']'], by rw [text], rfl, by decide⟩
      | cons v vs => exact ⟨'[', v.text it ++ textItems it vs, by rw [text]; rfl, rfl, by decide⟩
  | obj kvs =>
      rcases kvs with - | ⟨⟨k, v⟩, kvs⟩
      · exact ⟨'\x7b', ['\x7d'], by rw [text], rfl, by decide⟩
      · exact ⟨'\x7b', strText k ++ ':' :: ' ' :: v.text it ++ textFields it kvs, by rw [text]; rfl, rfl, by decide⟩

theorem delimits_textItems (vs : List JsonDoc) (rest : List Nat) : Delimits (codes (textItems it vs) ++ rest) := by
  intro c hc
  cases vs with
  | nil => rw [textItems] at hc; cases hc; exact ⟨']', by decide, rfl⟩
  | cons v vs => rw [textItems] at hc; cases hc; exact ⟨',', by decide, rfl⟩

theorem delimits_textFields (kvs : List (List Nat × JsonDoc)) (rest : List Nat) :
    Delimits (codes (textFields it kvs) ++ rest) := by
  intro c hc
  rcases kvs with - | ⟨⟨k, v⟩, kvs⟩
  · rw [textFields] at hc; cases hc; exact ⟨'\x7d', by decide, rfl⟩
  · rw [textFields] at hc; cases hc; exact ⟨',', by decide, rfl⟩

theorem run_first {v : JsonDoc} (hv : v.WellFormed it) (rest : List Nat) (stack : List Frame) :
    run it depth (codes (v.text it) ++ rest) ⟨stack, .first⟩ =
      run it depth (codes (v.text it) ++ rest) ⟨.items [] :: stack, .value⟩ := by
  obtain ⟨ch, cs, htext, hspace, hclose⟩ := text_head hv
  have hfirst : step it depth ch.toNat ⟨stack, .first⟩ = begin depth ch (.items [] :: stack) := by
    simp only [step, Char.ofNat_toNat, hspace, Bool.false_eq_true, if_false, hclose]
  have hvalue : step it depth ch.toNat ⟨.items [] :: stack, .value⟩ = begin depth ch (.items [] :: stack) := by
    simp only [step, Char.ofNat_toNat, hspace, Bool.false_eq_true, if_false]
  rw [htext, codes, List.map_cons, List.cons_append, run, run, hfirst, hvalue]

theorem step_open {stack : List Frame} (h : stack.length < depth) :
    step it depth '['.toNat ⟨stack, .value⟩ = .ok ⟨stack, .first⟩ ∧
      step it depth '\x7b'.toNat ⟨stack, .value⟩ = .ok ⟨stack, .firstKey⟩ := by
  have hle : ¬ depth ≤ stack.length := Nat.not_le.mpr h
  constructor
  · change begin depth '[' stack = _
    simp [begin, hle]
  · change begin depth '\x7b' stack = _
    simp [begin, hle]

theorem insert_append {key : List Nat} (v : JsonDoc) {kvs : List (List Nat × JsonDoc)}
    (h : key ∉ kvs.map Prod.fst) : Dict.insert key v kvs = kvs ++ [(key, v)] := by
  induction kvs with
  | nil => rfl
  | cons kv kvs ih =>
      rw [List.map_cons, List.mem_cons, not_or] at h
      rw [Dict.insert, if_neg (Ne.symm h.1), ih h.2, List.cons_append]

mutual

/-- The text of a value is read as that value. -/
theorem run_text : ∀ (v : JsonDoc) {room : Nat} {stack : List Frame} {rest : List Nat}, v.WellFormed it →
    check it room v = .ok () → stack.length + room ≤ depth → Delimits rest →
    run it depth (codes (v.text it) ++ rest) ⟨stack, .value⟩ = run it depth rest (settle v stack)
  | .null, _, _, _, _, _, _, _ => by rw [text]; rfl
  | .bool true, _, _, _, _, _, _, _ => by rw [text]; rfl
  | .bool false, _, _, _, _, _, _, _ => by rw [text]; rfl
  | .int n, _, stack, _, _, hc, _, hrest => by
      rw [check] at hc
      rw [text]
      refine run_intText (Nat.not_lt.mp fun hlt => ?_) hrest stack
      rw [if_pos hlt] at hc
      cases hc
  | .float x, _, stack, _, hv, _, _, hrest => by
      rw [WellFormed] at hv
      rw [text]
      exact run_floatText hv hrest stack
  | .infinity true, _, _, _, _, _, _, _ => by rw [text]; rfl
  | .infinity false, _, _, _, _, _, _, _ => by rw [text]; rfl
  | .nan, _, _, _, _, _, _, _ => by rw [text]; rfl
  | .str s, _, stack, rest, hv, _, _, _ => by
      rw [WellFormed] at hv
      rw [text]
      exact run_string hv rest stack
  | .arr _, 0, _, _, _, hc, _, _ => by rw [check] at hc; cases hc
  | .arr [], room + 1, stack, rest, _, _, hdepth, _ => by
      have hopen : step it depth '['.toNat ⟨stack, .value⟩ = .ok ⟨stack, .first⟩ := (step_open (by omega)).1
      rw [text]
      exact (run_cons hopen).trans (run_cons rfl)
  | .arr (v :: vs), room + 1, stack, rest, hv, hc, hdepth, _ => by
      rw [WellFormed, WellFormedItems] at hv
      rw [check, checkItems, seq_eq_ok] at hc
      have hopen : step it depth '['.toNat ⟨stack, .value⟩ = .ok ⟨stack, .first⟩ := (step_open (by omega)).1
      have hlen : (Frame.items [] :: stack).length + room ≤ depth := by rw [List.length_cons]; omega
      rw [text, codes_append, List.append_assoc, codes, List.map_cons, List.cons_append, run_cons hopen]
      refine (run_first hv.1 _ stack).trans ?_
      rw [run_text v hv.1 hc.1 hlen (delimits_textItems vs rest)]
      exact run_items vs hv.2 hc.2 (by omega)
  | .obj _, 0, _, _, _, hc, _, _ => by rw [check] at hc; cases hc
  | .obj [], room + 1, stack, rest, _, _, hdepth, _ => by
      have hopen : step it depth '\x7b'.toNat ⟨stack, .value⟩ = .ok ⟨stack, .firstKey⟩ := (step_open (by omega)).2
      rw [text]
      exact (run_cons hopen).trans (run_cons rfl)
  | .obj ((k, v) :: kvs), room + 1, stack, rest, hv, hc, hdepth, _ => by
      rw [WellFormed, WellFormedFields] at hv
      rw [check, checkFields, seq_eq_ok] at hc
      have hopen : step it depth '\x7b'.toNat ⟨stack, .value⟩ = .ok ⟨stack, .firstKey⟩ := (step_open (by omega)).2
      have hlen : (Frame.fields [] k :: stack).length + room ≤ depth := by rw [List.length_cons]; omega
      have htext : (JsonDoc.obj ((k, v) :: kvs)).text it =
          '\x7b' :: (strText k ++ [':', ' '] ++ (v.text it ++ textFields it kvs)) := by rw [text]; simp
      rw [htext, codes, List.map_cons, List.cons_append, run_cons hopen]
      change run it depth (codes (strText k ++ [':', ' '] ++ (v.text it ++ textFields it kvs)) ++ rest) _ = _
      rw [codes_append (strText k ++ [':', ' ']), codes_append (v.text it), List.append_assoc, List.append_assoc,
        run_key hv.2.1.1 _ stack [] rfl, run_text v hv.2.1.2 hc.1 hlen (delimits_textFields kvs rest)]
      have hn : (([(k, v)] ++ kvs).map Prod.fst).Nodup := hv.1
      exact run_fields kvs hn hv.2.2 hc.2 (by omega)

theorem run_items : ∀ (vs : List JsonDoc) {room : Nat} {done : List JsonDoc} {stack : List Frame} {rest : List Nat},
    WellFormedItems it vs → checkItems it room vs = .ok () → stack.length + 1 + room ≤ depth →
    run it depth (codes (textItems it vs) ++ rest) ⟨stack, .afterItem done⟩ =
      run it depth rest (settle (.arr (done ++ vs)) stack)
  | [], _, done, stack, rest, _, _, _ => by
      rw [textItems, List.append_nil]
      exact run_cons rfl
  | v :: vs, room, done, stack, rest, hv, hc, hdepth => by
      rw [WellFormedItems] at hv
      rw [checkItems, seq_eq_ok] at hc
      have hcomma : step it depth ','.toNat ⟨stack, .afterItem done⟩ = .ok ⟨.items done :: stack, .value⟩ := rfl
      have hspace : step it depth ' '.toNat ⟨.items done :: stack, .value⟩ = .ok ⟨.items done :: stack, .value⟩ := rfl
      have hlen : (Frame.items done :: stack).length + room ≤ depth := by rw [List.length_cons]; omega
      rw [textItems, codes_append, List.append_assoc, codes, List.map_cons, List.cons_append, run_cons hcomma,
        List.map_cons, List.cons_append, run_cons hspace]
      refine (run_text v hv.1 hc.1 hlen (delimits_textItems vs rest)).trans ?_
      rw [settle, run_items vs hv.2 hc.2 hdepth, List.append_assoc, List.singleton_append]

theorem run_fields : ∀ (kvs : List (List Nat × JsonDoc)) {room : Nat} {done : List (List Nat × JsonDoc)}
    {stack : List Frame} {rest : List Nat}, ((done ++ kvs).map Prod.fst).Nodup → WellFormedFields it kvs →
    checkFields it room kvs = .ok () → stack.length + 1 + room ≤ depth →
    run it depth (codes (textFields it kvs) ++ rest) ⟨stack, .afterField done⟩ =
      run it depth rest (settle (.obj (done ++ kvs)) stack)
  | [], _, done, stack, rest, _, _, _, _ => by
      rw [textFields, List.append_nil]
      exact run_cons rfl
  | (k, v) :: kvs, room, done, stack, rest, hn, hv, hc, hdepth => by
      rw [WellFormedFields] at hv
      rw [checkFields, seq_eq_ok] at hc
      have hcomma : step it depth ','.toNat ⟨stack, .afterField done⟩ = .ok ⟨stack, .key done⟩ := rfl
      have hspace : step it depth ' '.toNat ⟨stack, .key done⟩ = .ok ⟨stack, .key done⟩ := rfl
      have hlen : (Frame.fields done k :: stack).length + room ≤ depth := by rw [List.length_cons]; omega
      have hfresh : k ∉ done.map Prod.fst := by
        rw [List.map_append, List.nodup_append] at hn
        exact fun hk => hn.2.2 k hk k List.mem_cons_self rfl
      have hmore : (done ++ [(k, v)]) ++ kvs = done ++ (k, v) :: kvs := by rw [List.append_assoc, List.singleton_append]
      have htext : textFields it ((k, v) :: kvs) =
          ',' :: ' ' :: (strText k ++ [':', ' '] ++ (v.text it ++ textFields it kvs)) := by rw [textFields]; simp
      rw [htext, codes, List.map_cons, List.cons_append, run_cons hcomma, List.map_cons, List.cons_append,
        run_cons hspace]
      change run it depth (codes (strText k ++ [':', ' '] ++ (v.text it ++ textFields it kvs)) ++ rest) _ = _
      rw [codes_append (strText k ++ [':', ' ']), codes_append (v.text it), List.append_assoc, List.append_assoc,
        run_key hv.1.1 _ stack done rfl, run_text v hv.1.2 hc.1 hlen (delimits_textFields kvs rest), settle,
        insert_append v hfresh, run_fields kvs (by rwa [hmore]) hv.2 hc.2 hdepth, hmore]

end

/-- What `dumps` writes, `loads` reads back. -/
theorem loads_dumps {room : Nat} {v : JsonDoc} {s : String} (hv : v.WellFormed it) (hs : v.dumps it room = .ok s)
    (hroom : room ≤ depth) : loads it depth (codes s.toList) = .ok v := by
  rw [dumps] at hs
  cases hc : check it room v with
  | error e => rw [hc] at hs; cases hs
  | ok u =>
      rw [hc] at hs
      cases hs
      rw [String.toList_ofList, loads, ← List.append_nil (codes (v.text it)),
        run_text v hv hc (by rwa [List.length_nil, Nat.zero_add]) (fun _ h => by cases h)]
      rfl

end Values

section Depth

variable {it : Interpreter} {depth : Nat}

theorem nestingItems_append (vs : List JsonDoc) (v : JsonDoc) :
    nestingItems (vs ++ [v]) = max (nestingItems vs) v.nesting := by
  induction vs with
  | nil => simp [nestingItems]
  | cons w vs ih => rw [List.cons_append, nestingItems, nestingItems, ih, max_assoc]

theorem nestingFields_insert (key : List Nat) (v : JsonDoc) (kvs : List (List Nat × JsonDoc)) :
    nestingFields (Dict.insert key v kvs) ≤ max (nestingFields kvs) v.nesting := by
  induction kvs with
  | nil => simp [Dict.insert, nestingFields]
  | cons kv kvs ih =>
      rw [Dict.insert]
      split
      · rw [nestingFields, nestingFields]
        omega
      · rw [nestingFields, nestingFields]
        omega

def Frame.nesting : Frame → Nat
  | .items vs => nestingItems vs
  | .fields kvs _ => nestingFields kvs

/-- What was read of the containers that are open nests within `depth`. -/
def Shallow (depth : Nat) : List Frame → Prop
  | [] => True
  | f :: stack => f.nesting + stack.length + 1 ≤ depth ∧ Shallow depth stack

/-- How deep the value is that is being read at this point. -/
def Mode.nesting : Mode → Nat
  | .value | .number _ | .string _ => 0
  | .first | .firstKey => 1
  | .literal _ v | .done v => v.nesting
  | .key kvs | .keyText kvs _ | .colon kvs _ | .afterField kvs => nestingFields kvs + 1
  | .afterItem vs => nestingItems vs + 1

structure State.Within (depth : Nat) (st : State) : Prop where
  stack : Shallow depth st.stack
  mode : st.mode.nesting + st.stack.length ≤ depth

theorem within_settle {v : JsonDoc} {stack : List Frame} (hs : Shallow depth stack)
    (hv : v.nesting + stack.length ≤ depth) : (settle v stack).Within depth := by
  cases stack with
  | nil => exact ⟨trivial, hv⟩
  | cons f stack =>
      obtain ⟨hf, hs⟩ := hs
      rw [List.length_cons] at hv
      cases f with
      | items vs =>
          refine ⟨hs, ?_⟩
          change nestingItems (vs ++ [v]) + 1 + stack.length ≤ depth
          change nestingItems vs + stack.length + 1 ≤ depth at hf
          rw [nestingItems_append]
          omega
      | fields kvs key =>
          refine ⟨hs, ?_⟩
          change nestingFields (Dict.insert key v kvs) + 1 + stack.length ≤ depth
          change nestingFields kvs + stack.length + 1 ≤ depth at hf
          have hinsert := nestingFields_insert key v kvs
          omega

theorem within_begin {ch : Char} {stack : List Frame} {st : State} (hs : Shallow depth stack)
    (hlen : stack.length ≤ depth) (h : begin depth ch stack = .ok st) : st.Within depth := by
  have hzero : ∀ {mode : Mode}, mode.nesting = 0 → (⟨stack, mode⟩ : State).Within depth := fun hm =>
    ⟨hs, by rw [hm, Nat.zero_add]; exact hlen⟩
  have hone : ∀ {mode : Mode}, mode.nesting = 1 → ¬ depth ≤ stack.length → (⟨stack, mode⟩ : State).Within depth :=
    fun hm hroom => ⟨hs, by rw [hm]; change 1 + stack.length ≤ depth; omega⟩
  rw [begin] at h
  split at h
  · cases h
    exact hzero rfl
  split at h
  · split at h
    · cases h
    · next hroom =>
        cases h
        exact hone rfl hroom
  split at h
  · split at h
    · cases h
    · next hroom =>
        cases h
        exact hone rfl hroom
  repeat
    split at h
    · cases h
      exact hzero rfl
  cases h

theorem within_after {ch : Char} {st st' : State} (hst : st.Within depth) (h : after ch st = .ok st') :
    st'.Within depth := by
  obtain ⟨stack, mode⟩ := st
  obtain ⟨hs, hm⟩ := hst
  cases mode with
  | afterItem vs =>
      change nestingItems vs + 1 + stack.length ≤ depth at hm
      simp only [after] at h
      split at h
      · cases h
        exact ⟨hs, hm⟩
      split at h
      · cases h
        exact ⟨⟨by change nestingItems vs + stack.length + 1 ≤ depth; omega, hs⟩,
          by change 0 + (stack.length + 1) ≤ depth; omega⟩
      split at h
      · cases h
        exact within_settle hs (by rw [JsonDoc.nesting]; exact hm)
      · cases h
  | afterField kvs =>
      change nestingFields kvs + 1 + stack.length ≤ depth at hm
      simp only [after] at h
      split at h
      · cases h
        exact ⟨hs, hm⟩
      split at h
      · cases h
        exact ⟨hs, hm⟩
      split at h
      · cases h
        exact within_settle hs (by rw [JsonDoc.nesting]; exact hm)
      · cases h
  | _ =>
      simp only [after] at h
      split at h
      · cases h
        exact ⟨hs, hm⟩
      · cases h

theorem nesting_finish {x : Number} {v : JsonDoc} (h : x.finish it = .ok v) : v.nesting = 0 := by
  have hint : ∀ {w}, x.toInt it = .ok w → w.nesting = 0 := by
    intro w hw
    rw [Number.toInt] at hw
    split at hw
    · cases hw
    · cases hw
      rfl
  have hdropped : ∀ {m : Except LoadsError JsonDoc}, (do let _ ← m; .error .decode) ≠ .ok v := by
    intro m hm
    cases m <;> cases hm
  rw [Number.finish] at h
  split at h
  · cases h
  · exact hint h
  · exact hint h
  · cases h
    rw [Number.toFloat]
    split <;> rfl
  · cases h
    rw [Number.toFloat]
    split <;> rfl
  · exact absurd h hdropped
  · split at h
    · exact absurd h hdropped
    · cases h
  · split at h
    · exact absurd h hdropped
    · cases h

theorem within_first {c : Nat} {stack : List Frame} {st' : State} (hs : Shallow depth stack)
    (hm : 1 + stack.length ≤ depth) (h : step it depth c ⟨stack, .first⟩ = .ok st') : st'.Within depth := by
  simp only [step] at h
  split at h
  · cases h
    exact ⟨hs, hm⟩
  split at h
  · cases h
    exact within_settle hs (by rw [JsonDoc.nesting, nestingItems]; exact hm)
  · have hs' : Shallow depth (.items [] :: stack) := by
      refine ⟨?_, hs⟩
      change nestingItems [] + stack.length + 1 ≤ depth
      rw [nestingItems]
      omega
    exact within_begin hs' (by rw [List.length_cons]; omega) h

theorem within_literal {c : Nat} {rest : List Char} {v : JsonDoc} {stack : List Frame} {st' : State}
    (hs : Shallow depth stack) (hm : v.nesting + stack.length ≤ depth)
    (h : step it depth c ⟨stack, .literal rest v⟩ = .ok st') : st'.Within depth := by
  rcases rest with - | ⟨d, - | ⟨d', rest⟩⟩
  · cases h
  · simp only [step] at h
    split at h
    · cases h
      exact within_settle hs hm
    · cases h
  · simp only [step] at h
    split at h
    · cases h
      exact ⟨hs, hm⟩
    · cases h

theorem within_number {c : Nat} {x : Number} {stack : List Frame} {st' : State} (hs : Shallow depth stack)
    (hlen : stack.length ≤ depth) (h : step it depth c ⟨stack, .number x⟩ = .ok st') : st'.Within depth := by
  have hzero : 0 + stack.length ≤ depth := (Nat.zero_add _).trans_le hlen
  simp only [step] at h
  split at h
  · cases h
    exact ⟨hs, hzero⟩
  split at h
  · cases h
    exact ⟨hs, hzero⟩
  · cases hfin : x.finish it with
    | error e =>
        rw [hfin] at h
        cases h
    | ok v =>
        rw [hfin] at h
        have hv : v.nesting + stack.length ≤ depth := by rw [nesting_finish hfin]; exact hzero
        exact within_after (within_settle hs hv) h

theorem within_colon {c : Nat} {kvs : List (List Nat × JsonDoc)} {key : List Nat} {stack : List Frame} {st' : State}
    (hs : Shallow depth stack) (hm : nestingFields kvs + 1 + stack.length ≤ depth)
    (h : step it depth c ⟨stack, .colon kvs key⟩ = .ok st') : st'.Within depth := by
  simp only [step] at h
  split at h
  · cases h
    exact ⟨hs, hm⟩
  split at h
  · cases h
    exact ⟨⟨by change nestingFields kvs + stack.length + 1 ≤ depth; omega, hs⟩,
      by change 0 + (stack.length + 1) ≤ depth; omega⟩
  · cases h

theorem within_step {c : Nat} {st st' : State} (hst : st.Within depth) (h : step it depth c st = .ok st') :
    st'.Within depth := by
  obtain ⟨stack, mode⟩ := st
  obtain ⟨hs, hm⟩ := hst
  have hlen : stack.length ≤ depth := (Nat.le_add_left _ _).trans hm
  cases mode with
  | value =>
      simp only [step] at h
      split at h
      · cases h
        exact ⟨hs, hm⟩
      · exact within_begin hs hlen h
  | first => exact within_first hs hm h
  | literal rest v => exact within_literal hs hm h
  | number x => exact within_number hs hlen h
  | string s =>
      simp only [step] at h
      cases hscan : scan c s with
      | error e =>
          rw [hscan] at h
          cases h
      | ok r =>
          rw [hscan] at h
          rcases r with text | s'
          · cases h
            exact within_settle hs hm
          · cases h
            exact ⟨hs, hm⟩
  | firstKey =>
      change 1 + stack.length ≤ depth at hm
      simp only [step] at h
      split at h
      · cases h
        exact ⟨hs, hm⟩
      split at h
      · cases h
        exact ⟨hs, by change nestingFields [] + 1 + stack.length ≤ depth; rw [nestingFields]; omega⟩
      split at h
      · cases h
        exact within_settle hs (by rw [JsonDoc.nesting, nestingFields]; omega)
      · cases h
  | key kvs =>
      simp only [step] at h
      split at h
      · cases h
        exact ⟨hs, hm⟩
      split at h
      · cases h
        exact ⟨hs, hm⟩
      · cases h
  | keyText kvs s =>
      simp only [step] at h
      cases hscan : scan c s with
      | error e =>
          rw [hscan] at h
          cases h
      | ok r =>
          rw [hscan] at h
          rcases r with text | s'
          · cases h
            exact ⟨hs, hm⟩
          · cases h
            exact ⟨hs, hm⟩
  | colon kvs key => exact within_colon hs hm h
  | afterItem _ | afterField _ | done _ => exact within_after ⟨hs, hm⟩ h

theorem nesting_of_run {cs : List Nat} {st : State} {v : JsonDoc} (hst : st.Within depth)
    (h : run it depth cs st = .ok v) : v.nesting ≤ depth := by
  induction cs generalizing st with
  | nil =>
      obtain ⟨stack, mode⟩ := st
      rw [run, JsonDoc.finish.eq_def] at h
      cases mode with
      | done w =>
          cases h
          exact (Nat.le_add_right _ _).trans hst.mode
      | number x =>
          cases stack with
          | nil => rw [nesting_finish h]; exact Nat.zero_le _
          | cons f stack =>
              simp only at h
              cases hx : x.finish it <;> rw [hx] at h <;> cases h
      | _ => cases h
  | cons c cs ih =>
      rw [run] at h
      cases hstep : step it depth c st with
      | error e =>
          rw [hstep] at h
          cases h
      | ok st' =>
          rw [hstep] at h
          exact ih (within_step hst hstep) h

/-- What `loads` returns nests no deeper than the stack has room for. -/
theorem nesting_of_loads {s : List Nat} {v : JsonDoc} (h : loads it depth s = .ok v) : v.nesting ≤ depth :=
  nesting_of_run (⟨trivial, Nat.zero_le _⟩ : State.Within depth ⟨[], .value⟩) h

theorem begin_mono {deeper : Nat} (hd : depth ≤ deeper) {ch : Char} {stack : List Frame} {st : State}
    (h : begin depth ch stack = .ok st) : begin deeper ch stack = .ok st := by
  have hopen : ∀ {x : State}, (if depth ≤ stack.length then .error LoadsError.recursion else .ok x) = Except.ok st →
      (if deeper ≤ stack.length then .error LoadsError.recursion else .ok x) = Except.ok st := by
    intro x hx
    by_cases hroom : depth ≤ stack.length
    · rw [if_pos hroom] at hx
      cases hx
    · rw [if_neg hroom] at hx
      rw [if_neg fun hle => hroom (hd.trans hle)]
      exact hx
  rw [begin] at h ⊢
  split at h
  · next hq => rw [if_pos hq]; exact h
  next hq =>
  rw [if_neg hq]
  split at h
  · next hb => rw [if_pos hb]; exact hopen h
  next hb =>
  rw [if_neg hb]
  split at h
  · next hb => rw [if_pos hb]; exact hopen h
  next hb =>
  rw [if_neg hb]
  exact h

theorem step_mono {deeper c : Nat} (hd : depth ≤ deeper) {st st' : State} (h : step it depth c st = .ok st') :
    step it deeper c st = .ok st' := by
  obtain ⟨stack, mode⟩ := st
  cases mode with
  | value =>
      simp only [step] at h ⊢
      split at h
      · next hs => rw [if_pos hs]; exact h
      · next hs => rw [if_neg hs]; exact begin_mono hd h
  | first =>
      simp only [step] at h ⊢
      split at h
      · next hs => rw [if_pos hs]; exact h
      next hs =>
      rw [if_neg hs]
      split at h
      · next hc => rw [if_pos hc]; exact h
      · next hc => rw [if_neg hc]; exact begin_mono hd h
  | literal rest v => rcases rest with - | ⟨d, - | ⟨d', rest⟩⟩ <;> exact h
  | _ => exact h

/-- A text that is read is read as the same value where there is more room. -/
theorem loads_mono {deeper : Nat} (hd : depth ≤ deeper) {s : List Nat} {v : JsonDoc}
    (h : loads it depth s = .ok v) : loads it deeper s = .ok v := by
  have hrun : ∀ (cs : List Nat) (st : State), run it depth cs st = .ok v → run it deeper cs st = .ok v := by
    intro cs
    induction cs with
    | nil => exact fun _ h => h
    | cons c cs ih =>
        intro st h
        rw [run] at h ⊢
        cases hstep : step it depth c st with
        | error e =>
            rw [hstep] at h
            cases h
        | ok st' =>
            rw [hstep] at h
            rw [step_mono hd hstep]
            exact ih st' h
  exact hrun s ⟨[], .value⟩ h

/-- What `dumps` writes is read back exactly where there is room for it. -/
theorem loads_text_iff {room : Nat} {v : JsonDoc} (hv : v.WellFormed it) (hc : check it room v = .ok ()) :
    loads it depth (codes (v.text it)) = .ok v ↔ v.nesting ≤ depth := by
  refine ⟨nesting_of_loads, fun hn => ?_⟩
  have hc' : check it depth v = .ok () := (check_eq_ok it depth v).mpr ⟨hn, ((check_eq_ok it room v).mp hc).2⟩
  have hdumps : v.dumps it depth = .ok (String.ofList (v.text it)) := by
    rw [dumps, hc']
    rfl
  have hloads := loads_dumps hv hdumps le_rfl
  rwa [String.toList_ofList] at hloads

end Depth

end JsonDoc

end Lib
