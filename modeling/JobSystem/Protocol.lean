import JobSystem.Lib.Dict
import JobSystem.Lib.RoundTrip
import JobSystem.Server.State

namespace Lib.JsonDoc

variable {it : Interpreter}

theorem codes_injective : Function.Injective codes :=
  List.map_injective_iff.mpr fun _ _ h => Char.ext (UInt32.toNat_inj.mp h)

theorem field_injective : Function.Injective field := fun _ _ h => String.toList_injective (codes_injective h)

theorem lookup_ofFields (name : String) (kvs : List (String × Json)) :
    Dict.lookup (field name) (ofFields it kvs) = (Dict.lookup name kvs).map (ofJson it) := by
  induction kvs with
  | nil => rfl
  | cons kv kvs ih =>
      obtain ⟨k, v⟩ := kv
      rw [ofFields, Dict.lookup, Dict.lookup, ih]
      change (if field k = field name then _ else _) = Option.map _ (if k = name then _ else _)
      by_cases h : k = name
      · rw [if_pos (congrArg field h), if_pos h]
        rfl
      · rw [if_neg (mt (fun hk => field_injective hk) h), if_neg h]

theorem map_fst_ofFields (kvs : List (String × Json)) :
    (ofFields it kvs).map Prod.fst = (kvs.map Prod.fst).map field := by
  induction kvs with
  | nil => rfl
  | cons kv kvs ih => exact congrArg (field kv.1 :: ·) ih

theorem wellFormedFields_ofFields {kvs : List (String × Json)} (h : ∀ kv ∈ kvs, (ofJson it kv.2).WellFormed it) :
    WellFormedFields it (ofFields it kvs) := by
  induction kvs with
  | nil => trivial
  | cons kv kvs ih =>
      exact ⟨⟨isText_codes _, h kv List.mem_cons_self⟩, ih fun kv' h' => h kv' (List.mem_cons_of_mem _ h')⟩

theorem wellFormed_ofFields {kvs : List (String × Json)} (hkeys : (kvs.map Prod.fst).Nodup)
    (h : ∀ kv ∈ kvs, (ofJson it kv.2).WellFormed it) : (JsonDoc.obj (ofFields it kvs)).WellFormed it := by
  refine ⟨?_, wellFormedFields_ofFields h⟩
  rw [map_fst_ofFields]
  exact hkeys.map field_injective

end Lib.JsonDoc

namespace JobSystem

open Lib JsonDoc

def ofText : Option PyStr → Json
  | none => .null
  | some s => .str s

def ofInt : Option Int → Json
  | none => .null
  | some n => .int n

def AgentFrame.fields : AgentFrame → List (String × Json)
  | register agentId => [("type", .str "register"), ("agent_id", .str agentId)]
  | ack jobId => [("type", .str "ack"), ("job_id", .str jobId)]
  | started jobId => [("type", .str "started"), ("job_id", .str jobId)]
  | log jobId stream sequence chunk =>
      [("type", .str "log"), ("job_id", .str jobId), ("stream", .str stream), ("sequence", .int sequence),
        ("chunk", .str chunk)]
  | result jobId exitCode stdout stderr error =>
      [("type", .str "result"), ("job_id", .str jobId), ("exit_code", .int exitCode), ("stdout", .str stdout),
        ("stderr", .str stderr), ("error", ofText error)]
  | heartbeat agentId => [("type", .str "heartbeat"), ("agent_id", .str agentId)]
  | reconcile jobId status exitCode =>
      [("type", .str "reconcile"), ("job_id", .str jobId), ("status", .str status), ("exit_code", ofInt exitCode)]

def ServerFrame.fields : ServerFrame → List (String × Json)
  | job jobId correlationId image command timeoutMs =>
      [("type", .str "job"), ("job_id", .str jobId), ("correlation_id", .str correlationId), ("image", .str image),
        ("command", .arr (command.map fun s => .str (.text s))), ("timeout_ms", .int timeoutMs)]
  | cancel jobId reason => [("type", .str "cancel"), ("job_id", .str jobId), ("reason", .str reason)]

def AgentFrame.document (it : Interpreter) (f : AgentFrame) : JsonDoc := .obj (ofFields it f.fields)

def ServerFrame.document (it : Interpreter) (f : ServerFrame) : JsonDoc := .obj (ofFields it f.fields)

section Documents

variable {it : Interpreter}

theorem wellFormed_str (s : String) : (ofJson it (.str s)).WellFormed it := isText_codes _

/-- The texts of a result have no surrogates in pairs, as a text that was parsed has none. -/
def AgentFrame.Unpaired : AgentFrame → Prop
  | result _ _ stdout stderr error => IsText stdout.codes ∧ IsText stderr.codes ∧ ∀ s ∈ error, IsText s.codes
  | _ => True

theorem wellFormed_ofText {s : Option PyStr} (h : ∀ r ∈ s, IsText r.codes) :
    (ofJson it (ofText s)).WellFormed it := by
  cases s with
  | none => trivial
  | some s => exact h s rfl

theorem wellFormed_ofInt (n : Option Int) : (ofJson it (ofInt n)).WellFormed it := by cases n <;> trivial

theorem wellFormed_strings (ss : List String) : (ofJson it (.arr (ss.map fun s => .str (.text s)))).WellFormed it := by
  change WellFormedItems it (ofItems it (ss.map fun s => .str (.text s)))
  induction ss with
  | nil => trivial
  | cons s ss ih => exact ⟨wellFormed_str s, ih⟩

theorem wellFormed_int (n : Int) : (ofJson it (.int n)).WellFormed it := trivial

theorem AgentFrame.wellFormed_document {f : AgentFrame} (hf : f.Unpaired) : (f.document it).WellFormed it := by
  have hkeys : (f.fields.map Prod.fst).Nodup := by cases f <;> simp [fields]
  refine wellFormed_ofFields hkeys ?_
  cases f with
  | result j x o e err =>
      have hout : (ofJson it (.str o)).WellFormed it := hf.1
      have herr : (ofJson it (.str e)).WellFormed it := hf.2.1
      simp [fields, wellFormed_str, wellFormed_int, hout, herr, wellFormed_ofText hf.2.2]
  | _ => simp [fields, wellFormed_str, wellFormed_int, wellFormed_ofInt]

theorem ServerFrame.wellFormed_document (f : ServerFrame) : (f.document it).WellFormed it := by
  have hkeys : (f.fields.map Prod.fst).Nodup := by cases f <;> simp [fields]
  refine wellFormed_ofFields hkeys ?_
  cases f <;> simp [fields, wellFormed_str, wellFormed_int, wellFormed_strings]

theorem digits_int64 {n : Int} (h : int64 n = true) : (ofJson it (.int n)).digits ≤ 19 := by
  rw [int64, Bool.and_eq_true, decide_eq_true_iff, decide_eq_true_iff] at h
  change (Nat.toDigits 10 n.natAbs).length ≤ 19
  rw [Nat.length_toDigits_le_iff (by omega) (by omega)]
  omega

/-- The integer of a message can be bound to a statement, as one from the database can. -/
def ServerFrame.fits : ServerFrame → Bool
  | job _ _ _ _ timeoutMs => int64 timeoutMs
  | cancel _ _ => true

theorem check_fields {kvs : List (String × Json)} {n room : Nat} (hroom : n + 1 ≤ room)
    (h : ∀ kv ∈ kvs, (ofJson it kv.2).nesting ≤ n ∧ (ofJson it kv.2).digits ≤ it.maxDigits) :
    check it room (.obj (ofFields it kvs)) = .ok () := by
  have hfields : nestingFields (ofFields it kvs) ≤ n ∧ digitsFields (ofFields it kvs) ≤ it.maxDigits := by
    induction kvs with
    | nil => exact ⟨Nat.zero_le _, Nat.zero_le _⟩
    | cons kv kvs ih =>
        obtain ⟨hn, hd⟩ := h kv List.mem_cons_self
        obtain ⟨hn', hd'⟩ := ih fun kv' hkv' => h kv' (List.mem_cons_of_mem _ hkv')
        rw [ofFields, nestingFields, digitsFields]
        exact ⟨max_le hn hn', max_le hd hd'⟩
  rw [check_eq_ok, nesting, digits]
  exact ⟨(Nat.succ_le_succ hfields.1).trans hroom, hfields.2⟩

theorem flat_strings (ss : List String) :
    nestingItems (ofItems it (ss.map fun s => .str (.text s))) = 0 ∧
      digitsItems (ofItems it (ss.map fun s => .str (.text s))) = 0 := by
  induction ss with
  | nil => exact ⟨rfl, rfl⟩
  | cons s ss ih =>
      rw [List.map_cons, ofItems, nestingItems, digitsItems, ih.1, ih.2]
      exact ⟨rfl, rfl⟩

theorem ServerFrame.check_document {f : ServerFrame} {room : Nat} (hf : f.fits = true) (hroom : 2 ≤ room)
    (hdigits : 19 ≤ it.maxDigits) : check it room (f.document it) = .ok () := by
  have hstr : ∀ s : String, (ofJson it (.str s)).nesting ≤ 1 ∧ (ofJson it (.str s)).digits ≤ it.maxDigits :=
    fun s => ⟨Nat.zero_le _, Nat.zero_le _⟩
  refine check_fields hroom ?_
  cases f with
  | job j cid image command timeoutMs =>
      have hcommand : (ofJson it (.arr (command.map fun s => .str (.text s)))).nesting ≤ 1 ∧
          (ofJson it (.arr (command.map fun s => .str (.text s)))).digits ≤ it.maxDigits := by
        have hflat : nestingItems (ofItems it (command.map fun s => .str (.text s))) = 0 ∧
            digitsItems (ofItems it (command.map fun s => .str (.text s))) = 0 :=
          flat_strings command
        change nestingItems (ofItems it (command.map fun s => .str (.text s))) + 1 ≤ 1 ∧
          digitsItems (ofItems it (command.map fun s => .str (.text s))) ≤ _
        rw [hflat.1, hflat.2]
        exact ⟨le_rfl, Nat.zero_le _⟩
      have htimeout : (ofJson it (.int timeoutMs)).nesting ≤ 1 ∧ (ofJson it (.int timeoutMs)).digits ≤ it.maxDigits :=
        ⟨Nat.zero_le _, (digits_int64 hf).trans hdigits⟩
      simp only [fields, List.forall_mem_cons, hstr, hcommand, htimeout, and_true, List.not_mem_nil, false_implies,
        implies_true]
  | cancel j reason =>
      simp only [fields, List.forall_mem_cons, hstr, and_true, List.not_mem_nil, false_implies, implies_true]

end Documents

end JobSystem
