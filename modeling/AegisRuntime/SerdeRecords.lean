import AegisRuntime.JsonPrints
import Mathlib.Algebra.Ring.Int.Defs

/-!
# Records in JSON text

What derived writers and readers do with a type: a value is printed with the
members in the order of the declaration, and read from the value tree of a text
by member names. Integers are printed in decimal and read back. A record reads
back what it wrote; the reader of texts is a parameter that is known only on
printed texts that stay within the limits of the crate.
-/

namespace AegisRuntime.SerdeRecords

open JsonValues JsonTokens JsonTexts

universe u v

/-- An integer as a JSON number. -/
def integer (z : ℤ) : JsonValue := .number (toString z)

/-- The number that decimal digits write. -/
def naturalOf (cs : List Char) : Option ℕ :=
  if isDigits cs then some (Nat.ofDigitChars 10 cs 0) else none

/-- The integer that a literal without fraction and exponent writes. -/
def integerOf : List Char → Option ℤ
  | [] => none
  | c::cs =>
    if c = '-' then (naturalOf cs).map fun n : ℕ => -(n : ℤ)
    else (naturalOf (c::cs)).map fun n : ℕ => (n : ℤ)

/-- The integer of a number. -/
def asInteger : JsonValue → Option ℤ
  | .number literal => integerOf literal.toList
  | _ => none

/-- The truth value of a literal. -/
def asBool : JsonValue → Option Bool
  | .bool value => some value
  | _ => none

/-- Reads an unsigned integer of 32 bits. -/
def asU32 (v : JsonValue) : Option UInt32 :=
  (asInteger v).bind fun z => if 0 ≤ z ∧ z < 2^32 then some (UInt32.ofInt z) else none

/-- Reads an unsigned integer of 64 bits. -/
def asU64 (v : JsonValue) : Option UInt64 :=
  (asInteger v).bind fun z => if 0 ≤ z ∧ z < 2^64 then some (UInt64.ofInt z) else none

/-- Reads a value that may be `null`. -/
def optional {α : Type u} (read : JsonValue → Option α) : JsonValue → Option (Option α)
  | .null => some none
  | v => (read v).map some

/-- Reads the items of an array. -/
def sequence {α : Type u} (read : JsonValue → Option α) (v : JsonValue) : Option (List α) :=
  v.asArray.bind fun vs => vs.mapM read

/-- Reads a member. -/
def field {α : Type u} (key : String) (read : JsonValue → Option α) (v : JsonValue) : Option α :=
  (v.get key).bind read

/-- Reads a member that may be missing. -/
def optionalField {α : Type u} (key : String) (read : JsonValue → Option α) (v : JsonValue) :
    Option (Option α) :=
  match v.get key with
  | none => some none
  | some x => optional read x

/-- Values within the limits of the crate: integers of 64 bits, no name twice in
an object, and a bound on the arrays and objects that stand inside each other. -/
inductive Plain : ℕ → JsonValue → Prop where
  | null {n : ℕ} : Plain n .null
  | bool {n : ℕ} {value : Bool} : Plain n (.bool value)
  | string {n : ℕ} {value : String} : Plain n (.string value)
  | integer {n : ℕ} {z : ℤ} (hlow : -2^63 ≤ z) (hhigh : z < 2^64) : Plain n (integer z)
  | array {n : ℕ} {vs : List JsonValue} (h : ∀ v∈vs, Plain n v) : Plain (n+1) (.array vs)
  | object {n : ℕ} {ms : List (String×JsonValue)} (hnames : (ms.map Prod.fst).Nodup)
    (h : ∀ m∈ms, Plain n m.2) : Plain (n+1) (.object ms)

/-- A value within the limits, and what the grammar makes of its printed text. -/
structure Prints (n : ℕ) (p v : JsonValue) : Prop where
  /-- The value that is printed. -/
  plain : Plain n p
  /-- The value that is read. -/
  text : JsonText p.compact v

/-- The number of arrays and objects that may stand inside each other. -/
def DEPTH_LIMIT : ℕ := 127

/-- The derived writer and reader of a type. -/
structure Record (α : Type u) where
  /-- The value that is printed, its members in the order of the declaration. -/
  toJson : α → JsonValue
  /-- What is read from the value of a text. -/
  fromJson : JsonValue → Option α
  /-- What was written is read. -/
  reads_back : ∀ a, ∃ v, Prints DEPTH_LIMIT (toJson a) v ∧ fromJson v=some a

/-- `serde_json::to_string`. -/
def Record.toStr {α : Type u} (r : Record α) (a : α) : String := (r.toJson a).compact

/-- `serde_json::from_str` at every type, and what is known of it. -/
structure SerdeJson where
  /-- Reads a text, or says why it cannot be read. -/
  fromStr : {α : Type} → Record α → String → Except String α
  /-- A printed value within the limits is read by the reader of the type. -/
  reads : ∀ {α : Type} (r : Record α) (p v : JsonValue) (a : α), Prints DEPTH_LIMIT p v →
    r.fromJson v=some a → fromStr r p.compact=.ok a

/-- The reader of the grammar, without limits. -/
def grammarReader : SerdeJson where
  fromStr := fun r text =>
    match (readJson text).bind r.fromJson with
    | some a => .ok a
    | none => .error "expected value"
  reads := by
    intro α r p v a hprints hread
    have htree := (readJson_iff p.compact v).mpr hprints.text
    simp only [htree,Option.bind_some,hread]

/-- What a record wrote is read back from its text. -/
theorem SerdeJson.fromStr_toStr (serde : SerdeJson) {α : Type} (r : Record α) (a : α) :
    serde.fromStr r (r.toStr a)=.ok a := by
  obtain ⟨v,hprints,hread⟩ := r.reads_back a
  exact serde.reads r (r.toJson a) v a hprints hread

variable {n : ℕ} {z : ℤ} {ms : List (String×JsonValue)} {p v : JsonValue}

theorem isDigit_of_digit {c : Char} (h : c.isDigit=true) : isDigit c=true := by
  simp only [Char.isDigit,Bool.and_eq_true,decide_eq_true_eq] at h
  rw [isDigit,Bool.and_eq_true,decide_eq_true_eq,decide_eq_true_eq]
  exact h

/-- Decimal digits are digits. -/
theorem isDigits_toDigits (n : ℕ) : isDigits (Nat.toDigits 10 n)=true := by
  rw [isDigits,Bool.and_eq_true,List.all_eq_true]
  refine ⟨by simp [Nat.toDigits_ne_nil],fun c hc => isDigit_of_digit ?_⟩
  exact Nat.isDigit_of_mem_toDigits (by decide) (by decide) hc

/-- Decimal digits are read as the number they were made from. -/
theorem naturalOf_toDigits (n : ℕ) : naturalOf (Nat.toDigits 10 n)=some n := by
  rw [naturalOf,if_pos (isDigits_toDigits n),Nat.ofDigitChars_ten_toDigits]

/-- Only nought is printed with a leading nought. -/
theorem head_toDigits (n : ℕ) : ∃ c cs, Nat.toDigits 10 n=c::cs ∧ (n=0 → cs=[]) ∧
    (n≠0 → c≠ '0') := by
  induction n using Nat.base_induction 10 (by decide) with
  | single m hm =>
    refine ⟨Nat.digitChar m,[],Nat.toDigits_of_lt_base hm,fun _ => rfl,?_⟩
    have hall : ∀ m < 10, m≠0 → Nat.digitChar m≠ '0' := by decide
    exact hall m hm
  | digit m k hk hm ih =>
    obtain ⟨c,cs,hdigits,-,hne⟩ := ih
    have hpos : m≠0 := by omega
    refine ⟨c,cs++Nat.toDigits 10 k,?_,by omega,fun _ => hne hpos⟩
    rw [←Nat.toDigits_append_toDigits (by decide) hm hk,hdigits]
    rfl

/-- Decimal digits are an unsigned number of the grammar. -/
theorem isUnsigned_toDigits (n : ℕ) : isUnsigned (Nat.toDigits 10 n)=true := by
  obtain ⟨c,cs,hdigits,hzero,hne⟩ := head_toDigits n
  have hall := isDigits_toDigits n
  rw [isDigits,Bool.and_eq_true,hdigits,List.all_cons,Bool.and_eq_true] at hall
  obtain ⟨-,hc,hcs⟩ := hall
  rw [hdigits,isUnsigned]
  by_cases hn : n=0
  · subst hn
    rw [hzero rfl,hc]
    simp [isFraction]
  · have hrest : cs.dropWhile isDigit=[] :=
      List.dropWhile_eq_nil_iff.mpr (List.all_eq_true.mp hcs)
    rw [if_neg (hne hn),hc,hrest]
    rfl

/-- A printed integer is digits, perhaps after a sign. -/
theorem toList_integer (z : ℤ) : (toString z).toList=
    if z < 0 then '-'::Nat.toDigits 10 z.natAbs else Nat.toDigits 10 z.natAbs := by
  cases z with
  | ofNat m =>
    have hnot : ¬Int.ofNat m < 0 := by simp
    rw [if_neg hnot]
    exact Nat.toList_repr
  | negSucc m =>
    rw [if_pos (Int.negSucc_lt_zero m)]
    have hminus : ("-"++(m+1).repr).toList= '-'::(m+1).repr.toList := by
      rw [String.toList_append]
      rfl
    exact hminus.trans (congrArg _ Nat.toList_repr)

theorem digits_ne_minus (n : ℕ) : ∃ c cs, Nat.toDigits 10 n=c::cs ∧ c≠ '-' := by
  obtain ⟨c,cs,hdigits,-,-⟩ := head_toDigits n
  refine ⟨c,cs,hdigits,?_⟩
  rintro rfl
  have hall := isDigits_toDigits n
  rw [hdigits] at hall
  cases hall

/-- The text of an integer is a number of the grammar. -/
theorem isNumber_integer (z : ℤ) : isNumber (toString z).toList=true := by
  rw [toList_integer]
  split
  · rw [isNumber,if_pos rfl]
    exact isUnsigned_toDigits _
  · obtain ⟨c,cs,hdigits,hminus⟩ := digits_ne_minus z.natAbs
    have hunsigned := isUnsigned_toDigits z.natAbs
    rw [hdigits] at hunsigned ⊢
    rw [isNumber,if_neg hminus]
    exact hunsigned

/-- A printed integer is read back. -/
@[simp] theorem asInteger_integer (z : ℤ) : asInteger (integer z)=some z := by
  rw [integer,asInteger,toList_integer]
  split
  · next hneg =>
    rw [integerOf,if_pos rfl,naturalOf_toDigits,Option.map_some]
    exact congrArg some (by omega)
  · next hpos =>
    obtain ⟨c,cs,hdigits,hminus⟩ := digits_ne_minus z.natAbs
    have hnatural := naturalOf_toDigits z.natAbs
    rw [hdigits] at hnatural ⊢
    rw [integerOf,if_neg hminus,hnatural,Option.map_some]
    exact congrArg some (by omega)

theorem Prints.null : Prints n .null .null := ⟨.null,[.word "null".toList],rfl,.word rfl⟩

theorem Prints.bool (value : Bool) : Prints n (.bool value) (.bool value) := by
  refine ⟨.bool,?_⟩
  cases value with
  | false => exact ⟨[.word "false".toList],rfl,.word rfl⟩
  | true => exact ⟨[.word "true".toList],rfl,.word rfl⟩

theorem Prints.string (s : String) : Prints n (.string s) (.string s) :=
  ⟨.string,jsonText_string s⟩

/-- Integers of 64 bits are read as they are printed. -/
theorem Prints.integer (hlow : -2^63 ≤ z) (hhigh : z < 2^64) :
    Prints n (integer z) (SerdeRecords.integer z) :=
  ⟨.integer hlow hhigh,jsonText_number (isNumber_integer z)⟩

/-- Words of 32 bits are read as they are printed. -/
theorem Prints.u32 (word : UInt32) :
    Prints n (SerdeRecords.integer word.toNat) (SerdeRecords.integer word.toNat) := by
  have hlt := word.toNat_lt
  exact Prints.integer (by omega) (by omega)

/-- Words of 64 bits are read as they are printed. -/
theorem Prints.u64 (word : UInt64) :
    Prints n (SerdeRecords.integer word.toNat) (SerdeRecords.integer word.toNat) := by
  have hlt := word.toNat_lt
  exact Prints.integer (by omega) (by omega)

/-- An array is printed item by item. -/
theorem Prints.array {vs ws : List JsonValue} (h : List.Forall₂ (Prints n) vs ws) :
    Prints (n+1) (.array vs) (.array ws) := by
  constructor
  · refine .array ?_
    induction h with
    | nil => exact fun v hv => absurd hv List.not_mem_nil
    | cons hv _ ih => exact List.forall_mem_cons.mpr ⟨hv.plain,ih⟩
  · exact jsonText_array (h.imp fun _ _ hv => hv.text)

/-- An object is printed member by member, and its members are sorted when it is read. -/
theorem Prints.object {ns : List (String×JsonValue)} (hnames : (ms.map Prod.fst).Nodup)
    (h : List.Forall₂ (fun m m' => m.1=m'.1 ∧ Prints n m.2 m'.2) ms ns) :
    Prints (n+1) (.object ms) (.object (collect ns)) := by
  constructor
  · refine .object hnames ?_
    clear hnames
    induction h with
    | nil => exact fun m hm => absurd hm List.not_mem_nil
    | cons hm _ ih => exact List.forall_mem_cons.mpr ⟨hm.2.plain,ih⟩
  · exact jsonText_object (h.imp fun _ _ hm => ⟨hm.1,hm.2.text⟩)

/-- Sorting members with different names does not change what a name finds. -/
theorem get_collect (hnames : (ms.map Prod.fst).Nodup) (key : String) :
    (JsonValue.object (collect ms)).get key=(JsonValue.object ms).get key := by
  induction ms using List.reverseRecOn with
  | nil => rfl
  | append_singleton ms m ih =>
    rw [List.map_append,List.nodup_append] at hnames
    obtain ⟨hms,-,hfresh⟩ := hnames
    rw [collect_concat,get_insertMember,ih hms]
    simp only [JsonValue.get,List.find?_append]
    split
    · next hkey =>
      have hnone : (ms.find? fun m => m.1==key)=none := by
        rw [List.find?_eq_none]
        rintro other hother heq
        rw [beq_iff_eq] at heq
        exact hfresh _ (List.mem_map_of_mem hother) m.1 List.mem_cons_self (heq.trans hkey.symm)
      rw [hnone,Option.none_or,List.find?_cons_of_pos (by simpa using hkey)]
      rfl
    · next hkey =>
      rw [List.find?_cons_of_neg (by simpa using hkey),List.find?_nil,Option.or_none]

/-- The members of a sorted object are read from the members as they were printed. -/
theorem field_collect {α : Type u} {read : JsonValue → Option α}
    (hnames : (ms.map Prod.fst).Nodup) (key : String) :
    field key read (.object (collect ms))=field key read (.object ms) := by
  rw [field,get_collect hnames,←field]

/-- Collecting members leaves what an optional field reads. -/
theorem optionalField_collect {α : Type u} {read : JsonValue → Option α}
    (hnames : (ms.map Prod.fst).Nodup) (key : String) :
    optionalField key read (.object (collect ms))=optionalField key read (.object ms) := by
  rw [optionalField,get_collect hnames,←optionalField]

@[simp] theorem asU32_toNat (word : UInt32) : asU32 (integer word.toNat)=some word := by
  have hlt := word.toNat_lt
  have hmod : ((word.toNat : ℤ)%2^32).toNat=word.toNat := by omega
  rw [asU32,asInteger_integer,Option.bind_some,if_pos (by omega),UInt32.ofInt,hmod,
    UInt32.ofNat_toNat]

@[simp] theorem asU64_toNat (word : UInt64) : asU64 (integer word.toNat)=some word := by
  have hlt := word.toNat_lt
  have hmod : ((word.toNat : ℤ)%2^64).toNat=word.toNat := by omega
  rw [asU64,asInteger_integer,Option.bind_some,if_pos (by omega),UInt64.ofInt,hmod,
    UInt64.ofNat_toNat]

/-- A list whose items read back reads back. -/
theorem sequence_printed {α : Type u} {write : α → JsonValue} {read : JsonValue → Option α}
    (h : ∀ a, ∃ v, Prints n (write a) v ∧ read v=some a) (as : List α) :
    ∃ v, Prints (n+1) (.array (as.map write)) v ∧ sequence read v=some as := by
  have hitems : ∃ ws, List.Forall₂ (Prints n) (as.map write) ws ∧ ws.mapM read=some as := by
    induction as with
    | nil => exact ⟨[],.nil,rfl⟩
    | cons a as ih =>
      obtain ⟨w,hw,hread⟩ := h a
      obtain ⟨ws,hws,hreads⟩ := ih
      refine ⟨w::ws,.cons hw hws,?_⟩
      rw [List.mapM_cons,hread,hreads]
      rfl
  obtain ⟨ws,hws,hreads⟩ := hitems
  exact ⟨.array ws,Prints.array hws,hreads⟩

end AegisRuntime.SerdeRecords
