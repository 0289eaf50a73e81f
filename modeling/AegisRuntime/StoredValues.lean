import AegisRuntime.SerdeRecords

/-!
# JSON values kept as text

A value of any shape is printed and read back. What comes back is up to the reader:
a fraction may come back as its neighbour, and a value nested too deeply is not read.
Storable values come back as they were printed: the members of an object in the order
of their names, all numbers integers of 64 bits, and a bound on the arrays and objects
inside each other.
-/

namespace AegisRuntime.StoredValues

open JsonValues JsonTexts SerdeRecords

/-- Whether a literal is the decimal form of an integer of 64 bits. -/
def isStoredInteger (literal : String) : Bool :=
  match integerOf literal.toList with
  | some z => literal==toString z && decide (-2^63 ≤ z) && decide (z < 2^64)
  | none => false

/-- Whether the members stand in the order of their names. -/
def isOrdered (ms : List (String×JsonValue)) : Bool := decide (ms.Pairwise fun a b => a.1 < b.1)

mutual

/-- Whether all numbers of a value are integers of 64 bits, the members of its objects stand
in the order of their names, and its arrays and objects are nested up to a depth only. -/
def storable : ℕ → JsonValue → Bool
  | _,.null => true
  | _,.bool _ => true
  | _,.number literal => isStoredInteger literal
  | _,.string _ => true
  | 0,.array _ => false
  | n+1,.array items => storableItems n items
  | 0,.object _ => false
  | n+1,.object members => isOrdered members && storableMembers n members

/-- Whether all items are. -/
def storableItems : ℕ → List JsonValue → Bool
  | _,[] => true
  | n,v::vs => storable n v && storableItems n vs

/-- Whether the values of all members are. -/
def storableMembers : ℕ → List (String×JsonValue) → Bool
  | _,[] => true
  | n,(_,v)::ms => storable n v && storableMembers n ms

end

/-- A literal that is the decimal form of an integer of 64 bits is read as it is printed. -/
theorem prints_storedInteger {n : ℕ} {literal : String} (h : isStoredInteger literal=true) :
    Prints n (.number literal) (.number literal) := by
  unfold isStoredInteger at h
  split at h
  · next z hz =>
    rw [Bool.and_eq_true,Bool.and_eq_true,beq_iff_eq,decide_eq_true_eq,decide_eq_true_eq] at h
    obtain ⟨⟨rfl,hlow⟩,hhigh⟩ := h
    exact Prints.integer hlow hhigh
  · cases h

/-- An object whose members stand in order is read as it is printed. -/
theorem prints_ordered {n : ℕ} {ms : List (String×JsonValue)} (hordered : isOrdered ms=true)
    (h : ∀ m∈ms, Prints n m.2 m.2) : Prints (n+1) (.object ms) (.object ms) := by
  rw [isOrdered,decide_eq_true_eq] at hordered
  have hsorted : Ordered ms := hordered
  have hnames : (ms.map Prod.fst).Nodup :=
    List.pairwise_map.mpr (hsorted.imp fun hlt => ne_of_lt hlt)
  have hobject := Prints.object hnames (List.forall₂_same.mpr fun m hm => ⟨rfl,h m hm⟩)
  rwa [hsorted.collect] at hobject

mutual

/-- A storable value is read as it is printed. -/
theorem prints_storable : ∀ {n : ℕ} {v : JsonValue}, storable n v=true → Prints n v v
  | _,.null,_ => Prints.null
  | _,.bool value,_ => Prints.bool value
  | _,.number _,h => prints_storedInteger (by rwa [storable] at h)
  | _,.string s,_ => Prints.string s
  | 0,.array _,h => by cases h
  | _+1,.array items,h => by
    rw [storable] at h
    exact Prints.array (List.forall₂_same.mpr (prints_storableItems h))
  | 0,.object _,h => by cases h
  | _+1,.object members,h => by
    rw [storable,Bool.and_eq_true] at h
    exact prints_ordered h.1 (prints_storableMembers h.2)

theorem prints_storableItems : ∀ {n : ℕ} {vs : List JsonValue}, storableItems n vs=true →
    ∀ v∈vs, Prints n v v
  | _,[],_ => fun v hv => absurd hv List.not_mem_nil
  | _,v::vs,h => by
    rw [storableItems,Bool.and_eq_true] at h
    exact List.forall_mem_cons.mpr ⟨prints_storable h.1,prints_storableItems h.2⟩

theorem prints_storableMembers : ∀ {n : ℕ} {ms : List (String×JsonValue)},
    storableMembers n ms=true → ∀ m∈ms, Prints n m.2 m.2
  | _,[],_ => fun m hm => absurd hm List.not_mem_nil
  | _,(_,v)::ms,h => by
    rw [storableMembers,Bool.and_eq_true] at h
    exact List.forall_mem_cons.mpr ⟨prints_storable h.1,prints_storableMembers h.2⟩

end

/-- `serde_json::from_str` at `serde_json::Value`, and what is known of it. -/
structure ValueReader where
  /-- Reads a text, or says why it cannot be read. -/
  fromStr : String → Except String JsonValue
  /-- The text of a storable value is read as that value. -/
  reads : ∀ v, storable DEPTH_LIMIT v=true → fromStr v.compact=.ok v

/-- The reader of the grammar, without limits. -/
instance : Inhabited ValueReader where
  default :=
    { fromStr := fun text =>
        match readJson text with
        | some v => .ok v
        | none => .error "expected value"
      reads := by
        intro v hv
        have htree := (readJson_iff v.compact v).mpr (prints_storable hv).text
        simp only [htree] }

example : storable 2 (.object [("a",integer 1),("b",.array [.null])])=true := by decide

end AegisRuntime.StoredValues
