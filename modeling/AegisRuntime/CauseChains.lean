import AegisRuntime.FailureRecords

/-!
# Cause chains

What a failure record keeps of the causes pushed onto it. The offsets at which a
message may be cut are also told from its bytes, as `str::is_char_boundary` does it,
so a cut message is the beginning of the message up to the last such offset that fits.
-/

namespace AegisRuntime.CauseChains

open JsonValues FailureRecords

variable {cs : List Char} {n : ℕ}

/-- The UTF-8 bytes of a text. -/
def encode (cs : List Char) : List UInt8 := cs.flatMap String.utf8EncodeChar

/-- The byte is not a continuation byte; as a signed byte it is at least -64. -/
def startsChar (b : UInt8) : Bool := b.toNat < 128 || 192 ≤ b.toNat

/-- `str::is_char_boundary` on the bytes of a text. -/
def boundaryOfBytes (bytes : List UInt8) (index : ℕ) : Bool :=
  if index=0 then true
  else
    match bytes[index]? with
    | some b => startsChar b
    | none => index==bytes.length

/-- A character is encoded by one byte that starts it and continuation bytes. -/
theorem encodeChar_shape (c : Char) : ∃ b rest, String.utf8EncodeChar c=b::rest ∧
    startsChar b=true ∧ ∀ x∈rest, startsChar x=false := by
  have hstart : ∀ v, v < 128 ∨ 192 ≤ v → v < 256 → startsChar (UInt8.ofNat v)=true := by
    intro v hv hlt
    rw [startsChar,UInt8.toNat_ofNat',Bool.or_eq_true,decide_eq_true_eq,decide_eq_true_eq]
    omega
  have hcontinue : ∀ v, startsChar (UInt8.ofNat (v%64+128))=false := by
    intro v
    rw [startsChar,UInt8.toNat_ofNat',Bool.or_eq_false_iff,decide_eq_false_iff_not,
      decide_eq_false_iff_not]
    omega
  have hone : ∀ v, ∀ x∈[UInt8.ofNat (v%64+128)], startsChar x=false := fun v =>
    List.forall_mem_cons.mpr ⟨hcontinue v,List.forall_mem_nil _⟩
  have htwo : ∀ u v, ∀ x∈[UInt8.ofNat (u%64+128),UInt8.ofNat (v%64+128)], startsChar x=false :=
    fun u v => List.forall_mem_cons.mpr ⟨hcontinue u,hone v⟩
  have hvalid := c.valid
  unfold String.utf8EncodeChar
  simp only []
  split
  · exact ⟨_,_,rfl,hstart _ (by omega) (by omega),List.forall_mem_nil _⟩
  · split
    · exact ⟨_,_,rfl,hstart _ (by omega) (by omega),hone _⟩
    · split
      · exact ⟨_,_,rfl,hstart _ (by omega) (by omega),htwo _ _⟩
      · exact ⟨_,_,rfl,hstart _ (by omega) (by omega),
          List.forall_mem_cons.mpr ⟨hcontinue _,htwo _ _⟩⟩

theorem encode_cons (c : Char) (cs : List Char) :
    encode (c::cs)=String.utf8EncodeChar c++encode cs := List.flatMap_cons

/-- The first byte of a text starts a character. -/
theorem startsChar_first {b : UInt8} (h : (encode cs)[0]?=some b) : startsChar b=true := by
  cases cs with
  | nil => cases h
  | cons c cs =>
    obtain ⟨b',rest,hshape,hstart,-⟩ := encodeChar_shape c
    rw [encode_cons,hshape] at h
    cases h
    exact hstart

theorem isCharBoundary_succ (c : Char) (cs : List Char) (n : ℕ) : isCharBoundary (c::cs) (n+1)=
    (decide (c.utf8Size ≤ n+1) && isCharBoundary cs (n+1-c.utf8Size)) := rfl

/-- The bytes tell the offsets between characters. -/
theorem boundaryOfBytes_encode (cs : List Char) (n : ℕ) :
    boundaryOfBytes (encode cs) n=isCharBoundary cs n := by
  induction cs generalizing n with
  | nil =>
    cases n with
    | zero => rfl
    | succ n => rfl
  | cons c cs ih =>
    cases n with
    | zero => rfl
    | succ n =>
      obtain ⟨b,rest,hshape,-,hrest⟩ := encodeChar_shape c
      have hlength : (String.utf8EncodeChar c).length=c.utf8Size := String.length_utf8EncodeChar c
      rw [isCharBoundary_succ,encode_cons,boundaryOfBytes,if_neg (Nat.succ_ne_zero n)]
      rcases Nat.lt_or_ge (n+1) c.utf8Size with hlt|hge
      · -- the offset is inside the character
        have hinside : n < rest.length := by
          rw [hshape,List.length_cons] at hlength
          omega
        rw [List.getElem?_append_left (by rw [hlength]; exact hlt),hshape,List.getElem?_cons_succ,
          List.getElem?_eq_getElem hinside,decide_eq_false (Nat.not_le.mpr hlt),Bool.false_and]
        exact hrest _ (List.getElem_mem hinside)
      · rw [List.getElem?_append_right (by rw [hlength]; exact hge),hlength,List.length_append,
          hlength,decide_eq_true hge,Bool.true_and,←ih,boundaryOfBytes]
        by_cases hat : n+1-c.utf8Size=0
        · -- the offset is right behind the character
          rw [if_pos hat,hat]
          cases hfirst : (encode cs)[0]? with
          | some b => exact startsChar_first hfirst
          | none =>
            have hempty := List.getElem?_eq_none_iff.mp hfirst
            exact beq_iff_eq.mpr (by omega)
        · rw [if_neg hat]
          cases (encode cs)[n+1-c.utf8Size]? with
          | some b => rfl
          | none =>
            rw [Bool.eq_iff_iff,beq_iff_eq,beq_iff_eq]
            omega

/-- An offset between characters is not behind the end. -/
theorem le_of_boundary {bytes : List UInt8} (h : boundaryOfBytes bytes n=true) :
    n ≤ bytes.length := by
  unfold boundaryOfBytes at h
  split at h
  · next hzero => omega
  · split at h
    · next hget => exact (List.getElem?_eq_some_iff.mp hget).1.le
    · exact (beq_iff_eq.mp h).le

theorem boundary_length (bytes : List UInt8) : boundaryOfBytes bytes bytes.length=true := by
  unfold boundaryOfBytes
  split
  · rfl
  · rw [List.getElem?_eq_none (Nat.le_refl _)]
    exact beq_self_eq_true _

/-- The `while` loop of `truncate_bytes` finds the last offset between characters. -/
theorem lowerToBoundary_spec (cs : List Char) (max : ℕ) :
    lowerToBoundary cs max ≤ max ∧ isCharBoundary cs (lowerToBoundary cs max)=true ∧
      ∀ n, n ≤ max → isCharBoundary cs n=true → n ≤ lowerToBoundary cs max := by
  induction max with
  | zero =>
    refine ⟨Nat.le_refl 0,?_,fun n hn _ => hn⟩
    rw [lowerToBoundary,isCharBoundary]
  | succ max ih =>
    obtain ⟨hle,hboundary,hlast⟩ := ih
    rw [lowerToBoundary]
    split
    · next hat => exact ⟨Nat.le_refl _,hat,fun n hn _ => hn⟩
    · next hinside =>
      refine ⟨Nat.le_succ_of_le hle,hboundary,fun n hn hat => ?_⟩
      rcases Nat.le_succ_iff.mp hn with hn|rfl
      · exact hlast n hn hat
      · exact absurd hat hinside

/-- What is kept up to an offset is a beginning of the text. -/
theorem prefix_takeBytes (cs : List Char) (n : ℕ) : takeBytes cs n<+:cs := by
  induction cs generalizing n with
  | nil => exact List.prefix_refl []
  | cons c cs ih =>
    rw [takeBytes]
    split
    · exact List.cons_prefix_cons.mpr ⟨rfl,ih _⟩
    · exact List.nil_prefix

/-- Between characters it has as many bytes as the offset says. -/
theorem length_takeBytes (h : isCharBoundary cs n=true) : (encode (takeBytes cs n)).length=n := by
  induction cs generalizing n with
  | nil =>
    cases n with
    | zero => rfl
    | succ n => cases h
  | cons c cs ih =>
    rw [takeBytes]
    split
    · next hle =>
      have hrest : isCharBoundary cs (n-c.utf8Size)=true := by
        cases n with
        | zero => rw [Nat.zero_sub,isCharBoundary]
        | succ n =>
          rw [isCharBoundary_succ,Bool.and_eq_true] at h
          exact h.2
      rw [encode_cons,List.length_append,String.length_utf8EncodeChar,ih hrest]
      omega
    · next hlong =>
      cases n with
      | zero => rfl
      | succ n =>
        rw [isCharBoundary_succ,Bool.and_eq_true,decide_eq_true_eq] at h
        exact absurd h.1 hlong

/-- A truncated text is a beginning of the text. -/
theorem prefix_truncateBytes (s : String) (max : ℕ) : (truncateBytes s max).toList<+:s.toList := by
  rw [truncateBytes]
  split
  · exact List.prefix_refl _
  · rw [String.toList_ofList]
    exact prefix_takeBytes _ _

/-- The size of a text is the number of its bytes. -/
theorem length_encode (s : String) : (encode s.toList).length=s.utf8ByteSize := by
  have hbytes : s.toList.utf8Encode=s.toByteArray := by
    rw [←String.toByteArray_ofList,String.ofList_toList]
  rw [String.utf8ByteSize,←hbytes]
  exact (List.size_toByteArray).symm

/-- The kept text is the longest beginning of a text that ends between characters and
fits a number of bytes. -/
structure LongestCut (s : String) (max : ℕ) (kept : String) : Prop where
  /-- It is a beginning of the text. -/
  cut : encode kept.toList<+:encode s.toList
  /-- It ends between characters. -/
  boundary : boundaryOfBytes (encode s.toList) (encode kept.toList).length=true
  /-- It fits. -/
  fits : (encode kept.toList).length ≤ max
  /-- No later offset between characters fits. -/
  longest : ∀ n, n ≤ max → boundaryOfBytes (encode s.toList) n=true →
    n ≤ (encode kept.toList).length

theorem truncateBytes_cut (s : String) (max : ℕ) : LongestCut s max (truncateBytes s max) := by
  have hcut : encode (truncateBytes s max).toList<+:encode s.toList := by
    obtain ⟨rest,hrest⟩ := prefix_truncateBytes s max
    rw [←hrest,encode,encode,List.flatMap_append]
    exact List.prefix_append _ _
  have hlast : boundaryOfBytes (encode s.toList) (encode (truncateBytes s max).toList).length=true ∧
      (encode (truncateBytes s max).toList).length ≤ max ∧
      ∀ n, n ≤ max → boundaryOfBytes (encode s.toList) n=true →
        n ≤ (encode (truncateBytes s max).toList).length := by
    rw [truncateBytes]
    split
    · next hshort =>
      refine ⟨boundary_length _,?_,fun n _ hat => le_of_boundary hat⟩
      rw [length_encode]
      exact hshort
    · obtain ⟨hle,hboundary,hlast⟩ := lowerToBoundary_spec s.toList max
      rw [String.toList_ofList,length_takeBytes hboundary,boundaryOfBytes_encode]
      refine ⟨hboundary,hle,fun n hn hat => ?_⟩
      rw [boundaryOfBytes_encode] at hat
      exact hlast n hn hat
  exact ⟨hcut,hlast.1,hlast.2.1,hlast.2.2⟩

/-- The arguments of one call of `push_cause`. -/
structure Push where
  /-- Who reports the cause. -/
  source : String
  /-- The cause. -/
  message : String
  /-- The payload, if any. -/
  payload : Option JsonValue

/-- The entry that is kept of a cause. -/
def Push.entry (sha256Hex : JsonValue → String) (p : Push) : CauseEntry :=
  ⟨p.source,truncateBytes p.message MAX_CAUSE_MESSAGE_BYTES,p.payload.map (payloadDigest sha256Hex)⟩

/-- Calls of `push_cause` in order. -/
def pushAll (sha256Hex : JsonValue → String) (r : FailureRecord) (pushes : List Push) :
    FailureRecord :=
  pushes.foldl (fun r p => r.pushCause sha256Hex p.source p.message p.payload) r

/-- The calls fill the chain up to its bound and note whether a cause was dropped. -/
theorem pushAll_eq (sha256Hex : JsonValue → String) (r : FailureRecord) (pushes : List Push) :
    pushAll sha256Hex r pushes={r with
      cause := r.cause++(pushes.take (MAX_CAUSE_ENTRIES-r.cause.length)).map (Push.entry sha256Hex)
      causeTruncated := r.causeTruncated ||
        decide (pushes≠[] ∧ MAX_CAUSE_ENTRIES < r.cause.length+pushes.length)} := by
  induction pushes generalizing r with
  | nil => simp [pushAll]
  | cons p pushes ih =>
    rw [pushAll,List.foldl_cons]
    refine (ih _).trans ?_
    rw [FailureRecord.pushCause]
    split
    · next hfull =>
      have hnone : MAX_CAUSE_ENTRIES-r.cause.length=0 := Nat.sub_eq_zero_of_le hfull
      have hover : MAX_CAUSE_ENTRIES < r.cause.length+(pushes.length+1) := by omega
      simp [hnone,hover]
    · next hroom =>
      have hsucc : MAX_CAUSE_ENTRIES-r.cause.length=MAX_CAUSE_ENTRIES-(r.cause.length+1)+1 := by
        omega
      have hover : (pushes≠[] ∧ MAX_CAUSE_ENTRIES < r.cause.length+1+pushes.length) ↔
          MAX_CAUSE_ENTRIES < r.cause.length+(pushes.length+1) := by
        constructor
        · intro h
          omega
        · intro h
          refine ⟨?_,by omega⟩
          rintro rfl
          rw [List.length_nil] at h
          omega
      simp [hsucc,hover,Push.entry]

/-- Cause chains stay bounded and faithful: of any calls of `push_cause` a record
keeps the first ones for which there is room, for a new record the first
`MAX_CAUSE_ENTRIES`, and notes whether one was dropped. Every message is cut to the
longest beginning that fits and ends between characters, for any text and limit; the
offset at which the text is sliced is between characters. -/
theorem cause_chain_faithful (sha256Hex : JsonValue → String) (r : FailureRecord)
    (pushes : List Push) :
    (pushAll sha256Hex r pushes).cause=r.cause++
        (pushes.take (MAX_CAUSE_ENTRIES-r.cause.length)).map (Push.entry sha256Hex) ∧
      ((pushAll sha256Hex r pushes).causeTruncated=true ↔
        r.causeTruncated=true ∨ pushes≠[] ∧ MAX_CAUSE_ENTRIES < r.cause.length+pushes.length) ∧
      (r.cause=[] ∧ r.causeTruncated=false →
        (pushAll sha256Hex r pushes).cause=
          (pushes.take MAX_CAUSE_ENTRIES).map (Push.entry sha256Hex) ∧
        ((pushAll sha256Hex r pushes).causeTruncated=true ↔ MAX_CAUSE_ENTRIES < pushes.length)) ∧
      (∀ p∈pushes,
        LongestCut p.message MAX_CAUSE_MESSAGE_BYTES (Push.entry sha256Hex p).message) ∧
      ∀ (s : String) (max : ℕ), LongestCut s max (truncateBytes s max) ∧
        boundaryOfBytes (encode s.toList) (lowerToBoundary s.toList max)=true := by
  have htruncated : (pushAll sha256Hex r pushes).causeTruncated=true ↔
      r.causeTruncated=true ∨ pushes≠[] ∧ MAX_CAUSE_ENTRIES < r.cause.length+pushes.length := by
    rw [pushAll_eq,Bool.or_eq_true,decide_eq_true_eq]
  refine ⟨by rw [pushAll_eq],htruncated,?_,fun p _ => truncateBytes_cut _ _,fun s max => ?_⟩
  · rintro ⟨hcause,hopen⟩
    rw [htruncated,pushAll_eq,hcause,hopen]
    refine ⟨rfl,?_⟩
    rw [List.length_nil,Nat.zero_add]
    constructor
    · rintro (h|h)
      · cases h
      · exact h.2
    · intro h
      refine Or.inr ⟨?_,h⟩
      rintro rfl
      exact absurd h (Nat.not_lt_zero _)
  · refine ⟨truncateBytes_cut s max,?_⟩
    rw [boundaryOfBytes_encode]
    exact (lowerToBoundary_spec s.toList max).2.1

end AegisRuntime.CauseChains
