import Mathlib.Data.List.Infix

/-!
# Searching text

Where a pattern first occurs in a text, as what stands before it and after it,
and where a character last occurs. The rules say that a search succeeds exactly
on texts with an occurrence, that no occurrence starts earlier, and that an
occurrence in a text with a foreign frame around it lies inside the frame.
-/

namespace AegisRuntime.TextSearching

/-- What stands before and after the first occurrence of a pattern. -/
def splitFirst (pattern : List Char) : List Char → Option (List Char×List Char)
  | [] => if pattern=[] then some ([],[]) else none
  | c::cs =>
    if pattern <+: c::cs then some ([],(c::cs).drop pattern.length)
    else (splitFirst pattern cs).map fun p => (c::p.1,p.2)

/-- What stands before and after the last occurrence of a character. -/
def splitLast (c : Char) (cs : List Char) : Option (List Char×List Char) :=
  (splitFirst [c] cs.reverse).map fun p => (p.2.reverse,p.1.reverse)

variable {pattern a b cs : List Char} {c : Char}

/-- The text is put together again from the pieces. -/
theorem splitFirst_eq (h : splitFirst pattern cs=some (a,b)) : cs=a++(pattern++b) := by
  induction cs generalizing a b with
  | nil =>
    rw [splitFirst] at h
    split at h
    · next hpattern =>
      cases h
      rw [hpattern]
      rfl
    · cases h
  | cons c cs ih =>
    rw [splitFirst] at h
    split at h
    · next hstarts =>
      cases h
      exact (List.prefix_iff_eq_append.mp hstarts).symm
    · obtain ⟨⟨a',b'⟩,hrest,heq⟩ := Option.map_eq_some_iff.mp h
      cases heq
      rw [ih hrest]
      rfl

/-- An occurrence is found, and none starts before the one that is found. -/
theorem splitFirst_least (pattern a b : List Char) : ∃ before after,
    splitFirst pattern (a++(pattern++b))=some (before,after) ∧ before.length ≤ a.length := by
  induction a with
  | nil =>
    rw [List.nil_append]
    cases hcs : pattern++b with
    | nil =>
      rw [List.append_eq_nil_iff] at hcs
      exact ⟨[],[],by rw [splitFirst,if_pos hcs.1],Nat.le_refl 0⟩
    | cons c cs =>
      have hstarts : pattern <+: c::cs := ⟨b,hcs⟩
      exact ⟨[],_,by rw [splitFirst,if_pos hstarts],Nat.le_refl 0⟩
  | cons c a ih =>
    obtain ⟨before,after,hfound,hle⟩ := ih
    rw [List.cons_append,splitFirst]
    split
    · exact ⟨[],_,rfl,Nat.zero_le _⟩
    · rw [hfound]
      exact ⟨_,_,rfl,Nat.succ_le_succ hle⟩

/-- A pattern at the start is found there. -/
theorem splitFirst_start (pattern b : List Char) :
    splitFirst pattern (pattern++b)=some ([],b) := by
  obtain ⟨before,after,hfound,hle⟩ := splitFirst_least pattern [] b
  have hnil : before=[] := List.length_eq_zero_iff.mp (Nat.le_zero.mp hle)
  subst hnil
  have heq : pattern++b=pattern++after := splitFirst_eq hfound
  have hb : b=after := List.append_cancel_left heq
  subst hb
  exact hfound

/-- The first occurrence of a character is behind a text without it. -/
theorem splitFirst_singleton (h : c∉a) (b : List Char) :
    splitFirst [c] (a++c::b)=some (a,b) := by
  induction a with
  | nil => exact splitFirst_start [c] b
  | cons d a ih =>
    obtain ⟨hd,ha⟩ := List.ne_and_not_mem_of_not_mem_cons h
    have hnot : ¬[c] <+: d::(a++c::b) := by
      intro hstarts
      exact hd (List.cons_prefix_cons.mp hstarts).1
    rw [List.cons_append,splitFirst,if_neg hnot,ih ha]
    rfl

/-- The last occurrence of a character is before a text without it. -/
theorem splitLast_eq (h : c∉b) (a : List Char) : splitLast c (a++c::b)=some (a,b) := by
  have hreverse : (a++c::b).reverse=b.reverse++c::a.reverse := by simp
  rw [splitLast,hreverse,splitFirst_singleton (by simpa using h)]
  simp

/-- An occurrence whose characters the frame does not have lies inside it. -/
theorem occurrence_inside (c : Char) (pattern before : List Char) {inner after : List Char}
    (hbefore : c∉before) (hafter : ∀ d∈c::pattern, d∉after)
    (h : before++(inner++after)=a++(c::pattern++b)) :
    ∃ p s, a=before++p ∧ inner=p++(c::pattern++s) ∧ b=s++after := by
  obtain ⟨p,rfl,hinner⟩ : ∃ p, a=before++p ∧ inner++after=p++(c::pattern++b) := by
    rcases List.append_eq_append_iff.mp h with hleft|⟨bs,hbs,hrest⟩
    · exact hleft
    · cases bs with
      | nil => exact ⟨[],by rw [hbs,List.append_nil,List.append_nil],hrest.symm⟩
      | cons d bs =>
        -- the occurrence would start inside the frame
        have hd : c=d := (List.cons.inj hrest).1
        rw [hbs,hd] at hbefore
        exact absurd (List.mem_append_right _ List.mem_cons_self) hbefore
  refine ⟨p,?_⟩
  rw [←List.append_assoc] at hinner
  rcases List.append_eq_append_iff.mp hinner with ⟨as,has,hrest⟩|⟨bs,hbs,hrest⟩
  · rcases List.eq_nil_or_concat as with rfl|⟨as,d,rfl⟩
    · rw [List.append_nil] at has
      exact ⟨[],rfl,by rw [List.append_nil,has],hrest.symm⟩
    · -- the last character of the occurrence would be in the frame
      have hlast : (p++c::pattern).getLast?=some d := by simp [has]
      have hd : d∈c::pattern := by
        rw [List.getLast?_append_of_ne_nil _ (List.cons_ne_nil c pattern)] at hlast
        exact List.mem_of_getLast? hlast
      rw [hrest] at hafter
      exact absurd (by simp) (hafter d hd)
  · exact ⟨bs,rfl,by rw [hbs,List.append_assoc],hrest⟩

end AegisRuntime.TextSearching
