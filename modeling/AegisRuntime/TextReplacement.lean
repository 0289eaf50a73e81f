import AegisRuntime.TextScanning

/-!
# Replacing one text after another

Rules for replacing every occurrence of a pattern, and for replacing the patterns
of a list one after the other by the same marker. The marker is framed by two
characters; a pattern free of them cannot come back once it was replaced, whatever
is replaced before and after it.
-/

namespace AegisRuntime.TextReplacement

open TextScanning

variable {p q r v : List Char} {cs out : List Char} {b : Char}

/-- Reads the replacement of a nonempty pattern off the text, piece by piece. -/
inductive Replaced (p r : List Char) : List Char → List Char → Prop where
  /-- Nothing is left. -/
  | nil : Replaced p r [] []
  /-- No occurrence begins here. -/
  | keep {c : Char} {cs out : List Char} (h : ¬ p<+:c::cs) (rest : Replaced p r cs out) :
    Replaced p r (c::cs) (c::out)
  /-- An occurrence is replaced, and the text goes on after it. -/
  | swap {cs out : List Char} (rest : Replaced p r cs out) : Replaced p r (p++cs) (r++out)

/-- Skipping the characters of a text leaves what follows it. -/
theorem replaceScan_skip (p r xs cs : List Char) :
    replaceScan p r xs.length (xs++cs)=replaceScan p r 0 cs := by
  induction xs with
  | nil => rfl
  | cons x xs ih => exact ih

theorem replaceAll_append (hp : p≠[]) (r cs : List Char) :
    replaceAll p r (p++cs)=r++replaceAll p r cs := by
  obtain ⟨c,p,rfl⟩ := List.exists_cons_of_ne_nil hp
  have hbegins : (c::p).isPrefixOf (c::(p++cs))=true :=
    List.isPrefixOf_iff_prefix.mpr (List.prefix_append (c::p) cs)
  rw [replaceAll,List.cons_append,replaceScan,hbegins,if_pos rfl]
  exact congrArg (r++·) (replaceScan_skip (c::p) r p cs)

theorem replaceAll_cons {c : Char} (h : ¬ p<+:c::cs) :
    replaceAll p r (c::cs)=c::replaceAll p r cs := by
  have hnone : p.isPrefixOf (c::cs)=false := by
    rw [Bool.eq_false_iff]
    exact fun hbegins => h (List.isPrefixOf_iff_prefix.mp hbegins)
  rw [replaceAll,replaceScan,hnone,if_neg Bool.false_ne_true]
  rfl

/-- Replacing a nonempty pattern goes through the text piece by piece. -/
theorem replaced_replaceAll (hp : p≠[]) (r cs : List Char) :
    Replaced p r cs (replaceAll p r cs) := by
  induction hn : cs.length using Nat.strong_induction_on generalizing cs with
  | _ n ih =>
    cases cs with
    | nil => exact Replaced.nil
    | cons c cs =>
      by_cases h : p<+:c::cs
      · obtain ⟨rest,hrest⟩ := h
        have hlength := congrArg List.length hrest
        have hpos := List.length_pos_iff.mpr hp
        rw [List.length_append,hn] at hlength
        rw [←hrest,replaceAll_append hp]
        exact Replaced.swap (ih rest.length (by omega) rest rfl)
      · rw [replaceAll_cons h]
        rw [List.length_cons] at hn
        exact Replaced.keep h (ih cs.length (by omega) cs rfl)

/-- A text of some bytes is not empty. -/
theorem toList_ne_nil {s : String} (h : 0 < s.utf8ByteSize) : s.toList≠[] := by
  intro hnil
  have hempty : s="" := String.toList_inj.mp hnil
  rw [hempty] at h
  exact Nat.lt_irrefl 0 h

/-- A pattern that does not occur leaves the text alone. -/
theorem replaceAll_absent (h : ¬ p<:+:cs) : replaceAll p r cs=cs := by
  induction cs with
  | nil => rfl
  | cons c cs ih =>
    rw [List.infix_cons_iff,not_or] at h
    rw [replaceAll_cons h.1,ih h.2]

theorem containsText_iff : containsText p cs=true ↔ p<:+:cs := by
  rw [containsText,List.any_eq_true]
  constructor
  · rintro ⟨t,ht,hbegins⟩
    exact (List.isPrefixOf_iff_prefix.mp hbegins).isInfix.trans
      ((List.mem_tails t cs).mp ht).isInfix
  · rintro ⟨front,back,rfl⟩
    refine ⟨p++back,?_,List.isPrefixOf_iff_prefix.mpr (List.prefix_append p back)⟩
    rw [List.mem_tails,List.append_assoc]
    exact List.suffix_append front _

/-- A prefix free of a character ends before it. -/
theorem prefix_split (xs : List Char) {ys : List Char} (hb : b∉v) (h : v<+:xs++b::ys) : v<+:xs := by
  induction xs generalizing v with
  | nil =>
    cases v with
    | nil => exact List.nil_prefix
    | cons c v =>
      obtain ⟨rfl,-⟩ := List.cons_prefix_cons.mp h
      exact absurd List.mem_cons_self hb
  | cons x xs ih =>
    cases v with
    | nil => exact List.nil_prefix
    | cons c v =>
      obtain ⟨rfl,hrest⟩ := List.cons_prefix_cons.mp h
      exact List.cons_prefix_cons.mpr ⟨rfl,ih (fun hmem => hb (List.mem_cons_of_mem c hmem)) hrest⟩

/-- An occurrence free of a character lies on one side of it. -/
theorem infix_split {xs ys : List Char} (hb : b∉v) (h : v<:+:xs++b::ys) : v<:+:xs ∨ v<:+:ys := by
  induction xs with
  | nil =>
    rcases List.infix_cons_iff.mp h with hbegins|hys
    · exact Or.inl (prefix_split [] hb hbegins).isInfix
    · exact Or.inr hys
  | cons x xs ih =>
    rcases List.infix_cons_iff.mp h with hbegins|hrest
    · exact Or.inl (prefix_split (x::xs) hb hbegins).isInfix
    · exact (ih hrest).imp (fun hxs => hxs.trans (List.suffix_cons x xs).isInfix) id

/-- A character that the pattern does not have splits the replacement. -/
theorem replaceAll_split (hp : p≠[]) (hb : b∉p) (r xs ys : List Char) :
    replaceAll p r (xs++b::ys)=replaceAll p r xs++b::replaceAll p r ys := by
  have hxs := replaced_replaceAll hp r xs
  generalize replaceAll p r xs=out at hxs ⊢
  induction hxs with
  | nil =>
    refine replaceAll_cons fun h => hp ?_
    exact List.prefix_nil.mp (prefix_split [] hb h)
  | @keep c xs out h rest ih =>
    have hnone : ¬ p<+:c::(xs++b::ys) := fun hbegins => h (prefix_split (c::xs) hb hbegins)
    rw [List.cons_append,replaceAll_cons hnone,ih]
    rfl
  | swap rest ih => rw [List.append_assoc,replaceAll_append hp,ih,List.append_assoc]

/-- A marker is framed by two different characters. -/
structure Marker where
  /-- The first character. -/
  opening : Char
  /-- What stands between the two. -/
  inner : List Char
  /-- The last character. -/
  closing : Char
  /-- The two differ. -/
  distinct : opening≠closing
  /-- The first does not stand between the two. -/
  opening_notMem : opening∉inner
  /-- The last does not stand between the two. -/
  closing_notMem : closing∉inner

/-- A text without brackets as a marker, framed by brackets. -/
def Marker.bracketed (inner : List Char) (hopening : '['∉inner) (hclosing : ']'∉inner) :
    Marker where
  opening := '['
  inner := inner
  closing := ']'
  distinct := by decide
  opening_notMem := hopening
  closing_notMem := hclosing

/-- The text of a marker. -/
def Marker.text (m : Marker) : List Char := m.opening::(m.inner++[m.closing])

/-- The text has none of the two framing characters. -/
def Marker.Free (m : Marker) (v : List Char) : Prop := m.opening∉v ∧ m.closing∉v

variable {m : Marker}

/-- Replaces patterns by the marker, one after the other. -/
def replaceEach (m : Marker) (patterns : List (List Char)) (cs : List Char) : List Char :=
  patterns.foldl (fun cs p => replaceAll p m.text cs) cs

theorem replaceEach_cons (p : List Char) (patterns : List (List Char)) (cs : List Char) :
    replaceEach m (p::patterns) cs=replaceEach m patterns (replaceAll p m.text cs) := rfl

theorem replaceEach_append (ps qs : List (List Char)) (cs : List Char) :
    replaceEach m (ps++qs) cs=replaceEach m qs (replaceEach m ps cs) := List.foldl_append

/-- A free text at the front of a replacement was there before. -/
theorem prefix_of_replaced (hv : m.Free v) (h : Replaced p m.text cs out) (hbegins : v<+:out) :
    v<+:cs := by
  induction h generalizing v with
  | nil => exact hbegins
  | keep _ rest ih =>
    cases v with
    | nil => exact List.nil_prefix
    | cons d v =>
      obtain ⟨rfl,hrest⟩ := List.cons_prefix_cons.mp hbegins
      refine List.cons_prefix_cons.mpr ⟨rfl,ih ⟨?_,?_⟩ hrest⟩
      · exact fun hmem => hv.1 (List.mem_cons_of_mem _ hmem)
      · exact fun hmem => hv.2 (List.mem_cons_of_mem _ hmem)
  | swap rest ih =>
    rw [List.prefix_nil.mp (prefix_split [] hv.1 hbegins)]
    exact List.nil_prefix

/-- A free text behind a marker occurs inside it or after it. -/
theorem infix_marker (hv : m.Free v) (h : v<:+:m.text++cs) : v<:+:m.inner ∨ v<:+:cs := by
  have hsplit : m.text++cs=[]++m.opening::(m.inner++m.closing::cs) := by
    simp [Marker.text]
  rw [hsplit] at h
  rcases infix_split hv.1 h with hnil|hrest
  · exact Or.inl (hnil.trans List.nil_infix)
  · exact infix_split hv.2 hrest

/-- A free text that does not occur in the marker occurs in a replacement only
where it occurred before. -/
theorem infix_of_replaced (hv : m.Free v) (hinner : ¬ v<:+:m.inner)
    (h : Replaced p m.text cs out) (hout : v<:+:out) : v<:+:cs := by
  induction h with
  | nil => exact hout
  | keep hnone rest ih =>
    rcases List.infix_cons_iff.mp hout with hbegins|hrest
    · exact (prefix_of_replaced hv (Replaced.keep hnone rest) hbegins).isInfix
    · exact (ih hrest).trans (List.suffix_cons _ _).isInfix
  | swap rest ih =>
    have hrest := (infix_marker hv hout).resolve_left hinner
    exact (ih hrest).trans (List.suffix_append _ _).isInfix

/-- A text that was replaced does not occur any more. -/
theorem not_infix_replaced (hv : m.Free v) (hne : v≠[]) (hinner : ¬ v<:+:m.inner)
    (h : Replaced v m.text cs out) : ¬ v<:+:out := by
  induction h with
  | nil => exact fun hout => hne (List.infix_nil.mp hout)
  | keep hnone rest ih =>
    intro hout
    rcases List.infix_cons_iff.mp hout with hbegins|hrest
    · exact hnone (prefix_of_replaced hv (Replaced.keep hnone rest) hbegins)
    · exact ih hrest
  | swap rest ih =>
    intro hout
    exact ih ((infix_marker hv hout).resolve_left hinner)

/-- Later replacements do not bring a free text back. -/
theorem not_infix_replaceEach_of_not {patterns : List (List Char)} (hne : ∀ p∈patterns, p≠[])
    (hv : m.Free v) (hinner : ¬ v<:+:m.inner) (h : ¬ v<:+:cs) :
    ¬ v<:+:replaceEach m patterns cs := by
  induction patterns generalizing cs with
  | nil => exact h
  | cons p patterns ih =>
    have hp := replaced_replaceAll (hne p List.mem_cons_self) m.text cs
    exact ih (fun q hq => hne q (List.mem_cons_of_mem p hq))
      (fun hout => h (infix_of_replaced hv hinner hp hout))

/-- A pattern free of the framing characters that is not part of the marker does
not occur after the replacements, whatever else is replaced before and after it. -/
theorem not_infix_replaceEach {patterns : List (List Char)} (hne : ∀ p∈patterns, p≠[])
    (hmem : v∈patterns) (hv : m.Free v) (hinner : ¬ v<:+:m.inner) :
    ¬ v<:+:replaceEach m patterns cs := by
  obtain ⟨before,after,rfl⟩ := List.append_of_mem hmem
  rw [replaceEach_append,replaceEach_cons]
  refine not_infix_replaceEach_of_not (fun p hp => hne p ?_) hv hinner ?_
  · exact List.mem_append_right before (List.mem_cons_of_mem v hp)
  · have hvne := hne v hmem
    exact not_infix_replaced hv hvne hinner (replaced_replaceAll hvne _ _)

end AegisRuntime.TextReplacement
