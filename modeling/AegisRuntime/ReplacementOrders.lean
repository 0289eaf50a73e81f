import AegisRuntime.TextReplacement
import Mathlib.Data.List.Perm.Basic

/-!
# The order of replacements

Patterns are replaced one after the other by the same marker. Their order does not
matter when no two different ones overlap and none overlaps the marker. Among
patterns free of the framing characters it matters for some text in every other
case: a pattern inside another one, two that overlap at their borders, or one
inside the marker.
-/

namespace AegisRuntime.ReplacementOrders

open TextScanning TextReplacement

variable {p q r v w : List Char} {cs out : List Char} {m : Marker}

/-- No occurrence of the second text begins in the first, whatever follows it. -/
def Apart (p q : List Char) : Prop := ∀ s, s<:+p → s≠[] → ¬ s<+:q ∧ ¬ q<+:s

/-- Occurrences of the two texts never overlap. -/
def NeverOverlap (p q : List Char) : Prop := Apart p q ∧ Apart q p

theorem NeverOverlap.symm (h : NeverOverlap p q) : NeverOverlap q p := ⟨h.2,h.1⟩

theorem Apart.not_begins (h : Apart p q) (hp : p≠[]) (cs : List Char) : ¬ q<+:p++cs := by
  intro hq
  have hcomparable := h p (List.suffix_refl p) hp
  rcases List.prefix_or_prefix_of_prefix hq (List.prefix_append p cs) with hqp|hpq
  · exact hcomparable.2 hqp
  · exact hcomparable.1 hpq

theorem Apart.of_suffix {s : List Char} (h : Apart p q) (hs : s<:+p) : Apart s q :=
  fun t ht => h t (ht.trans hs)

/-- A replacement passes over a text in which no occurrence begins. -/
theorem replaceAll_passes (h : Apart p q) (r cs : List Char) :
    replaceAll q r (p++cs)=p++replaceAll q r cs := by
  induction p with
  | nil => rfl
  | cons c p ih =>
    have hnone : ¬ q<+:c::(p++cs) := h.not_begins (List.cons_ne_nil c p) cs
    rw [List.cons_append,replaceAll_cons hnone,ih (h.of_suffix (List.suffix_cons c p))]
    rfl

/-- A text that the replacement keeps apart begins only where it began before. -/
theorem prefix_of_apart (hw : Apart w r) (h : Replaced p r cs out) (hbegins : w<+:out) :
    w<+:cs := by
  induction h generalizing w with
  | nil => exact hbegins
  | keep _ rest ih =>
    cases w with
    | nil => exact List.nil_prefix
    | cons d w =>
      obtain ⟨rfl,hrest⟩ := List.cons_prefix_cons.mp hbegins
      exact List.cons_prefix_cons.mpr ⟨rfl,ih (hw.of_suffix (List.suffix_cons _ w)) hrest⟩
  | @swap cs out rest ih =>
    by_cases hne : w=[]
    · rw [hne]
      exact List.nil_prefix
    · have hcomparable := hw w (List.suffix_refl w) hne
      rcases List.prefix_or_prefix_of_prefix hbegins (List.prefix_append r out) with hwr|hrw
      · exact absurd hwr hcomparable.1
      · exact absurd hrw hcomparable.2

/-- Two replacements commute at an occurrence of the first. -/
theorem replaceAll_comm_append (hv : v≠[]) (hvw : NeverOverlap v w) (hwr : NeverOverlap w r)
    {cs : List Char}
    (ih : replaceAll w r (replaceAll v r cs)=replaceAll v r (replaceAll w r cs)) :
    replaceAll w r (replaceAll v r (v++cs))=replaceAll v r (replaceAll w r (v++cs)) := by
  rw [replaceAll_append hv,replaceAll_passes hwr.2,replaceAll_passes hvw.1,replaceAll_append hv,ih]

/-- Two replacements by the same text commute when nothing overlaps. -/
theorem replaceAll_comm (hv : v≠[]) (hw : w≠[]) (hvw : NeverOverlap v w) (hvr : NeverOverlap v r)
    (hwr : NeverOverlap w r) (cs : List Char) :
    replaceAll w r (replaceAll v r cs)=replaceAll v r (replaceAll w r cs) := by
  induction hn : cs.length using Nat.strong_induction_on generalizing cs with
  | _ n ih =>
    have hshorter : ∀ {x t : List Char}, x≠[] → x++t=cs →
        replaceAll w r (replaceAll v r t)=replaceAll v r (replaceAll w r t) := by
      intro x t hx hcs
      have hlength := congrArg List.length hcs
      have hpos := List.length_pos_iff.mpr hx
      rw [List.length_append,hn] at hlength
      exact ih t.length (by omega) t rfl
    by_cases hstartv : v<+:cs
    · obtain ⟨t,rfl⟩ := hstartv
      exact replaceAll_comm_append hv hvw hwr (hshorter hv rfl)
    · by_cases hstartw : w<+:cs
      · obtain ⟨t,rfl⟩ := hstartw
        exact (replaceAll_comm_append hw hvw.symm hvr (hshorter hw rfl).symm).symm
      · cases cs with
        | nil => rfl
        | cons c cs =>
          have hrest := hshorter (x:=[c]) (List.cons_ne_nil c []) rfl
          have hkeptw : ¬ w<+:c::replaceAll v r cs := fun hbegins => hstartw
            (prefix_of_apart hwr.1 (Replaced.keep hstartv (replaced_replaceAll hv r cs)) hbegins)
          have hkeptv : ¬ v<+:c::replaceAll w r cs := fun hbegins => hstartv
            (prefix_of_apart hvr.1 (Replaced.keep hstartw (replaced_replaceAll hw r cs)) hbegins)
          rw [replaceAll_cons hstartv,replaceAll_cons hstartw,replaceAll_cons hkeptw,
            replaceAll_cons hkeptv,hrest]

/-- Replacing a text by itself changes nothing. -/
theorem replaceAll_self (hp : p≠[]) (cs : List Char) : replaceAll p p cs=cs := by
  have h := replaced_replaceAll hp p cs
  generalize replaceAll p p cs=out at h ⊢
  induction h with
  | nil => rfl
  | keep _ _ ih => rw [ih]
  | swap _ ih => rw [ih]

/-- Of the patterns other than the marker, no two different ones overlap, and none
overlaps the marker if there are two. -/
def Separate (m : Marker) (patterns : List (List Char)) : Prop :=
  ∀ v∈patterns, ∀ w∈patterns, v≠w → v≠m.text → w≠m.text →
    NeverOverlap v w ∧ NeverOverlap v m.text

/-- The order of separate patterns does not matter. -/
theorem replaceEach_perm {patterns patterns' : List (List Char)} (hne : ∀ p∈patterns, p≠[])
    (h : Separate m patterns) (hperm : patterns.Perm patterns') (cs : List Char) :
    replaceEach m patterns cs=replaceEach m patterns' cs := by
  refine hperm.foldl_eq' (fun v hv w hw t => ?_) cs
  have htext : m.text≠[] := List.cons_ne_nil _ _
  by_cases hvw : v=w
  · rw [hvw]
  · by_cases hvm : v=m.text
    · rw [hvm,replaceAll_self htext,replaceAll_self htext]
    · by_cases hwm : w=m.text
      · rw [hwm,replaceAll_self htext,replaceAll_self htext]
      · obtain ⟨hover,hvr⟩ := h v hv w hw hvw hvm hwm
        have hwr := (h w hw v hv (Ne.symm hvw) hwm hvm).2
        exact replaceAll_comm (hne v hv) (hne w hw) hover hvr hwr t

section Conflicts

/-- A replacement begins with what precedes the first occurrence. -/
theorem exists_first (hp : p≠[]) (r : List Char) (h : p<:+:cs) :
    ∃ x y, cs=x++(p++y) ∧ replaceAll p r cs=x++(r++replaceAll p r y) ∧
      ∀ x' y', cs=x'++(p++y') → x.length ≤ x'.length := by
  induction cs with
  | nil => exact absurd (List.infix_nil.mp h) hp
  | cons c cs ih =>
    by_cases hbegins : p<+:c::cs
    · obtain ⟨y,hy⟩ := hbegins
      exact ⟨[],y,hy.symm,by rw [←hy,replaceAll_append hp]; rfl,fun _ _ _ => Nat.zero_le _⟩
    · obtain ⟨x,y,hsplit,hreplace,hfirst⟩ := ih ((List.infix_cons_iff.mp h).resolve_left hbegins)
      refine ⟨c::x,y,by rw [hsplit]; rfl,by rw [replaceAll_cons hbegins,hreplace]; rfl,?_⟩
      intro x' y' hother
      cases x' with
      | nil => exact absurd ⟨y',hother.symm⟩ hbegins
      | cons d x' => exact Nat.succ_le_succ (hfirst x' y' (List.cons.inj hother).2)

/-- The depth of framing after one character; none when a frame is closed that was
not opened. -/
def depthStep (m : Marker) (d : ℕ) (c : Char) : Option ℕ :=
  if c=m.opening then some (d+1)
  else if c=m.closing then (if d=0 then none else some (d-1))
  else some d

/-- The depth of framing after a text, from a depth on. -/
def depthAfter (m : Marker) : ℕ → List Char → Option ℕ
  | d,[] => some d
  | d,c::cs => (depthStep m d c).bind fun e => depthAfter m e cs

theorem depthAfter_append (d : ℕ) (xs ys : List Char) :
    depthAfter m d (xs++ys)=(depthAfter m d xs).bind fun e => depthAfter m e ys := by
  induction xs generalizing d with
  | nil => rfl
  | cons x xs ih =>
    rw [List.cons_append,depthAfter,depthAfter,Option.bind_assoc]
    exact congrArg _ (funext fun e => ih e)

/-- A free text does not change the depth. -/
theorem depthAfter_free (hv : m.Free v) (d : ℕ) : depthAfter m d v=some d := by
  induction v with
  | nil => rfl
  | cons c v ih =>
    have hopen : c≠m.opening := fun h => hv.1 (h ▸ List.mem_cons_self)
    have hclose : c≠m.closing := fun h => hv.2 (h ▸ List.mem_cons_self)
    rw [depthAfter,depthStep,if_neg hopen,if_neg hclose]
    exact ih ⟨fun h => hv.1 (List.mem_cons_of_mem c h),fun h => hv.2 (List.mem_cons_of_mem c h)⟩

/-- Neither does the marker. -/
theorem depthAfter_text (m : Marker) (d : ℕ) : depthAfter m d m.text=some d := by
  have hclosing : depthAfter m (d+1) [m.closing]=some d := by
    rw [depthAfter,depthStep,if_neg m.distinct.symm,if_pos rfl]
    rfl
  rw [Marker.text,depthAfter,depthStep,if_pos rfl,Option.bind_some,depthAfter_append,
    depthAfter_free ⟨m.opening_notMem,m.closing_notMem⟩]
  exact hclosing

/-- A replacement keeps the depth. -/
theorem depthAfter_replaced (hp : m.Free p) (h : Replaced p m.text cs out) (d : ℕ) :
    depthAfter m d out=depthAfter m d cs := by
  induction h generalizing d with
  | nil => rfl
  | keep _ _ ih =>
    rw [depthAfter,depthAfter]
    exact congrArg _ (funext fun e => ih e)
  | swap _ ih =>
    rw [depthAfter_append,depthAfter_append,depthAfter_text,depthAfter_free hp,Option.bind_some,
      Option.bind_some,ih]

theorem depthStep_succ {d e : ℕ} {c : Char} (h : depthStep m d c=some e) :
    depthStep m (d+1) c=some (e+1) := by
  rw [depthStep] at h ⊢
  by_cases hopen : c=m.opening
  · rw [if_pos hopen] at h ⊢
    cases h
    rfl
  · rw [if_neg hopen] at h ⊢
    by_cases hclose : c=m.closing
    · rw [if_pos hclose] at h ⊢
      by_cases hzero : d=0
      · rw [if_pos hzero] at h
        cases h
      · rw [if_neg hzero] at h
        cases h
        rw [if_neg (Nat.succ_ne_zero d),Option.some.injEq]
        omega
    · rw [if_neg hclose] at h ⊢
      cases h
      rfl

/-- One level deeper, the text ends one level deeper. -/
theorem depthAfter_succ {d e : ℕ} (h : depthAfter m d cs=some e) :
    depthAfter m (d+1) cs=some (e+1) := by
  induction cs generalizing d with
  | nil =>
    cases h
    rfl
  | cons c cs ih =>
    obtain ⟨k,hstep,hrest⟩ := Option.bind_eq_some_iff.mp h
    rw [depthAfter,depthStep_succ hstep]
    exact ih hrest

/-- One frame around the whole text. -/
def Enclosed (m : Marker) (s : List Char) : Prop :=
  ∃ z, s=m.opening::(z++[m.closing]) ∧ depthAfter m 0 z=some 0

/-- The text falls into two parts with a frame at the border. -/
def Divided (m : Marker) (s : List Char) : Prop :=
  ∃ a b, s=a++b ∧ a≠[] ∧ b≠[] ∧ depthAfter m 0 a=some 0 ∧
    ((∃ b', b=m.opening::b') ∨ ∃ a', a=a'++[m.closing])

/-- A text in one frame is not divided. -/
theorem Enclosed.not_divided {s : List Char} (h : Enclosed m s) : ¬ Divided m s := by
  rintro ⟨a,b,rfl,ha,hb,hdepth,-⟩
  obtain ⟨z,hz,hclosed⟩ := h
  obtain ⟨c,a,rfl⟩ := List.exists_cons_of_ne_nil ha
  rw [List.cons_append,List.cons.injEq] at hz
  obtain ⟨rfl,hz⟩ := hz
  have hlength := congrArg List.length hz
  have hpos := List.length_pos_iff.mpr hb
  rw [List.length_append,List.length_append,List.length_singleton] at hlength
  have hbegins : a<+:z := List.prefix_of_prefix_length_le ⟨b,hz⟩ (List.prefix_append z _)
    (by omega)
  obtain ⟨more,rfl⟩ := hbegins
  rw [depthAfter_append] at hclosed
  rw [depthAfter,depthStep,if_pos rfl,Option.bind_some] at hdepth
  cases hinner : depthAfter m 0 a with
  | none =>
    rw [hinner] at hclosed
    cases hclosed
  | some e =>
    rw [depthAfter_succ hinner] at hdepth
    cases hdepth

theorem replaceAll_ne_nil (hp : p≠[]) (hcs : cs≠[]) : replaceAll p m.text cs≠[] := by
  have h := replaced_replaceAll hp m.text cs
  generalize replaceAll p m.text cs=out at h ⊢
  cases h with
  | nil => exact hcs
  | keep => exact List.cons_ne_nil _ _
  | swap => exact List.cons_ne_nil _ _

/-- Replacing a free pattern keeps the frame around the text. -/
theorem Enclosed.replace {s : List Char} (h : Enclosed m s) (hne : p≠[]) (hp : m.Free p) :
    Enclosed m (replaceAll p m.text s) := by
  obtain ⟨z,rfl,hz⟩ := h
  refine ⟨replaceAll p m.text z,?_,?_⟩
  · have hopen := replaceAll_split hne hp.1 m.text [] (z++[m.closing])
    rw [replaceAll_split hne hp.2 m.text z []] at hopen
    exact hopen
  · rw [depthAfter_replaced hp (replaced_replaceAll hne m.text z)]
    exact hz

/-- Replacing a free pattern keeps the text divided. -/
theorem Divided.replace {s : List Char} (h : Divided m s) (hne : p≠[]) (hp : m.Free p) :
    Divided m (replaceAll p m.text s) := by
  obtain ⟨a,b,rfl,ha,hb,hdepth,⟨b',rfl⟩|⟨a',rfl⟩⟩ := h
  · refine ⟨replaceAll p m.text a,_,replaceAll_split hne hp.1 m.text a b',
      replaceAll_ne_nil hne ha,List.cons_ne_nil _ _,?_,Or.inl ⟨_,rfl⟩⟩
    rw [depthAfter_replaced hp (replaced_replaceAll hne m.text a)]
    exact hdepth
  · have hclosing : replaceAll p m.text (a'++[m.closing])=replaceAll p m.text a'++[m.closing] :=
      replaceAll_split hne hp.2 m.text a' []
    refine ⟨replaceAll p m.text a'++[m.closing],replaceAll p m.text b,?_,by simp,
      replaceAll_ne_nil hne hb,?_,Or.inr ⟨_,rfl⟩⟩
    · rw [List.append_assoc,List.singleton_append,replaceAll_split hne hp.2,List.append_assoc]
      rfl
    · rw [←hclosing,depthAfter_replaced hp (replaced_replaceAll hne m.text _)]
      exact hdepth

/-- Some two orders of the patterns give different results. -/
def OrderMatters (m : Marker) (patterns : List (List Char)) : Prop :=
  ∃ ps qs cs, patterns.Perm ps ∧ patterns.Perm qs ∧ replaceEach m ps cs≠replaceEach m qs cs

/-- Patterns that are not empty and free of the framing characters. -/
def AllFree (m : Marker) (patterns : List (List Char)) : Prop := ∀ p∈patterns, p≠[] ∧ m.Free p

variable {patterns : List (List Char)}

theorem AllFree.mono {qs : List (List Char)} (h : AllFree m patterns) (hsub : qs⊆patterns) :
    AllFree m qs := fun p hp => h p (hsub hp)

/-- What every replacement keeps, all of them keep. -/
theorem AllFree.keeps {P : List Char → Prop} {qs : List (List Char)} (h : AllFree m patterns)
    (hsub : qs⊆patterns)
    (hkeeps : ∀ p∈patterns, p≠[] → m.Free p → ∀ cs, P cs → P (replaceAll p m.text cs))
    (hcs : P cs) : P (replaceEach m qs cs) := by
  induction qs generalizing cs with
  | nil => exact hcs
  | cons q qs ih =>
    obtain ⟨hq,hsub⟩ := List.cons_subset.mp hsub
    exact ih hsub (hkeeps q hq (h q hq).1 (h q hq).2 cs hcs)

/-- The order matters for a pattern inside another one: the longer one leaves a
single frame of its own text, the shorter one leaves more. -/
theorem orderMatters_inside (h : AllFree m patterns) (hv : v∈patterns) (hw : w∈patterns)
    (hne : v≠w) (hoccurs : v<:+:w) : OrderMatters m patterns := by
  obtain ⟨hvne,hvfree⟩ := h v hv
  obtain ⟨hwne,hwfree⟩ := h w hw
  refine ⟨w::patterns.erase w,v::patterns.erase v,w,List.perm_cons_erase hw,
    List.perm_cons_erase hv,fun heq => ?_⟩
  have hlong : Enclosed m (replaceEach m (w::patterns.erase w) w) := by
    have hfirst : Enclosed m (replaceAll w m.text w) := by
      have happend := replaceAll_append hwne m.text []
      rw [List.append_nil] at happend
      rw [happend]
      exact ⟨m.inner,List.append_nil _,depthAfter_free ⟨m.opening_notMem,m.closing_notMem⟩ 0⟩
    rw [replaceEach_cons]
    exact h.keeps List.erase_subset (fun p _ hpne hpfree cs henclosed =>
      henclosed.replace hpne hpfree) hfirst
  have hshort : Divided m (replaceEach m (v::patterns.erase v) w) := by
    have hfirst : Divided m (replaceAll v m.text w) := by
      obtain ⟨x,y,hsplit,hreplace,-⟩ := exists_first hvne m.text hoccurs
      rw [hreplace]
      by_cases hx : x=[]
      · have hy : y≠[] := by
          rintro rfl
          rw [hx,List.append_nil,List.nil_append] at hsplit
          exact hne hsplit.symm
        refine ⟨m.text,_,by rw [hx]; rfl,List.cons_ne_nil _ _,replaceAll_ne_nil hvne hy,
          depthAfter_text m 0,Or.inr ⟨m.opening::m.inner,rfl⟩⟩
      · have hxfree : m.Free x := by
          rw [hsplit] at hwfree
          exact ⟨fun hmem => hwfree.1 (List.mem_append_left _ hmem),
            fun hmem => hwfree.2 (List.mem_append_left _ hmem)⟩
        exact ⟨x,_,rfl,hx,List.cons_ne_nil _ _,depthAfter_free hxfree 0,Or.inl ⟨_,rfl⟩⟩
    rw [replaceEach_cons]
    exact h.keeps List.erase_subset (fun p _ hpne hpfree cs hdivided =>
      hdivided.replace hpne hpfree) hfirst
  rw [heq] at hlong
  exact hlong.not_divided hshort

/-- The order matters for two patterns that overlap at their borders: the first one
leaves a frame at the front, the second one a character. -/
theorem orderMatters_of_border {s : List Char} (h : AllFree m patterns)
    (halone : ∀ p∈patterns, ∀ q∈patterns, p<:+:q → p=q) (hv : v∈patterns) (hw : w∈patterns)
    (hne : v≠w) (hs : s≠[]) (hend : s<:+v) (hbegin : s<+:w) : OrderMatters m patterns := by
  obtain ⟨a,rfl⟩ := hend
  obtain ⟨c,rfl⟩ := hbegin
  obtain ⟨hvne,hvfree⟩ := h _ hv
  obtain ⟨hwne,hwfree⟩ := h _ hw
  have hspos := List.length_pos_iff.mpr hs
  refine ⟨(a++s)::patterns.erase (a++s),(s++c)::patterns.erase (s++c),a++(s++c),
    List.perm_cons_erase hv,List.perm_cons_erase hw,fun heq => ?_⟩
  have hframe : ∃ rest, replaceEach m ((a++s)::patterns.erase (a++s)) (a++(s++c))=
      m.opening::rest := by
    rw [replaceEach_cons]
    refine h.keeps (P:=fun t => ∃ rest, t=m.opening::rest) List.erase_subset ?_ ?_
    · rintro p - hpne hpfree _ ⟨rest,rfl⟩
      exact ⟨_,replaceAll_split hpne hpfree.1 m.text [] rest⟩
    · rw [←List.append_assoc,replaceAll_append hvne]
      exact ⟨_,rfl⟩
  have hoccurs : s++c<:+:a++(s++c) := (List.suffix_append a (s++c)).isInfix
  obtain ⟨x,y,hsplit,hreplace,hfirst⟩ := exists_first hwne m.text hoccurs
  have hxa : x.length ≤ a.length := hfirst a [] (by rw [List.append_nil])
  have hbegins : x<+:a := List.prefix_of_prefix_length_le ⟨_,hsplit.symm⟩
    (List.prefix_append a _) hxa
  have hxne : x≠[] := by
    rintro rfl
    have hcomparable : s++c<+:a++s ∨ a++s<+:s++c :=
      List.prefix_or_prefix_of_prefix ⟨y,hsplit.symm⟩ ⟨c,List.append_assoc a s c⟩
    rcases hcomparable with hwv|hvw
    · exact hne (halone _ hw _ hv hwv.isInfix).symm
    · exact hne (halone _ hv _ hw hvw.isInfix)
  have hkept : ∃ rest, replaceEach m ((s++c)::patterns.erase (s++c)) (a++(s++c))=
      x++m.opening::rest := by
    rw [replaceEach_cons]
    refine h.keeps (P:=fun t => ∃ rest, t=x++m.opening::rest) List.erase_subset ?_ ?_
    · rintro p hp hpne hpfree _ ⟨rest,rfl⟩
      have hnone : ¬ p<:+:x := by
        intro hpx
        have hpv : p<:+:a++s := (hpx.trans hbegins.isInfix).trans (List.prefix_append a s).isInfix
        have heqv := halone p hp _ hv hpv
        have hle := (hpx.trans hbegins.isInfix).length_le
        rw [heqv,List.length_append] at hle
        omega
      exact ⟨_,by rw [replaceAll_split hpne hpfree.1,replaceAll_absent hnone]⟩
    · exact ⟨_,hreplace⟩
  obtain ⟨rest,hframe⟩ := hframe
  obtain ⟨rest',hkept⟩ := hkept
  rw [hframe,hkept] at heq
  obtain ⟨d,x,rfl⟩ := List.exists_cons_of_ne_nil hxne
  have hd : m.opening=d := (List.cons.inj heq).1
  refine hvfree.1 (List.mem_append_left s (hbegins.subset ?_))
  rw [hd]
  exact List.mem_cons_self

/-- An occurrence behind a text in which it does not begin comes after it. -/
theorem Apart.infix_append (h : Apart p v) (hv : v<:+:p++cs) : v<:+:cs := by
  induction p with
  | nil => exact hv
  | cons c p ih =>
    have hrest := (List.infix_cons_iff.mp hv).resolve_left
      (h.not_begins (List.cons_ne_nil c p) cs)
    exact ih (h.of_suffix (List.suffix_cons c p)) hrest

/-- A replacement keeps the occurrences of a text that the pattern does not overlap. -/
theorem infix_kept (hvp : NeverOverlap v p) (hp : p≠[]) (r : List Char) (hv : v<:+:cs) :
    v<:+:replaceAll p r cs := by
  have h := replaced_replaceAll hp r cs
  generalize hout : replaceAll p r cs=out at h ⊢
  induction h with
  | nil => exact hv
  | @keep c cs out hnone rest ih =>
    rcases List.infix_cons_iff.mp hv with ⟨t,ht⟩|hrest
    · rw [←hout,←ht,replaceAll_passes hvp.1]
      exact (List.prefix_append v _).isInfix
    · rw [replaceAll_cons hnone,List.cons.injEq] at hout
      exact (ih hrest hout.2).trans (List.suffix_cons c out).isInfix
  | @swap cs out rest ih =>
    rw [replaceAll_append hp] at hout
    exact (ih (hvp.2.infix_append hv) (List.append_cancel_left hout)).trans
      (List.suffix_append r out).isInfix

/-- A replacement of a free pattern adds frames, one at least for an occurrence. -/
theorem count_le_replaceAll (hp : p≠[]) (hfree : m.Free p) (cs : List Char) :
    cs.count m.opening ≤ (replaceAll p m.text cs).count m.opening := by
  have h := replaced_replaceAll hp m.text cs
  generalize replaceAll p m.text cs=out at h ⊢
  induction h with
  | nil => exact Nat.le_refl _
  | keep _ _ ih =>
    rw [List.count_cons,List.count_cons]
    exact Nat.add_le_add_right ih _
  | swap _ ih =>
    rw [List.count_append,List.count_append,List.count_eq_zero_of_not_mem hfree.1]
    omega

theorem count_lt_replaceAll (hp : p≠[]) (hfree : m.Free p) (h : p<:+:cs) :
    cs.count m.opening < (replaceAll p m.text cs).count m.opening := by
  obtain ⟨x,y,rfl,hreplace,-⟩ := exists_first hp m.text h
  have hrest := count_le_replaceAll hp hfree y
  have htext : 0 < m.text.count m.opening := List.count_pos_iff.mpr List.mem_cons_self
  rw [hreplace,List.count_append,List.count_append,List.count_append,List.count_append,
    List.count_eq_zero_of_not_mem hfree.1]
  omega

/-- The order matters for a pattern inside the marker and another one that it does
not overlap: replaced last, it finds the marker of the other one. -/
theorem orderMatters_of_inner (h : AllFree m patterns)
    (hover : ∀ p∈patterns, ∀ q∈patterns, p≠q → NeverOverlap p q) (hv : v∈patterns)
    (hw : w∈patterns) (hne : v≠w) (hinner : v<:+:m.inner) : OrderMatters m patterns := by
  obtain ⟨hvne,hvfree⟩ := h v hv
  obtain ⟨hwne,-⟩ := h w hw
  let copies := patterns.filter fun p => decide (p=v)
  let others := patterns.filter fun p => !decide (p=v)
  have hsplit : (copies++others).Perm patterns := List.filter_append_perm _ patterns
  have hcopies : ∀ p∈copies, p=v := fun p hp => of_decide_eq_true (List.mem_filter.mp hp).2
  have hvcopies : v∈copies := List.mem_filter.mpr ⟨hv,decide_eq_true rfl⟩
  have hothers : ∀ p∈others, p∈patterns ∧ v≠p := by
    intro p hp
    obtain ⟨hmem,hpv⟩ := List.mem_filter.mp hp
    exact ⟨hmem,fun heq => by simp [heq] at hpv⟩
  have hwothers : w∈others := List.mem_filter.mpr ⟨hw,by simp [Ne.symm hne]⟩
  have hfirst : (w::others.erase w).Perm others := (List.perm_cons_erase hwothers).symm
  refine ⟨copies++w::others.erase w,(w::others.erase w)++copies,w,?_,?_,fun heq => ?_⟩
  · exact hsplit.symm.trans (List.Perm.append_left copies hfirst.symm)
  · exact hsplit.symm.trans (List.perm_append_comm.trans (List.Perm.append_right copies hfirst.symm))
  · have hquiet : replaceEach m copies w=w := by
      refine (h.mono (List.filter_subset_self _)).keeps (P:=fun t => t=w) (List.Subset.refl _) ?_ rfl
      rintro p hp - - t rfl
      refine replaceAll_absent fun hoccurs => hvne ?_
      rw [hcopies p hp,←List.append_nil t] at hoccurs
      exact List.infix_nil.mp ((hover t hw v hv (Ne.symm hne)).1.infix_append hoccurs)
    have hfound : v<:+:replaceEach m (w::others.erase w) w := by
      have hmarker : v<:+:replaceAll w m.text w := by
        have happend := replaceAll_append hwne m.text []
        rw [List.append_nil] at happend
        rw [happend]
        exact hinner.trans ⟨[m.opening],m.closing::[],by simp [Marker.text,replaceAll,replaceScan]⟩
      rw [replaceEach_cons]
      refine (h.mono fun p hp => (hothers p hp).1).keeps (P:=fun t => v<:+:t) List.erase_subset ?_
        hmarker
      intro p hp hpne _ t ht
      exact infix_kept (hover v hv p (hothers p hp).1 (hothers p hp).2) hpne m.text ht
    obtain ⟨c,rest,hcons⟩ := List.exists_cons_of_ne_nil (List.ne_nil_of_mem hvcopies)
    have hc : c=v := hcopies c (by rw [hcons]; exact List.mem_cons_self)
    rw [replaceEach_append,replaceEach_append,hquiet] at heq
    generalize replaceEach m (w::others.erase w) w=found at hfound heq
    have hmore : found.count m.opening < (replaceEach m copies found).count m.opening := by
      rw [hcons,hc,replaceEach_cons]
      refine h.keeps (P:=fun t => found.count m.opening < t.count m.opening) ?_ ?_
        (count_lt_replaceAll hvne hvfree hfound)
      · intro p hp
        have hmem : p∈copies := by
          rw [hcons]
          exact List.mem_cons_of_mem c hp
        exact (List.mem_filter.mp hmem).1
      · intro p _ hpne hpfree t ht
        exact lt_of_lt_of_le ht (count_le_replaceAll hpne hpfree t)
    rw [←heq] at hmore
    exact absurd hmore (Nat.lt_irrefl _)

/-- A free pattern overlaps the marker only inside it. -/
theorem neverOverlap_text (hne : v≠[]) (hv : m.Free v) (hinner : ¬ v<:+:m.inner) :
    NeverOverlap v m.text := by
  constructor
  · intro s hs hsne
    obtain ⟨c,s,rfl⟩ := List.exists_cons_of_ne_nil hsne
    constructor
    · intro hbegins
      have hc : c=m.opening := (List.cons_prefix_cons.mp hbegins).1
      exact hv.1 (hs.subset (hc ▸ List.mem_cons_self))
    · intro hbegins
      exact hv.1 (hs.subset (hbegins.subset List.mem_cons_self))
  · intro s hs hsne
    constructor
    · intro hbegins
      have hclosing : m.closing∈s := by
        obtain ⟨front,hfront⟩ := hs
        have hlast := congrArg List.getLast? hfront
        rw [List.getLast?_append_of_ne_nil _ hsne,Marker.text,←List.cons_append,
          List.getLast?_concat] at hlast
        exact List.mem_of_getLast? hlast
      exact hv.2 (hbegins.subset hclosing)
    · intro hbegins
      have hoccurs : v<:+:m.text++[] := by
        rw [List.append_nil]
        exact hbegins.isInfix.trans hs.isInfix
      rcases infix_marker hv hoccurs with hin|hnil
      · exact hinner hin
      · exact hne (List.infix_nil.mp hnil)

/-- Among free patterns that are not separate the order matters. -/
theorem orderMatters_of_not_separate (h : AllFree m patterns) (hnot : ¬ Separate m patterns) :
    OrderMatters m patterns := by
  by_contra hquiet
  have halone : ∀ p∈patterns, ∀ q∈patterns, p<:+:q → p=q := by
    intro p hp q hq hoccurs
    by_contra hne
    exact hquiet (orderMatters_inside h hp hq hne hoccurs)
  have hapart : ∀ p∈patterns, ∀ q∈patterns, p≠q → Apart p q := by
    intro p hp q hq hne s hs hsne
    constructor
    · exact fun hbegin => hquiet (orderMatters_of_border h halone hp hq hne hsne hs hbegin)
    · exact fun hbegin => hne (halone q hq p hp (hbegin.isInfix.trans hs.isInfix)).symm
  have hover : ∀ p∈patterns, ∀ q∈patterns, p≠q → NeverOverlap p q := fun p hp q hq hne =>
    ⟨hapart p hp q hq hne,hapart q hq p hp (Ne.symm hne)⟩
  refine hnot fun v hv w hw hne _ _ => ⟨hover v hv w hw hne,?_⟩
  refine neverOverlap_text (h v hv).1 (h v hv).2 fun hinner => ?_
  exact hquiet (orderMatters_of_inner h hover hv hw hne hinner)

end Conflicts

end AegisRuntime.ReplacementOrders
