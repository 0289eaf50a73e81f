import Mathlib.Data.List.DropRight
import Mathlib.Data.List.Infix

/-!
# Scanning text as lists of characters

White space, trimming, splitting into words and substring replacement, on lists
of characters. Splitting is stated for any separator test, so that two
tokenisers that differ only in what separates words can be compared: the rules
say which characters reach a word, and when two tests give the same words.
-/

namespace AegisRuntime.TextScanning

/-- The Unicode `White_Space` characters. -/
def isWhitespace (c : Char) : Bool :=
  let n := c.toNat
  (0x09 ≤ n && n ≤ 0x0D) || n==0x20 || n==0x85 || n==0xA0 || n==0x1680 ||
    (0x2000 ≤ n && n ≤ 0x200A) || n==0x2028 || n==0x2029 || n==0x202F || n==0x205F || n==0x3000

/-- Drops leading and trailing characters that pass the test. -/
def trimBy (p : Char → Bool) (cs : List Char) : List Char := (cs.dropWhile p).rdropWhile p

/-- Drops leading and trailing white space. -/
def trim (cs : List Char) : List Char := trimBy isWhitespace cs

/-- The maximal nonempty pieces between separators. -/
def words (p : Char → Bool) (cs : List Char) : List (List Char) :=
  (cs.splitOnP p).filter fun w => !w.isEmpty

/-- Whether the pattern occurs in the text. -/
def containsText (pattern cs : List Char) : Bool := cs.tails.any pattern.isPrefixOf

/-- Scans left to right, replacing each occurrence that does not overlap the one
before it; the counter skips the characters an occurrence has used. -/
def replaceScan (pattern replacement : List Char) : ℕ → List Char → List Char
  | _,[] => []
  | skip+1,_::cs => replaceScan pattern replacement skip cs
  | 0,c::cs =>
    if pattern.isPrefixOf (c::cs) then
      replacement++replaceScan pattern replacement (pattern.length-1) cs
    else c::replaceScan pattern replacement 0 cs

/-- Every occurrence of a nonempty pattern is replaced, left to right. -/
def replaceAll (pattern replacement cs : List Char) : List Char :=
  replaceScan pattern replacement 0 cs

variable {p q : Char → Bool}

@[simp] theorem words_nil : words p []=[] := rfl

/-- A leading separator is not part of any word. -/
theorem words_cons_sep {c : Char} {cs : List Char} (h : p c=true) :
    words p (c::cs)=words p cs := by
  simp [words,List.splitOnP_cons_eq_if_modifyHead,h]

/-- Only the separators among the characters of the text matter. -/
theorem words_congr {cs : List Char} (h : ∀ c∈cs, p c=q c) : words p cs=words q cs := by
  have hsplit : cs.splitOnP p=cs.splitOnP q := by
    induction cs with
    | nil => rfl
    | cons c cs ih =>
      rw [List.splitOnP_cons_eq_if_modifyHead,List.splitOnP_cons_eq_if_modifyHead,
        h c List.mem_cons_self,ih fun d hd => h d (List.mem_cons_of_mem c hd)]
  rw [words,words,hsplit]

/-- Separators around the text leave its words alone. -/
theorem words_append_sep {cs : List Char} {c : Char} (h : p c=true) :
    words p (cs++[c])=words p cs := by
  rw [words,List.splitOnP_append_cons cs [] h,List.filter_append,List.splitOnP_nil]
  simp [words]

theorem words_dropWhile (cs : List Char) : words p (cs.dropWhile p)=words p cs := by
  induction cs with
  | nil => rfl
  | cons c cs ih =>
    cases hc : p c with
    | true => rw [List.dropWhile_cons_of_pos hc,words_cons_sep hc,ih]
    | false => rw [List.dropWhile_cons_of_neg (by simp [hc])]

theorem words_rdropWhile (cs : List Char) : words p (cs.rdropWhile p)=words p cs := by
  induction cs using List.reverseRecOn with
  | nil => rfl
  | append_singleton cs c ih =>
    cases hc : p c with
    | true => rw [List.rdropWhile_concat_pos _ _ _ hc,words_append_sep hc,ih]
    | false => rw [List.rdropWhile_concat_neg _ _ _ (by simp [hc])]

/-- Trimming separators does not change the words. -/
theorem words_trimBy (cs : List Char) : words p (trimBy p cs)=words p cs := by
  rw [trimBy,words_rdropWhile,words_dropWhile]

/-- Every character of the text separates or lies in a piece of the split. -/
theorem sep_or_mem_piece {cs : List Char} {c : Char} (hc : c∈cs) :
    p c=true ∨ ∃ w∈cs.splitOnP p, c∈w := by
  induction cs with
  | nil => cases hc
  | cons d cs ih =>
    obtain ⟨w,ws,hw⟩ := List.exists_cons_of_ne_nil (List.splitOnP_ne_nil p cs)
    rw [hw] at ih
    cases hd : p d with
    | true =>
      rw [List.splitOnP_cons_eq_if_modifyHead,if_pos hd,hw]
      rcases List.mem_cons.mp hc with rfl|hc
      · exact Or.inl hd
      · exact (ih hc).imp id fun ⟨v,hv,hcv⟩ => ⟨v,List.mem_cons_of_mem _ hv,hcv⟩
    | false =>
      rw [List.splitOnP_cons_eq_if_modifyHead,if_neg (by simp [hd]),hw,List.modifyHead_cons]
      rcases List.mem_cons.mp hc with rfl|hc
      · exact Or.inr ⟨c::w,List.mem_cons_self,List.mem_cons_self⟩
      · rcases ih hc with hp|⟨v,hv,hcv⟩
        · exact Or.inl hp
        · rcases List.mem_cons.mp hv with rfl|hv
          · exact Or.inr ⟨d::v,List.mem_cons_self,List.mem_cons_of_mem d hcv⟩
          · exact Or.inr ⟨v,List.mem_cons_of_mem _ hv,hcv⟩

/-- A character of the text separates or lies in some word. -/
theorem sep_or_mem_words {cs : List Char} {c : Char} (hc : c∈cs) :
    p c=true ∨ ∃ w∈words p cs, c∈w := by
  rcases sep_or_mem_piece (p:=p) hc with hp|⟨w,hw,hcw⟩
  · exact Or.inl hp
  · refine Or.inr ⟨w,List.mem_filter.mpr ⟨hw,?_⟩,hcw⟩
    cases w with
    | nil => cases hcw
    | cons d w => rfl

/-- Trimming only removes characters. -/
theorem mem_of_mem_trimBy {cs : List Char} {c : Char} (h : c∈trimBy p cs) : c∈cs :=
  (List.dropWhile_suffix p).subset ((List.rdropWhile_prefix p _).subset h)

/-- A character that does not occur is not replaced. -/
theorem replaceAll_of_notMem {a : Char} {replacement cs : List Char} (h : ∀ c∈cs, c≠a) :
    replaceAll [a] replacement cs=cs := by
  unfold replaceAll
  induction cs with
  | nil => rfl
  | cons c cs ih =>
    have hc : [a].isPrefixOf (c::cs)=false := by
      simp [List.isPrefixOf,(h c List.mem_cons_self).symm]
    rw [replaceScan,hc,if_neg (by simp),ih fun d hd => h d (List.mem_cons_of_mem c hd)]

end AegisRuntime.TextScanning
