import AegisRuntime.SerdeRecords

/-!
# JSON values line by line

A file of lines, each the compact text of a JSON value and ended by a line break. The
text of a value has no line break in it, whatever its strings hold, so that a reader
that splits the file at the line breaks gets every value back, and what a torn write
leaves at the end costs it that one value. A torn write in the middle runs into the next
line.
-/

namespace AegisRuntime.JsonLines

open JsonValues JsonTokens JsonTexts SerdeRecords

/-- The lines of a file that a line break ends, and what stands after them. -/
def linesOf : List Char → List (List Char)×List Char
  | [] => ([],[])
  | c::cs =>
    if c = '\n' then ([]::(linesOf cs).1,(linesOf cs).2)
    else
      match linesOf cs with
      | ([],tail) => ([],c::tail)
      | (line::lines,tail) => ((c::line)::lines,tail)

/-- A value as a line. -/
def line (v : JsonValue) : List Char := v.compact.toList++['\n']

/-- How many bytes a text takes. -/
def byteCount : List Char → ℕ
  | [] => 0
  | c::cs => c.utf8Size+byteCount cs

/-- What a reader finds of a text of which so many bytes were written; a character that is
cut reads as the replacement character. -/
def written : List Char → ℕ → List Char
  | [],_ => []
  | c::cs,n =>
    if c.utf8Size ≤ n then c::written cs (n-c.utf8Size)
    else if n=0 then [] else ['\uFFFD']

/-- The values of the lines of a file, if each of them is one; a last line without its
line break is left out. -/
def readLines (file : List Char) : Option (List JsonValue) :=
  (linesOf file).1.mapM fun text => readJson (String.ofList text)

/-- Values whose numbers are integers and whose members stand in the order of their names. -/
inductive Tidy : JsonValue → Prop where
  | null : Tidy .null
  | bool {value : Bool} : Tidy (.bool value)
  | string {value : String} : Tidy (.string value)
  | integer {z : ℤ} : Tidy (integer z)
  | array {vs : List JsonValue} (h : ∀ v∈vs, Tidy v) : Tidy (.array vs)
  | object {ms : List (String×JsonValue)} (hordered : Ordered ms) (h : ∀ m∈ms, Tidy m.2) :
    Tidy (.object ms)

variable {v : JsonValue} {cs tail : List Char}

/-- A tidy value is read as it is printed. -/
theorem Tidy.text (h : Tidy v) : JsonText v.compact v := by
  induction h with
  | null => exact (Prints.null (n:=0)).text
  | bool => exact (Prints.bool (n:=0) _).text
  | string => exact jsonText_string _
  | integer => exact jsonText_number (isNumber_integer _)
  | array _ ih => exact jsonText_array (List.forall₂_same.mpr ih)
  | object hordered _ ih =>
    have hobject := jsonText_object (List.forall₂_same.mpr fun m hm => ⟨rfl,ih m hm⟩)
    rwa [hordered.collect] at hobject

/-- Texts without control characters. -/
def Printable (cs : List Char) : Prop := ∀ c∈cs, 32 ≤ c.toNat

instance (cs : List Char) : Decidable (Printable cs) := List.decidableBAll _ cs

theorem Printable.append {ds : List Char} (hc : Printable cs) (hd : Printable ds) :
    Printable (cs++ds) :=
  fun c hmem => (List.mem_append.mp hmem).elim (hc c) (hd c)

/-- There is no line break in them. -/
theorem Printable.newline (h : Printable cs) : '\n'∉cs :=
  fun hmem => absurd (h '\n' hmem) (by decide)

theorem Printable.carriageReturn (h : Printable cs) : '\r'∉cs :=
  fun hmem => absurd (h '\r' hmem) (by decide)

/-- The characters of escapes. -/
theorem printable_escape : Printable "\"\\/bfnrtu".toList := by decide

/-- The characters of words. -/
theorem printable_word : Printable "+-.0123456789Eaeflnrstu".toList := by decide

theorem Wordy.printable (h : Wordy cs) : Printable cs :=
  fun c hc => printable_word c (List.contains_iff_mem.mp (h c hc))

/-- A hexadecimal digit is no control character. -/
theorem printable_hexDigit {c : Char} (h : (hexDigit c).isSome) : 32 ≤ c.toNat := by
  by_contra hlow
  have hnone : hexDigit c=none := by
    rw [hexDigit,if_neg (by omega),if_neg (by omega),if_neg (by omega)]
  rw [hnone] at h
  cases h

/-- A printed character is printable. -/
theorem printable_printed {c : Char} (h : Printed c cs) : Printable cs := by
  cases h with
  | short e hescape =>
    intro d hd
    rcases List.mem_cons.mp hd with rfl|hd
    · decide
    · rw [List.mem_singleton.mp hd]
      exact printable_escape e (List.contains_iff_mem.mp hescape)
  | code h l hvalue =>
    have hdigits : (hexDigit h).isSome ∧ (hexDigit l).isSome := by
      rw [hexUnit] at hvalue
      cases hh : hexDigit h with
      | none =>
        rw [hh] at hvalue
        cases hvalue
      | some a =>
        cases hl : hexDigit l with
        | none =>
          rw [hh,hl] at hvalue
          cases hvalue
        | some b => exact ⟨rfl,rfl⟩
    have hfirst : Printable ['\\','u','0','0'] := by decide
    refine hfirst.append fun d hd => ?_
    rcases List.mem_cons.mp hd with rfl|hd
    · exact printable_hexDigit hdigits.1
    · rw [List.mem_singleton.mp hd]
      exact printable_hexDigit hdigits.2
  | bare hquote hslash hcontrol =>
    intro d hd
    rw [List.mem_singleton.mp hd]
    exact hcontrol

theorem printable_string (s : String) : Printable (printJsonString s).toList := by
  rw [toList_printJsonString]
  have hquote : Printable ['"'] := by decide
  refine (hquote.append fun c hc => ?_).append hquote
  obtain ⟨d,-,hd⟩ := List.mem_flatMap.mp hc
  exact printable_printed (printed_escapeJsonChar d) c hd

/-- Items that are printable are printed so. -/
theorem printable_items {vs : List JsonValue} (h : ∀ v∈vs, Printable v.compact.toList) :
    Printable (compactItems vs).toList := by
  have hcomma : Printable ",".toList := by decide
  induction vs with
  | nil => exact fun _ hc => absurd hc List.not_mem_nil
  | cons v vs ih =>
    obtain ⟨hv,hvs⟩ := List.forall_mem_cons.mp h
    cases vs with
    | nil => exact hv
    | cons w rest =>
      rw [compactItems,String.toList_append,String.toList_append]
      exact (hv.append hcomma).append (ih hvs)

/-- Members whose values are printable are printed so. -/
theorem printable_members {ms : List (String×JsonValue)}
    (h : ∀ m∈ms, Printable m.2.compact.toList) : Printable (compactMembers ms).toList := by
  have hcolon : Printable ":".toList := by decide
  have hcomma : Printable ",".toList := by decide
  induction ms with
  | nil => exact fun _ hc => absurd hc List.not_mem_nil
  | cons m ms ih =>
    obtain ⟨hm,hms⟩ := List.forall_mem_cons.mp h
    obtain ⟨name,x⟩ := m
    have hmember := ((printable_string name).append hcolon).append hm
    cases ms with
    | nil =>
      rw [compactMembers,String.toList_append,String.toList_append]
      exact hmember
    | cons m' rest =>
      rw [compactMembers,String.toList_append,String.toList_append,String.toList_append,
        String.toList_append]
      exact (hmember.append hcomma).append (ih hms)

/-- A tidy value is printed without control characters, whatever its strings hold. -/
theorem Tidy.printable (h : Tidy v) : Printable v.compact.toList := by
  induction h with
  | null => decide
  | @bool value => cases value <;> decide
  | string => exact printable_string _
  | integer => exact Wordy.printable (wordy_number (isNumber_integer _))
  | array _ ih =>
    have hopen : Printable "[".toList := by decide
    have hclose : Printable "]".toList := by decide
    rw [JsonValue.compact,String.toList_append,String.toList_append]
    exact (hopen.append (printable_items ih)).append hclose
  | object _ _ ih =>
    have hopen : Printable "\x7b".toList := by decide
    have hclose : Printable "\x7d".toList := by decide
    rw [JsonValue.compact,String.toList_append,String.toList_append]
    exact (hopen.append (printable_members ih)).append hclose

/-- All of a text is found when all of its bytes were written. -/
theorem written_all {n : ℕ} (h : byteCount cs ≤ n) : written cs n=cs := by
  induction cs generalizing n with
  | nil => rfl
  | cons c cs ih =>
    rw [byteCount] at h
    rw [written,if_pos (by omega),ih (by omega)]

/-- No line break is found of a line that was not wholly written. -/
theorem written_part (h : '\n'∉cs) {n : ℕ} (hn : n < byteCount (cs++['\n'])) :
    '\n'∉written (cs++['\n']) n := by
  induction cs generalizing n with
  | nil =>
    have hzero : n=0 := Nat.lt_one_iff.mp hn
    rw [hzero]
    exact List.not_mem_nil
  | cons c cs ih =>
    obtain ⟨hc,hcs⟩ := not_or.mp (List.mem_cons.not.mp h)
    rw [List.cons_append,byteCount] at hn
    rw [List.cons_append,written]
    split
    · exact List.mem_cons.not.mpr (not_or.mpr ⟨hc,ih hcs (by omega)⟩)
    · split
      · exact List.not_mem_nil
      · decide

/-- A text without line breaks is no line yet. -/
theorem linesOf_tail (h : '\n'∉tail) : linesOf tail=([],tail) := by
  induction tail with
  | nil => rfl
  | cons c cs ih =>
    obtain ⟨hc,hcs⟩ := not_or.mp (List.mem_cons.not.mp h)
    rw [linesOf,if_neg (Ne.symm hc),ih hcs]

/-- A line break ends a line. -/
theorem linesOf_line (h : '\n'∉cs) (more : List Char) :
    linesOf (cs++ '\n'::more)=(cs::(linesOf more).1,(linesOf more).2) := by
  induction cs with
  | nil => rw [List.nil_append,linesOf,if_pos rfl]
  | cons c cs ih =>
    obtain ⟨hc,hcs⟩ := not_or.mp (List.mem_cons.not.mp h)
    rw [List.cons_append,linesOf,if_neg (Ne.symm hc),ih hcs]

/-- The values that were written line by line are read back, whatever a torn write left
behind them. -/
theorem readLines_written {vs : List JsonValue} (h : ∀ v∈vs, Tidy v) (htail : '\n'∉tail) :
    readLines (vs.flatMap line++tail)=some vs := by
  have hlines : linesOf (vs.flatMap line++tail)=(vs.map fun v => v.compact.toList,tail) := by
    induction vs with
    | nil => exact linesOf_tail htail
    | cons v vs ih =>
      obtain ⟨hv,hvs⟩ := List.forall_mem_cons.mp h
      have hsplit : (v::vs).flatMap line++tail=v.compact.toList++ '\n'::(vs.flatMap line++tail) := by
        simp [line]
      rw [hsplit,linesOf_line hv.printable.newline,ih hvs,List.map_cons]
  rw [readLines,hlines]
  clear hlines
  induction vs with
  | nil => rfl
  | cons v vs ih =>
    obtain ⟨hv,hvs⟩ := List.forall_mem_cons.mp h
    have hread : readJson (String.ofList v.compact.toList)=some v := by
      rw [String.ofList_toList]
      exact (readJson_iff _ _).mpr hv.text
    rw [List.map_cons,List.mapM_cons,hread,ih hvs]
    rfl

end AegisRuntime.JsonLines
