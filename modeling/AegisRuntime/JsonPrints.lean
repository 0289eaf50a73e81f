import AegisRuntime.JsonTexts
import Mathlib.Data.String.Basic
import Mathlib.Data.List.Forall2
import Mathlib.Data.List.Induction
import Mathlib.Data.List.TakeWhile

/-!
# Printed JSON values

What the grammar makes of a printed value: strings, numbers, arrays and objects
are read as what their parts are read as. A value that was itself read from a
text reads back, since its members stand in the order of their names and none
is repeated; and every name of an object stands as a string in its text.
-/

namespace AegisRuntime.JsonTexts

open JsonValues JsonTokens

variable {v : JsonValue} {vs : List JsonValue} {ms : List (String×JsonValue)} {part : Phrase}
  {ts : List Token}

/-- A member after an insertion was inserted or was there. -/
theorem mem_insertMember {name : String} {m : String×JsonValue}
    (h : m∈insertMember name v ms) : m=(name,v) ∨ m∈ms := by
  induction ms with
  | nil => exact .inl (List.mem_singleton.mp h)
  | cons p ms ih =>
    obtain ⟨other,y⟩ := p
    rw [insertMember] at h
    split at h
    · exact List.mem_cons.mp h
    · split at h
      · rcases List.mem_cons.mp h with h|h
        · exact .inl h
        · exact .inr (List.mem_cons_of_mem _ h)
      · rcases List.mem_cons.mp h with h|h
        · exact .inr (h ▸ List.mem_cons_self)
        · exact (ih h).imp_right (List.mem_cons_of_mem _)

/-- The members are in the order of their names. -/
def Ordered (ms : List (String×JsonValue)) : Prop := ms.Pairwise fun a b => a.1 < b.1

/-- Insertion keeps the order. -/
theorem Ordered.insertMember {name : String} (h : Ordered ms) :
    Ordered (insertMember name v ms) := by
  induction ms with
  | nil => exact List.pairwise_singleton _ _
  | cons p ms ih =>
    obtain ⟨other,y⟩ := p
    obtain ⟨hfirst,hrest⟩ := List.pairwise_cons.mp h
    rw [JsonTexts.insertMember]
    split
    · next hlt =>
      refine List.pairwise_cons.mpr ⟨fun m hm => ?_,h⟩
      rcases List.mem_cons.mp hm with rfl|hm
      · exact hlt
      · exact String.lt_trans hlt (hfirst m hm)
    · next hlt =>
      split
      · next heq =>
        subst heq
        exact List.pairwise_cons.mpr ⟨hfirst,hrest⟩
      · next hne =>
        have hgt : other < name := (lt_trichotomy name other).resolve_left hlt |>.resolve_left hne
        refine List.pairwise_cons.mpr ⟨fun m hm => ?_,ih hrest⟩
        rcases mem_insertMember hm with rfl|hm
        · exact hgt
        · exact hfirst m hm

/-- A name after all others is inserted last. -/
theorem insertMember_last {name : String} (h : ∀ m∈ms, m.1 < name) :
    insertMember name v ms=ms++[(name,v)] := by
  induction ms with
  | nil => rfl
  | cons p ms ih =>
    obtain ⟨other,y⟩ := p
    obtain ⟨hfirst,hrest⟩ := List.forall_mem_cons.mp h
    rw [insertMember,if_neg (String.lt_asymm hfirst),if_neg (ne_of_gt hfirst),ih hrest]
    rfl

/-- The last member is inserted last. -/
theorem collect_concat (ms : List (String×JsonValue)) (m : String×JsonValue) :
    collect (ms++[m])=insertMember m.1 m.2 (collect ms) := by
  rw [collect,List.foldl_append]
  rfl

/-- Collecting makes up no members. -/
theorem mem_collect {m : String×JsonValue} (h : m∈collect ms) : m∈ms := by
  induction ms using List.reverseRecOn with
  | nil => exact h
  | append_singleton ms p ih =>
    rw [collect_concat] at h
    rcases mem_insertMember h with h|h
    · exact List.mem_append_right _ (List.mem_singleton.mpr h)
    · exact List.mem_append_left _ (ih h)

/-- What is collected is in order. -/
theorem ordered_collect (ms : List (String×JsonValue)) : Ordered (collect ms) := by
  induction ms using List.reverseRecOn with
  | nil => exact List.Pairwise.nil
  | append_singleton ms p ih =>
    rw [collect_concat]
    exact ih.insertMember

/-- Ordered members are collected as they stand. -/
theorem Ordered.collect (h : Ordered ms) : collect ms=ms := by
  induction ms using List.reverseRecOn with
  | nil => rfl
  | append_singleton ms p ih =>
    obtain ⟨hms,-,hlast⟩ := List.pairwise_append.mp h
    have hbelow : ∀ m∈ms, m.1 < p.1 := fun m hm => hlast m hm p List.mem_cons_self
    rw [collect_concat,ih hms,insertMember_last hbelow]

/-- An inserted member is found by its name. -/
theorem get_insertMember (name key : String) (v : JsonValue) (ms : List (String×JsonValue)) :
    (JsonValue.object (insertMember name v ms)).get key=
      if name=key then some v else (JsonValue.object ms).get key := by
  induction ms with
  | nil =>
    by_cases hname : name=key
    · simp [insertMember,JsonValue.get,hname]
    · simp [insertMember,JsonValue.get,hname]
  | cons p ms ih =>
    obtain ⟨other,y⟩ := p
    rw [JsonValue.get] at ih
    rw [insertMember]
    split
    · by_cases hname : name=key
      · simp [JsonValue.get,hname]
      · simp [JsonValue.get,hname]
    · split
      · next heq =>
        by_cases hname : name=key
        · simp [JsonValue.get,hname]
        · simp [JsonValue.get,hname,←heq]
      · next hne =>
        by_cases hother : other=key
        · simp [JsonValue.get,hother,hother ▸ hne]
        · simpa [JsonValue.get,hother] using ih

/-- Digits are characters of words. -/
theorem isWord_of_isDigit {c : Char} (h : isDigit c=true) : isWord c=true := by
  have hall : ∀ n < 58, 48 ≤ n → isWord (Char.ofNat n)=true := by decide
  rw [isDigit,Bool.and_eq_true,decide_eq_true_eq,decide_eq_true_eq] at h
  rw [←Char.ofNat_toNat c]
  exact hall c.toNat (by omega) h.1

/-- Only characters of words. -/
def Wordy (cs : List Char) : Prop := ∀ c∈cs, isWord c=true

/-- A run of digits has only such characters. -/
theorem wordy_digits {cs : List Char} (h : isDigits cs=true) : Wordy cs := by
  intro c hc
  rw [isDigits,Bool.and_eq_true,List.all_eq_true] at h
  exact isWord_of_isDigit (h.2 c hc)

/-- One more character of words. -/
theorem wordy_cons {c : Char} {cs : List Char} (hc : isWord c=true) (h : Wordy cs) :
    Wordy (c::cs) := List.forall_mem_cons.mpr ⟨hc,h⟩

/-- Digits before them do no harm. -/
theorem wordy_after_digits {cs : List Char} (h : Wordy (cs.dropWhile isDigit)) : Wordy cs := by
  intro c hc
  rw [←List.takeWhile_append_dropWhile (p:=isDigit) (l:=cs),List.mem_append] at hc
  rcases hc with hc|hc
  · exact isWord_of_isDigit (List.mem_takeWhile_imp hc)
  · exact h c hc

/-- An exponent has only characters of words. -/
theorem wordy_exponent {cs : List Char} (h : isExponent cs=true) : Wordy cs := by
  rcases cs with _|⟨c,_|⟨d,ds⟩⟩
  · exact fun c hc => absurd hc List.not_mem_nil
  · simp [isExponent] at h
  · simp only [isExponent,Bool.and_eq_true,Bool.or_eq_true,beq_iff_eq] at h
    obtain ⟨hc,hds⟩ := h
    have hword : isWord c=true := by rcases hc with rfl|rfl <;> rfl
    refine wordy_cons hword ?_
    split at hds
    · next hsign =>
      refine wordy_cons ?_ (wordy_digits hds)
      rcases hsign with rfl|rfl <;> rfl
    · exact wordy_digits hds

/-- So has a fraction. -/
theorem wordy_fraction {cs : List Char} (h : isFraction cs=true) : Wordy cs := by
  cases cs with
  | nil => exact fun c hc => absurd hc List.not_mem_nil
  | cons c cs =>
    rw [isFraction] at h
    split at h
    · next hdot =>
      rw [Bool.and_eq_true] at h
      subst hdot
      exact wordy_cons rfl (wordy_after_digits (wordy_exponent h.2))
    · exact wordy_exponent h

/-- So has a number without its sign. -/
theorem wordy_unsigned {cs : List Char} (h : isUnsigned cs=true) : Wordy cs := by
  cases cs with
  | nil => cases h
  | cons c cs =>
    rw [isUnsigned] at h
    split at h
    · next hzero =>
      subst hzero
      exact wordy_cons rfl (wordy_fraction h)
    · rw [Bool.and_eq_true] at h
      exact wordy_cons (isWord_of_isDigit h.1) (wordy_after_digits (wordy_fraction h.2))

/-- A number is made of characters of words. -/
theorem wordy_number {cs : List Char} (h : isNumber cs=true) : Wordy cs := by
  cases cs with
  | nil => cases h
  | cons c cs =>
    rw [isNumber] at h
    split at h
    · next hminus =>
      subst hminus
      exact wordy_cons rfl (wordy_unsigned h)
    · exact wordy_unsigned h

/-- A text of such characters is one token. -/
theorem tokens_word {cs : List Char} (hne : cs≠[]) (h : Wordy cs) :
    tokens cs=some [.word cs] := by
  have hmore : ∀ (ds text : List Char), Wordy ds →
      scan (.word text) ds=some ([],.word (text++ds)) := by
    intro ds
    induction ds with
    | nil => simp [scan]
    | cons d ds ih =>
      intro text hds
      obtain ⟨hd,hrest⟩ := List.forall_mem_cons.mp hds
      have hnext : (Mode.word text).next d=some ([],.word (text++[d])) := if_pos hd
      have hscan := scan_cons_some hnext (ih (text++[d]) hrest)
      rwa [List.append_assoc] at hscan
  cases cs with
  | nil => exact absurd rfl hne
  | cons c cs =>
    obtain ⟨hc,hrest⟩ := List.forall_mem_cons.mp h
    have hquote : c≠ '"' := by
      rintro rfl
      cases hc
    have hspace : isSpace c=false := by
      by_contra hs
      simp only [isSpace,Bool.not_eq_false,Bool.or_eq_true,beq_iff_eq] at hs
      rcases hs with ((rfl|rfl)|rfl)|rfl <;> cases hc
    have hstart : Mode.between.next c=some ([],.word [c]) := by
      rw [Mode.next,startToken,if_neg hquote,if_neg (by simp [hspace]),if_pos hc]
    exact tokens_eq_some_iff.mpr ⟨_,_,_,scan_cons_some hstart (hmore cs [c] hrest),rfl,rfl⟩

/-- A number is read as itself. -/
theorem jsonText_number {literal : String} (h : isNumber literal.toList=true) :
    JsonText literal (.number literal) := by
  have hne : literal.toList≠[] := by
    intro heq
    rw [heq] at h
    cases h
  have hliteral : ∀ text, isNumber text=false → literal.toList≠text := by
    intro text htext heq
    rw [heq,htext] at h
    cases h
  have hvalue : wordValue literal.toList=some (.number (String.ofList literal.toList)) := by
    rw [wordValue,if_neg (hliteral _ rfl),if_neg (hliteral _ rfl),if_neg (hliteral _ rfl),if_pos h]
  rw [String.ofList_toList] at hvalue
  exact ⟨_,tokens_word hne (wordy_number h),.word hvalue⟩

/-- A printed string is one token. -/
theorem tokens_printJsonString {s : String} {b : List Char} (hb : tokens b=some ts) :
    tokens ((printJsonString s).toList++b)=some (.string (escaped s.toList)::ts) := by
  have hraw : scan (.string []) (escaped s.toList)=some ([],.string (escaped s.toList)) :=
    scan_escaped s.toList []
  rw [toList_printJsonString,List.append_assoc,List.singleton_append]
  exact tokens_string hraw hb

/-- Its escapes stand for the string. -/
theorem unescape_printed (s : String) : unescape (escaped s.toList)=some s.toList :=
  unescape_escaped s.toList

/-- A printed string reads back. -/
theorem jsonText_string (s : String) : JsonText (printJsonString s) (.string s) := by
  have htokens := tokens_printJsonString (s:=s) (b:=[]) rfl
  rw [List.append_nil] at htokens
  have hderives := Derives.string (unescape_printed s)
  rw [String.ofList_toList] at hderives
  exact ⟨_,htokens,hderives⟩

/-- Printed items are read as what each of them is read as. -/
theorem printed_items {ws : List JsonValue}
    (h : List.Forall₂ (fun x y => JsonText x.compact y) vs ws) (hne : vs≠[]) :
    ∃ ts, tokens (compactItems vs).toList=some ts ∧ Derives (.items ws) ts := by
  induction h with
  | nil => exact absurd rfl hne
  | @cons x y vs ws hx hrest ih =>
    obtain ⟨ts,hts,hderives⟩ := hx
    cases hrest with
    | nil => exact ⟨ts,hts,.item hderives⟩
    | @cons x' y' vs ws hx' hrest =>
      obtain ⟨us,hus,hothers⟩ := ih (List.cons_ne_nil _ _)
      have hjoin := tokens_append_structural (c := ',') rfl hts hus
      have htext : (compactItems (x::x'::vs)).toList=
          x.compact.toList++ ','::(compactItems (x'::vs)).toList := by
        rw [compactItems,String.toList_append,String.toList_append,List.append_assoc]
        rfl
      rw [htext]
      exact ⟨_,hjoin,.moreItems hderives hothers⟩

/-- Printed members are read as what each of them is read as. -/
theorem printed_members {ns : List (String×JsonValue)}
    (h : List.Forall₂ (fun m n => m.1=n.1 ∧ JsonText m.2.compact n.2) ms ns) (hne : ms≠[]) :
    ∃ ts, tokens (compactMembers ms).toList=some ts ∧ Derives (.members ns) ts := by
  induction h with
  | nil => exact absurd rfl hne
  | @cons m n ms ns hm hrest ih =>
    obtain ⟨name,x⟩ := m
    obtain ⟨name',y⟩ := n
    obtain ⟨hname,ts,hts,hderives⟩ := hm
    simp only at hname
    subst hname
    have hunescape := unescape_printed name
    cases hrest with
    | nil =>
      have htext : (compactMembers [(name,x)]).toList=
          (printJsonString name).toList++ ':'::x.compact.toList := by
        rw [compactMembers,String.toList_append,String.toList_append,List.append_assoc]
        rfl
      have hmember := Derives.member hunescape hderives
      rw [String.ofList_toList] at hmember
      rw [htext]
      exact ⟨_,tokens_printJsonString (tokens_cons_structural rfl hts),hmember⟩
    | @cons m' n' ms ns hm' hrest =>
      obtain ⟨us,hus,hothers⟩ := ih (List.cons_ne_nil _ _)
      have hjoin := tokens_append_structural (c := ',') rfl hts hus
      have htext : (compactMembers ((name,x)::m'::ms)).toList=
          (printJsonString name).toList++ ':'::(x.compact.toList++ ','::
            (compactMembers (m'::ms)).toList) := by
        rw [compactMembers,String.toList_append,String.toList_append,String.toList_append,
          String.toList_append,List.append_assoc,List.append_assoc,List.append_assoc]
        rfl
      have hmember := Derives.moreMembers hunescape hderives hothers
      rw [String.ofList_toList] at hmember
      rw [htext]
      exact ⟨_,tokens_printJsonString (tokens_cons_structural rfl hjoin),hmember⟩

/-- A printed array is read as what its items are read as. -/
theorem jsonText_array {ws : List JsonValue}
    (h : List.Forall₂ (fun x y => JsonText x.compact y) vs ws) :
    JsonText (JsonValue.array vs).compact (.array ws) := by
  have htext : (JsonValue.array vs).compact.toList= '['::((compactItems vs).toList++[']']) := by
    rw [JsonValue.compact,String.toList_append,String.toList_append]
    rfl
  rw [JsonText,htext]
  cases vs with
  | nil =>
    cases h
    exact ⟨_,rfl,.emptyArray⟩
  | cons x vs =>
    obtain ⟨ts,hts,hderives⟩ := printed_items h (List.cons_ne_nil _ _)
    have hclose := tokens_append_structural (c := ']') (b:=[]) rfl hts rfl
    exact ⟨_,tokens_cons_structural rfl hclose,.array hderives⟩

/-- A printed object is read as the members that its members are read as. -/
theorem jsonText_object {ns : List (String×JsonValue)}
    (h : List.Forall₂ (fun m n => m.1=n.1 ∧ JsonText m.2.compact n.2) ms ns) :
    JsonText (JsonValue.object ms).compact (.object (collect ns)) := by
  have htext : (JsonValue.object ms).compact.toList=
      '\x7b'::((compactMembers ms).toList++['\x7d']) := by
    rw [JsonValue.compact,String.toList_append,String.toList_append]
    rfl
  rw [JsonText,htext]
  cases ms with
  | nil =>
    cases h
    exact ⟨_,rfl,.emptyObject⟩
  | cons m ms =>
    obtain ⟨ts,hts,hderives⟩ := printed_members h (List.cons_ne_nil _ _)
    have hclose := tokens_append_structural (c := '\x7d') (b:=[]) rfl hts rfl
    exact ⟨_,tokens_cons_structural rfl hclose,.object hderives⟩

/-- What a phrase stands for reads back when it is printed. -/
def Reprints : Phrase → Prop
  | .value v => JsonText v.compact v
  | .items vs => ∀ v∈vs, JsonText v.compact v
  | .members ms => ∀ m∈ms, JsonText m.2.compact m.2

/-- A word is no object. -/
theorem wordValue_ne_object (text : List Char) (ms : List (String×JsonValue)) :
    wordValue text≠some (.object ms) := by
  unfold wordValue
  split_ifs <;> simp

/-- The value of a word reads back when it is printed. -/
theorem wordValue_reprints {text : List Char} (h : wordValue text=some v) :
    JsonText v.compact v := by
  unfold wordValue at h
  split at h
  · cases h
    exact ⟨[.word "null".toList],rfl,.word rfl⟩
  · split at h
    · cases h
      exact ⟨[.word "true".toList],rfl,.word rfl⟩
    · split at h
      · cases h
        exact ⟨[.word "false".toList],rfl,.word rfl⟩
      · split at h
        · next hnumber =>
          cases h
          rw [JsonValue.compact]
          exact jsonText_number (by rwa [String.toList_ofList])
        · cases h

/-- What a derivation stands for reads back when it is printed. -/
theorem Derives.reprints (h : Derives part ts) : Reprints part := by
  induction h with
  | word hword => exact wordValue_reprints hword
  | string hraw => exact jsonText_string _
  | emptyArray => exact jsonText_array .nil
  | array hitems ih => exact jsonText_array (List.forall₂_same.mpr ih)
  | emptyObject =>
    have hread : JsonText (JsonValue.object []).compact (.object (collect [])) :=
      jsonText_object .nil
    exact hread
  | @object ms ts hmembers ih =>
    have hsame : List.Forall₂ (fun m n => m.1=n.1 ∧ JsonText m.2.compact n.2)
        (collect ms) (collect ms) :=
      List.forall₂_same.mpr fun m hm => ⟨rfl,ih m (mem_collect hm)⟩
    have hread := jsonText_object hsame
    rwa [(ordered_collect ms).collect] at hread
  | item hv ih => exact List.forall_mem_singleton.mpr ih
  | moreItems hv hs ihv ihs => exact List.forall_mem_cons.mpr ⟨ihv,ihs⟩
  | member hname hv ih => exact List.forall_mem_singleton.mpr ih
  | moreMembers hname hv hs ihv ihs => exact List.forall_mem_cons.mpr ⟨ihv,ihs⟩

/-- A value that was read reads back when it is printed. -/
theorem JsonText.reprint {s : String} (h : JsonText s v) : JsonText v.compact v := by
  obtain ⟨ts,-,hderives⟩ := h
  exact hderives.reprints

/-- The names that a phrase binds stand among the strings of its tokens. -/
def NamesAmong (ts : List Token) : Phrase → Prop
  | .value (.object ms) => ∀ m∈ms, ∃ raw, .string raw∈ts ∧ unescape raw=some m.1.toList
  | .members ms => ∀ m∈ms, ∃ raw, .string raw∈ts ∧ unescape raw=some m.1.toList
  | _ => True

/-- The names that a derivation binds are strings of its tokens. -/
theorem Derives.namesAmong (h : Derives part ts) : NamesAmong ts part := by
  induction h with
  | @word text v hword =>
    cases v with
    | object ms => exact absurd hword (wordValue_ne_object text ms)
    | _ => trivial
  | string hraw => trivial
  | emptyArray => trivial
  | array hitems ih => trivial
  | emptyObject => exact fun m hm => absurd hm List.not_mem_nil
  | @object ms ts hmembers ih =>
    intro m hm
    obtain ⟨raw,hraw,hname⟩ := ih m (mem_collect hm)
    exact ⟨raw,List.mem_cons_of_mem _ (List.mem_append_left _ hraw),hname⟩
  | item hv ih => trivial
  | moreItems hv hs ihv ihs => trivial
  | member hname hv ih =>
    refine List.forall_mem_singleton.mpr ⟨_,List.mem_cons_self,?_⟩
    rw [hname,String.toList_ofList]
  | moreMembers hname hv hs ihv ihs =>
    refine List.forall_mem_cons.mpr ⟨⟨_,List.mem_cons_self,?_⟩,fun m hm => ?_⟩
    · rw [hname,String.toList_ofList]
    · obtain ⟨raw,hraw,hm⟩ := ihs m hm
      refine ⟨raw,?_,hm⟩
      exact List.mem_cons_of_mem _ (List.mem_cons_of_mem _
        (List.mem_append_right _ (List.mem_cons_of_mem _ hraw)))

/-- A member of a value that was read is named by a string of the text. -/
theorem JsonText.name {s key : String} {x : JsonValue} (h : JsonText s v)
    (hget : v.get key=some x) : ∃ ts raw, tokens s.toList=some ts ∧ .string raw∈ts ∧
      unescape raw=some key.toList := by
  obtain ⟨ts,hts,hderives⟩ := h
  cases v with
  | object ms =>
    obtain ⟨m,hfind,-⟩ := Option.map_eq_some_iff.mp hget
    obtain ⟨raw,hraw,hname⟩ := hderives.namesAmong m (List.mem_of_find?_eq_some hfind)
    have hkey : m.1=key := by simpa using List.find?_some hfind
    exact ⟨ts,raw,hts,hraw,hkey ▸ hname⟩
  | _ => cases hget

end AegisRuntime.JsonTexts
