import AegisRuntime.JsonValues

/-!
# The tokens of a JSON text

A text is split by an automaton that knows whether it stands between tokens,
inside a literal or number, or inside a string; strings keep their escapes and
are decoded afterwards, surrogate pairs included. The rules say how the
automaton composes over adjacent texts, what a printed string is split into, and
what two runs over one text find when one of them starts inside a string.
-/

namespace AegisRuntime.JsonTokens

open JsonValues

/-- A token of a JSON text. -/
inductive Token where
  /-- `[`. -/
  | beginArray
  /-- `]`. -/
  | endArray
  /-- An opening brace. -/
  | beginObject
  /-- A closing brace. -/
  | endObject
  /-- `:`. -/
  | nameSeparator
  /-- `,`. -/
  | valueSeparator
  /-- A literal name or a number. -/
  | word (text : List Char)
  /-- A string, as it stands between its quotes. -/
  | string (raw : List Char)
  deriving DecidableEq,Repr

/-- The whitespace of the grammar. -/
def isSpace (c : Char) : Bool := c == ' ' || c == '\t' || c == '\n' || c == '\r'

/-- The characters of literal names and numbers. -/
def isWord (c : Char) : Bool := "+-.0123456789Eaeflnrstu".toList.contains c

/-- The token that a character is alone. -/
def structural (c : Char) : Option Token :=
  if c = '[' then some .beginArray
  else if c = ']' then some .endArray
  else if c = '\x7b' then some .beginObject
  else if c = '\x7d' then some .endObject
  else if c = ':' then some .nameSeparator
  else if c = ',' then some .valueSeparator
  else none

/-- The characters that may stand outside strings. -/
def isOutside (c : Char) : Bool := isSpace c || isWord c || (structural c).isSome

/-- What may follow a backslash in a string. -/
def isEscape (c : Char) : Bool := "\"\\/bfnrtu".toList.contains c

/-- Where the automaton stands. -/
inductive Mode where
  /-- Between tokens. -/
  | between
  /-- Inside a literal name or a number. -/
  | word (text : List Char)
  /-- Inside a string. -/
  | string (raw : List Char)
  /-- After a backslash in a string. -/
  | escape (raw : List Char)
  deriving DecidableEq,Repr

/-- A character where a token may start. -/
def startToken (c : Char) : Option (List Token×Mode) :=
  if c = '"' then some ([],.string [])
  else if isSpace c then some ([],.between)
  else if isWord c then some ([],.word [c])
  else (structural c).map fun t => ([t],.between)

/-- One character: the tokens it completes and the next mode. -/
def Mode.next : Mode → Char → Option (List Token×Mode)
  | .between,c => startToken c
  | .word text,c =>
    if isWord c then some ([],.word (text++[c]))
    else (startToken c).map fun p => (.word text::p.1,p.2)
  | .string raw,c =>
    if c = '"' then some ([.string raw],.between)
    else if c = '\\' then some ([],.escape raw)
    else some ([],.string (raw++[c]))
  | .escape raw,c => if isEscape c then some ([],.string (raw++['\\',c])) else none

/-- A run of the automaton. -/
def scan : Mode → List Char → Option (List Token×Mode)
  | m,[] => some ([],m)
  | m,c::cs =>
    match m.next c with
    | none => none
    | some (ts,m') => (scan m' cs).map fun p => (ts++p.1,p.2)

/-- Whether a mode is outside of strings. -/
def Mode.outsideStrings : Mode → Bool
  | .between => true
  | .word _ => true
  | .string _ => false
  | .escape _ => false

/-- What the end of the text completes. -/
def Mode.finish : Mode → Option (List Token)
  | .between => some []
  | .word text => some [.word text]
  | .string _ => none
  | .escape _ => none

/-- The tokens of a text. -/
def tokens (cs : List Char) : Option (List Token) :=
  (scan .between cs).bind fun p => p.2.finish.map fun ts => p.1++ts

/-- A piece of a decoded string. -/
inductive StringPart where
  /-- A character. -/
  | char (c : Char)
  /-- A UTF-16 code unit, written with four hexadecimal digits. -/
  | codeUnit (n : ℕ)
  deriving DecidableEq,Repr

/-- The value of a hexadecimal digit. -/
def hexDigit (c : Char) : Option ℕ :=
  if 48 ≤ c.toNat ∧ c.toNat ≤ 57 then some (c.toNat-48)
  else if 97 ≤ c.toNat ∧ c.toNat ≤ 102 then some (c.toNat-87)
  else if 65 ≤ c.toNat ∧ c.toNat ≤ 70 then some (c.toNat-55)
  else none

/-- The value of four hexadecimal digits. -/
def hexUnit (a b c d : Char) : Option ℕ := do
  let a ← hexDigit a
  let b ← hexDigit b
  let c ← hexDigit c
  let d ← hexDigit d
  return ((a*16+b)*16+c)*16+d

/-- What one character after a backslash stands for. -/
def simpleEscape (c : Char) : Option Char :=
  if c = '"' then some '"'
  else if c = '\\' then some '\\'
  else if c = '/' then some '/'
  else if c = 'b' then some (Char.ofNat 8)
  else if c = 'f' then some (Char.ofNat 12)
  else if c = 'n' then some '\n'
  else if c = 'r' then some '\r'
  else if c = 't' then some '\t'
  else none

/-- The pieces of a string; control characters must be escaped. -/
def stringParts : List Char → Option (List StringPart)
  | [] => some []
  | '\\':: 'u'::a::b::c::d::rest =>
    (hexUnit a b c d).bind fun n => (stringParts rest).map fun ps => .codeUnit n::ps
  | '\\'::e::rest => (simpleEscape e).bind fun x => (stringParts rest).map fun ps => .char x::ps
  | c::rest =>
    if c = '\\' ∨ c.toNat < 32 then none else (stringParts rest).map fun ps => .char c::ps

/-- Whether a code unit opens a surrogate pair. -/
def isHighSurrogate (n : ℕ) : Bool := decide (55296 ≤ n) && decide (n ≤ 56319)

/-- Whether a code unit closes a surrogate pair. -/
def isLowSurrogate (n : ℕ) : Bool := decide (56320 ≤ n) && decide (n ≤ 57343)

/-- The characters of the pieces; surrogates must come in pairs. -/
def joinParts : List StringPart → Option (List Char)
  | [] => some []
  | .char c::rest => (joinParts rest).map fun cs => c::cs
  | .codeUnit n::rest =>
    if isHighSurrogate n then
      match rest with
      | .codeUnit m::rest' =>
        if isLowSurrogate m then
          (joinParts rest').map fun cs => Char.ofNat (65536+(n-55296)*1024+(m-56320))::cs
        else none
      | _ => none
    else if isLowSurrogate n then none
    else (joinParts rest).map fun cs => Char.ofNat n::cs

/-- The text that a string token stands for. -/
def unescape (raw : List Char) : Option (List Char) := (stringParts raw).bind joinParts

variable {m m' m₁ m₂ : Mode} {a b cs raw : List Char} {ts t₁ t₂ : List Token} {c : Char} {t : Token}

/-- Adjacent texts are scanned one after the other. -/
theorem scan_append (m : Mode) (a b : List Char) : scan m (a++b)=
    (scan m a).bind fun p => (scan p.2 b).map fun q => (p.1++q.1,q.2) := by
  induction a generalizing m with
  | nil => simp [scan]
  | cons c a ih =>
    rw [List.cons_append,scan,scan]
    cases hnext : m.next c with
    | none => rfl
    | some p =>
      obtain ⟨ts,m'⟩ := p
      simp only [ih]
      cases scan m' a with
      | none => rfl
      | some q => simp [Option.map_map,Function.comp_def]

theorem scan_append_some (ha : scan m a=some (t₁,m₁)) (hb : scan m₁ b=some (t₂,m₂)) :
    scan m (a++b)=some (t₁++t₂,m₂) := by
  rw [scan_append,ha,Option.bind_some,hb,Option.map_some]

/-- A scan of adjacent texts passes through a mode between them. -/
theorem scan_append_inv (h : scan m (a++b)=some (ts,m₂)) : ∃ t₁ m₁ t₂,
    scan m a=some (t₁,m₁) ∧ scan m₁ b=some (t₂,m₂) ∧ ts=t₁++t₂ := by
  rw [scan_append] at h
  obtain ⟨⟨t₁,m₁⟩,ha,hmap⟩ := Option.bind_eq_some_iff.mp h
  obtain ⟨⟨t₂,m'⟩,hb,heq⟩ := Option.map_eq_some_iff.mp hmap
  cases heq
  exact ⟨t₁,m₁,t₂,ha,hb,rfl⟩

theorem scan_cons_some (h : m.next c=some (t₁,m₁)) (hb : scan m₁ b=some (t₂,m₂)) :
    scan m (c::b)=some (t₁++t₂,m₂) := by
  rw [scan]
  simp only [h,hb,Option.map_some]

theorem scan_cons_silent (h : m.next c=some ([],m₁)) (hb : scan m₁ b=some (ts,m₂)) :
    scan m (c::b)=some (ts,m₂) :=
  scan_cons_some h hb

theorem scan_cons_inv (h : scan m (c::b)=some (ts,m₂)) : ∃ t₁ m₁ t₂,
    m.next c=some (t₁,m₁) ∧ scan m₁ b=some (t₂,m₂) ∧ ts=t₁++t₂ := by
  rw [scan] at h
  cases hnext : m.next c with
  | none =>
    rw [hnext] at h
    cases h
  | some p =>
    obtain ⟨t₁,m₁⟩ := p
    simp only [hnext] at h
    obtain ⟨⟨t₂,m'⟩,hb,heq⟩ := Option.map_eq_some_iff.mp h
    cases heq
    exact ⟨t₁,m₁,t₂,rfl,hb,rfl⟩

/-- The tokens are those of the scan and those of its end. -/
theorem tokens_eq_some_iff : tokens cs=some ts ↔ ∃ t₁ m t₂,
    scan .between cs=some (t₁,m) ∧ m.finish=some t₂ ∧ ts=t₁++t₂ := by
  rw [tokens]
  constructor
  · intro h
    obtain ⟨⟨t₁,m⟩,hscan,hmap⟩ := Option.bind_eq_some_iff.mp h
    obtain ⟨t₂,hfinish,heq⟩ := Option.map_eq_some_iff.mp hmap
    exact ⟨t₁,m,t₂,hscan,hfinish,heq.symm⟩
  · rintro ⟨t₁,m,t₂,hscan,hfinish,rfl⟩
    rw [hscan,Option.bind_some,hfinish,Option.map_some]

/-- A text whose scan ends in a string has no tokens. -/
theorem tokens_of_scan_string (h : scan .between cs=some (ts,.string raw)) : tokens cs=none := by
  rw [tokens,h]
  rfl

/-- The characters that are tokens alone. -/
theorem structural_cases (h : structural c=some t) :
    c = '[' ∨ c = ']' ∨ c = '\x7b' ∨ c = '\x7d' ∨ c = ':' ∨ c = ',' := by
  by_contra hne
  simp only [not_or] at hne
  obtain ⟨h₁,h₂,h₃,h₄,h₅,h₆⟩ := hne
  rw [structural,if_neg h₁,if_neg h₂,if_neg h₃,if_neg h₄,if_neg h₅,if_neg h₆] at h
  cases h

theorem isWord_of_structural (h : structural c=some t) : isWord c=false := by
  rcases structural_cases h with rfl|rfl|rfl|rfl|rfl|rfl <;> rfl

/-- A structural character starts no string, blank or word. -/
theorem startToken_structural (h : structural c=some t) : startToken c=some ([t],.between) := by
  rcases structural_cases h with rfl|rfl|rfl|rfl|rfl|rfl <;> cases h <;> rfl

/-- After a text with tokens, a structural character completes what is open. -/
theorem tokens_append_structural (hc : structural c=some t) (ha : tokens a=some t₁)
    (hb : tokens b=some t₂) : tokens (a++c::b)=some (t₁++t::t₂) := by
  obtain ⟨u₁,m,u₂,hscan,hfinish,rfl⟩ := tokens_eq_some_iff.mp ha
  obtain ⟨v₁,m',v₂,hscan',hfinish',rfl⟩ := tokens_eq_some_iff.mp hb
  have hnext : m.next c=some (u₂++[t],.between) := by
    cases m with
    | between =>
      cases hfinish
      exact startToken_structural hc
    | word text =>
      cases hfinish
      rw [Mode.next,if_neg (by simp [isWord_of_structural hc]),startToken_structural hc]
      rfl
    | string raw => cases hfinish
    | escape raw => cases hfinish
  refine tokens_eq_some_iff.mpr ⟨_,m',v₂,scan_append_some hscan (scan_cons_some hnext hscan'),
    hfinish',?_⟩
  simp only [List.append_assoc,List.cons_append,List.nil_append]

theorem tokens_cons_structural (hc : structural c=some t) (hb : tokens b=some t₂) :
    tokens (c::b)=some (t::t₂) :=
  tokens_append_structural (a:=[]) hc rfl hb

/-- Leading blanks are not seen. -/
theorem tokens_cons_space (hc : isSpace c=true) : tokens (c::b)=tokens b := by
  have hstart : startToken c=some ([],.between) := by
    rw [startToken,if_neg,if_pos hc]
    rintro rfl
    cases hc
  rw [tokens,tokens,scan]
  simp only [Mode.next,hstart]
  simp

/-- Inside a string a plain text is taken over. -/
theorem scan_plain (raw : List Char) (h : ∀ c∈cs, c≠ '"' ∧ c≠ '\\') :
    scan (.string raw) cs=some ([],.string (raw++cs)) := by
  induction cs generalizing raw with
  | nil => rw [scan,List.append_nil]
  | cons c cs ih =>
    obtain ⟨⟨hquote,hslash⟩,hrest⟩ := List.forall_mem_cons.mp h
    have hnext : (Mode.string raw).next c=some ([],.string (raw++[c])) := by
      rw [Mode.next,if_neg hquote,if_neg hslash]
    rw [scan]
    simp only [hnext,ih _ hrest]
    simp

/-- A string token is what stands between two quotes. -/
theorem tokens_string (hraw : scan (.string []) raw=some ([],.string raw))
    (hb : tokens b=some t₂) : tokens ('"'::raw++ '"'::b)=some (.string raw::t₂) := by
  obtain ⟨v₁,m',v₂,hscan',hfinish',rfl⟩ := tokens_eq_some_iff.mp hb
  have hopen : Mode.between.next '"'=some ([],.string []) := rfl
  have hclose : (Mode.string raw).next '"'=some ([.string raw],.between) := rfl
  have hbody := scan_append_some hraw (scan_cons_some hclose hscan')
  exact tokens_eq_some_iff.mpr ⟨_,m',v₂,scan_cons_some hopen hbody,hfinish',rfl⟩

/-- The escaped characters of a text. -/
def escaped (cs : List Char) : List Char := cs.flatMap fun c => (escapeJsonChar c).toList

theorem toList_printJsonString (s : String) :
    (printJsonString s).toList= '"'::escaped s.toList++['"'] := by
  have hjoin : (String.join (s.toList.map escapeJsonChar)).toList=escaped s.toList := by
    rw [String.toList_join,List.flatMap_map,escaped]
  rw [printJsonString,String.toList_append,String.toList_append,hjoin]
  rfl

/-- Two hexadecimal digits give back a control character. -/
theorem hexUnit_digits : ∀ n < 32, hexUnit '0' '0' (Nat.digitChar (n/16)) (Nat.digitChar (n%16))=
    some n ∧ ∀ k < 16, Nat.digitChar k≠ '"' ∧ Nat.digitChar k≠ '\\' := by decide

/-- How a character is printed: escaped by a letter, escaped by its code, or bare. -/
inductive Printed (c : Char) : List Char → Prop where
  | short (e : Char) (hescape : isEscape e=true) (hunit : e≠ 'u')
    (hdecode : simpleEscape e=some c) :
    Printed c ['\\',e]
  | code (h l : Char) (hvalue : hexUnit '0' '0' h l=some c.toNat) (hcontrol : c.toNat < 32)
    (hplain : ∀ d∈[h,l], d≠ '"' ∧ d≠ '\\') : Printed c ['\\','u','0','0',h,l]
  | bare (hquote : c≠ '"') (hslash : c≠ '\\') (hcontrol : 32 ≤ c.toNat) : Printed c [c]

theorem printed_escapeJsonChar (c : Char) : Printed c (escapeJsonChar c).toList := by
  unfold escapeJsonChar
  split
  · next h => exact h ▸ .short '"' rfl (by decide) rfl
  · next hquote =>
    split
    · next h => exact h ▸ .short '\\' rfl (by decide) rfl
    · next hslash =>
      split
      · next h => exact h ▸ .short 'n' rfl (by decide) rfl
      · split
        · next h => exact h ▸ .short 'r' rfl (by decide) rfl
        · split
          · next h => exact h ▸ .short 't' rfl (by decide) rfl
          · split
            · next h =>
              have hc : c=Char.ofNat 8 := by rw [←h,Char.ofNat_toNat]
              exact hc ▸ .short 'b' rfl (by decide) rfl
            · split
              · next h =>
                have hc : c=Char.ofNat 12 := by rw [←h,Char.ofNat_toNat]
                exact hc ▸ .short 'f' rfl (by decide) rfl
              · split
                · next h =>
                  obtain ⟨hvalue,hplain⟩ := hexUnit_digits c.toNat h
                  have hhigh := hplain (c.toNat/16) (by omega)
                  have hlow := hplain (c.toNat%16) (by omega)
                  rw [String.toList_append,String.toList_append,String.toList_singleton,
                    String.toList_singleton]
                  exact .code _ _ hvalue h
                    (List.forall_mem_cons.mpr ⟨hhigh,List.forall_mem_singleton.mpr hlow⟩)
                · next h =>
                  rw [String.toList_singleton]
                  exact .bare hquote hslash (by omega)

/-- A printed character stays inside its string. -/
theorem Printed.scan {text : List Char} (h : Printed c text) (raw : List Char) :
    scan (.string raw) text=some ([],.string (raw++text)) := by
  cases h with
  | short e hescape hunit hdecode =>
    have hnext : (Mode.escape raw).next e=some ([],.string (raw++['\\',e])) := by
      rw [Mode.next,if_pos hescape]
    exact scan_cons_silent rfl (scan_cons_silent hnext rfl)
  | code h l hvalue hcontrol hplain =>
    have hrest : ∀ d∈['0','0',h,l], d≠ '"' ∧ d≠ '\\' := by
      simpa using hplain
    have htail := scan_plain (raw++['\\','u']) hrest
    rw [List.append_assoc] at htail
    exact scan_cons_silent rfl (scan_cons_silent rfl htail)
  | bare hquote hslash hcontrol =>
    exact scan_plain raw (List.forall_mem_singleton.mpr ⟨hquote,hslash⟩)

theorem stringParts_cons (h : c≠ '\\') (cs : List Char) : stringParts (c::cs)=
    if c.toNat < 32 then none else (stringParts cs).map fun ps => .char c::ps := by
  rw [stringParts.eq_4]
  · simp only [h,false_or]
  · intro a b d f g heq
    exact absurd heq h
  · intro e rest heq
    exact absurd heq h

/-- A code unit below the surrogates is a character. -/
theorem joinParts_codeUnit {n : ℕ} (h : n < 55296) (ps : List StringPart) :
    joinParts (.codeUnit n::ps)=(joinParts ps).map fun cs => Char.ofNat n::cs := by
  have hhigh : isHighSurrogate n=false := by simp [isHighSurrogate]; omega
  have hlow : isLowSurrogate n=false := by simp [isLowSurrogate]; omega
  rcases ps with _|⟨_|_,ps⟩ <;> simp [joinParts,hhigh,hlow]

/-- A printed character is read as one piece, which stands for it. -/
theorem Printed.part {text : List Char} (h : Printed c text) : ∃ part,
    (∀ rest, stringParts (text++rest)=(stringParts rest).map fun ps => part::ps) ∧
      ∀ ps, joinParts (part::ps)=(joinParts ps).map fun cs => c::cs := by
  cases h with
  | short e hescape hunit hdecode =>
    refine ⟨.char c,fun rest => ?_,fun ps => rfl⟩
    rw [List.cons_append,List.cons_append,List.nil_append,stringParts,hdecode]
    · rfl
    · intro a b d f g h
      exact absurd h hunit
  | code h l hvalue hcontrol hplain =>
    refine ⟨.codeUnit c.toNat,fun rest => ?_,fun ps => ?_⟩
    · simp [stringParts,hvalue]
    · rw [joinParts_codeUnit (by omega),Char.ofNat_toNat]
  | bare hquote hslash hcontrol =>
    refine ⟨.char c,fun rest => ?_,fun ps => rfl⟩
    rw [List.singleton_append,stringParts_cons hslash,if_neg (by omega)]

/-- The escaped form of a text stays inside its string. -/
theorem scan_escaped (cs raw : List Char) :
    scan (.string raw) (escaped cs)=some ([],.string (raw++escaped cs)) := by
  induction cs generalizing raw with
  | nil => simp [escaped,scan]
  | cons c cs ih =>
    have hhead := (printed_escapeJsonChar c).scan raw
    have htail := ih (raw++(escapeJsonChar c).toList)
    rw [List.append_assoc] at htail
    exact scan_append_some hhead htail

/-- A printed text reads back. -/
theorem unescape_escaped (cs : List Char) : unescape (escaped cs)=some cs := by
  induction cs with
  | nil => rfl
  | cons c cs ih =>
    obtain ⟨part,hparts,hjoin⟩ := (printed_escapeJsonChar c).part
    have hsplit : escaped (c::cs)=(escapeJsonChar c).toList++escaped cs := rfl
    obtain ⟨ps,hps,hcs⟩ := Option.bind_eq_some_iff.mp ih
    rw [unescape,hsplit,hparts,hps,Option.map_some,Option.bind_some,hjoin,hcs,Option.map_some]

/-- Without a backslash a string stands for itself. -/
theorem eq_of_unescape (hslash : '\\'∉raw) (h : unescape raw=some cs) : cs=raw := by
  induction raw generalizing cs with
  | nil =>
    cases h
    rfl
  | cons c raw ih =>
    obtain ⟨hc,hraw⟩ := List.ne_and_not_mem_of_not_mem_cons hslash
    rw [unescape,stringParts_cons hc.symm] at h
    split at h
    · cases h
    · obtain ⟨parts,hparts,hjoin⟩ := Option.bind_eq_some_iff.mp h
      obtain ⟨ps,hps,rfl⟩ := Option.map_eq_some_iff.mp hparts
      obtain ⟨ds,hds,rfl⟩ := Option.map_eq_some_iff.mp hjoin
      have hrest : unescape raw=some ds := by rw [unescape,hps,Option.bind_some,hds]
      rw [ih hraw hrest]

theorem startToken_outside (h : startToken c=some (ts,m')) : (∀ r, .string r∉ts) ∧
    (c = '"' ∧ m' = .string [] ∨ isOutside c=true ∧ c≠ '"' ∧ m'.outsideStrings=true) := by
  unfold startToken at h
  split at h
  · next hquote =>
    cases h
    exact ⟨fun _ => List.not_mem_nil,.inl ⟨hquote,rfl⟩⟩
  · next hquote =>
    split at h
    · next hspace =>
      cases h
      exact ⟨fun _ => List.not_mem_nil,.inr ⟨by simp [isOutside,hspace],hquote,rfl⟩⟩
    · split at h
      · next hword =>
        cases h
        exact ⟨fun _ => List.not_mem_nil,.inr ⟨by simp [isOutside,hword],hquote,rfl⟩⟩
      · obtain ⟨t,ht,heq⟩ := Option.map_eq_some_iff.mp h
        cases heq
        refine ⟨fun r hr => ?_,.inr ⟨by simp [isOutside,ht],hquote,rfl⟩⟩
        rw [←List.mem_singleton.mp hr] at ht
        rcases structural_cases ht with rfl|rfl|rfl|rfl|rfl|rfl <;> cases ht

/-- Outside of strings only outside characters and quotes pass, and no string is
completed. -/
theorem Mode.next_outside (hm : m.outsideStrings=true) (h : m.next c=some (ts,m')) :
    (∀ r, .string r∉ts) ∧
      (c = '"' ∧ m' = .string [] ∨ isOutside c=true ∧ c≠ '"' ∧ m'.outsideStrings=true) := by
  cases m with
  | between => exact startToken_outside h
  | word text =>
    rw [Mode.next] at h
    split at h
    · next hword =>
      cases h
      refine ⟨fun _ => List.not_mem_nil,.inr ⟨by simp [isOutside,hword],?_,rfl⟩⟩
      rintro rfl
      cases hword
    · obtain ⟨⟨us,m''⟩,hstart,heq⟩ := Option.map_eq_some_iff.mp h
      cases heq
      obtain ⟨hnone,hcases⟩ := startToken_outside hstart
      refine ⟨fun r hr => ?_,hcases⟩
      rcases List.mem_cons.mp hr with hr|hr
      · cases hr
      · exact hnone r hr
  | string raw => cases hm
  | escape raw => cases hm

/-- One run stands inside a string where the other stands outside, and a string
that the second run has open holds only what the first met outside. -/
inductive Flipped : Mode → Mode → Prop where
  | inside (raw : List Char) (m : Mode) (hm : m.outsideStrings=true) : Flipped (.string raw) m
  | outside (m : Mode) (hm : m.outsideStrings=true) (raw : List Char)
    (hraw : ∀ c∈raw, isOutside c=true) : Flipped m (.string raw)

/-- One character keeps two runs flipped, and the second completes only strings of
outside characters. -/
theorem Flipped.next (h : Flipped m m') (hm : m.next c=some (t₁,m₁))
    (hm' : m'.next c=some (t₂,m₂)) : Flipped m₁ m₂ ∧
      ∀ r, .string r∈t₂ → ∀ d∈r, isOutside d=true := by
  cases h with
  | inside raw m' hm₀ =>
    obtain ⟨hnone,hcases⟩ := Mode.next_outside hm₀ hm'
    have hstrings : ∀ r, .string r∈t₂ → ∀ d∈r, isOutside d=true :=
      fun r hr => absurd hr (hnone r)
    rcases hcases with ⟨rfl,rfl⟩|⟨hout,hquote,hnext⟩
    · cases hm
      exact ⟨.outside _ rfl [] (by simp),hstrings⟩
    · rw [Mode.next,if_neg hquote] at hm
      split at hm
      · next hslash =>
        rw [hslash] at hout
        cases hout
      · cases hm
        exact ⟨.inside _ _ hnext,hstrings⟩
  | outside m hm₀ raw hraw =>
    obtain ⟨-,hcases⟩ := Mode.next_outside hm₀ hm
    rcases hcases with ⟨rfl,rfl⟩|⟨hout,hquote,hnext⟩
    · cases hm'
      refine ⟨.inside _ _ rfl,fun r hr => ?_⟩
      cases List.mem_singleton.mp hr
      exact hraw
    · rw [Mode.next,if_neg hquote] at hm'
      split at hm'
      · next hslash =>
        rw [hslash] at hout
        cases hout
      · cases hm'
        refine ⟨.outside _ hnext _ fun d hd => ?_,fun r hr => absurd hr List.not_mem_nil⟩
        rcases List.mem_append.mp hd with hd|hd
        · exact hraw d hd
        · rw [List.mem_singleton.mp hd]
          exact hout

/-- Two flipped runs over one text: the second completes only strings of outside
characters. -/
theorem Flipped.scan (h : Flipped m m') (hm : scan m cs=some (t₁,m₁))
    (hm' : scan m' cs=some (t₂,m₂)) : ∀ r, .string r∈t₂ → ∀ d∈r, isOutside d=true := by
  induction cs generalizing m m' t₁ t₂ with
  | nil =>
    cases hm'
    intro r hr
    cases hr
  | cons c cs ih =>
    obtain ⟨u₁,n₁,v₁,hnext₁,hrest₁,rfl⟩ := scan_cons_inv hm
    obtain ⟨u₂,n₂,v₂,hnext₂,hrest₂,rfl⟩ := scan_cons_inv hm'
    obtain ⟨hflipped,hstrings⟩ := h.next hnext₁ hnext₂
    intro r hr
    rcases List.mem_append.mp hr with hr|hr
    · exact hstrings r hr
    · exact ih hflipped hrest₁ hrest₂ r hr

/-- A character that may stand neither outside nor after a backslash is inside a
string wherever it passes. -/
theorem Mode.next_inside (hout : isOutside c=false) (hescape : isEscape c=false)
    (h : m.next c=some (ts,m')) : ∃ raw, m = .string raw ∧ m' = .string (raw++[c]) := by
  have hquote : c≠ '"' := by
    rintro rfl
    cases hescape
  have hslash : c≠ '\\' := by
    rintro rfl
    cases hescape
  have hnot : m.outsideStrings=false := by
    by_contra hm
    obtain ⟨-,hcases⟩ := Mode.next_outside (by simpa using hm) h
    rcases hcases with ⟨hc,-⟩|⟨hc,-⟩
    · exact hquote hc
    · rw [hout] at hc
      cases hc
  cases m with
  | between => cases hnot
  | word text => cases hnot
  | string raw =>
    rw [Mode.next,if_neg hquote,if_neg hslash] at h
    cases h
    exact ⟨raw,rfl,rfl⟩
  | escape raw =>
    rw [Mode.next,if_neg (by simp [hescape])] at h
    cases h

end AegisRuntime.JsonTokens
