import AegisRuntime.JsonTokens
import Mathlib.Data.String.Basic

/-!
# JSON texts and their values

The grammar of JSON over the tokens of a text, as a relation between texts and
values, and a reader that decides it. An object keeps the last member of each
name, in the order of names. The result is that the reader accepts exactly the
grammar.
-/

namespace AegisRuntime.JsonTexts

open JsonValues JsonTokens

/-- A decimal digit. -/
def isDigit (c : Char) : Bool := decide (48 ≤ c.toNat) && decide (c.toNat ≤ 57)

/-- One digit or more and nothing else. -/
def isDigits (cs : List Char) : Bool := !cs.isEmpty && cs.all isDigit

/-- Nothing, or an exponent. -/
def isExponent : List Char → Bool
  | [] => true
  | c::cs =>
    (c == 'e' || c == 'E') &&
      match cs with
      | [] => false
      | d::ds => if d == '+' || d == '-' then isDigits ds else isDigits (d::ds)

/-- Nothing, or a fraction, then perhaps an exponent. -/
def isFraction : List Char → Bool
  | [] => true
  | c::cs =>
    if c = '.' then
      !(cs.takeWhile isDigit).isEmpty && isExponent (cs.dropWhile isDigit)
    else isExponent (c::cs)

/-- An integer part without leading noughts, then perhaps fraction and exponent. -/
def isUnsigned : List Char → Bool
  | [] => false
  | c::cs => if c = '0' then isFraction cs else isDigit c && isFraction (cs.dropWhile isDigit)

/-- A number of the grammar. -/
def isNumber : List Char → Bool
  | [] => false
  | c::cs => if c = '-' then isUnsigned cs else isUnsigned (c::cs)

/-- The value of a word. -/
def wordValue (text : List Char) : Option JsonValue :=
  if text="null".toList then some .null
  else if text="true".toList then some (.bool true)
  else if text="false".toList then some (.bool false)
  else if isNumber text then some (.number (String.ofList text))
  else none

/-- Puts a member in its place; a member of the same name is replaced. -/
def insertMember (name : String) (x : JsonValue) : List (String×JsonValue) → List (String×JsonValue)
  | [] => [(name,x)]
  | (other,y)::rest =>
    if name < other then (name,x)::(other,y)::rest
    else if name=other then (name,x)::rest
    else (other,y)::insertMember name x rest

/-- The members of an object, from the pairs in the order of the text. -/
def collect (pairs : List (String×JsonValue)) : List (String×JsonValue) :=
  pairs.foldl (fun members m => insertMember m.1 m.2 members) []

/-- What a phrase of the grammar stands for. -/
inductive Phrase where
  /-- A value. -/
  | value (v : JsonValue)
  /-- The items of an array that is not empty. -/
  | items (vs : List JsonValue)
  /-- The members of an object that is not empty. -/
  | members (ms : List (String×JsonValue))

/-- The grammar. -/
inductive Derives : Phrase → List Token → Prop where
  | word {text : List Char} {v : JsonValue} (h : wordValue text=some v) :
    Derives (.value v) [.word text]
  | string {raw cs : List Char} (h : unescape raw=some cs) :
    Derives (.value (.string (String.ofList cs))) [.string raw]
  | emptyArray : Derives (.value (.array [])) [.beginArray,.endArray]
  | array {vs : List JsonValue} {ts : List Token} (h : Derives (.items vs) ts) :
    Derives (.value (.array vs)) (.beginArray::(ts++[.endArray]))
  | emptyObject : Derives (.value (.object [])) [.beginObject,.endObject]
  | object {ms : List (String×JsonValue)} {ts : List Token} (h : Derives (.members ms) ts) :
    Derives (.value (.object (collect ms))) (.beginObject::(ts++[.endObject]))
  | item {v : JsonValue} {ts : List Token} (h : Derives (.value v) ts) : Derives (.items [v]) ts
  | moreItems {v : JsonValue} {vs : List JsonValue} {ts us : List Token}
    (h : Derives (.value v) ts) (hs : Derives (.items vs) us) :
    Derives (.items (v::vs)) (ts++.valueSeparator::us)
  | member {raw name : List Char} {v : JsonValue} {ts : List Token}
    (hname : unescape raw=some name) (h : Derives (.value v) ts) :
    Derives (.members [(String.ofList name,v)]) (.string raw::.nameSeparator::ts)
  | moreMembers {raw name : List Char} {v : JsonValue} {ms : List (String×JsonValue)}
    {ts us : List Token} (hname : unescape raw=some name) (h : Derives (.value v) ts)
    (hs : Derives (.members ms) us) :
    Derives (.members ((String.ofList name,v)::ms))
      (.string raw::.nameSeparator::(ts++.valueSeparator::us))

/-- A text of the grammar and its value. -/
def JsonText (s : String) (v : JsonValue) : Prop :=
  ∃ ts, tokens s.toList=some ts ∧ Derives (.value v) ts

/-- Takes one given token. -/
def expect (t : Token) : List Token → Option (List Token)
  | [] => none
  | u::rest => if u=t then some rest else none

mutual

/-- Reads a value and returns the tokens after it; the fuel bounds the nesting. -/
def readValue : ℕ → List Token → Option (JsonValue×List Token)
  | 0,_ => none
  | _+1,[] => none
  | fuel+1,t::rest =>
    match t with
    | .word text => (wordValue text).map fun v => (v,rest)
    | .string raw => (unescape raw).map fun cs => (.string (String.ofList cs),rest)
    | .beginArray =>
      match expect .endArray rest with
      | some rest' => some (.array [],rest')
      | none =>
        (readItems fuel rest).bind fun p =>
          (expect .endArray p.2).map fun rest' => (.array p.1,rest')
    | .beginObject =>
      match expect .endObject rest with
      | some rest' => some (.object [],rest')
      | none =>
        (readMembers fuel rest).bind fun p =>
          (expect .endObject p.2).map fun rest' => (.object (collect p.1),rest')
    | _ => none

/-- Reads one item or more. -/
def readItems : ℕ → List Token → Option (List JsonValue×List Token)
  | 0,_ => none
  | fuel+1,ts =>
    (readValue fuel ts).bind fun p =>
      match expect .valueSeparator p.2 with
      | some rest => (readItems fuel rest).map fun q => (p.1::q.1,q.2)
      | none => some ([p.1],p.2)

/-- Reads one member or more. -/
def readMembers : ℕ → List Token → Option (List (String×JsonValue)×List Token)
  | 0,_ => none
  | _+1,[] => none
  | fuel+1,t::rest =>
    match t with
    | .string raw =>
      (unescape raw).bind fun name =>
        (expect .nameSeparator rest).bind fun rest' =>
          (readValue fuel rest').bind fun p =>
            match expect .valueSeparator p.2 with
            | some rest => (readMembers fuel rest).map fun q =>
              ((String.ofList name,p.1)::q.1,q.2)
            | none => some ([(String.ofList name,p.1)],p.2)
    | _ => none

end

/-- Reads a text; nothing may follow the value. -/
def readJson (s : String) : Option JsonValue :=
  (tokens s.toList).bind fun ts =>
    (readValue (2*ts.length+1) ts).bind fun p => if p.2=[] then some p.1 else none

variable {v : JsonValue} {vs : List JsonValue} {ms : List (String×JsonValue)} {part : Phrase}
  {t u : Token} {ts us rest : List Token} {fuel : ℕ}

theorem expect_eq_some_iff : expect t ts=some rest ↔ ts=t::rest := by
  cases ts with
  | nil => simp [expect]
  | cons u us =>
    rw [expect]
    split
    · next h => simp [h]
    · next h => simp [h]

theorem expect_cons_self : expect t (t::rest)=some rest := expect_eq_some_iff.mpr rfl

theorem expect_cons_ne (h : u≠t) : expect t (u::rest)=none := if_neg h

/-- What the readers return with some fuel, the grammar derives. -/
def SoundAt (fuel : ℕ) : Prop :=
  (∀ ts v rest, readValue fuel ts=some (v,rest) →
    ∃ us, ts=us++rest ∧ Derives (.value v) us) ∧
  (∀ ts vs rest, readItems fuel ts=some (vs,rest) →
    ∃ us, ts=us++rest ∧ Derives (.items vs) us) ∧
  (∀ ts ms rest, readMembers fuel ts=some (ms,rest) →
    ∃ us, ts=us++rest ∧ Derives (.members ms) us)

/-- A value that is read was derived from the tokens it took. -/
theorem readValue_sound (h : SoundAt fuel) (hread : readValue (fuel+1) ts=some (v,rest)) :
    ∃ us, ts=us++rest ∧ Derives (.value v) us := by
  cases ts with
  | nil => cases hread
  | cons t ts =>
    cases t with
    | word text =>
      obtain ⟨w,hw,heq⟩ := Option.map_eq_some_iff.mp hread
      cases heq
      exact ⟨[.word text],rfl,.word hw⟩
    | string raw =>
      obtain ⟨cs,hcs,heq⟩ := Option.map_eq_some_iff.mp hread
      cases heq
      exact ⟨[.string raw],rfl,.string hcs⟩
    | beginArray =>
      rw [readValue] at hread
      split at hread
      · next rest' hend =>
        cases hread
        rw [expect_eq_some_iff.mp hend]
        exact ⟨[.beginArray,.endArray],rfl,.emptyArray⟩
      · obtain ⟨⟨vs,us⟩,hitems,hmap⟩ := Option.bind_eq_some_iff.mp hread
        obtain ⟨rest',hend,heq⟩ := Option.map_eq_some_iff.mp hmap
        cases heq
        obtain ⟨ws,hws,hderives⟩ := h.2.1 _ _ _ hitems
        have hafter : us=.endArray::rest := expect_eq_some_iff.mp hend
        rw [hws,hafter]
        exact ⟨.beginArray::(ws++[.endArray]),by simp,.array hderives⟩
    | beginObject =>
      rw [readValue] at hread
      split at hread
      · next rest' hend =>
        cases hread
        rw [expect_eq_some_iff.mp hend]
        exact ⟨[.beginObject,.endObject],rfl,.emptyObject⟩
      · obtain ⟨⟨ms,us⟩,hmembers,hmap⟩ := Option.bind_eq_some_iff.mp hread
        obtain ⟨rest',hend,heq⟩ := Option.map_eq_some_iff.mp hmap
        cases heq
        obtain ⟨ws,hws,hderives⟩ := h.2.2 _ _ _ hmembers
        have hafter : us=.endObject::rest := expect_eq_some_iff.mp hend
        rw [hws,hafter]
        exact ⟨.beginObject::(ws++[.endObject]),by simp,.object hderives⟩
    | endArray => cases hread
    | endObject => cases hread
    | nameSeparator => cases hread
    | valueSeparator => cases hread

/-- Items that are read were derived from the tokens they took. -/
theorem readItems_sound (h : SoundAt fuel) (hread : readItems (fuel+1) ts=some (vs,rest)) :
    ∃ us, ts=us++rest ∧ Derives (.items vs) us := by
  rw [readItems] at hread
  obtain ⟨⟨v,after⟩,hvalue,hmore⟩ := Option.bind_eq_some_iff.mp hread
  obtain ⟨us,rfl,hv⟩ := h.1 _ _ _ hvalue
  simp only at hmore
  split at hmore
  · next more hsep =>
    obtain ⟨⟨vs,last⟩,hitems,heq⟩ := Option.map_eq_some_iff.mp hmore
    cases heq
    obtain ⟨ws,rfl,hvs⟩ := h.2.1 _ _ _ hitems
    rw [expect_eq_some_iff.mp hsep]
    exact ⟨us++.valueSeparator::ws,by simp,.moreItems hv hvs⟩
  · cases hmore
    exact ⟨us,rfl,.item hv⟩

/-- Members that are read were derived from the tokens they took. -/
theorem readMembers_sound (h : SoundAt fuel) (hread : readMembers (fuel+1) ts=some (ms,rest)) :
    ∃ us, ts=us++rest ∧ Derives (.members ms) us := by
  cases ts with
  | nil => cases hread
  | cons t ts =>
    cases t with
    | string raw =>
      obtain ⟨name,hname,hcolon⟩ := Option.bind_eq_some_iff.mp hread
      obtain ⟨body,hbody,hvalue⟩ := Option.bind_eq_some_iff.mp hcolon
      obtain ⟨⟨v,after⟩,hv,hmore⟩ := Option.bind_eq_some_iff.mp hvalue
      obtain ⟨us,hus,hderives⟩ := h.1 _ _ _ hv
      rw [expect_eq_some_iff.mp hbody,hus]
      simp only at hmore
      split at hmore
      · next more hsep =>
        obtain ⟨⟨ms,last⟩,hmembers,heq⟩ := Option.map_eq_some_iff.mp hmore
        cases heq
        obtain ⟨ws,rfl,hms⟩ := h.2.2 _ _ _ hmembers
        rw [expect_eq_some_iff.mp hsep]
        exact ⟨.string raw::.nameSeparator::(us++.valueSeparator::ws),by simp,
          .moreMembers hname hderives hms⟩
      · cases hmore
        exact ⟨.string raw::.nameSeparator::us,rfl,.member hname hderives⟩
    | _ => cases hread

/-- The reader is sound whatever its fuel. -/
theorem soundAt (fuel : ℕ) : SoundAt fuel := by
  induction fuel with
  | zero =>
    refine ⟨?_,?_,?_⟩
    · intro ts v rest h
      cases h
    · intro ts vs rest h
      cases h
    · intro ts ms rest h
      cases h
  | succ fuel ih =>
    exact ⟨fun _ _ _ => readValue_sound ih,fun _ _ _ => readItems_sound ih,
      fun _ _ _ => readMembers_sound ih⟩

/-- No value starts with a closing bracket, and members start with a name. -/
theorem Derives.starts (h : Derives part ts) : ∃ t rest, ts=t::rest ∧ t≠.endArray ∧
    t≠.endObject := by
  induction h with
  | moreItems hv hs ihv ihs =>
    obtain ⟨t,rest,rfl,hne⟩ := ihv
    exact ⟨t,_,rfl,hne⟩
  | item hv ihv => exact ihv
  | _ => exact ⟨_,_,rfl,Token.noConfusion,Token.noConfusion⟩

/-- What the readers return on a derived phrase with enough fuel. -/
def ReadsBack (ts : List Token) : Phrase → Prop
  | .value v => ∀ fuel rest, 2*ts.length ≤ fuel → readValue fuel (ts++rest)=some (v,rest)
  | .items vs => ∀ fuel rest, 2*ts.length+1 ≤ fuel → expect .valueSeparator rest=none →
    readItems fuel (ts++rest)=some (vs,rest)
  | .members ms => ∀ fuel rest, 2*ts.length+1 ≤ fuel → expect .valueSeparator rest=none →
    readMembers fuel (ts++rest)=some (ms,rest)

/-- The readers find every derivation. -/
theorem Derives.readsBack (h : Derives part ts) : ReadsBack ts part := by
  induction h with
  | word hword =>
    intro fuel rest hfuel
    obtain ⟨fuel,rfl⟩ : ∃ n, fuel=n+1 := ⟨fuel-1,by simp at hfuel; omega⟩
    simp [readValue,hword]
  | string hraw =>
    intro fuel rest hfuel
    obtain ⟨fuel,rfl⟩ : ∃ n, fuel=n+1 := ⟨fuel-1,by simp at hfuel; omega⟩
    simp [readValue,hraw]
  | emptyArray =>
    intro fuel rest hfuel
    obtain ⟨fuel,rfl⟩ : ∃ n, fuel=n+1 := ⟨fuel-1,by simp at hfuel; omega⟩
    simp [readValue,expect]
  | emptyObject =>
    intro fuel rest hfuel
    obtain ⟨fuel,rfl⟩ : ∃ n, fuel=n+1 := ⟨fuel-1,by simp at hfuel; omega⟩
    simp [readValue,expect]
  | @array vs ts hitems ih =>
    intro fuel rest hfuel
    rw [List.length_cons,List.length_append,List.length_singleton] at hfuel
    obtain ⟨fuel,rfl⟩ : ∃ n, fuel=n+1 := ⟨fuel-1,by omega⟩
    obtain ⟨t,us,hts,hne,-⟩ := hitems.starts
    have hopen : expect .endArray (ts++.endArray::rest)=none := by
      rw [hts]
      exact expect_cons_ne hne
    have hread := ih fuel (.endArray::rest) (by omega) (expect_cons_ne Token.noConfusion)
    rw [List.cons_append,List.append_assoc,List.singleton_append,readValue]
    simp only [hopen,hread,Option.bind_some,expect_cons_self,Option.map_some]
  | @object ms ts hmembers ih =>
    intro fuel rest hfuel
    rw [List.length_cons,List.length_append,List.length_singleton] at hfuel
    obtain ⟨fuel,rfl⟩ : ∃ n, fuel=n+1 := ⟨fuel-1,by omega⟩
    obtain ⟨t,us,hts,-,hne⟩ := hmembers.starts
    have hopen : expect .endObject (ts++.endObject::rest)=none := by
      rw [hts]
      exact expect_cons_ne hne
    have hread := ih fuel (.endObject::rest) (by omega) (expect_cons_ne Token.noConfusion)
    rw [List.cons_append,List.append_assoc,List.singleton_append,readValue]
    simp only [hopen,hread,Option.bind_some,expect_cons_self,Option.map_some]
  | item hv ih =>
    intro fuel rest hfuel hsep
    obtain ⟨fuel,rfl⟩ : ∃ n, fuel=n+1 := ⟨fuel-1,by omega⟩
    have hread := ih fuel rest (by omega)
    rw [readItems,hread,Option.bind_some]
    simp only [hsep]
  | @moreItems v vs ts us hv hs ihv ihs =>
    intro fuel rest hfuel hsep
    rw [List.length_append,List.length_cons] at hfuel
    obtain ⟨fuel,rfl⟩ : ∃ n, fuel=n+1 := ⟨fuel-1,by omega⟩
    have hfirst := ihv fuel (.valueSeparator::(us++rest)) (by omega)
    have hothers := ihs fuel rest (by omega) hsep
    rw [List.append_assoc,List.cons_append,readItems,hfirst,Option.bind_some]
    simp only [expect_cons_self,hothers,Option.map_some]
  | member hname hv ih =>
    intro fuel rest hfuel hsep
    rw [List.length_cons,List.length_cons] at hfuel
    obtain ⟨fuel,rfl⟩ : ∃ n, fuel=n+1 := ⟨fuel-1,by omega⟩
    have hread := ih fuel rest (by omega)
    rw [List.cons_append,List.cons_append,readMembers]
    simp only [hname,Option.bind_some,expect_cons_self,hread,hsep]
  | @moreMembers raw name v ms ts us hname hv hs ihv ihs =>
    intro fuel rest hfuel hsep
    rw [List.length_cons,List.length_cons,List.length_append,List.length_cons] at hfuel
    obtain ⟨fuel,rfl⟩ : ∃ n, fuel=n+1 := ⟨fuel-1,by omega⟩
    have hfirst := ihv fuel (.valueSeparator::(us++rest)) (by omega)
    have hothers := ihs fuel rest (by omega) hsep
    rw [List.cons_append,List.cons_append,List.append_assoc,List.cons_append,readMembers]
    simp only [hname,Option.bind_some,expect_cons_self,hfirst,hothers,Option.map_some]

/-- The reader accepts exactly the grammar. -/
theorem readJson_iff (s : String) (v : JsonValue) : readJson s=some v ↔ JsonText s v := by
  rw [readJson,JsonText]
  constructor
  · intro h
    obtain ⟨ts,hts,hread⟩ := Option.bind_eq_some_iff.mp h
    obtain ⟨⟨w,rest⟩,hvalue,hend⟩ := Option.bind_eq_some_iff.mp hread
    obtain ⟨us,rfl,hderives⟩ := (soundAt _).1 _ _ _ hvalue
    simp only at hend
    split at hend
    · next hrest =>
      cases hend
      subst hrest
      exact ⟨_,hts,by rwa [List.append_nil]⟩
    · cases hend
  · rintro ⟨ts,hts,hderives⟩
    have hread := hderives.readsBack (2*ts.length+1) [] (by omega)
    rw [List.append_nil] at hread
    rw [hts,Option.bind_some,hread,Option.bind_some,if_pos rfl]

/-- A text has at most one value. -/
theorem JsonText.unique {s : String} {v w : JsonValue} (hv : JsonText s v) (hw : JsonText s w) :
    v=w := by
  rw [←readJson_iff] at hv hw
  exact Option.some.inj (hv.symm.trans hw)

end AegisRuntime.JsonTexts
