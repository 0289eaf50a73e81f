import AegisRuntime.LabelledRuns

/-!
# Programs of calls

A program ends with a value or makes a call and goes on with the answer. The
surroundings may answer anything at all; the rules say which calls a program can
make and what it ends with, whatever is answered. Answered from a state that
nothing else changes, a program computes a value and leaves a state.
-/

namespace AegisRuntime.CallPrograms

open LabelledRuns

universe u v

/-- A program over calls and the types of their answers. -/
inductive Program (C : Type) (A : C → Type) (α : Type u) where
  /-- It ends with a value. -/
  | done (value : α)
  /-- It makes a call and goes on with the answer. -/
  | ask (call : C) (next : A call → Program C A α)

/-- A call with its answer. -/
structure Event (C : Type) (A : C → Type) where
  /-- The call. -/
  call : C
  /-- The answer. -/
  answer : A call

variable {C : Type} {A : C → Type} {α : Type u} {β : Type v}

namespace Program

/-- Goes on with what a program ends with. -/
def bind : Program C A α → (α → Program C A β) → Program C A β
  | .done value,f => f value
  | .ask call next,f => .ask call fun answer => (next answer).bind f

/-- Turns what a program ends with. -/
def map (f : α → β) (p : Program C A α) : Program C A β := p.bind fun value => .done (f value)

/-- The program after one call, if the call is the one it makes. -/
def advance [DecidableEq C] : Program C A α → Event C A → Option (Program C A α)
  | .done _,_ => none
  | .ask call next,e => if h : e.call=call then some (next (h ▸ e.answer)) else none

/-- What a program leaves of a state that answers its calls, and what it ends with. -/
def execute {σ : Type v} (respond : σ → (call : C) → σ×A call) : σ → Program C A α → σ×α
  | s,.done value => (s,value)
  | s,.ask call next => execute respond (respond s call).1 (next (respond s call).2)

/-- The calls that a program makes, when each answer depends on the calls before it, and
what it ends with. -/
def record (answers : List (Event C A) → (call : C) → A call) :
    List (Event C A) → Program C A α → List (Event C A)×α
  | _,.done value => ([],value)
  | past,.ask call next =>
    let answer := answers past call
    let later := record answers (past++[⟨call,answer⟩]) (next answer)
    (⟨call,answer⟩::later.1,later.2)

/-- Every call of a program is permitted after the calls before it, and what it ends
with is ensured, whatever is answered. -/
inductive Ensures (P : List (Event C A) → C → Prop) (Q : List (Event C A) → α → Prop) :
    List (Event C A) → Program C A α → Prop
  /-- The value is ensured. -/
  | done {past : List (Event C A)} {value : α} (ensured : Q past value) :
      Ensures P Q past (.done value)
  /-- The call is permitted, and so is what follows each answer. -/
  | ask {past : List (Event C A)} {call : C} {next : A call → Program C A α}
      (permitted : P past call)
      (follows : ∀ answer, Ensures P Q (past++[⟨call,answer⟩]) (next answer)) :
      Ensures P Q past (.ask call next)

end Program

variable {P : List (Event C A) → C → Prop} {Q R : List (Event C A) → α → Prop}
  {past : List (Event C A)} {p q : Program C A α}

/-- A program is ensured to end with more than is ensured at its end. -/
theorem Ensures.mono (h : p.Ensures P Q past)
    (hmore : ∀ past' value, past<+:past' → Q past' value → R past' value) :
    p.Ensures P R past := by
  induction h with
  | done hvalue => exact .done (hmore _ _ List.prefix_rfl hvalue)
  | ask hcall _ ih =>
    refine .ask hcall fun answer => ih answer fun past' value hpast => ?_
    exact hmore past' value ((List.prefix_append _ _).trans hpast)

/-- A program whose calls are permitted for a reason that permits others too. -/
theorem Ensures.weaken {P' : List (Event C A) → C → Prop} (h : p.Ensures P Q past)
    (hmore : ∀ past call, P past call → P' past call) : p.Ensures P' Q past := by
  induction h with
  | done hvalue => exact .done hvalue
  | ask hcall _ ih => exact .ask (hmore _ _ hcall) ih

/-- A program that goes on with another one. -/
theorem Ensures.bind {f : α → Program C A β} {S : List (Event C A) → β → Prop}
    (h : p.Ensures P Q past)
    (hnext : ∀ past' value, past<+:past' → Q past' value → (f value).Ensures P S past') :
    (p.bind f).Ensures P S past := by
  induction h with
  | done hvalue => exact hnext _ _ List.prefix_rfl hvalue
  | ask hcall _ ih =>
    refine .ask hcall fun answer => ih answer fun past' value hpast => ?_
    exact hnext past' value ((List.prefix_append _ _).trans hpast)

/-- A program whose value is turned. -/
theorem Ensures.map {f : α → β} {S : List (Event C A) → β → Prop}
    (h : p.Ensures P (fun past value => S past (f value)) past) :
    (p.map f).Ensures P S past :=
  Ensures.bind h fun _ _ _ hvalue => .done hvalue

section Advance

variable [DecidableEq C]

/-- A program advances by its own call only. -/
theorem advance_eq_some {e : Event C A} (h : p.advance e=some q) :
    ∃ next, p=.ask e.call next ∧ q=next e.answer := by
  cases p with
  | done value => cases h
  | ask call next =>
    rw [Program.advance] at h
    split at h
    · next hcall =>
      subst hcall
      exact ⟨next,rfl,(Option.some.inj h).symm⟩
    · cases h

/-- A program makes the calls that are recorded and ends with the value. -/
theorem runs_record (answers : List (Event C A) → (call : C) → A call) (past : List (Event C A))
    (p : Program C A α) : runs Program.advance p (p.record answers past).1=
      some (.done (p.record answers past).2) := by
  induction p generalizing past with
  | done value => rfl
  | ask call next ih =>
    refine runs_cons_iff.mpr ⟨_,?_,ih (answers past call) _⟩
    rw [Program.advance,dif_pos rfl]

/-- A call that a program makes is permitted, and what follows is ensured. -/
theorem Ensures.advance {e : Event C A} (h : p.Ensures P Q past) (hstep : p.advance e=some q) :
    P past e.call ∧ q.Ensures P Q (past++[e]) := by
  obtain ⟨next,rfl,rfl⟩ := advance_eq_some hstep
  cases h with
  | ask hcall hnext => exact ⟨hcall,hnext e.answer⟩

/-- Whatever is answered, every call is permitted after the calls before it, and a
program that ends does so with what is ensured. -/
theorem Ensures.runs {events : List (Event C A)} (h : p.Ensures P Q past)
    (hruns : runs Program.advance p events=some q) :
    q.Ensures P Q (past++events) ∧
      ∀ before e after, events=before++e::after → P (past++before) e.call := by
  induction events generalizing p past with
  | nil =>
    cases hruns
    refine ⟨by rwa [List.append_nil],fun before e after hsplit => ?_⟩
    cases before <;> cases hsplit
  | cons e events ih =>
    obtain ⟨mid,hstep,hrest⟩ := runs_cons_iff.mp hruns
    obtain ⟨hcall,hmid⟩ := Ensures.advance h hstep
    obtain ⟨hend,hcalls⟩ := ih hmid hrest
    rw [List.append_assoc,List.singleton_append] at hend
    refine ⟨hend,fun before e' after hsplit => ?_⟩
    cases before with
    | nil =>
      obtain ⟨rfl,-⟩ := List.cons.inj hsplit
      rwa [List.append_nil]
    | cons b before =>
      obtain ⟨rfl,htail⟩ := List.cons.inj hsplit
      have hlater := hcalls before e' after htail
      rwa [List.append_assoc,List.singleton_append] at hlater

end Advance

section Execution

variable {σ : Type v} (respond : σ → (call : C) → σ×A call)

theorem execute_bind {β : Type u} (s : σ) (p : Program C A α) (f : α → Program C A β) :
    (p.bind f).execute respond s=
      (f (p.execute respond s).2).execute respond (p.execute respond s).1 := by
  induction p generalizing s with
  | done value => rfl
  | ask call next ih => exact ih _ _

theorem execute_map {β : Type u} (s : σ) (p : Program C A α) (f : α → β) :
    (p.map f).execute respond s=((p.execute respond s).1,f (p.execute respond s).2) :=
  execute_bind respond s p fun value => .done (f value)

end Execution

end AegisRuntime.CallPrograms
