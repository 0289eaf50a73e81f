import AegisRuntime.LabelledRuns
import Mathlib.Data.List.Range

/-!
# Tallies of runs and fair infinite executions

A tally counts the points of a run at which a test of the state and the action
holds. An execution goes on forever: at every moment an action is taken or
nothing happens. When a party acts boundedly often along every run, a weakly fair
execution reaches, again and again, states in which the party has nothing left to
do.
-/

namespace AegisRuntime.FairExecutions

open LabelledRuns

universe u v

variable {σ : Type u} {α : Type v}

/-- How many actions of a list are taken in a state the test accepts. -/
def tally (step : σ → α → Option σ) (test : σ → α → Bool) : σ → List α → ℕ
  | _,[] => 0
  | s,a::acts => (test s a).toNat+
    match step s a with
    | some t => tally step test t acts
    | none => 0

variable {step : σ → α → Option σ} {test : σ → α → Bool}

@[simp] theorem tally_nil (s : σ) : tally step test s []=0 := rfl

/-- One more action counts in the state the run has reached. -/
theorem tally_concat {s t : σ} {acts : List α} (h : runs step s acts=some t) (a : α) :
    tally step test s (acts++[a])=tally step test s acts+(test t a).toNat := by
  induction acts generalizing s with
  | nil =>
    cases h
    rw [List.nil_append,tally_nil,Nat.zero_add,tally]
    cases step t a <;> rfl
  | cons b acts ih =>
    obtain ⟨u,hstep,hrest⟩ := runs_cons_iff.mp h
    rw [List.cons_append,tally,tally,hstep]
    simp only [ih hrest,Nat.add_assoc]

/-- An execution without end from a given state. -/
structure Execution (step : σ → α → Option σ) (init : σ) where
  /-- The state at every moment. -/
  state : ℕ → σ
  /-- The action taken at every moment, if any. -/
  act : ℕ → Option α
  /-- The state it starts in. -/
  start : state 0=init
  /-- An action taken leads to the next state. -/
  moves : ∀ i a, act i=some a → step (state i) a=some (state (i+1))
  /-- Where nothing happens the state stays. -/
  rests : ∀ i, act i=none → state (i+1)=state i

namespace Execution

variable {init : σ} (x : Execution step init)

/-- The actions taken before a moment. -/
def taken (n : ℕ) : List α := (List.range n).filterMap x.act

theorem taken_succ (n : ℕ) : x.taken (n+1)=x.taken n++(x.act n).toList := by
  rw [taken,List.range_succ,List.filterMap_append,←taken]
  cases h : x.act n <;> simp [h]

/-- What was taken before a moment is a run to its state. -/
theorem runs_taken (n : ℕ) : runs step init (x.taken n)=some (x.state n) := by
  induction n with
  | zero => exact congrArg some x.start.symm
  | succ n ih =>
    rw [taken_succ]
    cases h : x.act n with
    | none => rw [Option.toList_none,List.append_nil,ih,x.rests n h]
    | some a => exact runs_concat_iff.mpr ⟨_,ih,x.moves n a h⟩

/-- A property that an invariant of the steps taken from some moment on keeps. -/
theorem invariant_from {I : σ → Prop} {n : ℕ} (start : I (x.state n))
    (keep : ∀ i≥n, ∀ a, x.act i=some a → I (x.state i) → I (x.state (i+1))) :
    ∀ i≥n, I (x.state i) := by
  intro i hi
  induction i,hi using Nat.le_induction with
  | base => exact start
  | succ i hi ih =>
    cases h : x.act i with
    | none => rwa [x.rests i h]
    | some a => exact keep i hi a h ih

/-- A party that could act from some moment on does act. -/
def FairTo (party : α → Bool) : Prop :=
  ∀ i, (∀ j≥i, ∃ a, party a=true ∧ (step (x.state j) a).isSome=true) →
    ∃ j≥i, ∃ a, x.act j=some a ∧ party a=true

/-- A party that acts again and again acts arbitrarily often. -/
theorem countP_taken_unbounded {party : α → Bool}
    (h : ∀ i, ∃ j≥i, ∃ a, x.act j=some a ∧ party a=true) (k : ℕ) :
    ∃ n, k ≤ (x.taken n).countP party := by
  induction k with
  | zero => exact ⟨0,Nat.zero_le _⟩
  | succ k ih =>
    obtain ⟨n,hn⟩ := ih
    obtain ⟨j,hj,a,ha,hparty⟩ := h n
    refine ⟨j+1,?_⟩
    have hmono : (x.taken n).countP party ≤ (x.taken j).countP party := by
      have hsub : (x.taken n).Sublist (x.taken j) :=
        (List.range_sublist.mpr hj).filterMap x.act
      exact hsub.countP_le
    rw [taken_succ,ha,List.countP_append]
    simp only [Option.toList_some,List.countP_singleton,hparty,if_true]
    omega

/-- A party that acts boundedly often along every run stops acting for good. -/
theorem eventually_silent (party : α → Bool) {bound : ℕ}
    (h : ∀ acts s, runs step init acts=some s → acts.countP party ≤ bound) :
    ∃ n, ∀ j≥n, ∀ a, x.act j=some a → party a=false := by
  by_contra hnever
  have hagain : ∀ i, ∃ j≥i, ∃ a, x.act j=some a ∧ party a=true := by
    intro i
    by_contra hsilent
    refine hnever ⟨i,fun j hj a ha => ?_⟩
    rw [←Bool.not_eq_true]
    exact fun hparty => hsilent ⟨j,hj,a,ha,hparty⟩
  obtain ⟨n,hn⟩ := x.countP_taken_unbounded hagain (bound+1)
  have hle := h _ _ (x.runs_taken n)
  omega

/-- Under fairness it is, again and again, because it cannot act. -/
theorem FairTo.disabled {x : Execution step init} {party : α → Bool} (h : x.FairTo party) {n : ℕ}
    (silent : ∀ j≥n, ∀ a, x.act j=some a → party a=false) {i : ℕ} (hi : n ≤ i) :
    ∃ j≥i, ∀ a, party a=true → step (x.state j) a=none := by
  by_contra hnever
  obtain ⟨j,hj,a,ha,hparty⟩ := h i fun j hj => by
    by_contra hoff
    refine hnever ⟨j,hj,fun a ha => ?_⟩
    cases hstep : step (x.state j) a with
    | none => rfl
    | some t => exact absurd ⟨a,ha,by rw [hstep]; rfl⟩ hoff
  rw [silent j (hi.trans hj) a ha] at hparty
  cases hparty

/-- The state after the first actions of a run. -/
theorem runs_take {acts : List α} {s : σ} (h : runs step init acts=some s) (i : ℕ) :
    runs step init (acts.take i)=some ((runs step init (acts.take i)).getD init) := by
  rw [←List.take_append_drop i acts] at h
  obtain ⟨t,ht,-⟩ := runs_append_iff.mp h
  rw [ht]
  rfl

/-- A run, after which nothing happens any more. -/
def ofRun {acts : List α} {s : σ} (h : runs step init acts=some s) : Execution step init where
  state i := (runs step init (acts.take i)).getD init
  act i := acts[i]?
  start := rfl
  moves i a ha := by
    have hlonger := runs_take h (i+1)
    rw [List.take_add_one,ha,Option.toList_some] at hlonger
    obtain ⟨t,ht,hstep⟩ := runs_concat_iff.mp hlonger
    rw [List.take_add_one,ha,Option.toList_some,ht]
    exact hstep
  rests i hi := by
    have hlen := List.getElem?_eq_none_iff.mp hi
    rw [List.take_of_length_le hlen,List.take_of_length_le (hlen.trans (Nat.le_succ i))]

/-- After the run its last state stays. -/
theorem ofRun_state {acts : List α} {s : σ} (h : runs step init acts=some s) {i : ℕ}
    (hi : acts.length ≤ i) : (ofRun h).state i=s := by
  show (runs step init (acts.take i)).getD init=s
  rw [List.take_of_length_le hi,h]
  rfl

end Execution

end AegisRuntime.FairExecutions
