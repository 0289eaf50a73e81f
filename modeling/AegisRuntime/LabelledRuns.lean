import Mathlib.Data.List.Induction
import Mathlib.Data.Option.Basic

/-!
# Runs of a partial step function

A system is a function from a state and an action to the next state, undefined
where the action is not enabled. A run is the fold of that function over a list
of actions, so a concrete run is evaluated and a general one is reasoned about
by the rules below: invariants, invariants that also read the actions taken so
far, properties that hold all along a run exactly when its steps are guarded, and
loops whose visits are runs.
-/

namespace AegisRuntime.LabelledRuns

universe u v

variable {σ : Type u} {α : Type v} (step : σ → α → Option σ)

/-- The state after taking the actions in order, when each of them is enabled. -/
def runs (s : σ) (acts : List α) : Option σ := acts.foldlM step s

@[simp] theorem runs_nil (s : σ) : runs step s []=some s := rfl

theorem runs_cons (s : σ) (a : α) (acts : List α) :
    runs step s (a::acts)=(step s a).bind fun t => runs step t acts := rfl

/-- A run over two action lists is the second run from where the first ends. -/
theorem runs_append (s : σ) (xs ys : List α) :
    runs step s (xs++ys)=(runs step s xs).bind fun t => runs step t ys := by
  simp only [runs,List.foldlM_append]
  rfl

variable {step}

/-- A run ending in one more action is a shorter run followed by its step. -/
theorem runs_concat_iff {s u : σ} {acts : List α} {a : α} :
    runs step s (acts++[a])=some u ↔ ∃ t, runs step s acts=some t ∧ step t a=some u := by
  rw [runs_append,Option.bind_eq_some_iff]
  simp only [runs_cons,runs_nil,Option.bind_fun_some]

theorem runs_append_iff {s u : σ} {xs ys : List α} :
    runs step s (xs++ys)=some u ↔ ∃ t, runs step s xs=some t ∧ runs step t ys=some u := by
  rw [runs_append,Option.bind_eq_some_iff]

theorem runs_cons_iff {s u : σ} {a : α} {acts : List α} :
    runs step s (a::acts)=some u ↔ ∃ t, step s a=some t ∧ runs step t acts=some u := by
  rw [runs_cons,Option.bind_eq_some_iff]

/-- An invariant that may mention the actions taken so far holds at the end of
every run when it holds at the start and every enabled step keeps it. -/
theorem history_invariant {I : List α → σ → Prop} {s : σ} (start : I [] s)
    (keep : ∀ acts t a u, runs step s acts=some t → I acts t → step t a=some u → I (acts++[a]) u)
    {acts : List α} {u : σ} (h : runs step s acts=some u) : I acts u := by
  induction acts using List.reverseRecOn generalizing u with
  | nil =>
    cases h
    exact start
  | append_singleton acts a ih =>
    obtain ⟨t,ht,hstep⟩ := runs_concat_iff.mp h
    exact keep acts t a u ht (ih ht) hstep

/-- An invariant of the states holds at the end of every run. -/
theorem run_invariant {I : σ → Prop} {s : σ} (start : I s)
    (keep : ∀ t a u, I t → step t a=some u → I u)
    {acts : List α} {u : σ} (h : runs step s acts=some u) : I u :=
  history_invariant (I:=fun _ => I) start (fun _ t a u _ => keep t a u) h

/-- An invariant that guarded steps keep holds at the end of a run whose steps are
all guarded. -/
theorem guarded_invariant {I : σ → Prop} {G : σ → α → Prop} {s u : σ} {acts : List α}
    (start : I s) (keep : ∀ t a v, I t → G t a → step t a=some v → I v)
    (guarded : ∀ before a after t, acts=before++a::after → runs step s before=some t → G t a)
    (h : runs step s acts=some u) : I u := by
  have hall : ∀ before after t, acts=before++after → runs step s before=some t → I t := by
    intro before
    induction before using List.reverseRecOn with
    | nil =>
      intro after t _ ht
      cases ht
      exact start
    | append_singleton before a ih =>
      intro after t hacts ht
      obtain ⟨v,hv,hstep⟩ := runs_concat_iff.mp ht
      have hacts' : acts=before++a::after := by simp [hacts]
      exact keep v a t (ih (a::after) v hacts' hv) (guarded before a after v hacts' hv) hstep
  exact hall acts [] u (List.append_nil acts).symm h

/-- When from states that meet a property the guarded steps, and only these, lead
to states that meet it, it holds all along a run exactly when every step of the
run is guarded. -/
theorem always_iff_guarded {I : σ → Prop} {G : σ → α → Prop} {s u : σ} {acts : List α}
    (start : I s) (keep : ∀ t a v, I t → step t a=some v → (I v ↔ G t a))
    (h : runs step s acts=some u) :
    (∀ before after t, acts=before++after → runs step s before=some t → I t) ↔
      ∀ before a after t, acts=before++a::after → runs step s before=some t → G t a := by
  constructor
  · intro hall before a after t hacts ht
    rw [hacts] at h
    obtain ⟨t',ht',hrest⟩ := runs_append_iff.mp h
    rw [ht] at ht'
    cases ht'
    obtain ⟨v,hv,-⟩ := runs_cons_iff.mp hrest
    have hbefore := hall before (a::after) t hacts ht
    have hafter := hall (before++[a]) after v (by simp [hacts]) (runs_concat_iff.mpr ⟨t,ht,hv⟩)
    exact (keep t a v hbefore hv).mp hafter
  · intro hguard before after t hacts ht
    refine guarded_invariant start (fun t a v ht hg hstep => (keep t a v ht hstep).mpr hg) ?_ ht
    intro before' a after' t' hbefore ht'
    exact hguard before' a (after'++after) t' (by simp [hacts,hbefore]) ht'

/-- Whether a test accepts every action of a list in the state it is taken in. -/
def along (step : σ → α → Option σ) (test : σ → α → Bool) : σ → List α → Bool
  | _,[] => true
  | s,a::acts => test s a &&
    match step s a with
    | some t => along step test t acts
    | none => true

/-- A test along a list of actions holds at every point of its run. -/
theorem test_of_along {test : σ → α → Bool} {s : σ} {acts : List α}
    (h : along step test s acts=true) : ∀ before a after t, acts=before++a::after →
      runs step s before=some t → test t a=true := by
  induction acts generalizing s with
  | nil =>
    intro before a after t hsplit
    simp at hsplit
  | cons b acts ih =>
    rw [along,Bool.and_eq_true] at h
    intro before a after t hsplit ht
    cases before with
    | nil =>
      cases hsplit
      cases ht
      exact h.1
    | cons c before =>
      cases hsplit
      obtain ⟨u,hstep,hrest⟩ := runs_cons_iff.mp ht
      have hlater := h.2
      rw [hstep] at hlater
      exact ih hlater before a after t rfl hrest

/-- A run passes a point when one of its actions is taken in a state the
predicate accepts. -/
def Passes (step : σ → α → Option σ) (s : σ) (acts : List α) (P : σ → α → Prop) : Prop :=
  ∃ before a after t, acts=before++a::after ∧ runs step s before=some t ∧ P t a

/-- The point passed by a longer run is one of the shorter run or its last step. -/
theorem passes_concat_iff {s t : σ} {acts : List α} {a : α} {P : σ → α → Prop}
    (ht : runs step s acts=some t) :
    Passes step s (acts++[a]) P ↔ Passes step s acts P ∨ P t a := by
  constructor
  · rintro ⟨before,b,after,v,he,hv,hp⟩
    cases after using List.reverseRecOn with
    | nil =>
      obtain ⟨rfl,hb⟩ := List.append_inj' he rfl
      cases hb
      rw [ht] at hv
      cases hv
      exact Or.inr hp
    | append_singleton after c _ =>
      rw [←List.cons_append,←List.append_assoc] at he
      obtain ⟨rfl,-⟩ := List.append_inj' he rfl
      exact Or.inl ⟨before,b,after,v,rfl,hv,hp⟩
  · rintro (⟨before,b,after,v,rfl,hv,hp⟩|hp)
    · exact ⟨before,b,after++[a],v,by simp,hv,hp⟩
    · exact ⟨acts,a,[],t,rfl,ht,hp⟩

/-- A loop whose visits are runs of allowed actions is one such run. -/
theorem runs_foldl {τ : Type u} {ι : Type v} (view : τ → σ) {visit : τ → ι → τ} {P : α → Prop}
    (hvisit : ∀ s x, ∃ acts, runs step (view s) acts=some (view (visit s x)) ∧ ∀ a∈acts, P a)
    (xs : List ι) (s : τ) :
    ∃ acts, runs step (view s) acts=some (view (xs.foldl visit s)) ∧ ∀ a∈acts, P a := by
  induction xs generalizing s with
  | nil => exact ⟨[],rfl,by simp⟩
  | cons x xs ih =>
    obtain ⟨first,hfirst,hp⟩ := hvisit s x
    obtain ⟨rest,hrest,hq⟩ := ih (visit s x)
    refine ⟨first++rest,runs_append_iff.mpr ⟨_,hfirst,hrest⟩,fun a ha => ?_⟩
    exact (List.mem_append.mp ha).elim (hp a) (hq a)

/-- When every step from related states is matched by one that leads to related
states, every run is matched by one. -/
theorem simulated_run {τ : Type u} {β : Type v} (step' : τ → β → Option τ) {R : σ → τ → Prop}
    (matched : ∀ x y a u, R x y → step x a=some u → ∃ b v, step' y b=some v ∧ R u v)
    {acts : List α} {x u : σ} {y : τ} (hxy : R x y) (h : runs step x acts=some u) :
    ∃ acts' v, runs step' y acts'=some v ∧ R u v := by
  induction acts generalizing x y with
  | nil =>
    cases h
    exact ⟨[],y,rfl,hxy⟩
  | cons a acts ih =>
    obtain ⟨t,hstep,hrest⟩ := runs_cons_iff.mp h
    obtain ⟨b,v,hv,hr⟩ := matched x y a t hxy hstep
    obtain ⟨acts',w,hw,hr'⟩ := ih hr hrest
    exact ⟨b::acts',w,runs_cons_iff.mpr ⟨v,hv,hw⟩,hr'⟩

/-- Two systems without choices that go on and stop together end, once they have
stopped, in related states. -/
theorem related_ends {τ : Type u} {next : σ → Unit → Option σ} {next' : τ → Unit → Option τ}
    {R : σ → τ → Prop} (together : ∀ x y, R x y → Option.Rel R (next x ()) (next' y ()))
    {xs ys : List Unit} {x u : σ} {y v : τ} (hxy : R x y)
    (hu : runs next x xs=some u) (hstop : next u ()=none)
    (hv : runs next' y ys=some v) (hstop' : next' v ()=none) : R u v := by
  induction xs generalizing x y ys with
  | nil =>
    cases hu
    have hrel := together _ _ hxy
    rw [hstop] at hrel
    cases ys with
    | nil =>
      cases hv
      exact hxy
    | cons _ ys =>
      obtain ⟨y',hy',-⟩ := runs_cons_iff.mp hv
      rw [hy'] at hrel
      cases hrel
  | cons _ xs ih =>
    obtain ⟨x',hx',hxs⟩ := runs_cons_iff.mp hu
    have hrel := together _ _ hxy
    rw [hx'] at hrel
    cases ys with
    | nil =>
      cases hv
      rw [hstop'] at hrel
      cases hrel
    | cons _ ys =>
      obtain ⟨y',hy',hys⟩ := runs_cons_iff.mp hv
      rw [hy'] at hrel
      cases hrel with
      | some hxy' => exact ih hxy' hxs hys

end AegisRuntime.LabelledRuns
