import Mathlib.Data.List.Basic
import Mathlib.Data.List.Chain
import Mathlib.Data.List.Induction
import Mathlib.Data.List.Nodup
import Mathlib.Data.List.Perm.Subperm
import Mathlib.Logic.Relation
import Mathlib.Order.WellFounded

/-!
# Lists read in order and acyclic precedence

A property of every element of a list given what stands before it, extended one
element at a time, serves for logs and for topological orders alike. A list in
which every element comes after its predecessors makes precedence well founded,
and a well-founded precedence lets every element be evaluated from the values
of its predecessors. A cycle is a list of distinct elements, each before the next
and the last before the first; a walk that goes backwards along precedence until
it returns to itself has found one.
-/

namespace AegisRuntime.PrecedenceGraphs

universe u v

section Ordered

variable {ε : Type u}

/-- Every element of the list is related to the elements before it. -/
def EachAfter (P : List ε → ε → Prop) (log : List ε) : Prop :=
  ∀ before e after, log=before++e::after → P before e

theorem eachAfter_nil (P : List ε → ε → Prop) : EachAfter P [] := by
  intro before e after h
  simp at h

/-- Appending one element adds one obligation. -/
theorem eachAfter_concat_iff {P : List ε → ε → Prop} {log : List ε} {e : ε} :
    EachAfter P (log++[e]) ↔ EachAfter P log ∧ P log e := by
  constructor
  · intro h
    refine ⟨fun before x after hl => h before x (after++[e]) ?_,h log e [] rfl⟩
    rw [hl,List.append_assoc,List.cons_append]
  · rintro ⟨hlog,he⟩ before x after hl
    cases after using List.reverseRecOn with
    | nil =>
      obtain ⟨rfl,hx⟩ := List.append_inj' hl rfl
      cases hx
      exact he
    | append_singleton after y _ =>
      rw [←List.cons_append,←List.append_assoc] at hl
      exact hlog before x after (List.append_inj' hl rfl).1

end Ordered

section Cycles

variable {α : Type u} {r : α → α → Prop}

/-- Going along the relation leads back to some element. -/
def Cyclic (r : α → α → Prop) : Prop := ∃ x, Relation.TransGen r x x

/-- A list of distinct elements around a cycle. -/
structure RealCycle (r : α → α → Prop) (c : List α) : Prop where
  /-- It has an element. -/
  nonempty : c≠[]
  /-- No element is listed twice. -/
  nodup : c.Nodup
  /-- Each element is related to the next. -/
  links : c.IsChain r
  /-- The last element is related to the first. -/
  closes : r (c.getLast nonempty) (c.head nonempty)

/-- A rank that climbs along the relation excludes cycles. -/
theorem not_cyclic_of_rank (rank : α → ℕ) (climbs : ∀ x y, r x y → rank x < rank y) :
    ¬Cyclic r := by
  rintro ⟨x,hx⟩
  have hlift : Relation.TransGen (·<·) (rank x) (rank x) :=
    Relation.TransGen.lift rank (fun x y h => climbs x y h) x x hx
  rw [Relation.transGen_eq_self] at hlift
  exact Nat.lt_irrefl _ hlift

/-- Around a cycle one comes back. -/
theorem RealCycle.cyclic {c : List α} (h : RealCycle r c) : Cyclic r := by
  have hthere := List.relationReflTransGen_of_exists_isChain c h.links h.nonempty
  exact ⟨_,Relation.TransGen.head' h.closes hthere⟩

/-- A map that is injective on the cycle and keeps the relation there. -/
theorem RealCycle.map {β : Type v} {r' : β → β → Prop} {c : List α} (h : RealCycle r c) (f : α → β)
    (hinj : ∀ x∈c, ∀ y∈c, f x=f y → x=y) (hrel : ∀ x y, r x y → r' (f x) (f y)) :
    RealCycle r' (c.map f) := by
  refine ⟨fun hnil => h.nonempty (List.map_eq_nil_iff.mp hnil),h.nodup.map_on hinj,?_,?_⟩
  · exact List.isChain_map_of_isChain f hrel h.links
  · rw [List.getLast_map,List.head_map]
    exact hrel _ _ h.closes

/-- A walk against the relation that returns to itself, read backwards from there,
is a cycle. -/
theorem realCycle_of_return [DecidableEq α] {path : List α} {last next : α} (hnodup : (path++[last]).Nodup)
    (hwalk : (path++[last]).IsChain fun x y => r y x) (hnext : r next last)
    (hmem : next∈path++[last]) :
    RealCycle r ((path++[last]).drop ((path++[last]).idxOf next)).reverse := by
  have hlt := List.idxOf_lt_length_iff.mpr hmem
  have hne : (path++[last]).drop ((path++[last]).idxOf next)≠[] := by
    rw [Ne,List.drop_eq_nil_iff]
    omega
  refine ⟨mt List.reverse_eq_nil_iff.mp hne,?_,?_,?_⟩
  · exact List.nodup_reverse.mpr (hnodup.sublist (List.drop_sublist _ _))
  · exact List.isChain_reverse.mpr (hwalk.drop _)
  · rw [List.getLast_reverse,List.head_reverse,List.head_drop,List.getLast_drop,
      List.getElem_idxOf hlt,List.getLast_concat]
    exact hnext

/-- Distinct numbers below a bound are at most as many. -/
theorem length_le_of_lt {path : List ℕ} {n : ℕ} (hnodup : path.Nodup) (hlt : ∀ i∈path, i < n) :
    path.length ≤ n := by
  have hsub : path⊆List.range n := fun i hi => List.mem_range.mpr (hlt i hi)
  have hle := (List.subperm_of_subset hnodup hsub).length_le
  rwa [List.length_range] at hle

end Cycles

variable {α : Type u} {β : Type v} [DecidableEq α]

/-- An order that lists every key after the keys of its predecessors makes
precedence well founded: positions in the order strictly decrease. -/
theorem wellFounded_of_order {pred : β → List β} (key : β → α) (order : List α)
    (all : ∀ x, key x∈order)
    (closed : ∀ before x after, order=before++key x::after → ∀ y∈pred x, key y∈before) :
    WellFounded fun y x => y∈pred x := by
  refine Subrelation.wf (r:=InvImage (·<·) fun x => order.idxOf (key x)) ?_
    (InvImage.wf _ Nat.lt_wfRel.wf)
  intro y x hy
  obtain ⟨before,after,horder,hfirst⟩ := List.eq_append_cons_of_mem (all x)
  have hbefore := closed before x after horder y hy
  show order.idxOf (key y) < order.idxOf (key x)
  rw [horder,List.idxOf_append_of_mem hbefore,List.idxOf_append_of_notMem hfirst,List.idxOf_cons_self]
  exact List.idxOf_lt_length_of_mem hbefore

section Evaluation

variable {γ : Type u} {pred : β → List β} (wf : WellFounded fun y x => y∈pred x)
  (meaning : β → List γ → γ)

/-- The value of an element, computed from the values of its predecessors. -/
noncomputable def evaluate : β → γ :=
  wf.fix fun x value => meaning x ((pred x).attach.map fun y => value y.1 y.2)

/-- The evaluation solves its defining equation. -/
theorem evaluate_eq (x : β) :
    evaluate wf meaning x=meaning x ((pred x).map (evaluate wf meaning)) := by
  rw [evaluate,WellFounded.fix_eq]
  exact congrArg (meaning x) List.attach_map_val

end Evaluation

end AegisRuntime.PrecedenceGraphs
