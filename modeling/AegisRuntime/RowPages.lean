import AegisRuntime.RowStores
import Mathlib.Order.Lattice
import Mathlib.Order.Nat
import Mathlib.Data.Int.Order.Basic

/-!
# Pages of rows that change

`LIMIT` and `OFFSET` over an ordered query. A row whose key no other has stands behind
exactly the rows of smaller keys, so its place is a count. When a client reads page
after page while rows are written, a row that no write brings forward is on one of the
pages by the time a page comes back short.
-/

namespace AegisRuntime.RowPages

open RowStores

universe u v

variable {ρ : Type u} {κ : Type v}

/-- `LIMIT limit OFFSET offset`; a negative limit is none, and so is a negative offset. -/
def limited (limit offset : ℤ) (rows : List ρ) : List ρ :=
  if limit < 0 then rows.drop offset.toNat else (rows.drop offset.toNat).take limit.toNat

/-- How many rows have a smaller key. -/
def rank [LT κ] [DecidableLT κ] (key : ρ → κ) (rows : List ρ) (a : ρ) : ℕ :=
  rows.countP fun b => decide (key b < key a)

/-- Page after page is read, each of the rows as they are by then, up to a short one. -/
inductive Sweep [LE κ] (key : ρ → κ) (limit : ℕ) : ℕ → List (List ρ) → List (List ρ) → Prop where
  | last {k : ℕ} {rows : List ρ} (order : RowOrder key)
    (hshort : (limited limit (k*limit : ℕ) (order.arrange rows)).length < limit) :
    Sweep key limit k [rows] [limited limit (k*limit : ℕ) (order.arrange rows)]
  | more {k : ℕ} {rows : List ρ} {views pages : List (List ρ)} (order : RowOrder key)
    (h : Sweep key limit (k+1) views pages) :
    Sweep key limit k (rows::views) (limited limit (k*limit : ℕ) (order.arrange rows)::pages)

variable {limit offset : ℤ} {rows : List ρ} {a : ρ}

theorem limited_sublist (limit offset : ℤ) (rows : List ρ) :
    (limited limit offset rows).Sublist rows := by
  unfold limited
  split
  · exact List.drop_sublist _ _
  · exact (List.take_sublist _ _).trans (List.drop_sublist _ _)

theorem limited_map {σ : Type v} (f : ρ → σ) (limit offset : ℤ) (rows : List ρ) :
    (limited limit offset rows).map f=limited limit offset (rows.map f) := by
  unfold limited
  split
  · exact List.map_drop
  · rw [List.map_take,List.map_drop]

/-- A limit that is long enough leaves all the rows. -/
theorem limited_zero_of_le (h : 0 ≤ limit → rows.length ≤ limit.toNat) :
    limited limit 0 rows=rows := by
  unfold limited
  split
  · rfl
  · next hlimit => exact List.take_of_length_le (h (Int.not_lt.mp hlimit))

theorem length_limited (h : 0 ≤ limit) :
    (limited limit offset rows).length=min limit.toNat (rows.length-offset.toNat) := by
  rw [limited,if_neg (Int.not_lt.mpr h),List.length_take,List.length_drop]

/-- The row at a place that the limit lets through. -/
theorem mem_limited {i : ℕ} (hget : rows[i]?=some a) (hoffset : offset.toNat ≤ i)
    (hlimit : 0 ≤ limit → i < offset.toNat+limit.toNat) : a∈limited limit offset rows := by
  have hdrop : (rows.drop offset.toNat)[i-offset.toNat]?=some a := by
    rw [List.getElem?_drop,Nat.add_sub_cancel' hoffset,hget]
  unfold limited
  split
  · exact List.mem_of_getElem? hdrop
  · next hpos =>
    have hlt := hlimit (Int.not_lt.mp hpos)
    refine List.mem_of_getElem? (i:=i-offset.toNat) ?_
    rw [List.getElem?_take_of_lt (by omega),hdrop]

section Counts

variable [LT κ] [DecidableLT κ]

/-- More rows leave the rank or raise it. -/
theorem rank_le_append (key : ρ → κ) (rows more : List ρ) (a : ρ) :
    rank key rows a ≤ rank key (rows++more) a := by
  rw [rank,rank,List.countP_append]
  exact Nat.le_add_right _ _

/-- So do rewritten rows, where each stays as it is or gets a key before the row's. -/
theorem rank_le_map {key : ρ → κ} {f : ρ → ρ} {a : ρ} (h : ∀ b, f b=b ∨ key (f b) < key a)
    (rows : List ρ) : rank key rows a ≤ rank key (rows.map f) a := by
  have hmap : rank key (rows.map f) a=
      rows.countP ((fun b => decide (key b < key a))∘f) := List.countP_map
  rw [hmap]
  refine List.countP_mono_left fun b _ hb => ?_
  rw [Function.comp_apply,decide_eq_true_eq]
  rcases h b with heq|hlt
  · rw [heq]
    exact of_decide_eq_true hb
  · exact hlt

end Counts

section Ranks

variable [LinearOrder κ] {key : ρ → κ}

/-- The row of a sole key stands at its rank. -/
theorem arrange_rank (order : RowOrder key) (ha : a∈rows)
    (hsole : ∀ b∈rows, key b=key a → b=a) : (order.arrange rows)[rank key rows a]?=some a := by
  have hperm := order.arrange_perm rows
  obtain ⟨front,back,hsplit,hfirst⟩ := List.eq_append_cons_of_mem (hperm.mem_iff.mpr ha)
  have hsorted := order.arrange_sorted rows
  rw [hsplit,List.pairwise_append] at hsorted
  obtain ⟨-,hback,hcross⟩ := hsorted
  have hfront : front.countP (fun b => decide (key b < key a))=front.length := by
    refine List.countP_eq_length.mpr fun b hb => decide_eq_true ?_
    have hmem : b∈rows := hperm.subset (hsplit ▸ List.mem_append_left _ hb)
    refine lt_of_le_of_ne (hcross b hb a List.mem_cons_self) fun heq => hfirst ?_
    rw [←hsole b hmem heq]
    exact hb
  have hrest : (a::back).countP (fun b => decide (key b < key a))=0 := by
    refine List.countP_eq_zero.mpr fun b hb => ?_
    rw [decide_eq_true_eq,not_lt]
    rcases List.mem_cons.mp hb with rfl|hb
    · exact le_rfl
    · exact (List.pairwise_cons.mp hback).1 b hb
  have hrank : rank key rows a=front.length := by
    rw [rank,←hperm.countP_eq,hsplit,List.countP_append,hfront,hrest,Nat.add_zero]
  rw [hrank,hsplit,List.getElem?_append_right le_rfl,Nat.sub_self]
  rfl

theorem rank_lt_length (key : ρ → κ) (ha : a∈rows) : rank key rows a < rows.length := by
  refine lt_of_le_of_ne List.countP_le_length fun heq => ?_
  exact lt_irrefl _ (of_decide_eq_true (List.countP_eq_length.mp heq a ha))

/-- A row with a sole key that every view has and no view brings forward is on one of the
pages. The pages before the one that is read end at or before its rank. -/
theorem Sweep.sees {n k : ℕ} {views pages : List (List ρ)} (h : Sweep key n k views pages)
    (hstands : ∀ rows∈views, a∈rows ∧ ∀ b∈rows, key b=key a → b=a)
    (hkept : (views.map fun rows => rank key rows a).Pairwise (· ≤ ·))
    (hfirst : ∀ rows∈views, k*n ≤ rank key rows a) : ∃ page∈pages, a∈page := by
  induction h with
  | @last k rows order hshort =>
    obtain ⟨ha,hsole⟩ := hstands rows List.mem_cons_self
    have hplace := arrange_rank order ha hsole
    have hlength := rank_lt_length key ha
    rw [length_limited (Int.natCast_nonneg n),(order.arrange_perm rows).length_eq,
      Int.toNat_natCast,Int.toNat_natCast] at hshort
    refine ⟨_,List.mem_cons_self,mem_limited hplace ?_ fun _ => ?_⟩
    · rw [Int.toNat_natCast]
      exact hfirst rows List.mem_cons_self
    · rw [Int.toNat_natCast,Int.toNat_natCast]
      omega
  | @more k rows views pages order _ ih =>
    obtain ⟨ha,hsole⟩ := hstands rows List.mem_cons_self
    rw [List.map_cons,List.pairwise_cons] at hkept
    by_cases hhere : rank key rows a < (k+1)*n
    · refine ⟨_,List.mem_cons_self,mem_limited (arrange_rank order ha hsole) ?_ fun _ => ?_⟩
      · rw [Int.toNat_natCast]
        exact hfirst rows List.mem_cons_self
      · rw [Int.toNat_natCast,Int.toNat_natCast,←Nat.succ_mul]
        exact hhere
    · obtain ⟨page,hpage,hmem⟩ := ih (fun rows hrows => hstands rows (List.mem_cons_of_mem _ hrows))
        hkept.2 fun later hlater =>
          (not_lt.mp hhere).trans (hkept.1 _ (List.mem_map_of_mem hlater))
      exact ⟨page,List.mem_cons_of_mem _ hpage,hmem⟩

end Ranks

end AegisRuntime.RowPages
