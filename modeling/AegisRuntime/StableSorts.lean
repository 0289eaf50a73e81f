import Mathlib.Data.List.Sort

/-!
# Stable sorts

A stable sort of a list by a key puts the keys in order and keeps the elements of
each key in the order they had. It is unique, and it is what a sort by key and
running number gives when the running numbers of the list increase.
-/

namespace AegisRuntime.StableSorts

universe u v w

variable {α : Type u} {β : Type v} {κ : Type w} [LinearOrder κ]

/-- The keys are in order, and the elements of each key stand as in the list. -/
structure StableSort (key : α → κ) (l sorted : List α) : Prop where
  /-- The keys are in order. -/
  ordered : sorted.Pairwise fun a b => key a ≤ key b
  /-- No key has other elements, or the same in another order. -/
  same_key : ∀ k, (sorted.filter fun a => decide (key a=k))=l.filter fun a => decide (key a=k)

/-- Earlier by key, and by number among equal keys. -/
def NumberedLe (key : α → κ) (number : α → ℕ) (a b : α) : Prop :=
  key a < key b ∨ key a=key b ∧ number a ≤ number b

instance (key : α → κ) (number : α → ℕ) : DecidableRel (NumberedLe key number) :=
  fun a b => inferInstanceAs (Decidable (key a < key b ∨ key a=key b ∧ number a ≤ number b))

variable {key : α → κ} {number : α → ℕ} {l s s' : List α}

/-- A stable sort has the same elements, each as often. -/
theorem StableSort.perm (h : StableSort key l s) : s.Perm l := by
  classical
  refine List.perm_iff_count.mpr fun a => ?_
  have hkey := congrArg (List.count a) (h.same_key (key a))
  rwa [List.count_filter (by simp),List.count_filter (by simp)] at hkey

/-- A list has one stable sort. -/
theorem StableSort.unique (h : StableSort key l s) (h' : StableSort key l s') : s=s' := by
  have hfilter : ∀ k, (s.filter fun a => decide (key a=k))=s'.filter fun a => decide (key a=k) :=
    fun k => (h.same_key k).trans (h'.same_key k).symm
  have hperm := h.perm.trans h'.perm.symm
  have hs := h.ordered
  have hs' := h'.ordered
  clear h h'
  induction s generalizing s' with
  | nil => exact (List.nil_perm.mp hperm).symm
  | cons a s ih =>
    cases s' with
    | nil => exact absurd hperm.length_eq (by simp)
    | cons b t =>
      obtain ⟨hfirst,hrest⟩ := List.pairwise_cons.mp hs
      obtain ⟨hfirst',hrest'⟩ := List.pairwise_cons.mp hs'
      have hab : key a ≤ key b := by
        rcases List.mem_cons.mp (hperm.symm.subset List.mem_cons_self) with heq|hmem
        · rw [heq]
        · exact hfirst b hmem
      have hba : key b ≤ key a := by
        rcases List.mem_cons.mp (hperm.subset List.mem_cons_self) with heq|hmem
        · rw [heq]
        · exact hfirst' a hmem
      have hkey : key b=key a := le_antisymm hba hab
      have hhead := hfilter (key a)
      rw [List.filter_cons_of_pos (by simp),List.filter_cons_of_pos (by simp [hkey])] at hhead
      obtain ⟨rfl,htail⟩ := List.cons_eq_cons.mp hhead
      refine congrArg (a::·) (ih (fun k => ?_) (hperm.cons_inv) hrest hrest')
      have hk := hfilter k
      by_cases heq : key a=k
      · rwa [List.filter_cons_of_pos (by simpa using heq),
          List.filter_cons_of_pos (by simpa using heq),List.cons_inj_right] at hk
      · rwa [List.filter_cons_of_neg (by simpa using heq),
          List.filter_cons_of_neg (by simpa using heq)] at hk

/-- Sorting by the key of an image sorts the images. -/
theorem StableSort.map (f : β → α) {l s : List β} (h : StableSort (fun b => key (f b)) l s) :
    StableSort key (l.map f) (s.map f) := by
  refine ⟨List.pairwise_map.mpr h.ordered,fun k => ?_⟩
  rw [List.filter_map,List.filter_map]
  exact congrArg (List.map f) (h.same_key k)

/-- Insertion sort by the key is stable. -/
theorem stableSort_insertionSort (key : α → κ) (l : List α) :
    StableSort key l (l.insertionSort fun a b => key a ≤ key b) := by
  have hperm := List.perm_insertionSort (fun a b => key a ≤ key b) l
  have htotal : Std.Total fun a b : α => key a ≤ key b := ⟨fun a b => le_total (key a) (key b)⟩
  have htrans : IsTrans α fun a b => key a ≤ key b := ⟨fun a b c => le_trans⟩
  refine ⟨List.pairwise_insertionSort _ l,fun k => ?_⟩
  have hequal : (l.filter fun a => decide (key a=k)).Pairwise fun a b => key a ≤ key b := by
    refine List.pairwise_of_forall_mem_list fun a ha b hb => ?_
    have hak : key a=k := by simpa using (List.mem_filter.mp ha).2
    have hbk : key b=k := by simpa using (List.mem_filter.mp hb).2
    exact le_of_eq (hak.trans hbk.symm)
  have hsub := (List.sublist_insertionSort hequal List.filter_sublist).filter
    fun a => decide (key a=k)
  rw [List.filter_filter] at hsub
  simp only [Bool.and_self] at hsub
  exact (hsub.eq_of_length (hperm.filter _).length_eq.symm).symm

/-- Sorting by key and running number is stable when the numbers of the list increase. -/
theorem stableSort_numbered (hnumber : l.Pairwise fun a b => number a < number b) :
    StableSort key l (l.insertionSort (NumberedLe key number)) := by
  have hperm := List.perm_insertionSort (NumberedLe key number) l
  have htotal : Std.Total (NumberedLe key number) := ⟨fun a b => by
    rcases lt_trichotomy (key a) (key b) with hlt|heq|hgt
    · exact .inl (.inl hlt)
    · exact (le_total (number a) (number b)).imp (fun h => .inr ⟨heq,h⟩)
        fun h => .inr ⟨heq.symm,h⟩
    · exact .inr (.inl hgt)⟩
  have htrans : IsTrans α (NumberedLe key number) := ⟨by
    rintro a b c (hab|⟨hab,hab'⟩) (hbc|⟨hbc,hbc'⟩)
    · exact .inl (hab.trans hbc)
    · exact .inl (hbc ▸ hab)
    · exact .inl (hab ▸ hbc)
    · exact .inr ⟨hab.trans hbc,hab'.trans hbc'⟩⟩
  have hsorted := List.pairwise_insertionSort (NumberedLe key number) l
  refine ⟨hsorted.imp fun h => h.elim le_of_lt fun h => le_of_eq h.1,fun k => ?_⟩
  have hinjective : ∀ a b,
      a∈(l.insertionSort (NumberedLe key number)).filter (fun a => decide (key a=k)) →
      b∈l.filter (fun a => decide (key a=k)) → number a ≤ number b → number b ≤ number a → a=b := by
    intro a b ha hb hab hba
    have hal := hperm.subset (List.mem_filter.mp ha).1
    have hbl := (List.mem_filter.mp hb).1
    have hnodup : (l.map number).Nodup := (List.pairwise_map.mpr hnumber).imp ne_of_lt
    exact List.inj_on_of_nodup_map hnodup hal hbl (le_antisymm hab hba)
  refine List.Perm.eq_of_pairwise hinjective ?_ ?_ (hperm.filter _)
  · refine (hsorted.filter _).imp_of_mem fun {a b} ha hb h => ?_
    have hak : key a=k := by simpa using (List.mem_filter.mp ha).2
    have hbk : key b=k := by simpa using (List.mem_filter.mp hb).2
    rcases h with h|h
    · exact absurd (hak.trans hbk.symm) (ne_of_lt h)
    · exact h.2
  · exact (hnumber.filter _).imp le_of_lt

/-- Sorting a longer list keeps the order of what was sorted before. -/
theorem StableSort.sublist_append {more : List α} (h : StableSort key l s)
    (h' : StableSort key (l++more) s') (hnew : ∀ a∈more, a∉l) : s.Sublist s' := by
  classical
  have hold : StableSort key l (s'.filter fun a => decide (a∈l)) := by
    refine ⟨h'.ordered.filter _,fun k => ?_⟩
    have hall : (l.filter fun a => decide (a∈l))=l := by simp
    have hnone : (more.filter fun a => decide (a∈l))=[] := by simpa using hnew
    rw [List.filter_comm,h'.same_key k,List.filter_comm,List.filter_append,hall,hnone,
      List.append_nil]
  rw [h.unique hold]
  exact List.filter_sublist

end AegisRuntime.StableSorts
