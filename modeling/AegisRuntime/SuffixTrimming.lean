import Mathlib.Data.List.Infix

/-!
# Trimming a list from the front

Elements are dropped from the front of a list until what is left fits. What stays
is the longest suffix that fits. When the list is made of groups and whatever fits
goes on fitting as its front is dropped, whole groups are dropped exactly when no
group is too long where its last element alone is not.
-/

namespace AegisRuntime.SuffixTrimming

variable {α : Type} {fits : List α → Bool} {xs ys : List α}

/-- Drops elements from the front until the rest fits. -/
def dropUntil (fits : List α → Bool) : List α → List α
  | [] => []
  | x::xs => if fits (x::xs) then x::xs else dropUntil fits xs

/-- What fits goes on fitting when its front is dropped. -/
def FitsOn (fits : List α → Bool) : Prop :=
  ∀ xs ys, ys<:+xs → fits xs=true → fits ys=true

theorem dropUntil_of_fits (h : fits xs=true) : dropUntil fits xs=xs := by
  cases xs with
  | nil => rfl
  | cons x xs => rw [dropUntil,if_pos h]

/-- Only elements from the front are dropped. -/
theorem dropUntil_suffix (fits : List α → Bool) (xs : List α) : dropUntil fits xs<:+xs := by
  induction xs with
  | nil => exact List.suffix_refl []
  | cons x xs ih =>
    rw [dropUntil]
    split
    · exact List.suffix_refl _
    · exact ih.trans (List.suffix_cons x xs)

/-- What stays fits, unless nothing does. -/
theorem dropUntil_fits (fits : List α → Bool) (xs : List α) :
    dropUntil fits xs=[] ∨ fits (dropUntil fits xs)=true := by
  induction xs with
  | nil => exact Or.inl rfl
  | cons x xs ih =>
    rw [dropUntil]
    split
    · next h => exact Or.inr h
    · exact ih

/-- Every suffix that fits is among what stays. -/
theorem suffix_dropUntil (hsuffix : ys<:+xs) (h : fits ys=true) : ys<:+dropUntil fits xs := by
  induction xs with
  | nil => exact hsuffix
  | cons x xs ih =>
    rcases List.suffix_cons_iff.mp hsuffix with rfl|hrest
    · rw [dropUntil_of_fits h]
    · rw [dropUntil]
      split
      · exact hsuffix
      · exact ih hrest

/-- Trimming what was trimmed changes nothing. -/
theorem dropUntil_idem (fits : List α → Bool) (xs : List α) :
    dropUntil fits (dropUntil fits xs)=dropUntil fits xs := by
  rcases dropUntil_fits fits xs with hnone|hfits
  · rw [hnone]
    rfl
  · exact dropUntil_of_fits hfits

/-- Nothing was dropped exactly when the length is the same. -/
theorem dropUntil_eq_iff (fits : List α → Bool) (xs : List α) :
    dropUntil fits xs=xs ↔ ¬ (dropUntil fits xs).length < xs.length := by
  constructor
  · intro h
    rw [h]
    exact Nat.lt_irrefl _
  · intro h
    exact (dropUntil_suffix fits xs).eq_of_length_le (Nat.not_lt.mp h)

section Groups

variable {groups : List (List α)}

/-- The suffix begins inside a group: what is left of the group is neither all of
it nor nothing. -/
def CutsInside (groups : List (List α)) (ys : List α) : Prop :=
  ∃ before g after tail, groups=before++g::after ∧ tail<:+g ∧ tail≠[] ∧ tail≠g ∧
    ys=tail++after.flatten

/-- A suffix that begins with a group or in it, before the groups after it. -/
theorem exists_tail {g ys rest : List α} (h : ys<:+g++rest) (hrest : rest<:+ys) :
    ∃ tail, tail<:+g ∧ ys=tail++rest := by
  obtain ⟨tail,rfl⟩ := hrest
  exact ⟨tail,List.suffix_append_self_iff.mp h,rfl⟩

/-- A suffix of the groups begins with a group or inside one. -/
theorem whole_or_cutsInside (h : ys<:+groups.flatten) :
    (∃ rest, rest<:+groups ∧ ys=rest.flatten) ∨ CutsInside groups ys := by
  induction groups with
  | nil => exact Or.inl ⟨[],List.suffix_refl [],List.suffix_nil.mp h⟩
  | cons g groups ih =>
    rw [List.flatten_cons] at h
    rcases List.suffix_or_suffix_of_suffix h (List.suffix_append g groups.flatten) with hys|hgroups
    · rcases ih hys with ⟨rest,hrest,heq⟩|⟨before,g',after,tail,hsplit,hcut⟩
      · exact Or.inl ⟨rest,hrest.trans (List.suffix_cons g groups),heq⟩
      · exact Or.inr ⟨g::before,g',after,tail,by rw [hsplit]; rfl,hcut⟩
    · obtain ⟨tail,htail,heq⟩ := exists_tail h hgroups
      by_cases hnone : tail=[]
      · exact Or.inl ⟨groups,List.suffix_cons g groups,by rw [heq,hnone]; rfl⟩
      · by_cases hall : tail=g
        · exact Or.inl ⟨g::groups,List.suffix_refl _,by rw [heq,hall]; rfl⟩
        · exact Or.inr ⟨[],g,groups,tail,rfl,htail,hnone,hall,heq⟩

/-- No group is too long where its last element alone is not. -/
def NoneStraddles (fits : List α → Bool) (groups : List (List α)) : Prop :=
  ∀ before g after last, groups=before++g::after → g.getLast?=some last →
    fits (last::after.flatten)=true → fits (g++after.flatten)=true

/-- The last element of a list is among the end of it. -/
theorem getLast?_of_suffix {g tail : List α} (h : tail<:+g) (hne : tail≠[]) :
    g.getLast?=tail.getLast? := by
  obtain ⟨front,rfl⟩ := h
  rw [List.getLast?_append]
  cases hlast : tail.getLast? with
  | none => exact absurd (List.getLast?_eq_none_iff.mp hlast) hne
  | some last => rfl

/-- Whole groups are dropped where none straddles. -/
theorem dropUntil_whole (hon : FitsOn fits) (h : NoneStraddles fits groups) :
    ∃ rest, rest<:+groups ∧ dropUntil fits groups.flatten=rest.flatten := by
  rcases whole_or_cutsInside (dropUntil_suffix fits groups.flatten) with hwhole|hcut
  · exact hwhole
  · obtain ⟨before,g,after,tail,hsplit,htail,hne,hall,heq⟩ := hcut
    have hfits : fits (tail++after.flatten)=true := by
      rw [←heq]
      refine (dropUntil_fits fits groups.flatten).resolve_left fun hnone => ?_
      rw [hnone] at heq
      exact hne (List.append_eq_nil_iff.mp heq.symm).1
    obtain ⟨front,last,rfl⟩ := List.eq_nil_or_concat tail |>.resolve_left hne
    have hlast : g.getLast?=some last := by
      rw [getLast?_of_suffix htail hne,List.concat_eq_append,List.getLast?_concat]
    have hgroup : fits (g++after.flatten)=true := by
      refine h before g after last hsplit hlast (hon _ _ ?_ hfits)
      rw [List.concat_eq_append,List.append_assoc]
      exact List.suffix_append front _
    have hsuffix : g++after.flatten<:+groups.flatten := by
      rw [hsplit,List.flatten_append,List.flatten_cons]
      exact List.suffix_append _ _
    have hle := (suffix_dropUntil hsuffix hgroup).length_le
    rw [heq,List.length_append,List.length_append] at hle
    exact absurd (htail.eq_of_length_le (by omega)) hall

/-- A group that straddles is cut. -/
theorem dropUntil_cuts (hon : FitsOn fits) (h : ¬ NoneStraddles fits groups) :
    CutsInside groups (dropUntil fits groups.flatten) := by
  unfold NoneStraddles at h
  push Not at h
  obtain ⟨before,g,after,last,hsplit,hlast,hfits,hlong⟩ := h
  obtain ⟨front,rfl⟩ := List.getLast?_eq_some_iff.mp hlast
  have hsuffix : (front++[last])++after.flatten<:+groups.flatten := by
    rw [hsplit,List.flatten_append,List.flatten_cons]
    exact List.suffix_append _ _
  have hend : last::after.flatten<:+(front++[last])++after.flatten := by
    rw [List.append_assoc]
    exact List.suffix_append front _
  have hkept := suffix_dropUntil (hend.trans hsuffix) hfits
  have hne : dropUntil fits groups.flatten≠[] := by
    intro hnone
    rw [hnone] at hkept
    exact List.cons_ne_nil _ _ (List.suffix_nil.mp hkept)
  have hends := (dropUntil_fits fits groups.flatten).resolve_left hne
  have hinside : dropUntil fits groups.flatten<:+(front++[last])++after.flatten := by
    refine (List.suffix_or_suffix_of_suffix (dropUntil_suffix fits groups.flatten)
      hsuffix).resolve_right fun hover => hlong (hon _ _ hover hends)
  obtain ⟨tail,htail,heq⟩ := exists_tail hinside ((List.suffix_cons _ _).trans hkept)
  refine ⟨before,front++[last],after,tail,hsplit,htail,?_,?_,heq⟩
  · rintro rfl
    have hle := hkept.length_le
    rw [heq,List.nil_append,List.length_cons] at hle
    omega
  · rintro rfl
    rw [heq] at hends
    exact hlong hends

end Groups

end AegisRuntime.SuffixTrimming
