import AegisRuntime.LabelledRuns
import Mathlib.Logic.Function.Basic

/-!
# Cells with versions

A key holds nothing or a cell, a value with its version. A cell is created with
version one. A write names the version it was made for, is accepted only while
that is the version of the cell, and raises it by one. Over any run of accepted
operations the writes of a key name the versions one, two, three in order, so no
version is written over twice, and a cell holds the value of the last operation
on its key.
-/

namespace AegisRuntime.VersionedCells

open LabelledRuns

universe u v

variable {κ : Type u} {β : Type v}

/-- A value with its version. -/
structure Cell (β : Type v) where
  /-- How many operations made the value. -/
  version : ℕ
  /-- The value. -/
  value : β

/-- What every key holds. -/
abbrev Cells (κ : Type u) (β : Type v) : Type (max u v) := κ → Option (Cell β)

/-- No key holds anything. -/
def Cells.empty : Cells κ β := fun _ => none

/-- An operation on a key. -/
inductive Op (κ : Type u) (β : Type v) where
  /-- Creates a cell. -/
  | create (key : κ) (value : β)
  /-- Writes over a version. -/
  | write (key : κ) (version : ℕ) (value : β)

/-- The key of an operation. -/
def Op.key : Op κ β → κ
  | .create k _ | .write k _ _ => k

/-- The value of an operation. -/
def Op.value : Op κ β → β
  | .create _ x | .write _ _ x => x

/-- The version that an operation writes over. -/
def Op.over : Op κ β → Option ℕ
  | .create _ _ => none
  | .write _ n _ => some n

/-- The cells after an operation, when it is accepted. -/
def accept [DecidableEq κ] (cells : Cells κ β) : Op κ β → Option (Cells κ β)
  | .create k x =>
    match cells k with
    | some _ => none
    | none => some (Function.update cells k (some ⟨1,x⟩))
  | .write k n x =>
    match cells k with
    | some c => if c.version=n then some (Function.update cells k (some ⟨n+1,x⟩)) else none
    | none => none

variable [DecidableEq κ] {cells cells' : Cells κ β} {op : Op κ β} {log : List (Op κ β)}

/-- What the accepted operations wrote under a key, in order. -/
def valuesOf (k : κ) (log : List (Op κ β)) : List β :=
  (log.filter fun op => decide (op.key=k)).map Op.value

/-- The versions of a key that accepted operations wrote over, in order. -/
def versionsOf (k : κ) (log : List (Op κ β)) : List ℕ :=
  (log.filter fun op => decide (op.key=k)).filterMap Op.over

/-- An accepted operation creates a cell or writes over its version, and leaves
the next version with its value. -/
theorem accept_cases (h : accept cells op=some cells') : ∃ n,
    cells'=Function.update cells op.key (some ⟨n+1,op.value⟩) ∧
      (op.over=none ∧ cells op.key=none ∧ n=0 ∨
        op.over=some n ∧ ∃ x, cells op.key=some ⟨n,x⟩) := by
  cases op with
  | create k x =>
    rw [accept] at h
    split at h
    · cases h
    · next hk =>
      cases h
      exact ⟨0,rfl,Or.inl ⟨rfl,hk,rfl⟩⟩
  | write k n x =>
    rw [accept] at h
    split at h
    · next c hk =>
      split at h
      · next hn =>
        cases h
        subst hn
        exact ⟨c.version,rfl,Or.inr ⟨rfl,c.value,hk⟩⟩
      · cases h
    · cases h

/-- What a run of accepted operations says of the cells it leaves. -/
structure History (log : List (Op κ β)) (cells : Cells κ β) : Prop where
  /-- A key without a cell was never written over. -/
  absent : ∀ k, cells k=none → versionsOf k log=[]
  /-- The versions of a key that were written over are those below its own. -/
  versions : ∀ k c, cells k=some c → versionsOf k log++[c.version]=List.range' 1 c.version
  /-- A cell holds the value of the last operation on its key. -/
  values : ∀ k, (cells k).map Cell.value=(valuesOf k log).getLast?

theorem versionsOf_concat_self (log : List (Op κ β)) (op : Op κ β) :
    versionsOf op.key (log++[op])=versionsOf op.key log++op.over.toList := by
  have hone : [op].filterMap Op.over=op.over.toList := by
    cases hover : op.over <;> simp [hover]
  simp [versionsOf,List.filter_append,List.filterMap_append,hone]

theorem versionsOf_concat_other {k : κ} (h : op.key≠k) (log : List (Op κ β)) :
    versionsOf k (log++[op])=versionsOf k log := by
  simp [versionsOf,List.filter_append,h]

theorem valuesOf_concat_self (log : List (Op κ β)) (op : Op κ β) :
    valuesOf op.key (log++[op])=valuesOf op.key log++[op.value] := by
  simp [valuesOf,List.filter_append]

theorem valuesOf_concat_other {k : κ} (h : op.key≠k) (log : List (Op κ β)) :
    valuesOf k (log++[op])=valuesOf k log := by
  simp [valuesOf,List.filter_append,h]

/-- One more accepted operation keeps the history. -/
theorem History.accept (h : History log cells) (hop : accept cells op=some cells') :
    History (log++[op]) cells' := by
  obtain ⟨n,rfl,hcase⟩ := accept_cases hop
  have hversions : versionsOf op.key (log++[op])=List.range' 1 n := by
    rw [versionsOf_concat_self]
    rcases hcase with ⟨hover,hnone,rfl⟩|⟨hover,x,hcell⟩
    · rw [hover,h.absent _ hnone]
      rfl
    · rw [hover]
      exact h.versions _ _ hcell
  refine ⟨?_,?_,?_⟩
  · intro k hk
    by_cases hkey : op.key=k
    · subst hkey
      simp at hk
    · rw [Function.update_of_ne (Ne.symm hkey)] at hk
      rw [versionsOf_concat_other hkey,h.absent k hk]
  · intro k c hk
    by_cases hkey : op.key=k
    · subst hkey
      rw [Function.update_self,Option.some.injEq] at hk
      rw [←hk,hversions,List.range'_concat]
      simp [Nat.add_comm]
    · rw [Function.update_of_ne (Ne.symm hkey)] at hk
      rw [versionsOf_concat_other hkey,h.versions k c hk]
  · intro k
    by_cases hkey : op.key=k
    · subst hkey
      rw [Function.update_self,valuesOf_concat_self,List.getLast?_concat]
      rfl
    · rw [Function.update_of_ne (Ne.symm hkey),valuesOf_concat_other hkey,h.values k]

/-- The history along every run of accepted operations. -/
theorem history_of_run (h : runs accept Cells.empty log=some cells) : History log cells := by
  refine history_invariant ?_ (fun log cells op cells' _ hh hop => hh.accept hop) h
  exact ⟨fun _ _ => rfl,nofun,fun _ => rfl⟩

/-- No version of a key is written over twice. -/
theorem History.versions_nodup (h : History log cells) (k : κ) : (versionsOf k log).Nodup := by
  cases hk : cells k with
  | none =>
    rw [h.absent k hk]
    exact List.nodup_nil
  | some c =>
    have hnodup : (versionsOf k log++[c.version]).Nodup := by
      rw [h.versions k c hk]
      exact List.nodup_range'
    exact (List.nodup_append.mp hnodup).1

end AegisRuntime.VersionedCells
