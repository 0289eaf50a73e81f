import AegisRuntime.KeyedTables

/-!
# References between tables

A table grows when rows are appended that satisfy a condition, while the rows
that were there keep a part of their columns. Insertions and modifications are
such steps, and steps compose. Where the condition says that a column meets the
keys of another table, and the column is among those that are kept, every row
keeps meeting a key as long as the other table loses none.
-/

namespace AegisRuntime.TableReferences

open KeyedTables

universe u v w x

variable {ρ : Type u} {κ : Type v} {ι : Type w} {key : ρ → κ} {t u s : Table key}
  {identity : ρ → ι} {admits : ρ → Prop}

/-- The old rows keep their identities, and the new rows satisfy a condition. -/
def Grows (identity : ρ → ι) (admits : ρ → Prop) (t u : Table key) : Prop :=
  ∃ new : List ρ, u.rows.map identity=t.rows.map identity++new.map identity ∧ ∀ r∈new, admits r

theorem Grows.refl (t : Table key) : Grows identity admits t t :=
  ⟨[],by rw [List.map_nil,List.append_nil],fun _ hr => absurd hr List.not_mem_nil⟩

/-- A table grows by a row that is admitted. -/
theorem Grows.insert [DecidableEq κ] {r : ρ} (h : t.insert r=some u) (hr : admits r) :
    Grows identity admits t u := by
  refine ⟨[r],?_,List.forall_mem_singleton.mpr hr⟩
  rw [(Table.insert_rows h).1,List.map_append]

/-- A table also grows by changing what is not the identity of a row. -/
theorem Grows.modify [DecidableEq κ] {k : κ} {f : ρ → ρ} (hf : ∀ r, key (f r)=key r)
    (hidentity : ∀ r, identity (f r)=identity r) :
    Grows identity admits t (t.modify k f hf) := by
  refine ⟨[],?_,fun _ hr => absurd hr List.not_mem_nil⟩
  rw [List.map_nil,List.append_nil,Table.modify,List.map_map]
  refine List.map_congr_left fun r _ => ?_
  rw [Function.comp_apply]
  split
  · exact hidentity r
  · rfl

theorem Grows.trans (h : Grows identity admits t u) (h' : Grows identity admits u s) :
    Grows identity admits t s := by
  obtain ⟨new,hnew,hadmits⟩ := h
  obtain ⟨new',hnew',hadmits'⟩ := h'
  refine ⟨new++new',?_,List.forall_mem_append.mpr ⟨hadmits,hadmits'⟩⟩
  rw [hnew',hnew,List.map_append,List.append_assoc]

/-- The identities that were there are there, in the same order. -/
theorem Grows.isPrefix (h : Grows identity admits t u) :
    t.rows.map identity <+: u.rows.map identity := by
  obtain ⟨new,hnew,-⟩ := h
  exact ⟨new.map identity,hnew.symm⟩

/-- A column that is part of the identity is kept with it. -/
theorem Grows.column {γ : Type x} (column : ι → γ) (h : Grows identity admits t u) :
    t.rows.map (fun r => column (identity r)) <+: u.rows.map fun r => column (identity r) := by
  have hmap : ∀ rows : List ρ, rows.map (fun r => column (identity r))=
      (rows.map identity).map column := fun rows => (List.map_map ..).symm
  rw [hmap,hmap]
  exact h.isPrefix.map column

/-- If old and new rows meet a property of the identity, all rows do. -/
theorem Grows.all {P : ι → Prop} (h : Grows identity admits t u)
    (hadmits : ∀ r, admits r → P (identity r)) (ht : ∀ r∈t.rows, P (identity r)) :
    ∀ r∈u.rows, P (identity r) := by
  obtain ⟨new,hnew,hnew'⟩ := h
  intro r hr
  have hmem : identity r∈t.rows.map identity++new.map identity := hnew ▸ List.mem_map_of_mem hr
  rcases List.mem_append.mp hmem with hmem|hmem
  · obtain ⟨old,hold,heq⟩ := List.mem_map.mp hmem
    exact heq ▸ ht old hold
  · obtain ⟨added,hadded,heq⟩ := List.mem_map.mp hmem
    exact heq ▸ hadmits added (hnew' added hadded)

end AegisRuntime.TableReferences
