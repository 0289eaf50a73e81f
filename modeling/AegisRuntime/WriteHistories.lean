import AegisRuntime.KeyedTables

/-!
# Histories of writes to a keyed table

A history lists the values that were created and the updates that were made. It
says what each key should hold: the created value with the parts that the last
update of the key brings. A table that encodes such values row by row answers
every key as its history says, and inserting or rewriting a row goes along with
one more entry of the history.
-/

namespace AegisRuntime.WriteHistories

open KeyedTables

universe u v w

/-- A write that succeeded. -/
inductive Write (α : Type u) where
  /-- A value was created. -/
  | created (a : α)
  /-- The value of the same key was updated. -/
  | updated (a : α)

/-- The value that a write created. -/
def Write.creation {α : Type u} : Write α → Option α
  | .created a => some a
  | .updated _ => none

/-- The update that a write made. -/
def Write.change {α : Type u} : Write α → Option α
  | .created _ => none
  | .updated a => some a

/-- The created values, in the order of their creation. -/
def created {α : Type u} (log : List (Write α)) : List α := log.filterMap Write.creation

/-- The updates, in the order they were made. -/
def updated {α : Type u} (log : List (Write α)) : List α := log.filterMap Write.change

/-- How values with keys stand in rows, and what an update leaves alone. -/
structure Encoding (α : Type u) (ρ : Type v) (κ : Type w) where
  /-- The key of a value. -/
  key : α → κ
  /-- The key of a row. -/
  rowKey : ρ → κ
  /-- A value with the parts that an update brings. -/
  merge : α → α → α
  /-- The row of a value. -/
  encode : α → ρ
  /-- A row rewritten by an update. -/
  rewrite : α → ρ → ρ
  rowKey_encode : ∀ a, rowKey (encode a)=key a
  key_merge : ∀ a b, key (merge a b)=key a
  merge_merge : ∀ a b c, merge (merge a b) c=merge a c
  rowKey_rewrite : ∀ b r, rowKey (rewrite b r)=rowKey r
  rewrite_encode : ∀ a b, rewrite b (encode a)=encode (merge a b)

namespace Encoding

variable {α : Type u} {ρ : Type v} {κ : Type w} [DecidableEq κ] (e : Encoding α ρ κ)

/-- The last update of a key. -/
def lastUpdate (log : List (Write α)) (k : κ) : Option α :=
  ((updated log).filter fun b => decide (e.key b=k)).getLast?

/-- A created value with the last update of its key. -/
def current (log : List (Write α)) (a : α) : α :=
  match e.lastUpdate log (e.key a) with
  | some b => e.merge a b
  | none => a

/-- What a history says about a key. -/
def expected (log : List (Write α)) (k : κ) : Option α :=
  ((created log).find? fun a => decide (e.key a=k)).map (e.current log)

/-- The rows are the created values as they now are, and every update met its value. -/
structure Stores (t : Table e.rowKey) (log : List (Write α)) : Prop where
  rows : t.rows=(created log).map fun a => e.encode (e.current log a)
  updates_created : ∀ b∈updated log, e.key b∈(created log).map e.key

variable {e} {t u : Table e.rowKey} {log : List (Write α)}

@[simp] theorem key_current (log : List (Write α)) (a : α) :
    e.key (e.current log a)=e.key a := by
  unfold current
  split
  · exact e.key_merge a _
  · rfl

theorem created_concat (log : List (Write α)) (w : Write α) :
    created (log++[w])=created log++w.creation.toList := by
  rw [created,List.filterMap_append,created]
  cases w <;> rfl

theorem updated_concat (log : List (Write α)) (w : Write α) :
    updated (log++[w])=updated log++w.change.toList := by
  rw [updated,List.filterMap_append,updated]
  cases w <;> rfl

/-- Another creation changes no value. -/
theorem current_concat_created (log : List (Write α)) (a b : α) :
    e.current (log++[.created b]) a=e.current log a := by
  rw [current,lastUpdate,updated_concat,Write.change,Option.toList_none,List.append_nil,
    ←lastUpdate,←current]

/-- An update changes the value of its key, whatever it was before. -/
theorem current_concat_updated (log : List (Write α)) (a b : α) :
    e.current (log++[.updated b]) a=
      if e.key a=e.key b then e.merge (e.current log a) b else e.current log a := by
  rw [current,lastUpdate,updated_concat,Write.change,Option.toList_some,List.filter_append]
  split
  · next hupdate =>
    by_cases hkey : e.key a=e.key b
    · rw [List.filter_cons_of_pos (by simpa using hkey.symm),List.filter_nil,
        List.getLast?_concat] at hupdate
      cases hupdate
      rw [if_pos hkey,current]
      split
      · rw [e.merge_merge]
      · rfl
    · rw [List.filter_cons_of_neg (by simpa using fun h => hkey h.symm),List.filter_nil,
        List.append_nil,←lastUpdate] at hupdate
      rw [if_neg hkey,current,hupdate]
  · next hnone =>
    have hkey : e.key a≠e.key b := by
      intro hkey
      rw [List.filter_cons_of_pos (by simpa using hkey.symm),List.filter_nil,
        List.getLast?_concat] at hnone
      cases hnone
    rw [List.filter_cons_of_neg (by simpa using fun h => hkey h.symm),List.filter_nil,
      List.append_nil,←lastUpdate] at hnone
    rw [if_neg hkey,current,hnone]

/-- No history: no rows. -/
theorem stores_empty : e.Stores (Table.empty e.rowKey) [] :=
  ⟨rfl,fun _ hb => absurd hb List.not_mem_nil⟩

/-- The keys of the rows are the keys that were created. -/
theorem Stores.keys (h : e.Stores t log) : t.rows.map e.rowKey=(created log).map e.key := by
  rw [h.rows,List.map_map]
  refine List.map_congr_left fun a _ => ?_
  rw [Function.comp_apply,e.rowKey_encode,key_current]

/-- A key that was not created was not updated. -/
theorem Stores.current_fresh (h : e.Stores t log) {a : α} (ha : e.key a∉(created log).map e.key) :
    e.current log a=a := by
  have hnone : e.lastUpdate log (e.key a)=none := by
    rw [lastUpdate,List.getLast?_eq_none_iff,List.filter_eq_nil_iff]
    intro b hb heq
    rw [←of_decide_eq_true heq] at ha
    exact ha (h.updates_created b hb)
  rw [current,hnone]

/-- Inserting the row of a value goes along with its creation. -/
theorem Stores.insert (h : e.Stores t log) {a : α} (hinsert : t.insert (e.encode a)=some u) :
    e.Stores u (log++[.created a]) := by
  obtain ⟨hrows,hfresh⟩ := Table.insert_rows hinsert
  rw [h.keys,e.rowKey_encode] at hfresh
  constructor
  · rw [hrows,h.rows,created_concat,List.map_append]
    simp only [current_concat_created]
    exact congrArg _ (congrArg (fun b => [e.encode b]) (h.current_fresh hfresh).symm)
  · intro b hb
    rw [updated_concat,Write.change,Option.toList_none,List.append_nil] at hb
    rw [created_concat,List.map_append]
    exact List.mem_append_left _ (h.updates_created b hb)

/-- Rewriting the row of a key that is there goes along with an update. -/
theorem Stores.modify (h : e.Stores t log) {b : α} (hb : e.key b∈t.rows.map e.rowKey) :
    e.Stores (t.modify (e.key b) (e.rewrite b) (e.rowKey_rewrite b)) (log++[.updated b]) := by
  have hcreated : created (log++[.updated b])=created log := by
    rw [created_concat,Write.creation,Option.toList_none,List.append_nil]
  constructor
  · rw [hcreated,Table.modify]
    simp only [h.rows,List.map_map]
    refine List.map_congr_left fun a _ => ?_
    rw [Function.comp_apply,e.rowKey_encode,key_current,current_concat_updated]
    split
    · exact e.rewrite_encode _ b
    · rfl
  · intro c hc
    rw [hcreated]
    rw [updated_concat,List.mem_append] at hc
    rcases hc with hc|hc
    · exact h.updates_created c hc
    · rw [List.mem_singleton.mp hc,←h.keys]
      exact hb

/-- A key is answered as its history says. -/
theorem Stores.find (h : e.Stores t log) (k : κ) : t.find k=(e.expected log k).map e.encode := by
  have hkey : ∀ a, e.rowKey (e.encode (e.current log a))=e.key a := by
    intro a
    rw [e.rowKey_encode,key_current]
  rw [Table.find,h.rows,List.find?_map,expected,Option.map_map]
  simp only [Function.comp_def,hkey]

/-- No key was created twice. -/
theorem Stores.nodup (h : e.Stores t log) : ((created log).map e.key).Nodup :=
  h.keys ▸ t.keys_nodup

/-- A created value is found under its key as it now is. -/
theorem Stores.expected_created (h : e.Stores t log) {a : α} (ha : a∈created log) :
    e.expected log (e.key a)=some (e.current log a) := by
  rw [expected,find?_of_nodup h.nodup ha,Option.map_some]

end Encoding

end AegisRuntime.WriteHistories
