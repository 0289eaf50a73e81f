import AegisRuntime.StableSorts
import AegisRuntime.WriteHistories
import Mathlib.Data.List.Induction

/-!
# Stores over one table

A store keeps values as rows of a table. A creation inserts a row if its key is
fresh and what it refers to is there; an update rewrites the row of its key or
reports that there is none; the engine may refuse either. Every call keeps the
table in line with the history of the calls that succeeded, and a call that
fails leaves the table. Reads decode the rows that the engine selects.
-/

namespace AegisRuntime.RowStores

open KeyedTables StableSorts WriteHistories

universe u v w x

/-- What a store reports when a call fails. -/
structure Errors (α : Type u) (ε : Type v) where
  /-- The engine refuses the statement. -/
  refused : String → ε
  /-- The key of a new row is taken. -/
  taken : ε
  /-- A reference of a new row meets nothing. -/
  dangling : ε
  /-- No row has the key of an update. -/
  missing : α → ε

/-- `ORDER BY key ASC`; rows with equal keys come as the engine likes. -/
structure RowOrder {ρ : Type u} {κ : Type v} [LE κ] (key : ρ → κ) where
  /-- The rows in order. -/
  arrange : List ρ → List ρ
  arrange_perm : ∀ rows, (arrange rows).Perm rows
  arrange_sorted : ∀ rows, (arrange rows).Pairwise fun a b => key a ≤ key b

/-- Rows with equal keys in the order of the table. -/
instance {ρ : Type u} {κ : Type v} [LinearOrder κ] (key : ρ → κ) : Inhabited (RowOrder key) where
  default :=
    { arrange := fun rows => rows.insertionSort fun a b => key a ≤ key b
      arrange_perm := fun rows => List.perm_insertionSort _ rows
      arrange_sorted := fun rows => (stableSort_insertionSort key rows).ordered }

/-- A call that writes. -/
inductive Call (α : Type u) where
  /-- Creates a value; the flag says whether its references are met. -/
  | create (refusal : Option String) (known : Bool) (a : α)
  /-- Updates a value. -/
  | update (refusal : Option String) (a : α)

/-- What a call writes when it succeeds. -/
def Call.write {α : Type u} : Call α → Write α
  | .create _ _ a => .created a
  | .update _ a => .updated a

section Rows

variable {α : Type u} {ρ : Type v} {κ : Type w} {ε : Type x} {e : Encoding α ρ κ}

/-- Rows of values decode to the values. -/
theorem decode_encoded {decode : ρ → Except ε α} (hdecode : ∀ a, decode (e.encode a)=.ok a)
    (as : List α) : (as.map e.encode).mapM decode=.ok as := by
  induction as with
  | nil => rfl
  | cons a as ih =>
    rw [List.map_cons,List.mapM_cons,hdecode,ih]
    rfl

/-- Rows that are all decoded. -/
theorem decodes_of_mapM {rows : List ρ} {decode : ρ → Except ε α} {as : List α} (h : rows.mapM decode=.ok as) :
    List.Forall₂ (fun r a => decode r=.ok a) rows as := by
  induction rows generalizing as with
  | nil =>
    cases h
    exact .nil
  | cons r rows ih =>
    rw [List.mapM_cons] at h
    cases hr : decode r with
    | error e =>
      rw [hr] at h
      cases h
    | ok a =>
      cases hrows : rows.mapM decode with
      | error e =>
        rw [hr,hrows] at h
        cases h
      | ok more =>
        rw [hr,hrows] at h
        cases h
        exact .cons hr (ih hrows)

/-- An item on the right has one on the left. -/
theorem exists_left {β : Type u} {γ : Type v} {R : β → γ → Prop} {bs : List β} {cs : List γ}
    (h : List.Forall₂ R bs cs) {c : γ} (hc : c∈cs) : ∃ b∈bs, R b c := by
  induction h with
  | nil => cases hc
  | @cons b c' bs cs hbc _ ih =>
    rcases List.mem_cons.mp hc with rfl|hc
    · exact ⟨b,List.mem_cons_self,hbc⟩
    · obtain ⟨b',hb',hbc'⟩ := ih hc
      exact ⟨b',List.mem_cons_of_mem _ hb',hbc'⟩

/-- What the values have of their rows. -/
theorem map_decoded {rows : List ρ} {decode : ρ → Except ε α} {γ : Type w} {f : ρ → γ} {g : α → γ} {as : List α}
    (hsame : ∀ r a, decode r=.ok a → g a=f r) (h : rows.mapM decode=.ok as) :
    as.map g=rows.map f := by
  have hvalues : List.Forall₂ (fun r a => f r=g a) rows as :=
    (decodes_of_mapM h).imp fun r a hr => (hsame r a hr).symm
  have heq : List.Forall₂ Eq (rows.map f) (as.map g) :=
    List.forall₂_map_left_iff.mpr (List.forall₂_map_right_iff.mpr hvalues)
  rw [List.forall₂_eq_eq_eq] at heq
  exact heq.symm

/-- A row that is not decoded. -/
theorem fails_of_mapM {rows : List ρ} {decode : ρ → Except ε α} {e : ε} (h : rows.mapM decode=.error e) : ∃ r∈rows, decode r=.error e := by
  induction rows with
  | nil => cases h
  | cons r rows ih =>
    rw [List.mapM_cons] at h
    cases hr : decode r with
    | error e' =>
      rw [hr] at h
      cases h
      exact ⟨r,List.mem_cons_self,hr⟩
    | ok a =>
      cases hrows : rows.mapM decode with
      | error e' =>
        rw [hr,hrows] at h
        cases h
        obtain ⟨r',hr',hfails⟩ := ih hrows
        exact ⟨r',List.mem_cons_of_mem _ hr',hfails⟩
      | ok more =>
        rw [hr,hrows] at h
        cases h

/-- Rows of values in another order are rows of the values in another order. -/
theorem exists_values {rows : List ρ} {as : List α} (h : rows.Perm (as.map e.encode)) :
    ∃ found : List α, rows=found.map e.encode ∧ found.Perm as := by
  have hcomp := congrFun (congrFun (List.eq_map_comp_perm e.encode) rows) as
  exact hcomp.mpr h

end Rows

section Store

variable {α : Type u} {ρ : Type v} {κ : Type w} {ε : Type x} [DecidableEq κ]

/-- Executes `INSERT`: the statement happens as a whole or not at all. -/
def insertRow (e : Encoding α ρ κ) (errors : Errors α ε) (refusal : Option String) (known : Bool)
    (t : Table e.rowKey) (a : α) : Table e.rowKey×Except ε Unit :=
  match refusal with
  | some msg => (t,.error (errors.refused msg))
  | none =>
    match t.insert (e.encode a) with
    | none => (t,.error errors.taken)
    | some t' => if known then (t',.ok ()) else (t,.error errors.dangling)

/-- Executes `UPDATE … WHERE key = …` and counts the rows that were written. -/
def updateRow (e : Encoding α ρ κ) (errors : Errors α ε) (refusal : Option String)
    (t : Table e.rowKey) (a : α) : Table e.rowKey×Except ε Unit :=
  match refusal with
  | some msg => (t,.error (errors.refused msg))
  | none =>
    let written := t.modify (e.key a) (e.rewrite a) (e.rowKey_rewrite a)
    let rows := (t.rows.filter fun r => decide (e.rowKey r=e.key a)).length
    if rows=0 then (written,.error (errors.missing a)) else (written,.ok ())

/-- Makes a call. -/
def perform (e : Encoding α ρ κ) (errors : Errors α ε) (t : Table e.rowKey) :
    Call α → Table e.rowKey×Except ε Unit
  | .create refusal known a => insertRow e errors refusal known t a
  | .update refusal a => updateRow e errors refusal t a

/-- The history with a call added if it succeeded. -/
def noted (log : List (Write α)) (write : Write α) : Except ε Unit → List (Write α)
  | .ok _ => log++[write]
  | .error _ => log

/-- The table and the history of the calls that succeeded. -/
structure History (e : Encoding α ρ κ) where
  /-- The table. -/
  table : Table e.rowKey
  /-- The successful calls. -/
  log : List (Write α)

/-- The history after a call. -/
def History.after {e : Encoding α ρ κ} (errors : Errors α ε) (h : History e) (call : Call α) :
    History e :=
  let result := perform e errors h.table call
  ⟨result.1,noted h.log call.write result.2⟩

/-- The history of a sequence of calls on an empty table. -/
def history (e : Encoding α ρ κ) (errors : Errors α ε) (calls : List (Call α)) : History e :=
  calls.foldl (History.after errors) ⟨Table.empty e.rowKey,[]⟩

variable {e : Encoding α ρ κ} {errors : Errors α ε} {t : Table e.rowKey} {log : List (Write α)}

/-- A creation fails and leaves the table, or inserts the row of its value. It fails for
a refusal, a taken key or a reference that meets nothing. -/
theorem insertRow_cases (errors : Errors α ε) (refusal : Option String) (known : Bool)
    (t : Table e.rowKey) (a : α) :
    (∃ error, insertRow e errors refusal known t a=(t,.error error) ∧
      (refusal=none → e.key a∈t.rows.map e.rowKey ∨ known=false)) ∨
    ∃ t', refusal=none ∧ known=true ∧ t.insert (e.encode a)=some t' ∧
      insertRow e errors refusal known t a=(t',.ok ()) := by
  unfold insertRow
  split
  · exact .inl ⟨_,rfl,nofun⟩
  · split
    · next htaken =>
      have hkey := Table.insert_eq_none_iff.mp htaken
      rw [e.rowKey_encode] at hkey
      exact .inl ⟨_,rfl,fun _ => .inl hkey⟩
    · next t' hinsert =>
      split
      · next hknown => exact .inr ⟨t',rfl,hknown,hinsert,rfl⟩
      · next hknown => exact .inl ⟨_,rfl,fun _ => .inr (by simpa using hknown)⟩

/-- An update fails and leaves the table, or rewrites the row of its key. It fails for a
refusal or a key without a row. -/
theorem updateRow_cases (errors : Errors α ε) (refusal : Option String) (t : Table e.rowKey)
    (a : α) :
    (∃ error, updateRow e errors refusal t a=(t,.error error) ∧
      (refusal=none → e.key a∉t.rows.map e.rowKey)) ∨
    refusal=none ∧ e.key a∈t.rows.map e.rowKey ∧ updateRow e errors refusal t a=
      (t.modify (e.key a) (e.rewrite a) (e.rowKey_rewrite a),.ok ()) := by
  unfold updateRow
  split
  · exact .inl ⟨_,rfl,nofun⟩
  · simp only
    split
    · next hrows =>
      have hfresh : e.key a∉t.rows.map e.rowKey := by
        rintro hmem
        obtain ⟨r,hr,hkey⟩ := List.mem_map.mp hmem
        have hnil := List.eq_nil_of_length_eq_zero hrows
        exact List.not_mem_nil (hnil ▸ List.mem_filter.mpr ⟨hr,by simpa using hkey⟩)
      rw [Table.modify_of_fresh hfresh]
      exact .inl ⟨_,rfl,fun _ => hfresh⟩
    · next hrows =>
      obtain ⟨r,hr⟩ := List.exists_mem_of_length_pos (Nat.pos_of_ne_zero hrows)
      obtain ⟨hmem,hkey⟩ := List.mem_filter.mp hr
      exact .inr ⟨trivial,List.mem_map.mpr ⟨r,hmem,of_decide_eq_true hkey⟩,rfl⟩

/-- A call that fails leaves the table as it was. -/
theorem perform_error {call : Call α} {error : ε} (h : (perform e errors t call).2=.error error) :
    (perform e errors t call).1=t := by
  cases call with
  | create refusal known a =>
    rcases insertRow_cases errors refusal known t a with ⟨error',he,-⟩|⟨t',-,-,-,hok⟩
    · rw [perform,he]
    · rw [perform,hok] at h
      cases h
  | update refusal a =>
    rcases updateRow_cases errors refusal t a with ⟨error',he,-⟩|⟨-,-,hok⟩
    · rw [perform,he]
    · rw [perform,hok] at h
      cases h

/-- Every call keeps the table in line with the history. -/
theorem stores_perform (h : e.Stores t log) (errors : Errors α ε) (call : Call α) :
    e.Stores (perform e errors t call).1 (noted log call.write (perform e errors t call).2) := by
  cases call with
  | create refusal known a =>
    rcases insertRow_cases errors refusal known t a with ⟨error,he,-⟩|⟨t',-,-,hinsert,hok⟩
    · rw [perform,he]
      exact h
    · rw [perform,hok]
      exact h.insert hinsert
  | update refusal a =>
    rcases updateRow_cases errors refusal t a with ⟨error,he,-⟩|⟨-,hmem,hok⟩
    · rw [perform,he]
      exact h
    · rw [perform,hok]
      exact h.modify hmem

/-- After any calls the rows are the created values as the history has them. -/
theorem stores_history (e : Encoding α ρ κ) (errors : Errors α ε) (calls : List (Call α)) :
    e.Stores (history e errors calls).table (history e errors calls).log := by
  induction calls using List.reverseRecOn with
  | nil => exact Encoding.stores_empty
  | append_singleton calls call ih =>
    rw [history,List.foldl_append]
    exact stores_perform ih errors call

/-- What a history has for all its keys, in the order of creation. -/
def values (e : Encoding α ρ κ) (log : List (Write α)) : List α :=
  (created log).map (e.current log)

theorem rows_values (h : e.Stores t log) : t.rows=(values e log).map e.encode := by
  rw [h.rows,values,List.map_map]
  rfl

/-- Every value of a history is what the history says of its key. -/
theorem expected_value (h : e.Stores t log) {a : α} (ha : a∈values e log) :
    e.expected log (e.key a)=some a := by
  obtain ⟨first,hfirst,rfl⟩ := List.mem_map.mp ha
  rw [Encoding.key_current,h.expected_created hfirst]

/-- `SELECT … WHERE … ORDER BY …` returns the rows of the values of the history that the
condition keeps, each once and in order. -/
theorem select_rows (h : e.Stores t log) {ι : Type} [LE ι] {column : ρ → ι}
    (order : RowOrder column) (keeps : ρ → Bool) :
    ∃ as : List α, order.arrange (t.rows.filter keeps)=as.map e.encode ∧
      as.Perm ((values e log).filter fun a => keeps (e.encode a)) ∧
      as.Pairwise fun a b => column (e.encode a) ≤ column (e.encode b) := by
  have hfilter : t.rows.filter keeps=
      ((values e log).filter fun a => keeps (e.encode a)).map e.encode := by
    rw [rows_values h,List.filter_map]
    rfl
  have hperm := order.arrange_perm (t.rows.filter keeps)
  have hsorted := order.arrange_sorted (t.rows.filter keeps)
  rw [hfilter] at hperm hsorted ⊢
  obtain ⟨as,hrows,has⟩ := exists_values hperm
  rw [hrows,List.pairwise_map] at hsorted
  exact ⟨as,hrows,has,hsorted⟩

/-- The rows that are selected decode to their values. -/
theorem select_stored {decode : ρ → Except ε α} (hdecode : ∀ a, decode (e.encode a)=.ok a)
    (h : e.Stores t log) {ι : Type} [LE ι] {column : ρ → ι} (order : RowOrder column)
    (keeps : ρ → Bool) :
    ∃ as, (order.arrange (t.rows.filter keeps)).mapM decode=.ok as ∧
      as.Perm ((values e log).filter fun a => keeps (e.encode a)) ∧
      as.Pairwise fun a b => column (e.encode a) ≤ column (e.encode b) := by
  obtain ⟨as,hrows,hperm,hsorted⟩ := select_rows h order keeps
  exact ⟨as,by rw [hrows,decode_encoded hdecode],hperm,hsorted⟩

/-- A creation succeeds exactly when nothing stands against it. -/
theorem insertRow_ok_iff (refusal : Option String) (known : Bool) (a : α) :
    (insertRow e errors refusal known t a).2=.ok () ↔
      refusal=none ∧ known=true ∧ e.key a∉t.rows.map e.rowKey := by
  rcases insertRow_cases errors refusal known t a with ⟨error,he,hwhy⟩|⟨t',hnone,hknown,hinsert,hok⟩
  · rw [he]
    refine iff_of_false nofun ?_
    rintro ⟨hnone,hknown,hfresh⟩
    rcases hwhy hnone with htaken|hunknown
    · exact hfresh htaken
    · rw [hknown] at hunknown
      cases hunknown
  · have hfresh := (Table.insert_rows hinsert).2
    rw [e.rowKey_encode] at hfresh
    rw [hok]
    exact iff_of_true rfl ⟨hnone,hknown,hfresh⟩

/-- An update succeeds exactly when its key has a row and the engine does not refuse. -/
theorem updateRow_ok_iff (refusal : Option String) (a : α) :
    (updateRow e errors refusal t a).2=.ok () ↔ refusal=none ∧ e.key a∈t.rows.map e.rowKey := by
  rcases updateRow_cases errors refusal t a with ⟨error,he,hwhy⟩|⟨hnone,hmem,hok⟩
  · rw [he]
    exact iff_of_false nofun fun h => hwhy h.1 h.2
  · rw [hok]
    exact iff_of_true rfl ⟨hnone,hmem⟩

/-- What a store does with writes, told by its history. -/
structure Writes (e : Encoding α ρ κ) (errors : Errors α ε) (t : Table e.rowKey)
    (log : List (Write α)) : Prop where
  /-- A creation succeeds for a new key whose references are met. -/
  creates : ∀ refusal known a, (insertRow e errors refusal known t a).2=.ok () ↔
    refusal=none ∧ known=true ∧ e.key a∉(created log).map e.key
  /-- An update succeeds for a key that was created. -/
  updates : ∀ refusal a, (updateRow e errors refusal t a).2=.ok () ↔
    refusal=none ∧ e.key a∈(created log).map e.key
  /-- A call that fails changes nothing. -/
  fails : ∀ call error, (perform e errors t call).2=.error error → (perform e errors t call).1=t

theorem writes_stored (h : e.Stores t log) (errors : Errors α ε) : Writes e errors t log := by
  refine ⟨fun refusal known a => ?_,fun refusal a => ?_,fun _ _ herror => perform_error herror⟩
  · rw [insertRow_ok_iff,h.keys]
  · rw [updateRow_ok_iff,h.keys]

/-- What updates leave alone stays whatever is written later. -/
theorem expected_append {ι : Type} (identity : α → ι)
    (hmerge : ∀ a b, identity (e.merge a b)=identity a) {k : κ} {a : α}
    (h : e.expected log k=some a) (more : List (Write α)) :
    ∃ b, e.expected (log++more) k=some b ∧ identity b=identity a := by
  have hcurrent : ∀ (log : List (Write α)) (a : α), identity (e.current log a)=identity a := by
    intro log a
    unfold Encoding.current
    split
    · exact hmerge a _
    · rfl
  obtain ⟨first,hfirst,rfl⟩ := Option.map_eq_some_iff.mp h
  refine ⟨e.current (log++more) first,?_,?_⟩
  · rw [Encoding.expected,created,List.filterMap_append,List.find?_append,←created,hfirst,
      Option.some_or,Option.map_some]
  · rw [hcurrent,hcurrent]

/-- What the history says of a key is one of its values. -/
theorem mem_values_of_expected {k : κ} {a : α} (h : e.expected log k=some a) : a∈values e log := by
  obtain ⟨first,hfirst,rfl⟩ := Option.map_eq_some_iff.mp h
  exact List.mem_map_of_mem (List.mem_of_find?_eq_some hfirst)

end Store

end AegisRuntime.RowStores
