import Mathlib.Data.List.Nodup
import Mathlib.Data.List.Perm.Basic

/-!
# Tables with a primary key

A table is a list of rows whose keys are distinct; inserting needs a fresh key
and a modification rewrites the row of one key. When rows belong to groups and
some are marked, the rules say exactly when an insertion or a modification keeps
at most one marked row in each group.
-/

namespace AegisRuntime.KeyedTables

universe u v w

/-- A table whose rows have distinct keys. -/
structure Table {ρ : Type u} {κ : Type v} (key : ρ → κ) where
  /-- The rows. -/
  rows : List ρ
  /-- No two rows share a key. -/
  keys_nodup : (rows.map key).Nodup

variable {ρ : Type u} {κ : Type v} {γ : Type w} {key : ρ → κ}

/-- The table without rows. -/
def Table.empty (key : ρ → κ) : Table key := ⟨[],List.nodup_nil⟩

/-- Appends a row, unless its key is taken. -/
def Table.insert [DecidableEq κ] (t : Table key) (r : ρ) : Option (Table key) :=
  if h : key r∈t.rows.map key then none
  else some ⟨t.rows++[r],by
    rw [List.map_append,List.map_cons,List.map_nil,←List.concat_eq_append]
    exact t.keys_nodup.concat h⟩

/-- Rewrites the row of a key by a function that keeps the key. -/
def Table.modify [DecidableEq κ] (t : Table key) (k : κ) (f : ρ → ρ)
    (hf : ∀ r, key (f r)=key r) : Table key where
  rows := t.rows.map fun r => if key r=k then f r else r
  keys_nodup := by
    have hkey : (key∘fun r => if key r=k then f r else r)=key := by
      funext r
      by_cases h : key r=k
      · simp only [Function.comp_apply,if_pos h,hf]
      · simp only [Function.comp_apply,if_neg h]
    rw [List.map_map,hkey]
    exact t.keys_nodup

/-- Writes a row, in place of the row of its key if there is one. -/
def Table.replace [DecidableEq κ] (t : Table key) (r : ρ) : Table key where
  rows := (t.rows.filter fun x => decide (key x≠key r))++[r]
  keys_nodup := by
    rw [List.map_append,List.map_cons,List.map_nil,←List.concat_eq_append]
    refine List.Nodup.concat ?_ (t.keys_nodup.sublist (List.filter_sublist.map key))
    intro hmem
    obtain ⟨x,hx,hkey⟩ := List.mem_map.mp hmem
    exact of_decide_eq_true (List.mem_filter.mp hx).2 hkey

/-- The row of a key. -/
def Table.find [DecidableEq κ] (t : Table key) (k : κ) : Option ρ := t.rows.find? fun r => key r=k

/-- At most one row of each group is marked. -/
def Table.Sole (t : Table key) (group : ρ → γ) (marked : ρ → Bool) : Prop :=
  ∀ a∈t.rows, ∀ b∈t.rows, group a=group b → marked a=true → marked b=true → a=b

/-- The marked rows of a group. -/
def Table.markedIn [DecidableEq γ] (t : Table key) (group : ρ → γ) (marked : ρ → Bool) (g : γ) :
    List ρ :=
  t.rows.filter fun r => decide (group r=g) && marked r

variable {t u : Table key} {group : ρ → γ} {marked : ρ → Bool}

theorem Table.eq_of_rows (h : t.rows=u.rows) : t=u := by
  cases t
  cases u
  cases h
  rfl

/-- Where no key stands twice, an element is the first one of its key. -/
theorem find?_of_nodup [DecidableEq κ] {l : List ρ} (hl : (l.map key).Nodup) {r : ρ} (hr : r∈l) :
    (l.find? fun x => decide (key x=key r))=some r := by
  cases hfind : l.find? fun x => decide (key x=key r) with
  | none => exact absurd (List.find?_eq_none.mp hfind r hr) (by simp)
  | some x =>
    have hkey : key x=key r := by simpa using List.find?_some hfind
    exact congrArg some (List.inj_on_of_nodup_map hl (List.mem_of_find?_eq_some hfind) hr hkey)

/-- A key has at most one row. -/
theorem Table.eq_of_key {a b : ρ} (ha : a∈t.rows) (hb : b∈t.rows) (h : key a=key b) : a=b :=
  List.inj_on_of_nodup_map t.keys_nodup ha hb h

theorem Table.insert_rows [DecidableEq κ] {r : ρ} (h : t.insert r=some u) :
    u.rows=t.rows++[r] ∧ key r∉t.rows.map key := by
  unfold Table.insert at h
  split at h
  · cases h
  · next hfresh =>
    have hu := Option.some.inj h
    exact ⟨by rw [←hu],hfresh⟩

/-- A row is refused exactly when its key is taken. -/
theorem Table.insert_eq_none_iff [DecidableEq κ] {r : ρ} :
    t.insert r=none ↔ key r∈t.rows.map key := by
  unfold Table.insert
  split
  · next htaken => exact iff_of_true rfl htaken
  · next hfresh => exact iff_of_false (Option.some_ne_none _) hfresh

theorem Table.find_eq_some_iff [DecidableEq κ] {k : κ} {r : ρ} :
    t.find k=some r ↔ r∈t.rows ∧ key r=k := by
  constructor
  · intro h
    exact ⟨List.mem_of_find?_eq_some h,by simpa using List.find?_some h⟩
  · rintro ⟨hr,rfl⟩
    exact find?_of_nodup t.keys_nodup hr

theorem Table.find_eq_none_iff [DecidableEq κ] {k : κ} : t.find k=none ↔ k∉t.rows.map key := by
  simp [Table.find]

/-- An inserted row is found under its key; other keys are answered as before. -/
theorem Table.find_insert [DecidableEq κ] {r : ρ} (h : t.insert r=some u) (k : κ) :
    u.find k=if key r=k then some r else t.find k := by
  obtain ⟨hrows,hfresh⟩ := Table.insert_rows h
  rw [Table.find,hrows,List.find?_append,←Table.find]
  split
  · next hk =>
    have hnone : t.find k=none := Table.find_eq_none_iff.mpr (hk ▸ hfresh)
    rw [hnone,Option.none_or,List.find?_cons_of_pos (by simpa using hk)]
  · next hk =>
    rw [List.find?_cons_of_neg (by simpa using hk),List.find?_nil,Option.or_none]

/-- A modification changes what is found under its key alone. -/
theorem Table.find_modify [DecidableEq κ] {k : κ} {f : ρ → ρ} {hf : ∀ r, key (f r)=key r}
    (k' : κ) : (t.modify k f hf).find k'=if k'=k then (t.find k').map f else t.find k' := by
  have hrow : ∀ r, key (if key r=k then f r else r)=key r := by
    intro r
    split
    · exact hf r
    · rfl
  rw [Table.find,Table.modify]
  simp only [List.find?_map,Function.comp_def,hrow]
  rw [←Table.find]
  cases hfind : t.find k' with
  | none => split <;> rfl
  | some r =>
    have hr := (Table.find_eq_some_iff.mp hfind).2
    simp only [Option.map_some,hr]
    split <;> rfl

/-- A modification of a key without a row changes nothing. -/
theorem Table.modify_of_fresh [DecidableEq κ] {k : κ} {f : ρ → ρ} {hf : ∀ r, key (f r)=key r}
    (h : k∉t.rows.map key) : t.modify k f hf=t := by
  refine Table.eq_of_rows ((List.map_congr_left fun r hr => if_neg fun hk => h ?_).trans
    (List.map_id t.rows))
  exact hk ▸ List.mem_map_of_mem hr

/-- A row with a new key is added to the others. -/
theorem Table.replace_of_fresh [DecidableEq κ] {r : ρ} (h : t.find (key r)=none) :
    (t.replace r).rows=t.rows++[r] := by
  have hfresh := Table.find_eq_none_iff.mp h
  have hall : (t.rows.filter fun x => decide (key x≠key r))=t.rows := by
    rw [List.filter_eq_self]
    intro x hx
    exact decide_eq_true fun heq => hfresh (heq ▸ List.mem_map_of_mem hx)
  exact congrArg (fun rows => rows++[r]) hall

/-- A row with a taken key leaves no more rows than there were. -/
theorem Table.replace_of_taken [DecidableEq κ] {r x : ρ} (h : t.find (key r)=some x) :
    (t.replace r).rows.length ≤ t.rows.length := by
  obtain ⟨hx,hkey⟩ := Table.find_eq_some_iff.mp h
  have hlt : (t.rows.filter fun x => decide (key x≠key r)).length < t.rows.length :=
    List.length_filter_lt_length_iff_exists.mpr ⟨x,hx,by simp [hkey]⟩
  rw [Table.replace,List.length_append,List.length_singleton]
  omega

/-- A written row is found under its key; other keys are answered as before. -/
theorem Table.find_replace [DecidableEq κ] (r : ρ) (k : κ) :
    (t.replace r).find k=if key r=k then some r else t.find k := by
  rw [Table.find,Table.replace,List.find?_append,List.find?_filter]
  simp only [decide_eq_true_eq]
  split
  · next hk =>
    subst hk
    have hnone : (t.rows.find? fun x => decide (key x≠key r ∧ key x=key r))=none := by simp
    rw [hnone,Option.none_or,List.find?_cons_of_pos (by simp)]
  · next hk =>
    have hsame : (fun x => decide (key x≠key r ∧ key x=k))=fun x => decide (key x=k) := by
      funext x
      refine decide_eq_decide.mpr ⟨And.right,fun hx => ⟨fun hr => hk ?_,hx⟩⟩
      exact hr.symm.trans hx
    rw [hsame,List.find?_cons_of_neg (by simpa using hk),List.find?_nil,Option.or_none,Table.find]

theorem Table.mem_markedIn [DecidableEq γ] {g : γ} {r : ρ} :
    r∈t.markedIn group marked g ↔ r∈t.rows ∧ group r=g ∧ marked r=true := by
  rw [Table.markedIn,List.mem_filter,Bool.and_eq_true,decide_eq_true_eq]

/-- Counting the marked rows of each group decides the property. -/
theorem Table.sole_iff_length [DecidableEq γ] :
    t.Sole group marked ↔ ∀ g, (t.markedIn group marked g).length ≤ 1 := by
  constructor
  · intro hsole g
    have hnodup : (t.markedIn group marked g).Nodup := t.keys_nodup.of_map.filter _
    match hl : t.markedIn group marked g with
    | [] => exact Nat.zero_le 1
    | [a] => exact Nat.le_refl 1
    | a::b::rest =>
      rw [hl] at hnodup
      have hfirst : a∈t.markedIn group marked g := by rw [hl]; exact List.mem_cons_self
      have hsecond : b∈t.markedIn group marked g := by
        rw [hl]
        exact List.mem_cons_of_mem a List.mem_cons_self
      have ha := Table.mem_markedIn.mp hfirst
      have hb := Table.mem_markedIn.mp hsecond
      have hab := hsole a ha.1 b hb.1 (ha.2.1.trans hb.2.1.symm) ha.2.2 hb.2.2
      rw [hab] at hnodup
      exact absurd List.mem_cons_self (List.nodup_cons.mp hnodup).1
  · intro hlength a ha b hb hgroup hma hmb
    have hmema : a∈t.markedIn group marked (group b) := Table.mem_markedIn.mpr ⟨ha,hgroup,hma⟩
    have hmemb : b∈t.markedIn group marked (group b) := Table.mem_markedIn.mpr ⟨hb,rfl,hmb⟩
    have hone := hlength (group b)
    match hl : t.markedIn group marked (group b) with
    | [] =>
      rw [hl] at hmemb
      cases hmemb
    | [c] =>
      rw [hl] at hmema hmemb
      rw [List.mem_singleton.mp hmema,List.mem_singleton.mp hmemb]
    | c::d::rest =>
      rw [hl,List.length_cons,List.length_cons] at hone
      omega

/-- An insertion keeps the property exactly when a marked row joins a group
without one. -/
theorem Table.Sole.insert_iff [DecidableEq κ] {r : ρ} (ht : t.Sole group marked)
    (h : t.insert r=some u) : u.Sole group marked ↔
      (marked r=true → ∀ a∈t.rows, group a=group r → marked a=false) := by
  obtain ⟨hrows,hfresh⟩ := Table.insert_rows h
  have hne : ∀ a∈t.rows, a≠r := by
    intro a ha heq
    exact hfresh (heq ▸ List.mem_map_of_mem ha)
  constructor
  · intro hu hr a ha hgroup
    by_contra hma
    have ha' : a∈u.rows := by
      rw [hrows]
      exact List.mem_append_left _ ha
    have hr' : r∈u.rows := by
      rw [hrows]
      exact List.mem_append_right _ List.mem_cons_self
    exact hne a ha (hu a ha' r hr' hgroup (by simpa using hma) hr)
  · intro hguard a ha b hb hgroup hma hmb
    rw [hrows,List.mem_append,List.mem_singleton] at ha hb
    rcases ha with ha|ha
    · rcases hb with hb|hb
      · exact ht a ha b hb hgroup hma hmb
      · subst hb
        rw [hguard hmb a ha hgroup] at hma
        cases hma
    · subst ha
      rcases hb with hb|hb
      · rw [hguard hma b hb hgroup.symm] at hmb
        cases hmb
      · exact hb.symm

/-- A modification that keeps groups keeps the property exactly when it marks a
row of a group with no other marked row. -/
theorem Table.Sole.modify_iff [DecidableEq κ] {k : κ} {f : ρ → ρ} {hf : ∀ r, key (f r)=key r}
    (hgroup : ∀ r, group (f r)=group r) (ht : t.Sole group marked) :
    (t.modify k f hf).Sole group marked ↔ ∀ r∈t.rows, key r=k → marked (f r)=true →
      ∀ a∈t.rows, group a=group r → marked a=true → key a=k := by
  have hmem : ∀ a∈t.rows, (if key a=k then f a else a)∈(t.modify k f hf).rows :=
    fun a ha => List.mem_map_of_mem ha
  constructor
  · intro hu r hr hk hmark a ha hga hma
    by_contra hak
    have hfr := hmem r hr
    have hfa := hmem a ha
    rw [if_pos hk] at hfr
    rw [if_neg hak] at hfa
    have heq := hu a hfa (f r) hfr (hga.trans (hgroup r).symm) hma hmark
    rw [heq,hf] at hak
    exact hak hk
  · intro hguard a' ha' b' hb' hab hma hmb
    obtain ⟨a,ha,hfa⟩ := List.mem_map.mp ha'
    obtain ⟨b,hb,hfb⟩ := List.mem_map.mp hb'
    by_cases hka : key a=k
    · by_cases hkb : key b=k
      · rw [←hfa,←hfb,Table.eq_of_key ha hb (hka.trans hkb.symm)]
      · rw [if_pos hka] at hfa
        rw [if_neg hkb] at hfb
        subst hfa hfb
        rw [hgroup] at hab
        exact absurd (hguard a ha hka hma b hb hab.symm hmb) hkb
    · rw [if_neg hka] at hfa
      subst hfa
      by_cases hkb : key b=k
      · rw [if_pos hkb] at hfb
        subst hfb
        rw [hgroup] at hab
        exact absurd (hguard b hb hkb hmb a ha hab hma) hka
      · rw [if_neg hkb] at hfb
        subst hfb
        exact ht a ha b hb hab hma hmb

end AegisRuntime.KeyedTables
