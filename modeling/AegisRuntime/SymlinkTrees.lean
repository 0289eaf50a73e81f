import Mathlib.Data.List.Basic
import Mathlib.Data.List.Infix

/-!
# Directory trees with symbolic links

Path resolution as a POSIX kernel does it: one component after the other from a
real directory, a symbolic link replaced by its target, with a bound on the
links followed in one resolution. On top of it the calls that look a path up,
make directories and open a file for writing. A trailing slash is one more
`curDir` component. Permissions, limits on names and concurrent changes of the
tree are outside this model.
-/

namespace AegisRuntime.SymlinkTrees

/-- One component of a path. -/
inductive Component where
  /-- The leading slash of an absolute path. -/
  | rootDir
  /-- The component `.`. -/
  | curDir
  /-- The component `..`. -/
  | parentDir
  /-- A name. -/
  | normal (name : String)
  deriving DecidableEq,Repr

/-- A real location: the names from the root directory down. -/
abbrev Loc := List String

/-- What stands at a location. -/
inductive Entry where
  /-- A directory. -/
  | dir
  /-- A regular file with its content. -/
  | file (content : String)
  /-- A symbolic link with its target. -/
  | symlink (target : List Component)
  deriving DecidableEq,Repr

/-- The reasons for which a call fails. -/
inductive Errno where
  /-- Some component does not exist. -/
  | notFound
  /-- A component that is looked into is not a directory. -/
  | notDir
  /-- A directory is opened for writing. -/
  | isDir
  /-- The name to create is taken. -/
  | alreadyExists
  /-- The bound on followed links is reached. -/
  | tooManyLinks
  deriving DecidableEq,Repr

/-- A tree: the root is a directory, and so is the parent of every entry. -/
structure FileTree where
  /-- The entry at a location, if any. -/
  entry : Loc → Option Entry
  /-- The root is a directory. -/
  root_dir : entry []=some .dir
  /-- What stands above an entry is a directory. -/
  parent_dir : ∀ (dir : Loc) (name : String), (entry (dir++[name])).isSome=true →
    entry dir=some .dir

/-- Every entry of the first tree is the same in the second. -/
def FileTree.Extends (t u : FileTree) : Prop :=
  ∀ loc e, t.entry loc=some e → u.entry loc=some e

/-- Puts an entry at a location below a directory; a directory is never
replaced, and without a parent directory nothing happens. -/
def FileTree.put (t : FileTree) (loc : Loc) (e : Entry) : FileTree :=
  if h : loc≠[] ∧ t.entry loc.dropLast=some .dir ∧ t.entry loc≠some .dir then
    { entry := fun l => if l=loc then some e else t.entry l
      root_dir := by
        rw [if_neg fun hl => h.1 hl.symm]
        exact t.root_dir
      parent_dir := by
        intro dir name hs
        have hne : dir≠loc := by
          intro hd
          subst hd
          rw [if_neg (by simp)] at hs
          exact h.2.2 (t.parent_dir dir name hs)
        rw [if_neg hne]
        by_cases hl : dir++[name]=loc
        · have hd : loc.dropLast=dir := by rw [←hl,List.dropLast_concat]
          rw [←hd]
          exact h.2.1
        · rw [if_neg hl] at hs
          exact t.parent_dir dir name hs }
  else t

/-- The tree of a finite list of entries below the root whose parents are all
listed directories. -/
def FileTree.ofEntries (entries : List (Loc×Entry))
    (h : (entries.all fun x =>
      decide (x.1.dropLast=[] ∨ entries.lookup x.1.dropLast=some .dir))=true) : FileTree where
  entry loc := if loc=[] then some .dir else entries.lookup loc
  root_dir := if_pos rfl
  parent_dir dir name hs := by
    rw [if_neg (by simp)] at hs
    obtain ⟨e,he⟩ := Option.isSome_iff_exists.mp hs
    have hmem : (dir++[name],e)∈entries := by
      obtain ⟨l,r,hlr,-⟩ := List.lookup_eq_some_iff.mp he
      rw [hlr]
      simp
    have hc := of_decide_eq_true (List.all_eq_true.mp h _ hmem)
    rw [List.dropLast_concat] at hc
    split
    · rfl
    · next hd => exact hc.resolve_left hd

/-- Where a resolution ends. -/
inductive Found where
  /-- An existing directory or file. -/
  | entry (loc : Loc)
  /-- A last component that is missing from an existing directory. -/
  | vacant (dir : Loc) (name : String)
  deriving DecidableEq,Repr

/-- One pass over the components with `b` links left; `follow` resolves what a
symbolic link leads to. -/
def scan (t : FileTree) (b : ℕ) (follow : Loc → List Component → Except Errno (Found×ℕ)) :
    Loc → List Component → Except Errno (Found×ℕ)
  | here,[] => .ok (.entry here,b)
  | _,.rootDir::rest => scan t b follow [] rest
  | here,.curDir::rest =>
    if t.entry here=some .dir then scan t b follow here rest else .error .notDir
  | here,.parentDir::rest =>
    if t.entry here=some .dir then scan t b follow here.dropLast rest else .error .notDir
  | here,.normal name::rest =>
    if t.entry here=some .dir then
      match t.entry (here++[name]) with
      | none => if rest=[] then .ok (.vacant here name,b) else .error .notFound
      | some (.symlink target) => follow here (target++rest)
      | some _ => scan t b follow (here++[name]) rest
    else .error .notDir

/-- Resolves the components from a real location, following at most `b` links;
returns also how many links are left. -/
def walk (t : FileTree) : ℕ → Loc → List Component → Except Errno (Found×ℕ)
  | 0 => scan t 0 fun _ _ => .error .tooManyLinks
  | b+1 => scan t (b+1) (walk t b)

/-- Follows one link when one is left. -/
def followLink (t : FileTree) : ℕ → Loc → List Component → Except Errno (Found×ℕ)
  | 0,_,_ => .error .tooManyLinks
  | b+1,here,p => walk t b here p

/-- Goes on with the rest of a path from where its first part ended. -/
def resume (t : FileTree) (w : Except Errno (Found×ℕ)) (rest : List Component) :
    Except Errno (Found×ℕ) :=
  match w with
  | .ok (.entry here,b) => walk t b here rest
  | .ok (.vacant _ _,_) => .error .notFound
  | .error e => .error e

variable {t u : FileTree} {b c : ℕ} {here loc dir : Loc} {name : String} {p q rest : List Component}

theorem walk_eq_scan (t : FileTree) (b : ℕ) : walk t b=scan t b (followLink t b) := by
  cases b with
  | zero => rfl
  | succ b => rfl

@[simp] theorem walk_nil : walk t b here []=.ok (.entry here,b) := by
  rw [walk_eq_scan,scan]

/-- A name is looked up in a directory; a link is followed from there. -/
theorem walk_normal : walk t b here (.normal name::rest)=
    if t.entry here=some .dir then
      match t.entry (here++[name]) with
      | none => if rest=[] then .ok (.vacant here name,b) else .error .notFound
      | some (.symlink target) => followLink t b here (target++rest)
      | some _ => walk t b (here++[name]) rest
    else .error .notDir := by
  rw [walk_eq_scan,scan]

/-- Resolving a longer path is resolving its first part and going on. -/
theorem scan_append {follow : Loc → List Component → Except Errno (Found×ℕ)}
    (hw : walk t b=scan t b follow) (hrest : rest≠[])
    (hf : ∀ here q, follow here (q++rest)=resume t (follow here q) rest) :
    ∀ p here, scan t b follow here (p++rest)=resume t (scan t b follow here p) rest := by
  intro p
  induction p with
  | nil =>
    intro here
    rw [List.nil_append,scan,resume,hw]
  | cons a p ih =>
    intro here
    cases a with
    | rootDir => exact ih []
    | curDir =>
      simp only [List.cons_append,scan]
      split
      · exact ih here
      · rfl
    | parentDir =>
      simp only [List.cons_append,scan]
      split
      · exact ih here.dropLast
      · rfl
    | normal name =>
      simp only [List.cons_append,scan]
      split
      · cases he : t.entry (here++[name]) with
        | none =>
          have hne : p++rest≠[] := by simp [hrest]
          simp only [if_neg hne]
          split <;> rfl
        | some e =>
          cases e with
          | symlink target =>
            simp only []
            rw [←List.append_assoc]
            exact hf here (target++p)
          | dir => exact ih (here++[name])
          | file content => exact ih (here++[name])
      · rfl

theorem walk_append (hrest : rest≠[]) (p : List Component) (here : Loc) :
    walk t b here (p++rest)=resume t (walk t b here p) rest := by
  induction b generalizing p here with
  | zero => exact scan_append rfl hrest (fun _ _ => rfl) p here
  | succ b ih => exact scan_append rfl hrest (fun here q => ih q here) p here

/-- What a successful resolution met is still met in an extended tree. -/
theorem scan_extends {follow follow' : Loc → List Component → Except Errno (Found×ℕ)}
    (htu : t.Extends u)
    (hf : ∀ here q, follow here q=.ok (.entry loc,c) → follow' here q=.ok (.entry loc,c)) :
    ∀ p here, scan t b follow here p=.ok (.entry loc,c) →
      scan u b follow' here p=.ok (.entry loc,c) := by
  intro p
  induction p with
  | nil => exact fun _ h => h
  | cons a p ih =>
    intro here h
    cases a with
    | rootDir => exact ih [] h
    | curDir =>
      simp only [scan] at h ⊢
      split at h
      · next hd =>
        rw [if_pos (htu _ _ hd)]
        exact ih here h
      · cases h
    | parentDir =>
      simp only [scan] at h ⊢
      split at h
      · next hd =>
        rw [if_pos (htu _ _ hd)]
        exact ih here.dropLast h
      · cases h
    | normal name =>
      simp only [scan] at h ⊢
      split at h
      · next hd =>
        rw [if_pos (htu _ _ hd)]
        cases he : t.entry (here++[name]) with
        | none =>
          rw [he] at h
          simp only [] at h
          split at h <;> cases h
        | some e =>
          rw [he] at h
          rw [htu _ _ he]
          cases e with
          | symlink target => exact hf here (target++p) h
          | dir => exact ih (here++[name]) h
          | file content => exact ih (here++[name]) h
      · cases h

theorem walk_extends (htu : t.Extends u) (p : List Component) (here : Loc)
    (h : walk t b here p=.ok (.entry loc,c)) : walk u b here p=.ok (.entry loc,c) := by
  induction b generalizing p here with
  | zero => exact scan_extends htu (fun _ _ h => h) p here h
  | succ b ih => exact scan_extends htu (fun here q => ih q here) p here h

/-- Every first part of a path that exists exists. -/
theorem walk_prefix (h : walk t b here (p++rest)=.ok (.entry loc,c)) :
    ∃ l d, walk t b here p=.ok (.entry l,d) := by
  by_cases hrest : rest=[]
  · subst hrest
    rw [List.append_nil] at h
    exact ⟨loc,c,h⟩
  · rw [walk_append hrest] at h
    match hw : walk t b here p with
    | .ok (.entry l,d) => exact ⟨l,d,rfl⟩
    | .ok (.vacant _ _,_) =>
      rw [hw] at h
      cases h
    | .error e =>
      rw [hw] at h
      cases h

/-- Names with no link among them lead to the place that they spell. -/
theorem walk_names (t : FileTree) (b : ℕ) (names : List String) (here : Loc)
    (hlink : ∀ l target, l<+:names → l≠[] → t.entry (here++l)≠some (.symlink target)) :
    walk t b here (names.map .normal)=.ok (.entry (here++names),b) ∨
      (∃ d n, walk t b here (names.map .normal)=.ok (.vacant d n,b) ∧ d++[n]=here++names) ∨
      ∃ e, walk t b here (names.map .normal)=.error e := by
  induction names generalizing here with
  | nil => exact Or.inl (by simp)
  | cons name names ih =>
    rw [List.map_cons,walk_normal]
    split
    · cases he : t.entry (here++[name]) with
      | none =>
        by_cases hn : names=[]
        · subst hn
          exact Or.inr (Or.inl ⟨here,name,rfl,rfl⟩)
        · have hm : names.map Component.normal≠[] := by simp [hn]
          exact Or.inr (Or.inr ⟨.notFound,by simp only [if_neg hm]⟩)
      | some e =>
        have hsub : ∀ l target, l<+:names → l≠[] →
            t.entry (here++[name]++l)≠some (.symlink target) := by
          intro l target hl _
          rw [List.append_assoc]
          exact hlink (name::l) target (List.cons_prefix_cons.mpr ⟨rfl,hl⟩) (List.cons_ne_nil _ _)
        have hrec := ih (here++[name]) hsub
        rw [List.append_assoc,List.singleton_append] at hrec
        cases e with
        | symlink target =>
          exact absurd he (hlink [name] target (by simp) (List.cons_ne_nil _ _))
        | dir => exact hrec
        | file content => exact hrec
    · exact Or.inr (Or.inr ⟨.notDir,rfl⟩)

end AegisRuntime.SymlinkTrees
