import AegisRuntime.FileSystemCalls

/-!
# Trees without links below a directory

Below a directory without symbolic links the path that spells a location leads to
that location. Making directories and writing a file along such a path then
change nothing outside of the directory, and make no link.
-/

namespace AegisRuntime.LinkFreeTrees

open SymlinkTrees FileSystemCalls

/-- A directory below which nothing is a symbolic link. -/
structure LinkFree (t : FileTree) (root : Loc) : Prop where
  dir : t.entry root=some .dir
  links : ∀ l target, root<+:l → t.entry l≠some (.symlink target)

/-- Two trees have the same entries outside of a directory. -/
def SameOutside (root : Loc) (t u : FileTree) : Prop :=
  ∀ l, ¬root<+:l → u.entry l=t.entry l

/-- The absolute path that spells a location. -/
def spelled (names : Loc) : List Component := .rootDir::names.map .normal

variable {t u : FileTree} {root names loc : Loc} {fs fs' : FileSystem}

theorem SameOutside.refl (root : Loc) (t : FileTree) : SameOutside root t t := fun _ _ => rfl

theorem SameOutside.trans {s : FileTree} (h : SameOutside root t u) (h' : SameOutside root u s) :
    SameOutside root t s :=
  fun l hl => (h' l hl).trans (h l hl)

/-- What stands above a directory is a directory. -/
theorem dir_above {l : Loc} (h : t.entry loc=some .dir) (hl : l<+:loc) : t.entry l=some .dir := by
  obtain ⟨rest,rfl⟩ := hl
  induction rest using List.reverseRecOn with
  | nil => rwa [List.append_nil] at h
  | append_singleton rest name ih =>
    rw [←List.append_assoc] at h
    exact ih (t.parent_dir (l++rest) name (Option.isSome_iff_exists.mpr ⟨_,h⟩))

/-- A first part of a path to or into a directory leads to it or into it. -/
theorem comparable {l : Loc} (hnames : root<+:names ∨ names<+:root) (hl : l<+:names) :
    root<+:l ∨ l<+:root := by
  rcases hnames with hbelow|habove
  · exact (List.prefix_or_prefix_of_prefix hl hbelow).symm
  · exact .inr (hl.trans habove)

/-- No link stands along a path into the directory. -/
theorem LinkFree.along (h : LinkFree t root) (hnames : root<+:names ∨ names<+:root) {l : Loc}
    (hl : l<+:names) (target : List Component) : t.entry l≠some (.symlink target) := by
  rcases comparable hnames hl with hbelow|habove
  · exact h.links l target hbelow
  · rw [dir_above h.dir habove]
    exact fun heq => Entry.noConfusion (Option.some.inj heq)

/-- Such a path leads to the location that it spells, or nowhere. -/
theorem LinkFree.walk_spelled (h : LinkFree fs.tree root) (hnames : root<+:names ∨ names<+:root) :
    (∃ b, fs.walkPath (spelled names)=.ok (.entry names,b)) ∨
      (∃ d n b, fs.walkPath (spelled names)=.ok (.vacant d n,b) ∧ d++[n]=names) ∨
      ∃ e, fs.walkPath (spelled names)=.error e := by
  have hstart : fs.walkPath (spelled names)=walk fs.tree fs.maxLinks [] (names.map .normal) := by
    rw [FileSystem.walkPath,spelled,walk_eq_scan,scan]
  rw [hstart]
  rcases walk_names fs.tree fs.maxLinks names [] fun l target hl _ => h.along hnames hl target with
    hentry|⟨d,n,hvacant,heq⟩|herror
  · exact .inl ⟨_,hentry⟩
  · exact .inr (.inl ⟨d,n,_,hvacant,heq⟩)
  · exact .inr (.inr herror)

/-- Opening such a path for writing opens the location that it spells. -/
theorem LinkFree.openCreate_spelled (h : LinkFree fs.tree root) (hnames : root<+:names)
    (hopen : fs.openCreate (spelled names)=.ok loc) : loc=names := by
  have hne : spelled names≠[] := List.cons_ne_nil _ _
  rw [FileSystem.openCreate,if_neg hne] at hopen
  rcases h.walk_spelled (.inl hnames) with ⟨b,hw⟩|⟨d,n,b,hw,heq⟩|⟨e,hw⟩
  · rw [hw,openedAt] at hopen
    split at hopen
    · cases hopen
    · exact (Except.ok.inj hopen).symm
  · rw [hw,openedAt] at hopen
    exact (Except.ok.inj hopen).symm.trans heq
  · rw [hw] at hopen
    cases hopen

/-- A directory stays one, whatever is put. -/
theorem dir_put {e : Entry} (h : t.entry root=some .dir) : (t.put loc e).entry root=some .dir := by
  unfold FileTree.put
  split
  · next hput =>
    have hne : root≠loc := fun heq => hput.2.2 (heq ▸ h)
    simp only [if_neg hne,h]
  · exact h

theorem sameOutside_put {e : Entry} (hloc : root<+:loc) : SameOutside root t (t.put loc e) := by
  intro l hl
  have hne : l≠loc := fun heq => hl (heq ▸ hloc)
  unfold FileTree.put
  split
  · exact if_neg hne
  · rfl

/-- Putting something that is no link below the directory makes no link. -/
theorem LinkFree.put {e : Entry} (h : LinkFree t root) (he : ∀ target, e≠.symlink target) :
    LinkFree (t.put loc e) root := by
  refine ⟨dir_put h.dir,fun l target hl hentry => ?_⟩
  rcases entry_of_put hentry with hold|⟨-,hnew⟩
  · exact h.links l target hl hold
  · exact he target hnew.symm

/-- A directory made on the way to a location below the directory is made below it. -/
theorem LinkFree.mkdir {q : List Component} {c : Component} (h : LinkFree fs.tree root)
    (hnames : root<+:names) (hpath : q++[c]<+:spelled names) (hmkdir : fs.mkdir q c=.ok fs') :
    LinkFree fs'.tree root ∧ SameOutside root fs.tree fs'.tree := by
  obtain ⟨name,dir,b,rfl,hwalk,-,hnone,rfl⟩ := mkdir_ok hmkdir
  -- the directory that is made is spelled by a first part of the path
  obtain ⟨l,rfl,hl⟩ : ∃ l, q=spelled l ∧ l++[name]<+:names := by
    obtain ⟨rest,hrest⟩ := hpath
    rw [List.append_assoc,List.singleton_append] at hrest
    cases q with
    | nil =>
      obtain ⟨hroot,-⟩ := List.cons.inj hrest
      cases hroot
    | cons a q =>
      obtain ⟨rfl,hmap⟩ := List.cons.inj hrest
      obtain ⟨l,l',rfl,rfl,hl'⟩ := List.map_eq_append_iff.mp hmap.symm
      obtain ⟨n,r,rfl,hn,-⟩ := List.map_eq_cons_iff.mp hl'
      cases hn
      exact ⟨l,rfl,⟨r,by rw [List.append_assoc,List.singleton_append]⟩⟩
  have hl' : l<+:names := (List.prefix_append l [name]).trans hl
  have hdir : dir=l := by
    rcases h.walk_spelled (comparable (.inl hnames) hl') with ⟨b',hw⟩|⟨d,n,b',hw,-⟩|⟨e,hw⟩
    · rw [hw] at hwalk
      cases hwalk
      rfl
    · rw [hw] at hwalk
      cases hwalk
    · rw [hw] at hwalk
      cases hwalk
  rw [hdir] at hnone ⊢
  have hinside : root<+:l++[name] := by
    refine (comparable (.inl hnames) hl).resolve_right fun habove => ?_
    rw [dir_above h.dir habove] at hnone
    cases hnone
  exact ⟨h.put fun _ => Entry.noConfusion,sameOutside_put hinside⟩

/-- A file written along a path into the directory is written below it. -/
theorem LinkFree.write {content : String} (h : LinkFree fs.tree root) (hnames : root<+:names)
    (hwrite : fs.write (spelled names) content=.ok fs') :
    LinkFree fs'.tree root ∧ SameOutside root fs.tree fs'.tree := by
  unfold FileSystem.write at hwrite
  split at hwrite
  · next loc hopen =>
    cases hwrite
    have hloc := h.openCreate_spelled hnames hopen
    exact ⟨h.put fun _ => Entry.noConfusion,sameOutside_put (hloc ▸ hnames)⟩
  · cases hwrite

end AegisRuntime.LinkFreeTrees
