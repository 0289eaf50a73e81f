import AegisRuntime.SymlinkTrees

/-!
# File-system calls over a directory tree

The calls that a program makes on paths: existence, canonicalisation, one
directory, a directory with its ancestors, and writing a file. The rules say
what a chain of directory creations can change, and where a file written below
such a chain lies.
-/

namespace AegisRuntime.FileSystemCalls

open SymlinkTrees

/-- A tree with what a process brings to path resolution. -/
structure FileSystem where
  /-- The directory tree. -/
  tree : FileTree
  /-- How many links one resolution may follow. -/
  maxLinks : ℕ
  /-- The current directory, where relative paths start. -/
  cwd : Loc

/-- Resolves a path from the current directory. -/
def FileSystem.walkPath (fs : FileSystem) (p : List Component) : Except Errno (Found×ℕ) :=
  walk fs.tree fs.maxLinks fs.cwd p

/-- The real location of an existing path; the empty path names nothing. -/
def FileSystem.canonicalize (fs : FileSystem) (p : List Component) : Except Errno Loc :=
  if p=[] then .error .notFound
  else
    match fs.walkPath p with
    | .ok (.entry loc,_) => .ok loc
    | .ok (.vacant _ _,_) => .error .notFound
    | .error e => .error e

/-- Whether a path leads to something. -/
def FileSystem.pathExists (fs : FileSystem) (p : List Component) : Bool :=
  match fs.canonicalize p with
  | .ok _ => true
  | .error _ => false

/-- Whether a path leads to a directory. -/
def FileSystem.isDir (fs : FileSystem) (p : List Component) : Bool :=
  match fs.canonicalize p with
  | .ok loc => decide (fs.tree.entry loc=some .dir)
  | .error _ => false

/-- Makes one directory. A last component that is a symbolic link is not
followed: the name is taken. -/
def FileSystem.mkdir (fs : FileSystem) (parent : List Component) (last : Component) :
    Except Errno FileSystem :=
  match last with
  | .normal name =>
    match fs.walkPath parent with
    | .ok (.entry dir,_) =>
      if fs.tree.entry dir=some .dir then
        if fs.tree.entry (dir++[name])=none then
          .ok {fs with tree := fs.tree.put (dir++[name]) .dir}
        else .error .alreadyExists
      else .error .notDir
    | .ok (.vacant _ _,_) => .error .notFound
    | .error e => .error e
  | _ => .error .alreadyExists

/-- Makes a directory and its missing ancestors; the components are given last
first. Directories made before a failure stay. -/
def FileSystem.createAncestors (fs : FileSystem) :
    List Component → Except Errno Unit×FileSystem
  | [] => (.ok (),fs)
  | c::rest =>
    match fs.mkdir rest.reverse c with
    | .ok fs' => (.ok (),fs')
    | .error .notFound =>
      match fs.createAncestors rest with
      | (.ok (),fs') =>
        match fs'.mkdir rest.reverse c with
        | .ok fs'' => (.ok (),fs'')
        | .error e => (if fs'.isDir (c::rest).reverse then .ok () else .error e,fs')
      | (.error e,fs') => (.error e,fs')
    | .error e => (if fs.isDir (c::rest).reverse then .ok () else .error e,fs)

/-- Makes a directory and its missing ancestors. -/
def FileSystem.createDirAll (fs : FileSystem) (p : List Component) :
    Except Errno Unit×FileSystem :=
  fs.createAncestors p.reverse

/-- Where a file opened for writing lies, from where its path resolved to: an
existing file is truncated, a missing one is created. -/
def openedAt (t : FileTree) : Except Errno (Found×ℕ) → Except Errno Loc
  | .ok (.entry loc,_) => if t.entry loc=some .dir then .error .isDir else .ok loc
  | .ok (.vacant dir name,_) => .ok (dir++[name])
  | .error e => .error e

/-- The file that opening a path for writing truncates or creates. -/
def FileSystem.openCreate (fs : FileSystem) (p : List Component) : Except Errno Loc :=
  if p=[] then .error .notFound else openedAt fs.tree (fs.walkPath p)

/-- Writes the whole content of a file. -/
def FileSystem.write (fs : FileSystem) (p : List Component) (content : String) :
    Except Errno FileSystem :=
  match fs.openCreate p with
  | .ok loc => .ok {fs with tree := fs.tree.put loc (.file content)}
  | .error e => .error e

variable {fs fs' : FileSystem} {p q rest : List Component} {c : Component} {loc dir : Loc} {b : ℕ}

/-- An entry put where nothing stood extends the tree. -/
theorem put_extends {t : FileTree} {e : Entry} (h : t.entry loc=none) :
    t.Extends (t.put loc e) := by
  intro l e' hl
  unfold FileTree.put
  split
  · have hne : l≠loc := by
      intro heq
      rw [heq,h] at hl
      cases hl
    simp only [if_neg hne,hl]
  · exact hl

/-- What stands in a tree after a put stood there or was put. -/
theorem entry_of_put {t : FileTree} {e e' : Entry} {l : Loc}
    (h : (t.put loc e).entry l=some e') : t.entry l=some e' ∨ l=loc ∧ e'=e := by
  unfold FileTree.put at h
  split at h
  · simp only [] at h
    split at h
    · next hl => exact Or.inr ⟨hl,(Option.some.inj h).symm⟩
    · exact Or.inl h
  · exact Or.inl h

theorem walk_of_canonicalize (h : fs.canonicalize p=.ok loc) :
    ∃ b, fs.walkPath p=.ok (.entry loc,b) := by
  unfold FileSystem.canonicalize at h
  split at h
  · cases h
  · split at h
    · next l b hw =>
      cases h
      exact ⟨b,hw⟩
    · cases h
    · cases h

theorem canonicalize_of_walk (hp : p≠[]) (h : fs.walkPath p=.ok (.entry loc,b)) :
    fs.canonicalize p=.ok loc := by
  rw [FileSystem.canonicalize,if_neg hp,h]

/-- All that a successful `mkdir` does. -/
theorem mkdir_ok (h : fs.mkdir q c=.ok fs') :
    ∃ name dir b, c=.normal name ∧ fs.walkPath q=.ok (.entry dir,b) ∧
      fs.tree.entry dir=some .dir ∧ fs.tree.entry (dir++[name])=none ∧
      fs'={fs with tree := fs.tree.put (dir++[name]) .dir} := by
  cases c with
  | normal name =>
    simp only [FileSystem.mkdir] at h
    split at h
    · next dir b hw =>
      split at h
      · next hd =>
        split at h
        · next hn => exact ⟨name,dir,b,rfl,hw,hd,hn,(Except.ok.inj h).symm⟩
        · cases h
      · cases h
    · cases h
    · cases h
  | rootDir => cases h
  | curDir => cases h
  | parentDir => cases h

/-- A directory is not made where the path leads to something. -/
theorem mkdir_of_exists (h : fs.walkPath (q++[c])=.ok (.entry loc,b)) : fs.mkdir q c≠.ok fs' := by
  intro hm
  obtain ⟨name,dir,d,hc,hw,hd,hn,-⟩ := mkdir_ok hm
  subst hc
  unfold FileSystem.walkPath at h hw
  rw [walk_append (List.cons_ne_nil _ _),hw,resume,walk_normal,if_pos hd,hn] at h
  simp at h

/-- What every directory creation along a path keeps, `createDirAll` keeps. -/
theorem createDirAll_invariant (I : FileSystem → Prop) (p : List Component)
    (hstep : ∀ fs q c rest fs', q++c::rest=p → I fs → fs.mkdir q c=.ok fs' → I fs')
    (h : I fs) : I (fs.createDirAll p).2 := by
  have hrev : ∀ (l tail : List Component), l.reverse++tail=p → I (fs.createAncestors l).2 := by
    intro l
    induction l with
    | nil => exact fun _ _ => h
    | cons c l ih =>
      intro tail hl
      rw [List.reverse_cons,List.append_assoc,List.singleton_append] at hl
      have hrec := ih (c::tail) hl
      simp only [FileSystem.createAncestors]
      split
      · next fs' hm => exact hstep fs l.reverse c tail fs' hl h hm
      · split
        · next fs' hc =>
          rw [hc] at hrec
          split
          · next fs'' hm => exact hstep fs' l.reverse c tail fs'' hl hrec hm
          · exact hrec
        · next hc =>
          rw [hc] at hrec
          exact hrec
      · exact h
  exact hrev p.reverse [] (by simp)

/-- When no directory of the path can be made, nothing changes. -/
theorem createDirAll_unchanged
    (h : ∀ q c rest fs', q++c::rest=p → fs.mkdir q c≠.ok fs') : (fs.createDirAll p).2=fs := by
  have hstep : ∀ fs₁ q c rest fs₂, q++c::rest=p → fs₁=fs → fs₁.mkdir q c=.ok fs₂ → fs₂=fs := by
    intro fs₁ q c rest fs₂ hp heq hm
    rw [heq] at hm
    exact absurd hm (h q c rest fs₂ hp)
  exact createDirAll_invariant (fun fs₁ => fs₁=fs) p hstep rfl

/-- `createDirAll` leaves a path that exists alone. -/
theorem createDirAll_of_exists (h : fs.walkPath p=.ok (.entry loc,b)) :
    (fs.createDirAll p).2=fs := by
  refine createDirAll_unchanged fun q c rest fs' hp => ?_
  rw [←hp,List.append_cons] at h
  obtain ⟨l,d,hw⟩ := walk_prefix h
  exact mkdir_of_exists hw

/-- Opening a name in an existing directory looks at one entry. -/
theorem openCreate_concat {name : String} (h : fs.walkPath p=.ok (.entry dir,b)) :
    fs.openCreate (p++[.normal name])=openedAt fs.tree (walk fs.tree b dir [.normal name]) := by
  rw [FileSystem.openCreate,if_neg (by simp)]
  unfold FileSystem.walkPath at h ⊢
  rw [walk_append (List.cons_ne_nil _ _),h,resume]

/-- Below a place only directories stand. -/
def OnlyDirsBelow (t : FileTree) (loc : Loc) : Prop :=
  ∀ l e, t.entry (loc++l)=some e → e=.dir

/-- A place where nothing stands has nothing below it. -/
theorem onlyDirsBelow_of_none {t : FileTree} (h : t.entry loc=none) : OnlyDirsBelow t loc := by
  intro l
  have hnone : t.entry (loc++l)=none := by
    induction l using List.reverseRecOn with
    | nil => rwa [List.append_nil]
    | append_singleton l n ih =>
      by_contra hs
      rw [←List.append_assoc] at hs
      have hdir := t.parent_dir (loc++l) n (Option.isSome_iff_ne_none.mpr hs)
      rw [ih] at hdir
      cases hdir
  intro e he
  rw [hnone] at he
  cases he

/-- Names from a directory whose next name has only directories below it lead to
the place that they spell. -/
theorem walk_below {t : FileTree} {n : String} (h : OnlyDirsBelow t (dir++[n]))
    (names : List String) (hn : names=[] ∨ ∃ l, names=n::l) :
    walk t b dir (names.map .normal)=.ok (.entry (dir++names),b) ∨
      (∃ d m, walk t b dir (names.map .normal)=.ok (.vacant d m,b) ∧ d++[m]=dir++names) ∨
      ∃ e, walk t b dir (names.map .normal)=.error e := by
  refine walk_names t b names dir fun l target hl hne he => ?_
  obtain ⟨m,l',hml⟩ := List.exists_cons_of_ne_nil hne
  rcases hn with hnil|⟨l₂,hcons⟩
  · rw [hnil] at hl
    exact hne (List.prefix_nil.mp hl)
  · rw [hml,hcons] at hl
    obtain ⟨hm,-⟩ := List.cons_prefix_cons.mp hl
    have hdir := h l' (.symlink target) (by rw [←he,hml,hm]; simp)
    cases hdir

/-- What a chain of creations below a free name keeps: the directory that was
there, and only directories below the name. -/
structure BelowName (start : FileSystem) (q : List Component) (dir : Loc) (b : ℕ) (n : String)
    (fs : FileSystem) : Prop where
  /-- The bound on links is the same. -/
  maxLinks : fs.maxLinks=start.maxLinks
  /-- The current directory is the same. -/
  cwd : fs.cwd=start.cwd
  /-- The existing part of the path leads where it led. -/
  reached : fs.walkPath q=.ok (.entry dir,b)
  /-- Nothing but directories is below the name. -/
  below : OnlyDirsBelow fs.tree (dir++[n])

/-- Any creation keeps `BelowName`: it puts a directory where nothing stood. -/
theorem BelowName.mkdir {start : FileSystem} {n : String} {q' : List Component}
    (h : BelowName start q dir b n fs) (hm : fs.mkdir q' c=.ok fs') :
    BelowName start q dir b n fs' := by
  obtain ⟨name,d,k,hc,hw,hd,hnone,hfs⟩ := mkdir_ok hm
  subst hfs
  constructor
  · exact h.maxLinks
  · exact h.cwd
  · exact walk_extends (put_extends hnone) q fs.cwd h.reached
  · intro l e he
    rcases entry_of_put he with hold|⟨-,hnew⟩
    · exact h.below l e hold
    · exact hnew

/-- Going on from an existing part of a path. -/
theorem walkPath_append (h : fs.walkPath q=.ok (.entry dir,b)) (rest : List Component) :
    fs.walkPath (q++rest)=walk fs.tree b dir rest := by
  by_cases hrest : rest=[]
  · rw [hrest,List.append_nil,h,walk_nil]
  · unfold FileSystem.walkPath at h ⊢
    rw [walk_append hrest,h,resume]

/-- A directory made along a path with an existing first part is made past it. -/
theorem mkdir_past_existing {q' tail : List Component} (h : fs.walkPath q=.ok (.entry dir,b))
    (hp : q'++c::rest=q++tail) (hm : fs.mkdir q' c=.ok fs') :
    ∃ s, q'=q++s ∧ tail=s++c::rest := by
  rcases List.append_eq_append_iff.mp hp with ⟨s,hq,hs⟩|⟨s,hq,hs⟩
  · cases s with
    | nil => exact ⟨[],by rw [hq,List.append_nil,List.append_nil],hs.symm⟩
    | cons a s =>
      obtain ⟨ha,hs⟩ := List.cons.inj hs
      rw [hq,←ha,List.append_cons] at h
      obtain ⟨l,d,hw⟩ := walk_prefix h
      exact absurd hm (mkdir_of_exists hw)
  · exact ⟨s,hq,hs⟩

/-- When the name after the existing part of a path is not free, but leads
nowhere, `createDirAll` changes nothing. -/
theorem createDirAll_blocked {n : String} {r : List Component}
    (h : fs.walkPath q=.ok (.entry dir,b))
    (hmissing : ∀ l d, fs.walkPath (q++[.normal n])≠.ok (.entry l,d))
    (hfree : ¬(fs.tree.entry dir=some .dir ∧ fs.tree.entry (dir++[n])=none)) :
    (fs.createDirAll (q++.normal n::r)).2=fs := by
  refine createDirAll_unchanged fun q' c rest fs' hp hm => ?_
  obtain ⟨s,hq,hs⟩ := mkdir_past_existing h hp hm
  obtain ⟨name,d,k,hc,hw,hd,hnone,-⟩ := mkdir_ok hm
  subst hq
  cases s with
  | nil =>
    rw [List.append_nil,h] at hw
    obtain ⟨hn,-⟩ := List.cons.inj hs
    rw [hc] at hn
    cases hw
    cases hn
    exact hfree ⟨hd,hnone⟩
  | cons a s =>
    obtain ⟨ha,-⟩ := List.cons.inj hs
    rw [←ha,List.append_cons] at hw
    obtain ⟨l,e,hl⟩ := walk_prefix hw
    exact hmissing l e hl

/-- Past the existing part of a path, the missing directories and the file
opened for writing are made below it. -/
theorem created_below {n last : String} {r : List String}
    (h : fs.walkPath q=.ok (.entry dir,b))
    (hmissing : ∀ l d, fs.walkPath (q++[.normal n])≠.ok (.entry l,d))
    (hopen : (fs.createDirAll (q++(n::r).map .normal)).2.openCreate
      (q++(n::r).map .normal++[.normal last])=.ok loc) : dir<+:loc := by
  have happ : q++(n::r).map Component.normal++[.normal last]=
      q++(n::(r++[last])).map .normal := by simp
  by_cases hfree : fs.tree.entry dir=some .dir ∧ fs.tree.entry (dir++[n])=none
  · have hinv : BelowName fs q dir b n (fs.createDirAll (q++(n::r).map .normal)).2 := by
      refine createDirAll_invariant (BelowName fs q dir b n) _ ?_ ?_
      · exact fun _ _ _ _ _ _ hb hm => hb.mkdir hm
      · exact ⟨rfl,rfl,h,onlyDirsBelow_of_none hfree.2⟩
    generalize (fs.createDirAll (q++(n::r).map .normal)).2=fs₂ at hinv hopen
    rw [happ,FileSystem.openCreate,if_neg (by simp),walkPath_append hinv.reached] at hopen
    rcases walk_below hinv.below (n::(r++[last])) (Or.inr ⟨_,rfl⟩) with hw|⟨d,m,hw,hdm⟩|⟨e,hw⟩
    · rw [hw] at hopen
      simp only [openedAt] at hopen
      split at hopen
      · cases hopen
      · cases hopen
        exact List.prefix_append _ _
    · rw [hw] at hopen
      cases hopen
      rw [hdm]
      exact List.prefix_append _ _
    · rw [hw] at hopen
      cases hopen
  · rw [List.map_cons,createDirAll_blocked h hmissing hfree,←List.map_cons,happ,List.map_cons,
      List.append_cons,FileSystem.openCreate,if_neg (by simp)] at hopen
    unfold FileSystem.walkPath at hopen hmissing
    rw [walk_append (by simp)] at hopen
    unfold resume at hopen
    split at hopen
    · next l d hw => exact absurd hw (hmissing l d)
    · cases hopen
    · cases hopen

end AegisRuntime.FileSystemCalls
