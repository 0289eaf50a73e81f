import AegisRuntime.WorkspacePaths

/-!
# Lexical normalisation

What `normalize_path` makes of an absolute path. Resolving the components from left
to right, a `..` at the root directory stays there; `normalize_path` takes the root
directory off its stack instead, and the path it returns is relative from then on.
The two agree exactly on the paths that never climb past the root directory.
-/

namespace AegisRuntime.LexicalPaths

open SymlinkTrees WorkspacePaths

variable {p rest stack : List Component}

/-- One component resolved at a location; the parent of the root directory is the
root directory. -/
def resolveComponent (at_ : Loc) : Component → Loc
  | .rootDir => []
  | .curDir => at_
  | .parentDir => at_.dropLast
  | .normal name => at_++[name]

/-- The location that the components lead to, each resolved as text alone. -/
def resolveLexically (p : List Component) : Loc := p.foldl resolveComponent []

/-- Whether the component is a name. -/
def isName : Component → Bool
  | .normal _ => true
  | _ => false

/-- How many names there are. -/
def nameCount (p : List Component) : ℕ := p.countP isName

/-- How many `..` there are. -/
def parentCount (p : List Component) : ℕ := p.count .parentDir

/-- No beginning of the path has more `..` than names. -/
def StaysBelow (p : List Component) : Prop := ∀ q, q<+:p → parentCount q ≤ nameCount q

/-- `Path::join`: an absolute path replaces the base. -/
def joinPath (base path : List Char) : List Char :=
  if isAbsolute path then path
  else if base=[] ∨ base.getLast?=some '/' then base++path
  else base++ '/'::path

/-- What the normal form of an absolute path is to be. -/
structure LexicallyNormal (p : List Component) : Prop where
  /-- It is absolute. -/
  absolute : ∃ rest, normalizePath p=.rootDir::rest
  /-- It has neither `.` nor `..`. -/
  clean : ∀ c∈normalizePath p, c≠.curDir ∧ c≠.parentDir
  /-- It is the location that the components lead to. -/
  resolved : normalizePath p=locPath (resolveLexically p)
  /-- Normalising it again changes nothing. -/
  again : normalizePath (normalizePath p)=normalizePath p

theorem nameCount_concat (p : List Component) (c : Component) :
    nameCount (p++[c])=nameCount p+if isName c then 1 else 0 := by
  rw [nameCount,List.countP_append,List.countP_singleton]
  rfl

theorem parentCount_concat (p : List Component) (c : Component) :
    parentCount (p++[c])=parentCount p+if c=.parentDir then 1 else 0 := by
  rw [parentCount,List.count_append,List.count_singleton]
  simp only [beq_iff_eq]
  rfl

theorem staysBelow_concat {c : Component} : StaysBelow (rest++[c]) ↔
    StaysBelow rest ∧ parentCount (rest++[c]) ≤ nameCount (rest++[c]) := by
  constructor
  · exact fun h => ⟨fun q hq => h q (hq.trans (List.prefix_append rest [c])),
      h _ (List.prefix_refl _)⟩
  · rintro ⟨hrest,hall⟩ q hq
    rcases List.prefix_concat_iff.mp hq with rfl|hq
    · exact hall
    · exact hrest q hq

/-- The leading root directory does not count. -/
theorem staysBelow_root : StaysBelow (.rootDir::rest) ↔ StaysBelow rest := by
  have hsame : ∀ q, parentCount (.rootDir::q)=parentCount q ∧ nameCount (.rootDir::q)=nameCount q :=
    fun q => ⟨rfl,rfl⟩
  constructor
  · intro h q hq
    have hroot := h (.rootDir::q) (List.cons_prefix_cons.mpr ⟨rfl,hq⟩)
    rw [(hsame q).1,(hsame q).2] at hroot
    exact hroot
  · intro h q hq
    cases q with
    | nil => exact Nat.le_refl 0
    | cons c q =>
      obtain ⟨hc,hbegins⟩ := List.cons_prefix_cons.mp hq
      rw [hc,(hsame q).1,(hsame q).2]
      exact h q hbegins

/-- Where the stack stands after some components behind the root directory: at the
location they lead to, or without the root directory once they climbed past it. -/
inductive StackCase (rest : List Component) : Prop where
  /-- No `..` was one too many. -/
  | below (stays : StaysBelow rest)
    (stack : rest.foldl pushComponent [.rootDir]=locPath (resolveLexically rest))
    (depth : (resolveLexically rest).length+parentCount rest=nameCount rest)
  /-- The root directory was taken off. -/
  | climbed (climbs : ¬ StaysBelow rest) (names : List String)
    (stack : rest.foldl pushComponent [.rootDir]=names.map .normal)

theorem locPath_concat (l : Loc) (name : String) :
    locPath (l++[name])=locPath l++[.normal name] := by
  rw [locPath,List.map_append]
  rfl

theorem pushComponent_parent {l : Loc} (h : l≠[]) :
    pushComponent (locPath l) .parentDir=locPath l.dropLast := by
  cases l with
  | nil => exact absurd rfl h
  | cons n l =>
    rw [pushComponent,locPath,locPath,List.map_cons,List.dropLast_cons_cons,←List.map_cons,
      List.map_dropLast]

theorem resolveLexically_concat (rest : List Component) (c : Component) :
    resolveLexically (rest++[c])=resolveComponent (resolveLexically rest) c := by
  rw [resolveLexically,List.foldl_append]
  rfl

theorem stack_concat (rest : List Component) (c : Component) :
    (rest++[c]).foldl pushComponent [.rootDir]=
      pushComponent (rest.foldl pushComponent [.rootDir]) c := by
  rw [List.foldl_append]
  rfl

/-- From below, one more component stays below, unless it is a `..` at the root. -/
theorem StackCase.of_below {c : Component} (hc : c≠.rootDir) (hstays : StaysBelow rest)
    (hstack : rest.foldl pushComponent [.rootDir]=locPath (resolveLexically rest))
    (hdepth : (resolveLexically rest).length+parentCount rest=nameCount rest) :
    StackCase (rest++[c]) := by
  have hresolve := resolveLexically_concat rest c
  have hpush := stack_concat rest c
  cases c with
  | rootDir => exact absurd rfl hc
  | curDir =>
    have hparents : parentCount (rest++[Component.curDir])=parentCount rest :=
      parentCount_concat rest .curDir
    have hnames : nameCount (rest++[Component.curDir])=nameCount rest :=
      nameCount_concat rest .curDir
    refine .below (staysBelow_concat.mpr ⟨hstays,?_⟩) ?_ ?_
    · rw [hparents,hnames]
      exact hstays rest (List.prefix_refl rest)
    · rw [hpush,hresolve,hstack]
      rfl
    · rw [hparents,hnames,hresolve]
      exact hdepth
  | normal name =>
    have hparents : parentCount (rest++[Component.normal name])=parentCount rest :=
      parentCount_concat rest (.normal name)
    have hnames : nameCount (rest++[Component.normal name])=nameCount rest+1 :=
      nameCount_concat rest (.normal name)
    refine .below (staysBelow_concat.mpr ⟨hstays,?_⟩) ?_ ?_
    · rw [hparents,hnames]
      exact Nat.le_succ_of_le (hstays rest (List.prefix_refl rest))
    · rw [hpush,hresolve,hstack,resolveComponent,locPath_concat]
      rfl
    · rw [hparents,hnames,hresolve,resolveComponent,List.length_append,List.length_singleton]
      omega
  | parentDir =>
    have hparents : parentCount (rest++[Component.parentDir])=parentCount rest+1 :=
      parentCount_concat rest .parentDir
    have hnames : nameCount (rest++[Component.parentDir])=nameCount rest :=
      nameCount_concat rest .parentDir
    by_cases hroot : resolveLexically rest=[]
    · -- one too many: the root directory is the last of the stack
      refine .climbed ?_ [] ?_
      · rw [staysBelow_concat,hparents,hnames]
        rw [hroot,List.length_nil] at hdepth
        omega
      · rw [hpush,hstack,hroot]
        rfl
    · have hpos := List.length_pos_iff.mpr hroot
      refine .below (staysBelow_concat.mpr ⟨hstays,?_⟩) ?_ ?_
      · rw [hparents,hnames]
        omega
      · rw [hpush,hresolve,hstack,pushComponent_parent hroot]
        rfl
      · rw [hparents,hnames,hresolve,resolveComponent,List.length_dropLast]
        omega

/-- Once the root directory was taken off, it does not come back. -/
theorem StackCase.of_climbed {c : Component} (hc : c≠.rootDir) (hclimbs : ¬ StaysBelow rest)
    {names : List String} (hstack : rest.foldl pushComponent [.rootDir]=names.map .normal) :
    StackCase (rest++[c]) := by
  have hpush := stack_concat rest c
  have hclimbed : ¬ StaysBelow (rest++[c]) := fun hall => hclimbs (staysBelow_concat.mp hall).1
  cases c with
  | rootDir => exact absurd rfl hc
  | curDir => exact .climbed hclimbed names (by rw [hpush,hstack]; rfl)
  | normal name =>
    exact .climbed hclimbed (names++[name]) (by rw [hpush,hstack,List.map_append]; rfl)
  | parentDir =>
    exact .climbed hclimbed names.dropLast (by rw [hpush,hstack,List.map_dropLast]; rfl)

theorem stackCase (h : ∀ c∈rest, c≠.rootDir) : StackCase rest := by
  induction rest using List.reverseRecOn with
  | nil =>
    refine .below ?_ rfl rfl
    intro q hq
    rw [List.prefix_nil.mp hq]
    exact Nat.le_refl 0
  | append_singleton rest c ih =>
    have hc : c≠.rootDir := h c (List.mem_append_right rest List.mem_cons_self)
    rcases ih fun d hd => h d (List.mem_append_left [c] hd) with
      ⟨hstays,hstack,hdepth⟩|⟨hclimbs,names,hstack⟩
    · exact .of_below hc hstays hstack hdepth
    · exact .of_climbed hc hclimbs hstack

/-- A dropped `.` would have changed nothing. -/
theorem foldl_filter_curDir (rest stack : List Component) :
    (rest.filter fun d => decide (d≠.curDir)).foldl pushComponent stack=
      rest.foldl pushComponent stack := by
  induction rest generalizing stack with
  | nil => rfl
  | cons c rest ih =>
    by_cases hc : c=.curDir
    · rw [List.filter_cons_of_neg (by simp [hc]),ih,hc]
      rfl
    · rw [List.filter_cons_of_pos (by simp [hc]),List.foldl_cons,List.foldl_cons,ih]

theorem normalizePath_root (rest : List Component) :
    normalizePath (.rootDir::rest)=rest.foldl pushComponent [.rootDir] := by
  rw [normalizePath,components,List.foldl_cons,foldl_filter_curDir]
  rfl

/-- An absolute text is read as the root directory and components behind it. -/
theorem parsePath_absolute {text : List Char} (h : isAbsolute text=true) :
    ∃ rest, parsePath text=.rootDir::rest ∧ ∀ c∈rest, c≠.rootDir := by
  have htail := parsePath_tail text
  rw [parsePath,if_pos h] at htail ⊢
  exact ⟨_,rfl,htail⟩

theorem foldl_names (l : List String) (stack : List Component) :
    (l.map Component.normal).foldl pushComponent stack=stack++l.map .normal := by
  induction l generalizing stack with
  | nil => exact (List.append_nil _).symm
  | cons n l ih =>
    rw [List.map_cons,List.foldl_cons,ih,pushComponent,List.append_assoc]
    · rfl
    · intro h
      cases h
    · intro h
      cases h

/-- A path of names is normal. -/
theorem normalizePath_of_names (h : NameStack p) : normalizePath p=p := by
  obtain ⟨l,rfl|rfl⟩ := h
  · cases l with
    | nil => rfl
    | cons n l =>
      rw [normalizePath,List.map_cons,components,List.foldl_cons,foldl_filter_curDir,foldl_names]
      rfl
  · rw [normalizePath_root,foldl_names]
    rfl

/-- The normal form is absolute exactly when the path never climbs past the root
directory. -/
theorem absolute_iff {text : List Char} (h : isAbsolute text=true) :
    (∃ rest, normalizePath (parsePath text)=.rootDir::rest) ↔ StaysBelow (parsePath text) := by
  obtain ⟨rest,hparsed,hrest⟩ := parsePath_absolute h
  rw [hparsed,normalizePath_root,staysBelow_root]
  rcases stackCase hrest with ⟨hstays,hstack,-⟩|⟨hclimbs,names,hstack⟩
  · exact iff_of_true ⟨_,hstack⟩ hstays
  · refine iff_of_false ?_ hclimbs
    rintro ⟨more,heq⟩
    rw [hstack] at heq
    obtain ⟨n,-,hn⟩ := List.mem_map.mp (heq ▸ List.mem_cons_self)
    cases hn

/-- A path that never climbs past the root directory has the normal form it should. -/
theorem lexicallyNormal_of_staysBelow {text : List Char} (h : isAbsolute text=true)
    (hstays : StaysBelow (parsePath text)) : LexicallyNormal (parsePath text) := by
  refine ⟨(absolute_iff h).mpr hstays,?_,?_,normalizePath_of_names (normalizePath_names text)⟩
  · intro c hc
    obtain ⟨l,hl|hl⟩ := normalizePath_names text
    · rw [hl] at hc
      obtain ⟨n,-,rfl⟩ := List.mem_map.mp hc
      exact ⟨nofun,nofun⟩
    · rw [hl] at hc
      rcases List.mem_cons.mp hc with rfl|hc
      · exact ⟨nofun,nofun⟩
      · obtain ⟨n,-,rfl⟩ := List.mem_map.mp hc
        exact ⟨nofun,nofun⟩
  · obtain ⟨rest,hparsed,hrest⟩ := parsePath_absolute h
    rw [hparsed] at hstays ⊢
    rw [normalizePath_root]
    rcases stackCase hrest with ⟨-,hstack,-⟩|⟨hclimbs,-,-⟩
    · exact hstack
    · exact absurd (staysBelow_root.mp hstays) hclimbs

/-- What is joined to an absolute path is absolute. -/
theorem isAbsolute_joinPath {base : List Char} (h : isAbsolute base=true) (path : List Char) :
    isAbsolute (joinPath base path)=true := by
  have happend : ∀ more, isAbsolute (base++more)=true := by
    intro more
    cases base with
    | nil => cases h
    | cons c base => exact h
  unfold joinPath
  split
  · assumption
  · split
    · exact happend _
    · exact happend _

/-- An absolute path has the normal form it should exactly when it never climbs past
the root directory; a path joined to an absolute root stays absolute exactly then.
Normalising twice is normalising once for every path. -/
theorem lexical_normalisation_iff (text : List Char) :
    (isAbsolute text=true →
      (LexicallyNormal (parsePath text) ↔ StaysBelow (parsePath text))) ∧
      (∀ path, isAbsolute text=true → isAbsolute path=false →
        ((∃ rest, normalizePath (parsePath (joinPath text path))=.rootDir::rest) ↔
          StaysBelow (parsePath (joinPath text path)))) ∧
      normalizePath (normalizePath (parsePath text))=normalizePath (parsePath text) := by
  refine ⟨fun h => ⟨fun hnormal => (absolute_iff h).mp hnormal.absolute,
    lexicallyNormal_of_staysBelow h⟩,fun path h _ => ?_,?_⟩
  · exact absolute_iff (isAbsolute_joinPath h path)
  · exact normalizePath_of_names (normalizePath_names text)

/-- The parent of the root directory comes out as the empty path, and a request with
enough `..` as a relative one. -/
theorem parent_of_root_lost :
    (¬ ∀ text, isAbsolute text=true → LexicallyNormal (parsePath text)) ∧
      normalizePath (parsePath "/..".toList)=[] ∧
      normalizePath (parsePath (joinPath "/ws".toList "../../etc".toList))=[.normal "etc"] := by
  refine ⟨fun hall => ?_,by decide,by decide⟩
  obtain ⟨rest,hrest⟩ := (hall "/..".toList (by decide)).absolute
  have hempty : normalizePath (parsePath "/..".toList)=[] := by decide
  rw [hempty] at hrest
  cases hrest

end AegisRuntime.LexicalPaths
