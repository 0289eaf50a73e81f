import AegisRuntime.FileSystemCalls
import AegisRuntime.JsonValues
import AegisRuntime.TextScanning

/-!
# Workspace-bound paths

The path checks of `WorkspaceCapability` and the `write_file` skill on a
directory tree with symbolic links: for which requests the file that is written
lies inside the workspace root. Paths are Unix paths; the tree does not change
between a check and the calls after it.
-/

namespace AegisRuntime.WorkspacePaths

open SymlinkTrees FileSystemCalls TextScanning JsonValues

/-- Why a request is refused. -/
inductive SecurityError where
  /-- The request leaves what is authorised. -/
  | accessDenied (msg : String)
  /-- The path does not exist. -/
  | pathNotFound (msg : String)
  /-- The path is not of the right form. -/
  | invalidPath (msg : String)
  /-- A file-system call failed. -/
  | ioError (msg : String)
  /-- A command did not run or failed. -/
  | commandFailed (msg : String)
  deriving DecidableEq,Repr

/-- The displayed text of an error. -/
def SecurityError.text : SecurityError → String
  | .accessDenied msg => "Security rejection: "++msg
  | .pathNotFound msg => "Path not found: "++msg
  | .invalidPath msg => msg
  | .ioError msg => "I/O error: "++msg
  | .commandFailed msg => "Command execution failed: "++msg

/-- The displayed text of a failed call. -/
def errnoText : Errno → String
  | .notFound => "No such file or directory (os error 2)"
  | .alreadyExists => "File exists (os error 17)"
  | .notDir => "Not a directory (os error 20)"
  | .isDir => "Is a directory (os error 21)"
  | .tooManyLinks => "Too many levels of symbolic links (os error 40)"

/-- The component that a piece between slashes stands for. -/
def pieceComponent (w : List Char) : Component :=
  if w=['.'] then .curDir else if w=['.','.'] then .parentDir else .normal (String.ofList w)

/-- Whether a path text starts at the root directory. -/
def isAbsolute (text : List Char) : Bool := text.head?==some '/'

/-- The components that the kernel sees in a path text; a trailing slash is one
more `.`. -/
def parsePath (text : List Char) : List Component :=
  (if isAbsolute text then [.rootDir] else [])++(words (· == '/') text).map pieceComponent++
    (if text.getLast?=some '/' then [.curDir] else [])

/-- `Path::components`: every `.` but a leading one is dropped. -/
def components : List Component → List Component
  | [] => []
  | c::rest => c::rest.filter fun d => decide (d≠.curDir)

/-- The text of one component. -/
def componentText : Component → String
  | .rootDir => ""
  | .curDir => "."
  | .parentDir => ".."
  | .normal name => name

/-- The displayed text of a path. -/
def displayPath (p : List Component) : String :=
  if p=[.rootDir] then "/" else String.intercalate "/" (p.map componentText)

/-- A real location as an absolute path. -/
def locPath (loc : Loc) : List Component := .rootDir::loc.map .normal

/-- `Path::parent`: none for the empty path and for the root directory. -/
def parentPath (p : List Component) : Option (List Component) :=
  match p.getLast? with
  | none | some .rootDir => none
  | some _ => some p.dropLast

/-- One step of `normalize_path`; a `..` removes whatever is last, the root
directory included. -/
def pushComponent (stack : List Component) : Component → List Component
  | .curDir => stack
  | .parentDir => stack.dropLast
  | c => stack++[c]

/-- Lexical normalisation. -/
def normalizePath (p : List Component) : List Component :=
  (components p).foldl pushComponent []

/-- The authority over one workspace. -/
structure WorkspaceCapability where
  /-- The canonical root directory. -/
  root : Loc
  deriving DecidableEq,Repr

/-- The text of a requested path, taken from the root when it is relative. -/
def WorkspaceCapability.joined (ws : WorkspaceCapability) (text : List Char) : List Char :=
  if isAbsolute text then text
  else
    let base := (displayPath (locPath ws.root)).toList
    if base.getLast?=some '/' then base++text else base++['/']++text

/-- The lexical target of a write request. -/
def WorkspaceCapability.normalizedTarget (ws : WorkspaceCapability) (requested : String) :
    List Component :=
  normalizePath (parsePath (ws.joined (trim requested.toList)))

/-- Resolves an existing path for reading. -/
def WorkspaceCapability.resolveReadPath (ws : WorkspaceCapability) (fs : FileSystem)
    (requested : String) : Except SecurityError Loc :=
  let trimmed := trim requested.toList
  if trimmed.isEmpty then .error (.invalidPath "Path cannot be empty")
  else
    let candidate := parsePath (ws.joined trimmed)
    if !fs.pathExists candidate then
      .error (.pathNotFound ("File does not exist: "++String.ofList trimmed))
    else
      match fs.canonicalize candidate with
      | .error e => .error (.ioError
          ("Failed to canonicalize path "++String.ofList trimmed++": "++errnoText e))
      | .ok canonical =>
        if !ws.root.isPrefixOf canonical then
          .error (.accessDenied ("Path "++displayPath (locPath canonical)++
            " escapes authorized workspace root "++displayPath (locPath ws.root)))
        else .ok canonical

/-- The loop over the parents of a path, its components last first: the real
location of the lowest parent that exists. -/
def existingAncestor (fs : FileSystem) : List Component → Except SecurityError (Option Loc)
  | [] => .ok none
  | .rootDir::_ => .ok none
  | _::rest =>
    if fs.pathExists rest.reverse then
      match fs.canonicalize rest.reverse with
      | .error e => .error (.ioError
          ("Failed to canonicalize ancestor "++displayPath rest.reverse++": "++errnoText e))
      | .ok canonicalAncestor => .ok (some canonicalAncestor)
    else existingAncestor fs rest

/-- Resolves a path for writing. The path returned is the lexical one. -/
def WorkspaceCapability.resolveWritePath (ws : WorkspaceCapability) (fs : FileSystem)
    (requested : String) : Except SecurityError (List Component) :=
  let trimmed := trim requested.toList
  if trimmed.isEmpty then .error (.invalidPath "Path cannot be empty")
  else
    let normalized := ws.normalizedTarget requested
    match existingAncestor fs normalized.reverse with
    | .error e => .error e
    | .ok none => .error (.accessDenied
        ("No valid ancestor directory found for "++String.ofList trimmed))
    | .ok (some ancestor) =>
      if !ws.root.isPrefixOf ancestor then
        .error (.accessDenied ("Target ancestor "++displayPath (locPath ancestor)++
          " escapes authorized workspace root "++displayPath (locPath ws.root)))
      else if !(locPath ws.root).isPrefixOf normalized then
        .error (.accessDenied ("Normalized target path "++displayPath normalized++
          " escapes authorized workspace root "++displayPath (locPath ws.root)))
      else .ok normalized

/-- The text of a requested directory; without one it is the root. -/
def WorkspaceCapability.dirTarget (ws : WorkspaceCapability) (requested : Option String) :
    List Char :=
  let rootText := (displayPath (locPath ws.root)).toList
  match requested with
  | some d =>
    let trimmed := trim d.toList
    if !trimmed.isEmpty && trimmed != ['.'] then ws.joined trimmed else rootText
  | none => rootText

/-- Resolves an existing directory, for listing or as working directory. -/
def WorkspaceCapability.resolveDirPath (ws : WorkspaceCapability) (fs : FileSystem)
    (requested : Option String) : Except SecurityError Loc :=
  let target := ws.dirTarget requested
  if !fs.pathExists (parsePath target) then
    .error (.pathNotFound ("Directory does not exist: "++String.ofList target))
  else
    match fs.canonicalize (parsePath target) with
    | .error e => .error (.ioError
        ("Failed to canonicalize directory "++String.ofList target++": "++errnoText e))
    | .ok canonical =>
      if !fs.isDir (locPath canonical) then
        .error (.invalidPath ("Path is not a directory: "++displayPath (locPath canonical)))
      else if !ws.root.isPrefixOf canonical then
        .error (.accessDenied ("Directory "++displayPath (locPath canonical)++
          " escapes authorized workspace root "++displayPath (locPath ws.root)))
      else .ok canonical

/-- The tree in which `write_file` opens its file: the parent directories are
made when they can be, and a failure is ignored. -/
def prepareParent (fs : FileSystem) (resolved : List Component) : FileSystem :=
  match parentPath resolved with
  | some parent => (fs.createDirAll parent).2
  | none => fs

/-- A string argument of a skill call; another value or none reads as empty. -/
def textArg (args : JsonValue) (key : String) : String :=
  ((args.get key).bind JsonValue.asStr).getD ""

/-- The `write_file` skill. -/
def WorkspaceCapability.writeFile (ws : WorkspaceCapability) (fs : FileSystem) (args : JsonValue) :
    Except String String×FileSystem :=
  let content := textArg args "content"
  match ws.resolveWritePath fs (textArg args "path") with
  | .error e => (.error e.text,fs)
  | .ok resolved =>
    let ready := prepareParent fs resolved
    match ready.write resolved content with
    | .ok written => (.ok ("Wrote "++toString content.utf8ByteSize++" bytes to "++
        displayPath resolved),written)
    | .error e => (.error ("Failed to write file "++displayPath resolved++": "++errnoText e),ready)

/-- Whether the last component of a path is a symbolic link whose target,
followed from the directory of the link, names a file outside the root, to be
truncated or created. -/
def lastLinkEscapes (fs : FileSystem) (root : Loc) (p : List Component) : Bool :=
  match p.getLast?,fs.walkPath p.dropLast with
  | some (.normal name),.ok (.entry dir,b) =>
    match fs.tree.entry (dir++[name]) with
    | some (.symlink target) =>
      match openedAt fs.tree (followLink fs.tree b dir target) with
      | .ok loc => !root.isPrefixOf loc
      | .error _ => false
    | _ => false
  | _,_ => false

variable {ws : WorkspaceCapability} {fs : FileSystem} {p q : List Component} {loc dir : Loc} {b : ℕ}

/-- A read request that is granted names an existing path inside the root. -/
theorem resolveReadPath_contained {requested : String}
    (h : ws.resolveReadPath fs requested=.ok loc) :
    fs.canonicalize (parsePath (ws.joined (trim requested.toList)))=.ok loc ∧ ws.root<+:loc := by
  simp only [WorkspaceCapability.resolveReadPath] at h
  split at h
  · cases h
  · split at h
    · cases h
    · split at h
      · cases h
      · next canonical hc =>
        split at h
        · cases h
        · next hroot =>
          cases h
          have hpre : ws.root.isPrefixOf loc=true := by simpa using hroot
          exact ⟨hc,List.isPrefixOf_iff_prefix.mp hpre⟩

/-- A directory request that is granted names a directory inside the root. -/
theorem resolveDirPath_contained {requested : Option String}
    (h : ws.resolveDirPath fs requested=.ok loc) :
    fs.isDir (locPath loc)=true ∧ ws.root<+:loc := by
  simp only [WorkspaceCapability.resolveDirPath] at h
  split at h
  · cases h
  · split at h
    · cases h
    · split at h
      · cases h
      · next hdir =>
        split at h
        · cases h
        · next hroot =>
          cases h
          have hpre : ws.root.isPrefixOf loc=true := by simpa using hroot
          have hd : fs.isDir (locPath loc)=true := by simpa using hdir
          exact ⟨hd,List.isPrefixOf_iff_prefix.mp hpre⟩

/-- All that a granted write request has been checked for. -/
theorem resolveWritePath_ok {requested : String} (h : ws.resolveWritePath fs requested=.ok p) :
    p=ws.normalizedTarget requested ∧ locPath ws.root<+:p ∧
      ∃ ancestor, existingAncestor fs p.reverse=.ok (some ancestor) ∧ ws.root<+:ancestor := by
  simp only [WorkspaceCapability.resolveWritePath] at h
  split at h
  · cases h
  · split at h
    · cases h
    · cases h
    · next ancestor hanc =>
      split at h
      · cases h
      · next hroot =>
        split at h
        · cases h
        · next hnorm =>
          cases h
          have hpre : ws.root.isPrefixOf ancestor=true := by simpa using hroot
          have hlex : (locPath ws.root).isPrefixOf (ws.normalizedTarget requested)=true := by
            simpa using hnorm
          exact ⟨rfl,List.isPrefixOf_iff_prefix.mp hlex,ancestor,hanc,
            List.isPrefixOf_iff_prefix.mp hpre⟩

/-- The loop ends at a part of the path that exists while one more component
does not, or at the parent of the whole path. -/
theorem existingAncestor_ok {l : List Component} (h : existingAncestor fs l=.ok (some loc)) :
    ∃ q c tail, l.reverse=q++c::tail ∧ fs.canonicalize q=.ok loc ∧
      (tail≠[] → fs.pathExists (q++[c])=false) := by
  induction l with
  | nil => cases h
  | cons c l ih =>
    have hloop : existingAncestor fs (c::l)=.ok (some loc) →
        (if fs.pathExists l.reverse then
          match fs.canonicalize l.reverse with
          | .error e => .error (.ioError
              ("Failed to canonicalize ancestor "++displayPath l.reverse++": "++errnoText e))
          | .ok canonicalAncestor => .ok (some canonicalAncestor)
        else existingAncestor fs l)=.ok (some loc) := by
      intro h
      cases c with
      | rootDir => cases h
      | curDir => exact h
      | parentDir => exact h
      | normal name => exact h
    have hl := hloop h
    split at hl
    · split at hl
      · cases hl
      · next a ha =>
        cases hl
        exact ⟨l.reverse,c,[],by simp,ha,fun hne => absurd rfl hne⟩
    · next hmissing =>
      obtain ⟨q,d,tail,hq,hcan,htail⟩ := ih hl
      refine ⟨q,d,tail++[c],by simp [hq],hcan,fun _ => ?_⟩
      by_cases ht : tail=[]
      · rw [ht] at hq
        rw [←hq]
        exact Bool.eq_false_iff.mpr hmissing
      · exact htail ht

/-- Every component of a parsed path but the first is not the root directory. -/
theorem parsePath_tail (text : List Char) : ∀ c∈(parsePath text).tail, c≠.rootDir := by
  have hpiece : ∀ w, pieceComponent w≠.rootDir := by
    intro w
    unfold pieceComponent
    split
    · simp
    · split <;> simp
  intro c hc
  unfold parsePath at hc
  have hrest : c∈(words (· == '/') text).map pieceComponent++
      (if text.getLast?=some '/' then [Component.curDir] else []) := by
    split at hc
    · exact hc
    · exact List.mem_of_mem_tail hc
  rcases List.mem_append.mp hrest with hm|hm
  · obtain ⟨w,-,rfl⟩ := List.mem_map.mp hm
    exact hpiece w
  · split at hm
    · rw [List.mem_singleton.mp hm]
      simp
    · cases hm

/-- The stack of the normalisation: names, above the root directory or not. -/
def NameStack (stack : List Component) : Prop :=
  ∃ l : List String, stack=l.map .normal ∨ stack=.rootDir::l.map .normal

theorem NameStack.push {stack : List Component} {c : Component} (h : NameStack stack)
    (hc : c≠.rootDir) : NameStack (pushComponent stack c) := by
  obtain ⟨l,hl⟩ := h
  cases c with
  | rootDir => exact absurd rfl hc
  | curDir => exact ⟨l,hl⟩
  | parentDir =>
    rcases hl with hl|hl
    · exact ⟨l.dropLast,Or.inl (by rw [pushComponent,hl,List.map_dropLast])⟩
    · cases l with
      | nil => exact ⟨[],Or.inl (by rw [pushComponent,hl]; rfl)⟩
      | cons n l =>
        refine ⟨(n::l).dropLast,Or.inr ?_⟩
        rw [pushComponent,hl,List.map_cons,List.dropLast_cons_cons,←List.map_cons,List.map_dropLast]
  | normal name =>
    refine ⟨l++[name],hl.imp ?_ ?_⟩
    · exact fun h => by simp [pushComponent,h]
    · exact fun h => by simp [pushComponent,h]

/-- A normalised path is made of names, after the root directory or not. -/
theorem normalizePath_names (text : List Char) : NameStack (normalizePath (parsePath text)) := by
  have hfold : ∀ (cs stack : List Component), (∀ c∈cs, c≠.rootDir) → NameStack stack →
      NameStack (cs.foldl pushComponent stack) := by
    intro cs
    induction cs with
    | nil => exact fun _ _ h => h
    | cons c cs ih =>
      intro stack hcs hstack
      exact ih _ (fun d hd => hcs d (List.mem_cons_of_mem c hd))
        (hstack.push (hcs c List.mem_cons_self))
  have htail := parsePath_tail text
  unfold normalizePath
  cases hp : parsePath text with
  | nil => exact ⟨[],Or.inl rfl⟩
  | cons c rest =>
    rw [hp] at htail
    have hrest : ∀ d∈rest.filter (fun d => decide (d≠Component.curDir)), d≠.rootDir :=
      fun d hd => htail d (List.mem_filter.mp hd).1
    simp only [components,List.foldl_cons]
    refine hfold _ _ hrest ?_
    cases c with
    | rootDir => exact ⟨[],Or.inr rfl⟩
    | curDir => exact ⟨[],Or.inl rfl⟩
    | parentDir => exact ⟨[],Or.inl rfl⟩
    | normal name => exact ⟨[name],Or.inl rfl⟩

/-- A granted write target is the root directory followed by names. -/
theorem resolveWritePath_names {requested : String}
    (h : ws.resolveWritePath fs requested=.ok p) : ∃ names, p=locPath names := by
  obtain ⟨hp,hroot,-⟩ := resolveWritePath_ok h
  obtain ⟨l,hl⟩ := normalizePath_names (ws.joined (trim requested.toList))
  rw [WorkspaceCapability.normalizedTarget] at hp
  rw [←hp] at hl
  rcases hl with hl|hl
  · rw [hl] at hroot
    cases l with
    | nil => exact absurd (List.prefix_nil.mp hroot) (List.cons_ne_nil _ _)
    | cons n l =>
      obtain ⟨hn,-⟩ := List.cons_prefix_cons.mp hroot
      cases hn
  · exact ⟨l,hl⟩

/-- A successful `write_file` puts its content in the file that its granted path
opens, and changes nothing else once the parent is made. -/
theorem writeFile_ok {args : JsonValue} {text : String} {written : FileSystem}
    (h : ws.writeFile fs args=(.ok text,written)) :
    ∃ p loc, ws.resolveWritePath fs (textArg args "path")=.ok p ∧
      (prepareParent fs p).openCreate p=.ok loc ∧
      written.tree=(prepareParent fs p).tree.put loc (.file (textArg args "content")) := by
  simp only [WorkspaceCapability.writeFile] at h
  split at h
  · cases h
  · next resolved hp =>
    split at h
    · next fs' hw =>
      have hfs : fs'=written := congrArg Prod.snd h
      unfold FileSystem.write at hw
      split at hw
      · next loc hloc =>
        cases hw
        exact ⟨resolved,loc,hp,hloc,by rw [←hfs]⟩
      · cases hw
    · cases h

theorem prepareParent_concat {name : String} :
    prepareParent fs (q++[.normal name])=(fs.createDirAll q).2 := by
  simp [prepareParent,parentPath]

/-- In an existing directory, only a symbolic link at the last component takes
the written file elsewhere. -/
theorem contained_in_existing {root : Loc} {name : String}
    (h : fs.walkPath q=.ok (.entry dir,b)) (hroot : root<+:dir) :
    (∀ loc, (prepareParent fs (q++[.normal name])).openCreate (q++[.normal name])=.ok loc →
      root<+:loc) ↔ lastLinkEscapes fs root (q++[.normal name])=false := by
  have hinside : root<+:dir++[name] := hroot.trans (List.prefix_append dir [name])
  have hlink : lastLinkEscapes fs root (q++[.normal name])=
      match fs.tree.entry (dir++[name]) with
      | some (.symlink target) =>
        match openedAt fs.tree (followLink fs.tree b dir target) with
        | .ok loc => !root.isPrefixOf loc
        | .error _ => false
      | _ => false := by
    rw [lastLinkEscapes,List.getLast?_concat,List.dropLast_concat,h]
  rw [prepareParent_concat,createDirAll_of_exists h,openCreate_concat h,hlink,walk_normal]
  by_cases hd : fs.tree.entry dir=some .dir
  · rw [if_pos hd]
    cases he : fs.tree.entry (dir++[name]) with
    | none =>
      refine iff_of_true (fun loc hloc => ?_) rfl
      cases hloc
      exact hinside
    | some e =>
      cases e with
      | dir =>
        refine iff_of_true (fun loc hloc => ?_) rfl
        simp only [walk_nil,openedAt,he] at hloc
        cases hloc
      | file content =>
        refine iff_of_true (fun loc hloc => ?_) rfl
        simp only [walk_nil,openedAt,he] at hloc
        cases hloc
        exact hinside
      | symlink target =>
        simp only [List.append_nil]
        cases hopen : openedAt fs.tree (followLink fs.tree b dir target) with
        | error e => exact iff_of_true (fun loc hloc => by cases hloc) rfl
        | ok loc =>
          simp only [Except.ok.injEq,forall_eq',Bool.not_eq_false',List.isPrefixOf_iff_prefix]
  · have hnone : fs.tree.entry (dir++[name])=none := by
      by_contra hs
      exact hd (fs.tree.parent_dir dir name (Option.isSome_iff_ne_none.mpr hs))
    rw [if_neg hd,hnone]
    exact iff_of_true (fun loc hloc => by cases hloc) rfl

/-- With a missing directory on the way, the last component is not looked at. -/
theorem lastLinkEscapes_of_missing {root : Loc} {c : Component} {r : List Component} {name : String}
    (hmissing : ∀ l d, fs.walkPath (q++[c])≠.ok (.entry l,d)) :
    lastLinkEscapes fs root (q++c::r++[.normal name])=false := by
  rw [lastLinkEscapes,List.getLast?_concat,List.dropLast_concat]
  split
  · next hw =>
    rw [List.append_cons] at hw
    obtain ⟨l,d,hl⟩ := walk_prefix hw
    exact absurd hl (hmissing l d)
  · rfl

/-- For every granted write request, the file that is truncated or created lies
inside the root exactly when the last component of the target is not a symbolic
link that leads to a file outside. -/
theorem write_contained_iff (ws : WorkspaceCapability) (fs : FileSystem) (requested : String)
    (p : List Component) (h : ws.resolveWritePath fs requested=.ok p) :
    (∀ loc, (prepareParent fs p).openCreate p=.ok loc → ws.root<+:loc) ↔
      lastLinkEscapes fs ws.root (ws.normalizedTarget requested)=false := by
  obtain ⟨hp,-,ancestor,hanc,hroot⟩ := resolveWritePath_ok h
  obtain ⟨names,hnames⟩ := resolveWritePath_names h
  rw [←hp]
  obtain ⟨q,c,tail,hsplit,hcan,htail⟩ := existingAncestor_ok hanc
  obtain ⟨b,hw⟩ := walk_of_canonicalize hcan
  rw [List.reverse_reverse,hnames] at hsplit
  -- the existing part holds the root directory, so what follows it are names
  have hrest : ∃ (n : String) (r : List String), c=.normal n ∧ tail=r.map .normal := by
    cases q with
    | nil =>
      rw [FileSystem.canonicalize,if_pos rfl] at hcan
      cases hcan
    | cons a q =>
      obtain ⟨-,hmap⟩ := List.cons.inj hsplit
      obtain ⟨l₁,l₂,-,-,hl₂⟩ := List.map_eq_append_iff.mp hmap
      obtain ⟨n,r,-,hn,hr⟩ := List.map_eq_cons_iff.mp hl₂
      exact ⟨n,r,hn.symm,hr.symm⟩
  obtain ⟨n,r,hc,hr⟩ := hrest
  rw [hnames,hsplit,hc,hr]
  rcases List.eq_nil_or_concat r with hnil|⟨r,last,hlast⟩
  · rw [hnil]
    exact contained_in_existing hw hroot
  · have hne : tail≠[] := by simp [hr,hlast]
    have hmissing : ∀ l d, fs.walkPath (q++[.normal n])≠.ok (.entry l,d) := by
      intro l d hl
      have hex := htail hne
      rw [hc,FileSystem.pathExists,canonicalize_of_walk (by simp) hl] at hex
      cases hex
    have happ : q++Component.normal n::(r++[last]).map Component.normal=
        q++(n::r).map Component.normal++[Component.normal last] := by simp
    rw [hlast,List.concat_eq_append,happ]
    refine iff_of_true (fun loc hloc => ?_) ?_
    · rw [prepareParent_concat] at hloc
      exact hroot.trans (created_below hw hmissing hloc)
    · rw [List.map_cons]
      exact lastLinkEscapes_of_missing hmissing

/-- A workspace with a link out of it. -/
def linkedWorkspace : FileSystem where
  tree := FileTree.ofEntries
    [(["ws"],.dir),(["ws","link"],.symlink [.rootDir,.normal "etc",.normal "passwd"]),
      (["etc"],.dir),(["etc","passwd"],.file "root")] (by decide)
  maxLinks := 40
  cwd := []

/-- A granted write that truncates a file outside the root. -/
theorem write_not_contained :
    ¬∀ (ws : WorkspaceCapability) (fs : FileSystem) (requested : String) (p : List Component),
      (∃ q, fs.canonicalize q=.ok ws.root) → ws.resolveWritePath fs requested=.ok p →
        ∀ loc, (prepareParent fs p).openCreate p=.ok loc → ws.root<+:loc := by
  intro hall
  have hinside := hall ⟨["ws"]⟩ linkedWorkspace "link" (locPath ["ws","link"])
    ⟨locPath ["ws"],by decide⟩ (by decide) ["etc","passwd"] (by decide)
  exact absurd hinside (by decide)

/-- The condition at work: a request for a new file below a missing directory. -/
theorem write_contained_nested :
    WorkspaceCapability.resolveWritePath ⟨["ws"]⟩ linkedWorkspace "a/./b"=
        .ok (locPath ["ws","a","b"]) ∧
      ∀ loc, (prepareParent linkedWorkspace (locPath ["ws","a","b"])).openCreate
        (locPath ["ws","a","b"])=.ok loc → ["ws"]<+:loc :=
  ⟨by decide,(write_contained_iff ⟨["ws"]⟩ linkedWorkspace "a/./b" (locPath ["ws","a","b"])
    (by decide)).mpr (by decide)⟩

end AegisRuntime.WorkspacePaths
