import AegisRuntime.SkillPrograms

/-!
# What the skills may do

Which system calls the programs of the skills make, whatever the machine answers to
each: locations are looked up freely, but read, listed and used as working directory
only after they were found inside the workspace, and made or written only where they
are spelled below it and their lowest existing parent was found inside. A failure that
is reported to have had no effect has had none.
-/

namespace AegisRuntime.SkillPermissions

open SymlinkTrees FileSystemCalls TextScanning JsonValues WorkspacePaths LocalCommands
open LabelledRuns CallPrograms SystemCalls SkillPrograms FailureRecords
open GatedDispatch (DispatchEnv SkillExecutionRequest SkillExecutionResponse probeGate notInRegistry
  classifyHandlerError preDispatchCheck_of_probeGate)

variable {π : Type} {env : DispatchEnv π} {ws : WorkspaceCapability} {past past' : List SystemEvent}
  {loc : Loc}

/-- A canonicalisation was answered with the location, and it lies inside the root. -/
def Checked (ws : WorkspaceCapability) (past : List SystemEvent) (loc : Loc) : Prop :=
  ws.root<+:loc ∧ ∃ p, (⟨.canonicalize p,.ok loc⟩ : SystemEvent)∈past

/-- Such a location that was also found to be a directory. -/
def CheckedDir (ws : WorkspaceCapability) (past : List SystemEvent) (loc : Loc) : Prop :=
  Checked ws past loc ∧ (⟨.isDir (locPath loc),true⟩ : SystemEvent)∈past

/-- A proper prefix of the path was found to exist and canonicalised to the location, and
every longer one was found to be missing. -/
structure LowestParent (past : List SystemEvent) (p above : List Component) (loc : Loc) : Prop where
  /-- It is a parent of the path. -/
  parent : above<+:p ∧ above≠p
  /-- It was found to exist. -/
  found : (⟨.pathExists above,true⟩ : SystemEvent)∈past
  /-- It leads to the location. -/
  leads : (⟨.canonicalize above,.ok loc⟩ : SystemEvent)∈past
  /-- The parents below it were found to be missing. -/
  lowest : ∀ middle, above<+:middle → middle≠above → middle<+:p → middle≠p →
    (⟨.pathExists middle,false⟩ : SystemEvent)∈past

/-- A path to write that was vetted: it is spelled below the root, and its lowest existing
parent was found inside. Its last component is not looked at. -/
structure Vetted (ws : WorkspaceCapability) (past : List SystemEvent) (names : Loc) : Prop where
  /-- It is spelled below the root. -/
  below : ws.root<+:names
  /-- Its lowest existing parent is inside. -/
  inside : ∃ above loc, LowestParent past (locPath names) above loc ∧ ws.root<+:loc

/-- The argument lists that `git_status` starts `git` with. -/
def gitForms (dir : String) : List (List String) :=
  [["-C",dir,"status","--short"],["-C",dir,"log","-1","--oneline"]]

/-- The calls that the skills may make after the calls before. -/
inductive Permitted (ws : WorkspaceCapability) (past : List SystemEvent) : SystemCall → Prop where
  /-- Looks whether a path leads to something. -/
  | pathExists (p : List Component) : Permitted ws past (.pathExists p)
  /-- Looks where a path leads. -/
  | canonicalize (p : List Component) : Permitted ws past (.canonicalize p)
  /-- Looks whether a path leads to a directory. -/
  | isDir (p : List Component) : Permitted ws past (.isDir p)
  /-- Reads a file that was found inside. -/
  | readToString (loc : Loc) (found : Checked ws past loc) :
      Permitted ws past (.readToString (locPath loc))
  /-- Lists a directory that was found inside. -/
  | readDir (loc : Loc) (found : CheckedDir ws past loc) : Permitted ws past (.readDir (locPath loc))
  /-- Makes a directory on the way to a path that was vetted. -/
  | mkdir (names : Loc) (parent : List Component) (last : Component) (vetted : Vetted ws past names)
      (along : parent++[last]<+:locPath names) (proper : parent++[last]≠locPath names) :
      Permitted ws past (.mkdir parent last)
  /-- Writes a path that was vetted. -/
  | write (names : Loc) (content : String) (vetted : Vetted ws past names) :
      Permitted ws past (.write (locPath names) content)
  /-- Starts an admitted command in a directory that was found inside. -/
  | shell (command : String) (loc : Loc) (admitted : admitLocalCommand command=.ok ())
      (found : CheckedDir ws past loc) :
      Permitted ws past (.spawn "sh" ["-c",wrappedCommand command 15] (some (locPath loc)))
  /-- Asks `git` about a directory that was found inside. -/
  | git (args : List String) (loc : Loc) (form : args∈gitForms (displayPath (locPath loc)))
      (found : CheckedDir ws past loc) : Permitted ws past (.spawn "git" args none)

/-- The calls that change nothing. -/
def Observes : SystemCall → Prop
  | .pathExists _ | .canonicalize _ | .isDir _ | .readToString _ | .readDir _ => True
  | .mkdir _ _ | .write _ _ => False
  | .spawn program args _ => program="git" ∧ ∃ dir, args∈gitForms dir

theorem Checked.mono (h : Checked ws past loc) (hpast : past<+:past') : Checked ws past' loc :=
  ⟨h.1,h.2.imp fun _ hp => hpast.subset hp⟩

theorem CheckedDir.mono (h : CheckedDir ws past loc) (hpast : past<+:past') :
    CheckedDir ws past' loc :=
  ⟨h.1.mono hpast,hpast.subset h.2⟩

theorem LowestParent.mono {p above : List Component} (h : LowestParent past p above loc)
    (hpast : past<+:past') : LowestParent past' p above loc :=
  ⟨h.parent,hpast.subset h.found,hpast.subset h.leads,
    fun middle habove hne hp hproper => hpast.subset (h.lowest middle habove hne hp hproper)⟩

/-- What was vetted stays vetted. -/
theorem Vetted.mono {names : Loc} (h : Vetted ws past names) (hpast : past<+:past') :
    Vetted ws past' names :=
  ⟨h.below,h.inside.imp fun _ => Exists.imp fun _ hloc => ⟨hloc.1.mono hpast,hloc.2⟩⟩

/-- The parent of a path, where it exists, is its lowest one. -/
theorem lowestParent_self {p : List Component} {c : Component}
    (hfound : (⟨.pathExists p,true⟩ : SystemEvent)∈past)
    (hleads : (⟨.canonicalize p,.ok loc⟩ : SystemEvent)∈past) :
    LowestParent past (p++[c]) p loc := by
  refine ⟨⟨List.prefix_append _ _,fun h => ?_⟩,hfound,hleads,fun middle habove hne hp hproper => ?_⟩
  · simp at h
  · rcases List.prefix_concat_iff.mp hp with hall|hmiddle
    · exact absurd hall hproper
    · exact absurd (hmiddle.eq_of_length (Nat.le_antisymm hmiddle.length_le habove.length_le)) hne

/-- The lowest parent of a missing parent is the lowest one. -/
theorem LowestParent.concat {p above : List Component} (h : LowestParent past p above loc)
    (hmissing : (⟨.pathExists p,false⟩ : SystemEvent)∈past) (c : Component) :
    LowestParent past (p++[c]) above loc := by
  refine ⟨⟨h.parent.1.trans (List.prefix_append _ _),fun heq => ?_⟩,h.found,h.leads,
    fun middle habove hne hp hproper => ?_⟩
  · have hlength := h.parent.1.length_le
    rw [heq,List.length_append,List.length_singleton] at hlength
    omega
  · rcases List.prefix_concat_iff.mp hp with hall|hmiddle
    · exact absurd hall hproper
    · by_cases hself : middle=p
      · rw [hself]
        exact hmissing
      · exact h.lowest middle habove hne hmiddle hself

/-- The calls of a skill: they are permitted, and those of a quiet one change nothing. -/
def Allows (ws : WorkspaceCapability) (quiet : Prop) (past : List SystemEvent)
    (call : SystemCall) : Prop :=
  Permitted ws past call ∧ (quiet → Observes call)

/-- Whether the text is read as an unreachable backend. -/
def Unavailable (text : String) : Prop := "Unavailable".toList<+:text.toList

/-- A text of another beginning. -/
theorem not_unavailable (first : Char) {rest : List Char} (text more : String)
    (htext : text.toList=first::rest) (hfirst : first ≠ 'U') : ¬Unavailable (text++more) := by
  intro h
  rw [Unavailable,String.toList_append,htext] at h
  have hhead : 'U'=first := (List.cons_prefix_cons.mp h).1
  exact hfirst hhead.symm

section Looking

variable {quiet : Prop}

theorem allows_pathExists (p : List Component) : Allows ws quiet past (.pathExists p) :=
  ⟨.pathExists p,fun _ => trivial⟩

theorem allows_canonicalize (p : List Component) : Allows ws quiet past (.canonicalize p) :=
  ⟨.canonicalize p,fun _ => trivial⟩

theorem allows_isDir (p : List Component) : Allows ws quiet past (.isDir p) :=
  ⟨.isDir p,fun _ => trivial⟩

end Looking

/-- What a check comes to: an error of the skill's own, or a value with a property. -/
def Settles {γ : Type} (T : List SystemEvent → γ → Prop) (past : List SystemEvent) :
    Except SecurityError γ → Prop
  | .ok value => T past value
  | .error e => ¬Unavailable e.text

theorem accessDenied_settles {γ : Type} {T : List SystemEvent → γ → Prop} (msg : String) :
    Settles T past (.error (.accessDenied msg)) :=
  not_unavailable 'S' _ _ rfl (by decide)

theorem pathNotFound_settles {γ : Type} {T : List SystemEvent → γ → Prop} (msg : String) :
    Settles T past (.error (.pathNotFound msg)) :=
  not_unavailable 'P' _ _ rfl (by decide)

theorem ioError_settles {γ : Type} {T : List SystemEvent → γ → Prop} (msg : String) :
    Settles T past (.error (.ioError msg)) :=
  not_unavailable 'I' _ _ rfl (by decide)

theorem commandFailed_settles {γ : Type} {T : List SystemEvent → γ → Prop} (msg : String) :
    Settles T past (.error (.commandFailed msg)) :=
  not_unavailable 'C' _ _ rfl (by decide)

variable {quiet : Prop}

/-- A path to read is found inside before it is granted. -/
theorem resolveReadPath_ensures (requested : String) : (resolveReadPath ws requested).Ensures
    (Allows ws quiet) (Settles (Checked ws)) past := by
  unfold resolveReadPath
  simp only []
  split
  · exact .done (not_unavailable 'P' "Path cannot be empty" "" rfl (by decide))
  · refine .ask (allows_pathExists _) fun (found : Bool) => ?_
    cases found with
    | false => exact .done (pathNotFound_settles _)
    | true =>
      refine .ask (allows_canonicalize _) fun (canonical : Except IoError Loc) => ?_
      cases canonical with
      | error e => exact .done (ioError_settles _)
      | ok canonical =>
        simp only []
        split
        · exact .done (accessDenied_settles _)
        · next hroot =>
          have hpre : ws.root.isPrefixOf canonical=true := by simpa using hroot
          exact .done ⟨List.isPrefixOf_iff_prefix.mp hpre,_,
            List.mem_append_right _ List.mem_cons_self⟩

/-- A directory is found inside, and found to be one, before it is granted. -/
theorem resolveDirPath_ensures (requested : Option String) : (resolveDirPath ws requested).Ensures
    (Allows ws quiet) (Settles (CheckedDir ws)) past := by
  unfold resolveDirPath
  refine .ask (allows_pathExists _) fun (found : Bool) => ?_
  cases found with
  | false => exact .done (pathNotFound_settles _)
  | true =>
    refine .ask (allows_canonicalize _) fun (canonical : Except IoError Loc) => ?_
    cases canonical with
    | error e => exact .done (ioError_settles _)
    | ok canonical =>
      refine .ask (allows_isDir _) fun (isDir : Bool) => ?_
      cases isDir with
      | false =>
        refine .done (not_unavailable 'P' "Path is not a directory: " _ rfl ?_)
        decide
      | true =>
        simp only [Bool.not_true,Bool.false_eq_true,if_false]
        split
        · exact .done (accessDenied_settles _)
        · next hroot =>
          have hpre : ws.root.isPrefixOf canonical=true := by simpa using hroot
          refine .done ⟨⟨List.isPrefixOf_iff_prefix.mp hpre,parsePath (ws.dirTarget requested),?_⟩,?_⟩
          · exact List.mem_append_left _ (List.mem_append_right _ List.mem_cons_self)
          · exact List.mem_append_right _ List.mem_cons_self

/-- The ancestor that the loop ends with is where the lowest existing parent leads. -/
theorem existingAncestor_ensures (l : List Component) : (existingAncestor l).Ensures
    (Allows ws quiet) (Settles fun past ancestor => ∀ a, ancestor=some a →
      ∃ above, LowestParent past l.reverse above a) past := by
  induction l generalizing past with
  | nil =>
    refine .done fun a ha => ?_
    cases ha
  | cons c rest ih =>
    cases c with
    | rootDir =>
      refine .done fun a ha => ?_
      cases ha
    | curDir | parentDir | normal name =>
      refine .ask (allows_pathExists _) fun (found : Bool) => ?_
      cases found with
      | false =>
        refine Ensures.mono ih fun past' result hpast hresult => ?_
        cases result with
        | error e => exact hresult
        | ok ancestor =>
          intro a ha
          obtain ⟨above,habove⟩ := hresult a ha
          rw [List.reverse_cons]
          refine ⟨above,habove.concat (hpast.subset ?_) _⟩
          exact List.mem_append_right _ List.mem_cons_self
      | true =>
        refine .ask (allows_canonicalize _) fun (canonical : Except IoError Loc) => ?_
        cases canonical with
        | error e => exact .done (ioError_settles _)
        | ok canonical =>
          refine .done fun a ha => ?_
          cases ha
          rw [List.reverse_cons]
          refine ⟨rest.reverse,lowestParent_self ?_ (List.mem_append_right _ List.mem_cons_self)⟩
          exact List.mem_append_left _ (List.mem_append_right _ List.mem_cons_self)

/-- A normalised target inside the root is spelled by names below it. -/
theorem normalizedTarget_below {requested : String}
    (h : (locPath ws.root).isPrefixOf (ws.normalizedTarget requested)=true) :
    ∃ names, ws.normalizedTarget requested=locPath names ∧ ws.root<+:names := by
  have hroot := List.isPrefixOf_iff_prefix.mp h
  obtain ⟨l,hl⟩ := normalizePath_names (ws.joined (trim requested.toList))
  rw [←WorkspaceCapability.normalizedTarget] at hl
  rcases hl with hl|hl
  · rw [hl] at hroot
    cases l with
    | nil => exact absurd (List.prefix_nil.mp hroot) (List.cons_ne_nil _ _)
    | cons n l =>
      obtain ⟨hn,-⟩ := List.cons_prefix_cons.mp hroot
      cases hn
  · refine ⟨l,hl,?_⟩
    rw [hl] at hroot
    obtain ⟨-,hnames⟩ := List.cons_prefix_cons.mp hroot
    exact (List.prefix_map_iff_of_injective fun _ _ heq => Component.normal.inj heq).mp hnames

/-- A path to write is vetted before it is granted. -/
theorem resolveWritePath_ensures (requested : String) : (resolveWritePath ws requested).Ensures
    (Allows ws quiet) (Settles fun past p => ∃ names, p=locPath names ∧ Vetted ws past names)
    past := by
  unfold resolveWritePath
  simp only []
  split
  · exact .done (not_unavailable 'P' "Path cannot be empty" "" rfl (by decide))
  · refine Ensures.map (Ensures.mono (existingAncestor_ensures _) fun past' found _ hfound => ?_)
    cases found with
    | error e => exact hfound
    | ok found =>
      cases found with
      | none => exact accessDenied_settles _
      | some ancestor =>
        simp only []
        split
        · exact accessDenied_settles _
        · next hroot =>
          split
          · exact accessDenied_settles _
          · next hnorm =>
            have hpre : ws.root.isPrefixOf ancestor=true := by simpa using hroot
            obtain ⟨names,hnames,hbelow⟩ := normalizedTarget_below (by simpa using hnorm)
            obtain ⟨above,habove⟩ := hfound ancestor rfl
            rw [List.reverse_reverse,hnames] at habove
            exact ⟨names,hnames,hbelow,above,ancestor,habove,List.isPrefixOf_iff_prefix.mp hpre⟩

/-- What `execute_shell` makes of a process is no unreachable backend. -/
theorem shellOutput_settles (command : String) (timeoutSecs : ℕ)
    (output : Except IoError ProcessOutput) :
    Settles (fun _ _ => True) past (shellOutput command timeoutSecs output) := by
  cases output with
  | error e => exact commandFailed_settles _
  | ok output =>
    rw [shellOutput]
    split
    · trivial
    · simp only []
      split <;> exact commandFailed_settles _

/-- An admitted command is started in a directory that was found inside. -/
theorem executeShell_ensures {command : String} (h : admitLocalCommand command=.ok ())
    (cwd : Option String) : (executeShell ws command cwd 15).Ensures
      (Allows ws False) (Settles fun _ _ => True) past := by
  rw [executeShell,trim_ne_nil_of_admitted h]
  refine Ensures.bind (resolveDirPath_ensures cwd) fun past' resolved _ hresolved => ?_
  cases resolved with
  | error e => exact .done hresolved
  | ok dir =>
    refine .ask ⟨.shell command dir h hresolved,False.elim⟩ fun output => ?_
    exact .done (shellOutput_settles command 15 output)

/-- A shell command is admitted, and run where it was allowed to. -/
theorem dispatchShell_ensures (command : String) (cwd : Option String) :
    (dispatchShell env ws command cwd 15).Ensures
      (Allows ws False) (Settles fun _ _ => True) past := by
  rw [dispatchShell]
  split
  · exact .done (accessDenied_settles _)
  · split
    · next e hadmit =>
      obtain ⟨msg,rfl⟩ : ∃ msg, e=.accessDenied msg := by
        unfold admitLocalCommand at hadmit
        split at hadmit
        · cases hadmit
          exact ⟨_,rfl⟩
        · split at hadmit
          · cases hadmit
          · cases hadmit
            exact ⟨_,rfl⟩
      exact .done (accessDenied_settles _)
    · next hadmit => exact executeShell_ensures hadmit cwd

/-- The directories on the way to a path that was vetted. -/
theorem createAncestors_ensures {names : Loc} {l : List Component} :
    ∀ {past}, Vetted ws past names → l.reverse<+:locPath names → l.reverse≠locPath names →
      (createAncestors l).Ensures (Allows ws False) (fun _ _ => True) past := by
  induction l with
  | nil => exact fun _ _ _ => .done trivial
  | cons c rest ih =>
    intro past hvetted halong hproper
    rw [List.reverse_cons] at halong hproper
    have hmkdir : ∀ {past'}, past<+:past' → Allows ws False past' (.mkdir rest.reverse c) :=
      fun hpast => ⟨.mkdir names rest.reverse c (hvetted.mono hpast) halong hproper,False.elim⟩
    have hor : ∀ {past} e, (orDirectory (c::rest).reverse e).Ensures (Allows ws False)
        (fun _ _ => True) past := fun _ => .ask (allows_isDir _) fun _ => .done trivial
    refine .ask (hmkdir List.prefix_rfl) fun (made : Except IoError Unit) => ?_
    cases made with
    | ok u => exact .done trivial
    | error e =>
      simp only []
      split
      · have hlater := List.prefix_append past
          [(⟨.mkdir rest.reverse c,.error e⟩ : SystemEvent)]
        have habove : rest.reverse<+:locPath names := (List.prefix_append _ [c]).trans halong
        have hshort : rest.reverse≠locPath names := by
          intro heq
          have hlength := halong.length_le
          rw [heq,List.length_append,List.length_singleton] at hlength
          omega
        refine Ensures.bind (ih (hvetted.mono hlater) habove hshort) fun past' made hpast _ => ?_
        cases made with
        | error e => exact .done trivial
        | ok u =>
          refine .ask (hmkdir (hlater.trans hpast)) fun (made : Except IoError Unit) => ?_
          cases made with
          | ok u => exact .done trivial
          | error e => exact hor e
      · exact hor e

/-- A skill whose error is read as an unreachable backend is a quiet one. -/
def Excuses (quiet : Prop) (_ : List SystemEvent) (result : Except String String) : Prop :=
  ∀ e, result=.error e → Unavailable e → quiet

theorem excuses_error {e : String} (h : ¬Unavailable e) : Excuses quiet past (.error e) := by
  intro e' he hunavailable
  cases he
  exact absurd hunavailable h

/-- An error of a check does not read as an unreachable backend. -/
theorem excuses_of_settles {result : Except SecurityError String}
    {T : List SystemEvent → String → Prop} (h : Settles T past result) :
    Excuses quiet past (result.mapError SecurityError.text) := by
  cases result with
  | ok text =>
    intro e he
    cases he
  | error e => exact excuses_error h

theorem bashEval_ensures (args : JsonValue) : (bashEval env ws args).Ensures
    (Allows ws False) (Excuses False) past :=
  Ensures.map (Ensures.mono (dispatchShell_ensures _ _) fun _ _ _ h => excuses_of_settles h)

/-- `read_file` returns what reading a file that was found inside was answered with. -/
def ReadInside (ws : WorkspaceCapability) (past : List SystemEvent)
    (result : Except String String) : Prop :=
  ∀ text, result=.ok text → ∃ loc, Checked ws past loc ∧
    (⟨.readToString (locPath loc),.ok text⟩ : SystemEvent)∈past

/-- Reading a file reads a place that was found inside. -/
theorem readFile_ensures (args : JsonValue) : (readFile ws args).Ensures
    (Allows ws True) (ReadInside ws) past := by
  refine Ensures.bind (resolveReadPath_ensures _) fun past' resolved _ hresolved => ?_
  cases resolved with
  | error e =>
    refine .done fun text htext => ?_
    cases htext
  | ok loc =>
    refine .ask ⟨.readToString loc hresolved,fun _ => trivial⟩
      fun (content : Except IoError String) => .done fun text htext => ?_
    cases content with
    | error e => cases htext
    | ok content =>
      cases htext
      exact ⟨loc,hresolved.mono (List.prefix_append _ _),List.mem_append_right _ List.mem_cons_self⟩

/-- The parent of a path is a shorter prefix. -/
theorem parentPath_prefix {p parent : List Component} (h : parentPath p=some parent) :
    parent<+:p ∧ parent≠p := by
  cases hlast : p.getLast? with
  | none =>
    rw [parentPath,hlast] at h
    cases h
  | some last =>
    obtain ⟨above,rfl⟩ := List.getLast?_eq_some_iff.mp hlast
    have hparent : parent=above := by
      rw [parentPath,hlast] at h
      cases last with
      | rootDir => cases h
      | curDir | parentDir | normal name =>
        rw [List.dropLast_concat] at h
        exact (Option.some.inj h).symm
    rw [hparent]
    exact ⟨List.prefix_append _ _,fun heq => by simp at heq⟩

/-- Writing a file writes a path that was vetted. -/
theorem writeFile_ensures (args : JsonValue) : (writeFile ws args).Ensures
    (Allows ws False) (Excuses False) past := by
  refine Ensures.bind (resolveWritePath_ensures _) fun past' resolved _ hresolved => ?_
  cases resolved with
  | error e => exact .done (excuses_error hresolved)
  | ok p =>
    obtain ⟨names,rfl,hvetted⟩ := hresolved
    refine Ensures.bind (Q:=fun _ _ => True) ?_ fun past'' _ hpast _ => ?_
    · rw [makeParent]
      split
      · next parent hparent =>
        rw [createDirAll]
        obtain ⟨halong,hproper⟩ := parentPath_prefix hparent
        refine createAncestors_ensures hvetted ?_ ?_
        all_goals rwa [List.reverse_reverse]
      · exact .done trivial
    · refine .ask ⟨.write names _ (hvetted.mono hpast),False.elim⟩
        fun (written : Except IoError Unit) => .done ?_
      cases written with
      | ok u =>
        intro e he
        cases he
      | error e =>
        refine excuses_error ?_
        rw [String.append_assoc,String.append_assoc]
        exact not_unavailable 'F' _ _ rfl (by decide)

theorem listItems_ensures (dir : Loc) (names : List String) : (listItems dir names).Ensures
    (Allows ws True) (fun _ _ => True) past := by
  induction names generalizing past with
  | nil => exact .done trivial
  | cons name rest ih => exact .ask (allows_isDir _) fun _ => Ensures.map ih

/-- Nothing is claimed of the result of a quiet skill. -/
theorem excuses_true (past : List SystemEvent) (result : Except String String) :
    Excuses True past result :=
  fun _ _ _ => trivial

/-- Listing a directory lists one that was found inside. -/
theorem listDir_ensures (args : JsonValue) : (listDir ws args).Ensures
    (Allows ws True) (Excuses True) past := by
  refine Ensures.bind (resolveDirPath_ensures _) fun past' resolved _ hresolved => ?_
  cases resolved with
  | error e => exact .done (excuses_true _ _)
  | ok dir =>
    refine .ask ⟨.readDir dir hresolved,fun _ => trivial⟩
      fun (entries : Except IoError (List String)) => ?_
    cases entries with
    | error e => exact .done (excuses_true _ _)
    | ok names =>
      refine Ensures.map (Ensures.mono (listItems_ensures dir names) fun past'' items _ _ => ?_)
      exact excuses_true past'' _

/-- Asking `git` asks about a directory that was found inside. -/
theorem gitStatus_ensures (args : JsonValue) : (gitStatus ws args).Ensures
    (Allows ws True) (Excuses True) past := by
  refine Ensures.bind (resolveDirPath_ensures _) fun past' resolved _ hresolved => ?_
  cases resolved with
  | error e => exact .done (excuses_true _ _)
  | ok dir =>
    have hgit : ∀ {past''} args, past'<+:past'' → args∈gitForms (displayPath (locPath dir)) →
        Allows ws True past'' (.spawn "git" args none) := fun args hpast hform =>
      ⟨.git args dir hform (hresolved.mono hpast),fun _ => ⟨rfl,_,hform⟩⟩
    refine .ask (hgit _ List.prefix_rfl List.mem_cons_self)
      fun (status : Except IoError ProcessOutput) => ?_
    cases status with
    | error e => exact .done (excuses_true _ _)
    | ok status =>
      exact .ask (hgit _ (List.prefix_append _ _) (List.mem_cons_of_mem _ List.mem_cons_self))
        fun _ => .done (excuses_true _ _)

theorem notConnected_ensures (reason : String) (args : JsonValue) :
    (notConnected reason args).Ensures (Allows ws True) (Excuses True) past :=
  .done (excuses_true _ _)

/-- The calls of a registered handler; one of a skill that is idempotent is quiet. -/
theorem handler_ensures (past : List SystemEvent) {skillName : String}
    {handler : JsonValue → SystemProgram (Except String String)}
    (h : (builtinSkills env ws).lookup skillName=some handler) (args : JsonValue) :
    ∃ quiet : Prop, (handler args).Ensures (Allows ws quiet) (Excuses quiet) past ∧
      ((skillEffectProfile skillName).idempotent=true → quiet) := by
  have hmem : (skillName,handler)∈builtinSkills env ws := by
    obtain ⟨before,after,hsplit,-⟩ := List.lookup_eq_some_iff.mp h
    rw [hsplit]
    exact List.mem_append_right _ List.mem_cons_self
  simp only [builtinSkills,List.mem_cons,List.not_mem_nil,or_false,Prod.mk.injEq] at hmem
  rcases hmem with ⟨rfl,rfl⟩|⟨rfl,rfl⟩|⟨rfl,rfl⟩|⟨rfl,rfl⟩|⟨rfl,rfl⟩|⟨rfl,rfl⟩|⟨rfl,rfl⟩|⟨rfl,rfl⟩
  · exact ⟨False,bashEval_ensures args,Bool.false_ne_true⟩
  · refine ⟨True,Ensures.mono (readFile_ensures args) fun _ _ _ _ => excuses_true _ _,?_⟩
    exact fun _ => trivial
  · exact ⟨False,writeFile_ensures args,Bool.false_ne_true⟩
  · exact ⟨True,listDir_ensures args,fun _ => trivial⟩
  · exact ⟨True,gitStatus_ensures args,fun _ => trivial⟩
  · exact ⟨True,notConnected_ensures _ args,fun _ => trivial⟩
  · exact ⟨True,notConnected_ensures _ args,fun _ => trivial⟩
  · exact ⟨True,notConnected_ensures _ args,fun _ => trivial⟩

/-- The calls of a classified dispatch, behind the gates. A fault without effect comes
from a quiet skill. -/
theorem dispatchClassified_ensures (env : DispatchEnv π) (ws : WorkspaceCapability)
    (past : List SystemEvent) (skillName : String) (arguments : JsonValue) :
    ∃ quiet : Prop, (dispatchClassified env ws skillName arguments).Ensures
        (fun past call => probeGate env skillName arguments=.ok () ∧ Allows ws quiet past call)
        (fun _ result => ∀ fault, result=.error fault → fault.certainty=.noEffect → quiet) past ∧
      ((skillEffectProfile skillName).idempotent=true → quiet) := by
  rw [dispatchClassified]
  cases hgate : probeGate env skillName arguments with
  | error reason => exact ⟨True,.done fun _ _ _ => trivial,fun _ => trivial⟩
  | ok u =>
    simp only [preDispatchCheck_of_probeGate hgate]
    cases hskill : (builtinSkills env ws).lookup skillName with
    | none => exact ⟨True,.done fun _ _ _ => trivial,fun _ => trivial⟩
    | some handler =>
      obtain ⟨quiet,hcalls,hidempotent⟩ := handler_ensures past hskill arguments
      refine ⟨quiet,Ensures.map (Ensures.mono (Ensures.weaken hcalls fun _ _ h => ⟨trivial,h⟩)
        fun past' result _ hexcuses fault hfault hcertain => ?_),hidempotent⟩
      cases result with
      | ok text => cases hfault
      | error err =>
        cases hfault
        unfold classifyHandlerError at hcertain
        split at hcertain
        · next hprefix => exact hexcuses err rfl (List.isPrefixOf_iff_prefix.mp hprefix)
        · split at hcertain
          · next hidem => exact hidempotent hidem
          · cases hcertain

/-- The calls of a gated execution, behind the gates. -/
theorem executeGated_ensures (past : List SystemEvent) (req : SkillExecutionRequest) :
    (executeGated env ws req).Ensures
    (fun past call => probeGate env req.skillName req.arguments=.ok () ∧ Permitted ws past call)
    (fun past response => req.skillName="read_file" → response.success=true →
      ReadInside ws past (.ok response.output)) past := by
  rw [executeGated]
  cases hgate : probeGate env req.skillName req.arguments with
  | error reason => exact .done fun _ hsuccess => absurd hsuccess Bool.false_ne_true
  | ok u =>
    simp only [execute,preDispatchCheck_of_probeGate hgate]
    by_cases hread : req.skillName="read_file"
    · have hskill : (builtinSkills env ws).lookup req.skillName=some (readFile ws) := by
        rw [hread]
        rfl
      rw [hskill]
      refine Ensures.map (Ensures.mono (Ensures.weaken (readFile_ensures req.arguments)
        fun _ _ h => ⟨trivial,h.1⟩) fun past' result _ hinside _ hsuccess => ?_)
      cases result with
      | ok text => exact hinside
      | error e => exact absurd hsuccess Bool.false_ne_true
    · cases hskill : (builtinSkills env ws).lookup req.skillName with
      | none => exact .done fun _ hsuccess => absurd hsuccess Bool.false_ne_true
      | some handler =>
        obtain ⟨quiet,hcalls,-⟩ := handler_ensures past hskill req.arguments
        refine Ensures.map (Ensures.mono (Ensures.weaken hcalls fun _ _ h => ⟨trivial,h.1⟩) ?_)
        exact fun _ _ _ _ hname => absurd hname hread

/-- The gated shell makes no call that the gate did not let through. -/
theorem dispatchShellGated_ensures (command : String) :
    (dispatchShellGated env ws command none 15).Ensures
      (fun past call => probeGate env "bash_eval" (commandArgs command)=.ok () ∧
        Permitted ws past call) (fun _ _ => True) past := by
  rw [dispatchShellGated]
  cases hgate : probeGate env "bash_eval" (commandArgs command) with
  | error e => exact .done trivial
  | ok u =>
    refine Ensures.mono (Ensures.weaken (dispatchShell_ensures command none)
      fun _ _ h => ⟨rfl,h.1⟩) fun _ _ _ _ => trivial

section Quiet

variable {skillName : String} {arguments : JsonValue} {events : List SystemEvent}

/-- The calls of a dispatch that is quiet change nothing. -/
theorem observes_of_quiet {quiet gate : Prop} {p q : SystemProgram (Except ToolFault String)}
    {Q : List SystemEvent → Except ToolFault String → Prop}
    (h : p.Ensures (fun past call => gate ∧ Allows ws quiet past call) Q [])
    (hruns : runs Program.advance p events=some q) (hquiet : quiet) : ∀ e∈events, Observes e.call := by
  intro e he
  obtain ⟨before,after,hsplit⟩ := List.append_of_mem he
  exact ((Ensures.runs h hruns).2 before e after hsplit).2.2 hquiet

/-- A call of a skill that counts as idempotent changes nothing. -/
theorem idempotent_observes {q : SystemProgram (Except ToolFault String)}
    (hruns : runs Program.advance (dispatchClassified env ws skillName arguments) events=some q)
    (hidempotent : (skillEffectProfile skillName).idempotent=true) :
    ∀ e∈events, Observes e.call := by
  obtain ⟨quiet,hcalls,hquiet⟩ := dispatchClassified_ensures env ws [] skillName arguments
  exact observes_of_quiet hcalls hruns (hquiet hidempotent)

/-- A dispatch that ends with a fault without effect has changed nothing. -/
theorem noEffect_observes {fault : ToolFault}
    (hruns : runs Program.advance (dispatchClassified env ws skillName arguments) events=
      some (.done (.error fault)))
    (hcertain : fault.certainty=.noEffect) : ∀ e∈events, Observes e.call := by
  obtain ⟨quiet,hcalls,-⟩ := dispatchClassified_ensures env ws [] skillName arguments
  refine observes_of_quiet hcalls hruns ?_
  cases (Ensures.runs hcalls hruns).1 with
  | done hend => exact hend fault rfl hcertain

end Quiet

/-- What the retries rely on: a call of a skill that counts as idempotent changes nothing,
and a dispatch that ends with a fault without effect has changed nothing, whatever the
machine answered. -/
theorem no_effect_had_none (env : DispatchEnv π) (ws : WorkspaceCapability) (skillName : String)
    (arguments : JsonValue) :
    (∀ events q, runs Program.advance (dispatchClassified env ws skillName arguments) events=some q →
        (skillEffectProfile skillName).idempotent=true → ∀ e∈events, Observes e.call) ∧
      ∀ events fault, runs Program.advance (dispatchClassified env ws skillName arguments) events=
          some (.done (.error fault)) →
        fault.certainty=.noEffect → ∀ e∈events, Observes e.call :=
  ⟨fun _ _ hruns => idempotent_observes hruns,fun _ _ hruns => noEffect_observes hruns⟩

end AegisRuntime.SkillPermissions
