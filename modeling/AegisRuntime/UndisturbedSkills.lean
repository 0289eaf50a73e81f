import AegisRuntime.SkillPrograms

/-!
# The skills on an undisturbed machine

On a machine whose file system nothing else changes, the processes it starts included,
the programs of system calls compute what the path checks, the shell entry, the handlers
and the gated dispatches compute at one moment, and change the file system as
`write_file` does.
-/

namespace AegisRuntime.UndisturbedSkills

open SymlinkTrees FileSystemCalls TextScanning JsonValues WorkspacePaths LocalCommands KeyedTables
open CallPrograms SystemCalls SkillPrograms FailureRecords
open GatedDispatch (DispatchEnv SkillExecutionRequest SkillExecutionResponse RegisteredSkill
  SkillRegistry Invocation probeGate classifyHandlerError)

variable {π : Type} (env : DispatchEnv π) (ws : WorkspaceCapability) (m : Machine) (fs : FileSystem)

/-- How the shell of the machine answers at one moment. -/
def shellNow (line : String) (dir : Loc) : Except String ProcessOutput :=
  (m.spawn fs "sh" ["-c",line] (some (locPath dir))).mapError IoError.text

/-- `read_file` at one moment. -/
def readFileNow (args : JsonValue) : Except String String :=
  match ws.resolveReadPath fs (textArg args "path") with
  | .error e => .error e.text
  | .ok resolved => (readToString fs (locPath resolved)).mapError fun e =>
      "Failed to read file "++displayPath (locPath resolved)++": "++errnoText e

/-- `bash_eval` at one moment. -/
def bashEvalNow (args : JsonValue) : Except String String :=
  (WorkspaceCapability.dispatchShell env.escapeDebug (shellNow m fs) ws fs
    (textArg args "command") (optionalArg args "cwd") 15).mapError SecurityError.text

/-- `list_dir` at one moment. -/
def listDirNow (args : JsonValue) : Except String String :=
  match ws.resolveDirPath fs (optionalArg args "path") with
  | .error e => .error e.text
  | .ok dir =>
    match m.readDir fs (locPath dir) with
    | .error e => .error ("Failed to read directory "++displayPath (locPath dir)++": "++e.text)
    | .ok names =>
      let items := names.map fun name => listItem name (fs.isDir (locPath (dir++[name])))
      .ok (String.intercalate "\n" (items.mergeSort fun a b => decide (a ≤ b)))

/-- `git_status` at one moment. -/
def gitStatusNow (args : JsonValue) : Except String String :=
  match ws.resolveDirPath fs (optionalArg args "path") with
  | .error e => .error e.text
  | .ok dir =>
    match m.spawn fs "git" ["-C",displayPath (locPath dir),"status","--short"] none with
    | .error e => .error ("Failed to run git status: "++e.text)
    | .ok status =>
      match m.spawn fs "git" ["-C",displayPath (locPath dir),"log","-1","--oneline"] none with
      | .error e => .error ("Failed to run git log: "++e.text)
      | .ok log => .ok (gitReport status log)

/-- A handler that is not connected, at any moment. -/
def notConnectedNow (reason : String) (_ : JsonValue) : Except String String :=
  .error ("Unavailable: "++reason)

/-- The registry whose handlers answer at one moment. -/
def registryNow : SkillRegistry where
  rows :=
    [⟨"bash_eval",bashEvalNow env ws m fs⟩,
      ⟨"read_file",readFileNow ws fs⟩,
      ⟨"write_file",fun args => (ws.writeFile fs args).1⟩,
      ⟨"list_dir",listDirNow ws m fs⟩,
      ⟨"git_status",gitStatusNow ws m fs⟩,
      ⟨"cortex.search",notConnectedNow "cortex.search is not connected to a Cortex backend."⟩,
      ⟨"cortex_recall",notConnectedNow "cortex.search is not connected to a Cortex backend."⟩,
      ⟨"telemetry_ping",notConnectedNow "telemetry.read is not connected."⟩]
  keys_nodup := (by decide : ["bash_eval","read_file","write_file","list_dir","git_status",
    "cortex.search","cortex_recall","telemetry_ping"].Nodup)

/-- What the called handlers do to the file system. -/
def written (calls : List Invocation) : FileSystem :=
  calls.foldl (fun fs call =>
    if call.skillName="write_file" then (ws.writeFile fs call.arguments).2 else fs) fs

/-- A path to read is resolved as at one moment. -/
theorem execute_resolveReadPath (requested : String) :
    (resolveReadPath ws requested).execute (respond m) fs=(fs,ws.resolveReadPath fs requested) := by
  unfold resolveReadPath WorkspaceCapability.resolveReadPath
  simp only []
  split
  · rfl
  · rw [execute_pathExists]
    split
    · rfl
    · rw [execute_canonicalize]
      cases fs.canonicalize (parsePath (ws.joined (trim requested.toList))) with
      | error e => rfl
      | ok canonical =>
        simp only [Except.mapError]
        split
        · rfl
        · rfl

/-- The loop over the parents ends as at one moment. -/
theorem execute_existingAncestor (l : List Component) :
    (SkillPrograms.existingAncestor l).execute (respond m) fs=
      (fs,WorkspacePaths.existingAncestor fs l) := by
  induction l with
  | nil => rfl
  | cons c rest ih =>
    cases c with
    | rootDir => rfl
    | curDir | parentDir | normal name =>
      simp only [SkillPrograms.existingAncestor,WorkspacePaths.existingAncestor,execute_pathExists]
      split
      · rw [execute_canonicalize]
        cases fs.canonicalize rest.reverse with
        | error e => rfl
        | ok canonical => rfl
      · exact ih

/-- A path to write is resolved as at one moment. -/
theorem execute_resolveWritePath (requested : String) :
    (resolveWritePath ws requested).execute (respond m) fs=
      (fs,ws.resolveWritePath fs requested) := by
  unfold resolveWritePath WorkspaceCapability.resolveWritePath
  simp only []
  split
  · rfl
  · rewrite [execute_map,execute_existingAncestor]
    cases WorkspacePaths.existingAncestor fs (ws.normalizedTarget requested).reverse with
    | error e => rfl
    | ok ancestor =>
      cases ancestor with
      | none => rfl
      | some ancestor => rfl

/-- A directory is resolved as at one moment. -/
theorem execute_resolveDirPath (requested : Option String) :
    (resolveDirPath ws requested).execute (respond m) fs=(fs,ws.resolveDirPath fs requested) := by
  unfold resolveDirPath WorkspaceCapability.resolveDirPath
  simp only []
  rw [execute_pathExists]
  split
  · rfl
  · rw [execute_canonicalize]
    cases fs.canonicalize (parsePath (ws.dirTarget requested)) with
    | error e => rfl
    | ok canonical =>
      simp only [Except.mapError,execute_isDir]
      split
      · rfl
      · split
        · rfl
        · rfl

/-- A shell command answers as at one moment. -/
theorem execute_executeShell (command : String) (cwd : Option String) (timeoutSecs : ℕ) :
    (SkillPrograms.executeShell ws command cwd timeoutSecs).execute (respond m) fs=
      (fs,WorkspaceCapability.executeShell (shellNow m fs) ws fs command cwd timeoutSecs) := by
  unfold SkillPrograms.executeShell WorkspaceCapability.executeShell
  simp only []
  split
  · rfl
  · rw [execute_bind,execute_resolveDirPath]
    cases ws.resolveDirPath fs cwd with
    | error e => rfl
    | ok dir =>
      simp only [execute_spawn,execute_done,shellNow]
      cases m.spawn fs "sh" ["-c",wrappedCommand command timeoutSecs] (some (locPath dir)) with
      | error e => rfl
      | ok output => rfl

/-- So does one behind the membrane and the catalogue. -/
theorem execute_dispatchShell (command : String) (cwd : Option String) (timeoutSecs : ℕ) :
    (SkillPrograms.dispatchShell env ws command cwd timeoutSecs).execute (respond m) fs=
      (fs,WorkspaceCapability.dispatchShell env.escapeDebug (shellNow m fs) ws fs command cwd
        timeoutSecs) := by
  unfold SkillPrograms.dispatchShell WorkspaceCapability.dispatchShell
  cases preDispatchCheck env.escapeDebug "bash_eval" (commandArgs command) with
  | error e => rfl
  | ok u =>
    cases admitLocalCommand command with
    | error e => rfl
    | ok u => exact execute_executeShell ws m fs command cwd timeoutSecs

/-- So does `bash_eval`. -/
theorem execute_bashEval (args : JsonValue) :
    (bashEval env ws args).execute (respond m) fs=(fs,bashEvalNow env ws m fs args) := by
  rw [bashEval,execute_map,execute_dispatchShell,bashEvalNow]

/-- Reading answers as at one moment and changes nothing. -/
theorem execute_readFile (args : JsonValue) :
    (readFile ws args).execute (respond m) fs=(fs,readFileNow ws fs args) := by
  rw [readFile,execute_bind,execute_resolveReadPath,readFileNow]
  cases ws.resolveReadPath fs (textArg args "path") with
  | error e => rfl
  | ok loc =>
    simp only [execute_readToString,execute_done]
    cases readToString fs (locPath loc) with
    | error e => rfl
    | ok content => rfl

/-- The calls that make the parent directories make them. -/
theorem execute_makeParent (p : List Component) :
    ((makeParent p).execute (respond m) fs).1=prepareParent fs p := by
  rw [makeParent,prepareParent]
  cases parentPath p with
  | none => rfl
  | some parent => exact congrArg Prod.fst (execute_createDirAll m fs parent)

/-- Writing answers and changes the file system as at one moment. -/
theorem execute_writeFile (args : JsonValue) :
    (SkillPrograms.writeFile ws args).execute (respond m) fs=
      ((ws.writeFile fs args).2,(ws.writeFile fs args).1) := by
  unfold SkillPrograms.writeFile WorkspaceCapability.writeFile
  simp only []
  rw [execute_bind,execute_resolveWritePath]
  cases ws.resolveWritePath fs (textArg args "path") with
  | error e => rfl
  | ok p =>
    simp only [execute_bind,execute_makeParent,execute_write,execute_done]
    cases (prepareParent fs p).write p (textArg args "content") with
    | ok fs' => rfl
    | error e => rfl

/-- The entries are looked at one after the other. -/
theorem execute_listItems (dir : Loc) (names : List String) :
    (listItems dir names).execute (respond m) fs=
      (fs,names.map fun name => listItem name (fs.isDir (locPath (dir++[name])))) := by
  induction names with
  | nil => rfl
  | cons name rest ih => rw [listItems,execute_isDir,execute_map,ih,List.map_cons]

/-- Listing a directory answers as at one moment and changes nothing. -/
theorem execute_listDir (args : JsonValue) :
    (listDir ws args).execute (respond m) fs=(fs,listDirNow ws m fs args) := by
  rw [listDir,execute_bind,execute_resolveDirPath,listDirNow]
  cases ws.resolveDirPath fs (optionalArg args "path") with
  | error e => rfl
  | ok dir =>
    simp only [execute_readDir]
    cases m.readDir fs (locPath dir) with
    | error e => rfl
    | ok names => simp only [execute_map,execute_listItems]

/-- Asking `git` answers as at one moment and changes nothing. -/
theorem execute_gitStatus (args : JsonValue) :
    (gitStatus ws args).execute (respond m) fs=(fs,gitStatusNow ws m fs args) := by
  rw [gitStatus,execute_bind,execute_resolveDirPath,gitStatusNow]
  cases ws.resolveDirPath fs (optionalArg args "path") with
  | error e => rfl
  | ok dir =>
    simp only [execute_spawn]
    cases m.spawn fs "git" ["-C",displayPath (locPath dir),"status","--short"] none with
    | error e => rfl
    | ok status =>
      cases hlog : m.spawn fs "git" ["-C",displayPath (locPath dir),"log","-1","--oneline"] none with
      | error e => simp only [execute_spawn,execute_done,hlog]
      | ok log => simp only [execute_spawn,execute_done,hlog]

/-- A handler as a program does and answers what a handler of a moment does. -/
def ActsNow (name : String) (program : JsonValue → SystemProgram (Except String String))
    (now : JsonValue → Except String String) : Prop :=
  ∀ args, (program args).execute (respond m) fs=(written ws fs [⟨name,args⟩],now args)

/-- Every registered handler acts as the one of the moment. -/
theorem builtinSkills_actNow : List.Forall₂ (fun skill (row : RegisteredSkill) =>
    skill.1=row.name ∧ ActsNow ws m fs skill.1 skill.2 row.handler)
    (builtinSkills env ws) (registryNow env ws m fs).rows := by
  refine .cons ⟨rfl,execute_bashEval env ws m fs⟩ ?_
  refine .cons ⟨rfl,execute_readFile ws m fs⟩ ?_
  refine .cons ⟨rfl,execute_writeFile ws m fs⟩ ?_
  refine .cons ⟨rfl,execute_listDir ws m fs⟩ ?_
  refine .cons ⟨rfl,execute_gitStatus ws m fs⟩ ?_
  refine .cons ⟨rfl,fun _ => rfl⟩ (.cons ⟨rfl,fun _ => rfl⟩ (.cons ⟨rfl,fun _ => rfl⟩ .nil))

/-- The registry of a moment finds a handler for each that is registered, which acts as it. -/
theorem find_registryNow (skillName : String) : Option.Rel (fun program (row : RegisteredSkill) =>
    ActsNow ws m fs skillName program row.handler)
    ((builtinSkills env ws).lookup skillName) ((registryNow env ws m fs).find skillName) := by
  have hall := builtinSkills_actNow env ws m fs
  rw [Table.find]
  generalize builtinSkills env ws=skills at hall ⊢
  generalize (registryNow env ws m fs).rows=rows at hall ⊢
  induction hall with
  | nil => exact .none
  | @cons skill row skills rows h _ ih =>
    obtain ⟨hname,hacts⟩ := h
    obtain ⟨name,program⟩ := skill
    by_cases hsame : skillName=name
    · subst hsame
      rw [List.lookup_cons_self,List.find?_cons_of_pos (by simpa using hname.symm)]
      exact .some hacts
    · have hother : ¬row.name=skillName := fun heq => hsame (heq.symm.trans hname.symm)
      rw [List.lookup_cons,beq_eq_false_iff_ne.mpr hsame,
        List.find?_cons_of_neg (by simpa using hother)]
      exact ih

/-- On an undisturbed machine the programs of system calls refine the model that takes
each handler at one moment: the shell entry, reading and writing answer as there, and
both gated dispatches return what the gated dispatch over those handlers returns and
leave the file system that its invocations write. -/
theorem undisturbed_dispatch (env : DispatchEnv π) (ws : WorkspaceCapability) (m : Machine)
    (fs : FileSystem) :
    (∀ args, (bashEval env ws args).execute (respond m) fs=
        (fs,(WorkspaceCapability.dispatchShell env.escapeDebug (shellNow m fs) ws fs
          (textArg args "command") (optionalArg args "cwd") 15).mapError SecurityError.text)) ∧
      (∀ args, (readFile ws args).execute (respond m) fs=(fs,readFileNow ws fs args)) ∧
      (∀ args, (SkillPrograms.writeFile ws args).execute (respond m) fs=
        ((ws.writeFile fs args).2,(ws.writeFile fs args).1)) ∧
      (∀ req, (executeGated env ws req).execute (respond m) fs=
        (written ws fs (SkillRegistry.executeGated env (registryNow env ws m fs) req).2,
          (SkillRegistry.executeGated env (registryNow env ws m fs) req).1)) ∧
      ∀ skillName arguments, (dispatchClassified env ws skillName arguments).execute (respond m) fs=
        (written ws fs
            (SkillRegistry.dispatchClassified env (registryNow env ws m fs) skillName arguments).2,
          (SkillRegistry.dispatchClassified env (registryNow env ws m fs) skillName
            arguments).1) := by
  refine ⟨execute_bashEval env ws m fs,execute_readFile ws m fs,execute_writeFile ws m fs,
    fun req => ?_,fun skillName arguments => ?_⟩
  -- both dispatches find the handler of the moment behind the same gates
  · rw [executeGated,SkillRegistry.executeGated]
    cases probeGate env req.skillName req.arguments with
    | error reason => rfl
    | ok u =>
      simp only [SkillPrograms.execute,SkillRegistry.execute]
      cases preDispatchCheck env.escapeDebug req.skillName req.arguments with
      | error reason => rfl
      | ok u =>
        have hfound := find_registryNow env ws m fs req.skillName
        generalize (builtinSkills env ws).lookup req.skillName=program at hfound ⊢
        generalize (registryNow env ws m fs).find req.skillName=found at hfound ⊢
        cases hfound with
        | none => rfl
        | @some program row hacts =>
          simp only [execute_map,hacts req.arguments]
          cases row.handler req.arguments with
          | ok output => rfl
          | error err => rfl
  · rw [dispatchClassified,SkillRegistry.dispatchClassified]
    cases probeGate env skillName arguments with
    | error reason => rfl
    | ok u =>
      simp only []
      cases preDispatchCheck env.escapeDebug skillName arguments with
      | error reason => rfl
      | ok u =>
        have hfound := find_registryNow env ws m fs skillName
        generalize (builtinSkills env ws).lookup skillName=program at hfound ⊢
        generalize (registryNow env ws m fs).find skillName=found at hfound ⊢
        cases hfound with
        | none => rfl
        | @some program row hacts => simp only [execute_map,hacts arguments]

end AegisRuntime.UndisturbedSkills
