import AegisRuntime.GatedDispatch
import AegisRuntime.SystemCalls

/-!
# The built-in skills as programs of system calls

The path checks, the shell executor, the handlers of the built-in skills and the
gated ways to them, each with the system calls it makes in their order. Whatever
the machine answers, a program only reads, lists and starts processes at locations
that it has itself found inside the workspace, and only makes and writes what is
spelled below it.
-/

namespace AegisRuntime.SkillPrograms

open SymlinkTrees FileSystemCalls TextScanning JsonValues WorkspacePaths LocalCommands
open CallPrograms SystemCalls FailureRecords
open GatedDispatch (DispatchEnv SkillExecutionRequest SkillExecutionResponse probeGate notInRegistry
  classifyHandlerError)

/-- `resolve_read_path`. -/
def resolveReadPath (ws : WorkspaceCapability) (requested : String) :
    SystemProgram (Except SecurityError Loc) :=
  let trimmed := trim requested.toList
  if trimmed.isEmpty then .done (.error (.invalidPath "Path cannot be empty"))
  else
    let candidate := parsePath (ws.joined trimmed)
    .ask (.pathExists candidate) fun (found : Bool) =>
      if !found then
        .done (.error (.pathNotFound ("File does not exist: "++String.ofList trimmed)))
      else
        .ask (.canonicalize candidate) fun (canonical : Except IoError Loc) =>
          match canonical with
          | .error e => .done (.error (.ioError
              ("Failed to canonicalize path "++String.ofList trimmed++": "++e.text)))
          | .ok canonical =>
            if !ws.root.isPrefixOf canonical then
              .done (.error (.accessDenied ("Path "++displayPath (locPath canonical)++
                " escapes authorized workspace root "++displayPath (locPath ws.root))))
            else .done (.ok canonical)

/-- The loop of `resolve_write_path` over the parents, the components last first. -/
def existingAncestor : List Component → SystemProgram (Except SecurityError (Option Loc))
  | [] => .done (.ok none)
  | .rootDir::_ => .done (.ok none)
  | _::rest =>
    .ask (.pathExists rest.reverse) fun (found : Bool) =>
      if found then
        .ask (.canonicalize rest.reverse) fun (canonical : Except IoError Loc) =>
          match canonical with
          | .error e => .done (.error (.ioError
              ("Failed to canonicalize ancestor "++displayPath rest.reverse++": "++e.text)))
          | .ok canonicalAncestor => .done (.ok (some canonicalAncestor))
      else existingAncestor rest

/-- `resolve_write_path`. -/
def resolveWritePath (ws : WorkspaceCapability) (requested : String) :
    SystemProgram (Except SecurityError (List Component)) :=
  let trimmed := trim requested.toList
  if trimmed.isEmpty then .done (.error (.invalidPath "Path cannot be empty"))
  else
    let normalized := ws.normalizedTarget requested
    (existingAncestor normalized.reverse).map fun ancestor =>
      match ancestor with
      | .error e => .error e
      | .ok none => .error (.accessDenied
          ("No valid ancestor directory found for "++String.ofList trimmed))
      | .ok (some ancestor) =>
        if !ws.root.isPrefixOf ancestor then
          .error (.accessDenied ("Target ancestor "++displayPath (locPath ancestor)++
            " escapes authorized workspace root "++displayPath (locPath ws.root)))
        else if !(locPath ws.root).isPrefixOf normalized then
          .error (.accessDenied ("Normalized target path "++displayPath normalized++
            " escapes authorized workspace root "++displayPath (locPath ws.root)))
        else .ok normalized

/-- `resolve_dir_path`. -/
def resolveDirPath (ws : WorkspaceCapability) (requested : Option String) :
    SystemProgram (Except SecurityError Loc) :=
  let target := ws.dirTarget requested
  .ask (.pathExists (parsePath target)) fun (found : Bool) =>
    if !found then
      .done (.error (.pathNotFound ("Directory does not exist: "++String.ofList target)))
    else
      .ask (.canonicalize (parsePath target)) fun (canonical : Except IoError Loc) =>
        match canonical with
        | .error e => .done (.error (.ioError
            ("Failed to canonicalize directory "++String.ofList target++": "++e.text)))
        | .ok canonical =>
          .ask (.isDir (locPath canonical)) fun (isDir : Bool) =>
            if !isDir then
              .done (.error (.invalidPath
                ("Path is not a directory: "++displayPath (locPath canonical))))
            else if !ws.root.isPrefixOf canonical then
              .done (.error (.accessDenied ("Directory "++displayPath (locPath canonical)++
                " escapes authorized workspace root "++displayPath (locPath ws.root))))
            else .done (.ok canonical)

/-- What `execute_shell` makes of a finished process. -/
def shellOutput (command : String) (timeoutSecs : ℕ) :
    Except IoError ProcessOutput → Except SecurityError String
  | .error e => .error (.commandFailed ("Failed to execute command: "++e.text))
  | .ok output =>
    if output.code=some 0 then .ok output.stdout
    else
      let code := output.code.getD (-1)
      if code=124 then
        .error (.commandFailed ("Command timed out after "++toString timeoutSecs++
          " seconds: "++String.ofList (trim command.toList)))
      else
        let stderr := trim output.stderr.toList
        .error (.commandFailed ("Exit code "++toString code++": "++String.ofList
          (if !stderr.isEmpty then stderr else trim output.stdout.toList)))

/-- `execute_shell`. -/
def executeShell (ws : WorkspaceCapability) (command : String) (cwd : Option String)
    (timeoutSecs : ℕ) : SystemProgram (Except SecurityError String) :=
  if (trim command.toList).isEmpty then .done (.error (.invalidPath "Command cannot be empty"))
  else
    (resolveDirPath ws cwd).bind fun resolved =>
      match resolved with
      | .error e => .done (.error e)
      | .ok workingDir =>
        .ask (.spawn "sh" ["-c",wrappedCommand command timeoutSecs] (some (locPath workingDir)))
          fun (output : Except IoError ProcessOutput) =>
            .done (shellOutput command timeoutSecs output)

variable {π : Type} (env : DispatchEnv π) (ws : WorkspaceCapability)

/-- `dispatch_shell`. -/
def dispatchShell (command : String) (cwd : Option String) (timeoutSecs : ℕ) :
    SystemProgram (Except SecurityError String) :=
  match preDispatchCheck env.escapeDebug "bash_eval" (commandArgs command) with
  | .error e => .done (.error (.accessDenied e))
  | .ok () =>
    match admitLocalCommand command with
    | .error e => .done (.error e)
    | .ok () => executeShell ws command cwd timeoutSecs

/-- `dispatch_shell_gated`. -/
def dispatchShellGated (command : String) (cwd : Option String) (timeoutSecs : ℕ) :
    SystemProgram (Except SecurityError String) :=
  match probeGate env "bash_eval" (commandArgs command) with
  | .error e => .done (.error (.accessDenied e))
  | .ok () => dispatchShell env ws command cwd timeoutSecs

/-- A string argument of a skill call, if there is one. -/
def optionalArg (args : JsonValue) (key : String) : Option String :=
  (args.get key).bind JsonValue.asStr

/-- The handler of `bash_eval`. -/
def bashEval (args : JsonValue) : SystemProgram (Except String String) :=
  (dispatchShell env ws (textArg args "command") (optionalArg args "cwd") 15).map fun result =>
    result.mapError SecurityError.text

/-- The handler of `read_file`. -/
def readFile (args : JsonValue) : SystemProgram (Except String String) :=
  (resolveReadPath ws (textArg args "path")).bind fun resolved =>
    match resolved with
    | .error e => .done (.error e.text)
    | .ok resolved =>
      .ask (.readToString (locPath resolved)) fun (content : Except IoError String) =>
        .done (content.mapError fun e =>
          "Failed to read file "++displayPath (locPath resolved)++": "++e.text)

/-- Makes the parent directories of a path, if it has a parent. -/
def makeParent (resolved : List Component) : SystemProgram (Except IoError Unit) :=
  match parentPath resolved with
  | some parent => createDirAll parent
  | none => .done (.ok ())

/-- The handler of `write_file`; a failure to make the directories is ignored. -/
def writeFile (args : JsonValue) : SystemProgram (Except String String) :=
  let content := textArg args "content"
  (resolveWritePath ws (textArg args "path")).bind fun resolved =>
    match resolved with
    | .error e => .done (.error e.text)
    | .ok resolved =>
      (makeParent resolved).bind fun _ =>
        .ask (.write resolved content) fun (written : Except IoError Unit) =>
          .done (match written with
            | .ok () => .ok ("Wrote "++toString content.utf8ByteSize++" bytes to "++
                displayPath resolved)
            | .error e => .error ("Failed to write file "++displayPath resolved++": "++e.text))

/-- The line of a directory entry. -/
def listItem (name : String) (isDir : Bool) : String :=
  name++" ("++(if isDir then "dir" else "file")++")"

/-- The loop of `list_dir` over the names. -/
def listItems (dir : Loc) : List String → SystemProgram (List String)
  | [] => .done []
  | name::rest =>
    .ask (.isDir (locPath (dir++[name]))) fun (isDir : Bool) =>
      (listItems dir rest).map fun items => listItem name isDir::items

/-- The handler of `list_dir`. -/
def listDir (args : JsonValue) : SystemProgram (Except String String) :=
  (resolveDirPath ws (optionalArg args "path")).bind fun resolved =>
    match resolved with
    | .error e => .done (.error e.text)
    | .ok resolved =>
      .ask (.readDir (locPath resolved)) fun (entries : Except IoError (List String)) =>
        match entries with
        | .error e => .done (.error
            ("Failed to read directory "++displayPath (locPath resolved)++": "++e.text))
        | .ok names => (listItems resolved names).map fun items =>
            .ok (String.intercalate "\n" (items.mergeSort fun a b => decide (a ≤ b)))

/-- The text of `git_status`. -/
def gitReport (status log : ProcessOutput) : String :=
  "HEAD: "++String.ofList (trim log.stdout.toList)++"\nStatus:\n"++
    (if status.stdout.isEmpty then "clean" else String.ofList (trim status.stdout.toList))

/-- The handler of `git_status`. -/
def gitStatus (args : JsonValue) : SystemProgram (Except String String) :=
  (resolveDirPath ws (optionalArg args "path")).bind fun resolved =>
    match resolved with
    | .error e => .done (.error e.text)
    | .ok resolved =>
      .ask (.spawn "git" ["-C",displayPath (locPath resolved),"status","--short"] none)
        fun (status : Except IoError ProcessOutput) =>
          match status with
          | .error e => .done (.error ("Failed to run git status: "++e.text))
          | .ok status =>
            .ask (.spawn "git" ["-C",displayPath (locPath resolved),"log","-1","--oneline"] none)
              fun (log : Except IoError ProcessOutput) =>
                .done (match log with
                  | .error e => .error ("Failed to run git log: "++e.text)
                  | .ok log => .ok (gitReport status log))

/-- A handler that is not connected. -/
def notConnected (reason : String) (_ : JsonValue) : SystemProgram (Except String String) :=
  .done (.error ("Unavailable: "++reason))

/-- `register_builtin_skills`: the names and their handlers. -/
def builtinSkills : List (String×(JsonValue → SystemProgram (Except String String))) :=
  [("bash_eval",bashEval env ws),
    ("read_file",readFile ws),
    ("write_file",writeFile ws),
    ("list_dir",listDir ws),
    ("git_status",gitStatus ws),
    ("cortex.search",notConnected "cortex.search is not connected to a Cortex backend."),
    ("cortex_recall",notConnected "cortex.search is not connected to a Cortex backend."),
    ("telemetry_ping",notConnected "telemetry.read is not connected.")]

/-- `execute`. -/
def execute (req : SkillExecutionRequest) : SystemProgram SkillExecutionResponse :=
  match preDispatchCheck env.escapeDebug req.skillName req.arguments with
  | .error reason => .done ⟨false,"",some reason⟩
  | .ok () =>
    match (builtinSkills env ws).lookup req.skillName with
    | some handler => (handler req.arguments).map .ofResult
    | none => .done ⟨false,"",some (notInRegistry req.skillName)⟩

/-- `execute_gated`. -/
def executeGated (req : SkillExecutionRequest) : SystemProgram SkillExecutionResponse :=
  match probeGate env req.skillName req.arguments with
  | .error reason => .done ⟨false,"",some reason⟩
  | .ok () => execute env ws req

/-- `dispatch_classified`. -/
def dispatchClassified (skillName : String) (arguments : JsonValue) :
    SystemProgram (Except ToolFault String) :=
  match probeGate env skillName arguments with
  | .error reason => .done (.error (GatedDispatch.ToolFault.rejected reason))
  | .ok () =>
    match preDispatchCheck env.escapeDebug skillName arguments with
    | .error reason => .done (.error (GatedDispatch.ToolFault.rejected reason))
    | .ok () =>
      match (builtinSkills env ws).lookup skillName with
      | none => .done (.error (GatedDispatch.ToolFault.rejected (notInRegistry skillName)))
      | some handler => (handler arguments).map fun result =>
          result.mapError (classifyHandlerError skillName)

end AegisRuntime.SkillPrograms
