import AegisRuntime.WorkspacePaths

/-!
# Catalogued local commands

The shell allowlist: `admit_local_command`, the membrane `pre_dispatch_check`
and the executor behind `dispatch_shell`. The result compares two tokenisers of
one text, the one that admits a command and the shell that runs it. The process
that runs a command and the tables of `str::escape_debug` are parameters; the
probe gate is outside this module.
-/

namespace AegisRuntime.LocalCommands

open SymlinkTrees FileSystemCalls TextScanning JsonValues WorkspacePaths

/-- The characters that no local form has. -/
def SHELL_META : List Char := ";|&$<>`\\\n\r()\x7b\x7d!*?[]'\"".toList

/-- The catalogued forms. -/
def allowedForms : List (List (List Char)) :=
  [["git","status"],["git","diff"],["git","log","-1","--oneline"],["ls"]].map fun form =>
    form.map String.toList

/-- Admits a command whose words are one whole form of the catalog. -/
def admitLocalCommand (command : String) : Except SecurityError Unit :=
  if command.toList.any SHELL_META.contains then
    .error (.accessDenied ("Command is not a local form. Shell joining, substitution, and "++
      "quoting are not local execution."))
  else if allowedForms.contains (words isWhitespace command.toList) then .ok ()
  else
    .error (.accessDenied ("Command is not eligible for local shell. Local execution is only the "++
      "catalogued forms: git status, git diff, git log -1 --oneline, and ls. Anything else needs "++
      "a typed tool."))

/-- Skill names the membrane will dispatch. -/
def ALLOWED_SKILLS : List String :=
  ["bash_eval","read_file","write_file","list_dir","git_status","cortex.search","cortex_recall",
    "telemetry_ping"]

/-- The command text that `pre_dispatch_check` reads from the arguments. -/
def commandText (args : JsonValue) : Except String String :=
  match args.get "command" with
  | some (.string s) => .ok s
  | some _ => .error "Shell command must be a string"
  | none => .ok ""

/-- The deterministic check before any dispatch. -/
def preDispatchCheck (escapeDebug : String → String) (skillName : String) (args : JsonValue) :
    Except String Unit :=
  if (trim skillName.toList).isEmpty then .error "Empty skill name is never dispatched"
  else if !ALLOWED_SKILLS.contains skillName then
    .error ("Skill '"++escapeDebug skillName++"' is not on the dispatch allowlist")
  else if !(args.isObject || args.isNull) then .error "Skill arguments must be a JSON object"
  else if skillName=="bash_eval" then
    match commandText args with
    | .error e => .error e
    | .ok cmd =>
      if (trim cmd.toList).isEmpty then .error "Empty shell command is never dispatched"
      else
        match admitLocalCommand cmd with
        | .error e => .error e.text
        | .ok () => .ok ()
  else .ok ()

/-- What a finished process leaves. -/
structure ProcessOutput where
  /-- Standard output as text. -/
  stdout : String
  /-- Standard error as text. -/
  stderr : String
  /-- The exit code; none after a signal. -/
  code : Option ℤ

/-- The command line of the outer shell. -/
def wrappedCommand (command : String) (timeoutSecs : ℕ) : String :=
  let escaped := replaceAll ['\''] "'\\''".toList (trim command.toList)
  "timeout "++toString timeoutSecs++"s bash -c '"++String.ofList escaped++"'"

/-- Low-level executor; `run` starts the outer shell in a directory. -/
def WorkspaceCapability.executeShell (run : String → Loc → Except String ProcessOutput)
    (ws : WorkspaceCapability) (fs : FileSystem) (command : String) (cwd : Option String)
    (timeoutSecs : ℕ) : Except SecurityError String :=
  let trimmed := trim command.toList
  if trimmed.isEmpty then .error (.invalidPath "Command cannot be empty")
  else
    match ws.resolveDirPath fs cwd with
    | .error e => .error e
    | .ok workingDir =>
      match run (wrappedCommand command timeoutSecs) workingDir with
      | .error e => .error (.commandFailed ("Failed to execute command: "++e))
      | .ok output =>
        if output.code=some 0 then .ok output.stdout
        else
          let code := output.code.getD (-1)
          if code=124 then
            .error (.commandFailed ("Command timed out after "++toString timeoutSecs++
              " seconds: "++String.ofList trimmed))
          else
            let stderr := trim output.stderr.toList
            .error (.commandFailed ("Exit code "++toString code++": "++String.ofList
              (if !stderr.isEmpty then stderr else trim output.stdout.toList)))

/-- The arguments under which a shell command reaches the membrane. -/
def commandArgs (command : String) : JsonValue := .object [("command",.string command)]

/-- The only shell entry: the membrane, the catalog, then the executor. -/
def WorkspaceCapability.dispatchShell (escapeDebug : String → String)
    (run : String → Loc → Except String ProcessOutput) (ws : WorkspaceCapability) (fs : FileSystem)
    (command : String) (cwd : Option String) (timeoutSecs : ℕ) : Except SecurityError String :=
  match preDispatchCheck escapeDebug "bash_eval" (commandArgs command) with
  | .error e => .error (.accessDenied e)
  | .ok () =>
    match admitLocalCommand command with
    | .error e => .error e
    | .ok () => WorkspaceCapability.executeShell run ws fs command cwd timeoutSecs

/-- A space or a tab. -/
def isBlank (c : Char) : Bool := c == ' ' || c == '\t'

/-- What separates words for the shell, where nothing is quoted or expanded. -/
def isShellSeparator (c : Char) : Bool := isBlank c || c == '\n'

/-- The words that the shell splits a text into. -/
def shellWords (text : List Char) : List (List Char) := words isShellSeparator text

/-- A command is admitted when it has no excluded character and its words are a
catalogued form. -/
theorem admitLocalCommand_iff (command : String) : admitLocalCommand command=.ok () ↔
    (∀ d∈command.toList, SHELL_META.contains d=false) ∧
      words isWhitespace command.toList∈allowedForms := by
  have hmeta : command.toList.any SHELL_META.contains=false ↔
      ∀ d∈command.toList, SHELL_META.contains d=false := by
    rw [List.any_eq_false]
    simp only [Bool.not_eq_true]
  unfold admitLocalCommand
  cases hany : command.toList.any SHELL_META.contains with
  | true =>
    have hnot : ¬∀ d∈command.toList, SHELL_META.contains d=false := by
      rw [←hmeta,hany]
      simp
    exact iff_of_false (by simp) fun h => hnot h.1
  | false =>
    have hall := hmeta.mp hany
    rw [if_neg (by simp)]
    by_cases hform : words isWhitespace command.toList∈allowedForms
    · rw [if_pos (List.contains_iff_mem.mpr hform)]
      exact iff_of_true rfl ⟨hall,hform⟩
    · rw [if_neg (by rwa [List.contains_iff_mem])]
      exact iff_of_false (by simp) fun h => hform h.2

/-- The words of the catalog have neither excluded characters nor white space. -/
theorem mem_allowedForms {form : List (List Char)} {w : List Char} {d : Char}
    (hform : form∈allowedForms) (hw : w∈form) (hd : d∈w) :
    SHELL_META.contains d=false ∧ isWhitespace d=false := by
  have hall : (allowedForms.all fun form => form.all fun w => w.all fun d =>
      !SHELL_META.contains d && !isWhitespace d)=true := rfl
  simp only [List.all_eq_true,Bool.and_eq_true,Bool.not_eq_true'] at hall
  exact hall form hform w hw d hd

theorem isBlank_iff {d : Char} : isBlank d=true ↔ d = ' ' ∨ d = '\t' := by
  simp [isBlank]

theorem isWhitespace_of_isBlank {d : Char} (h : isBlank d=true) : isWhitespace d=true := by
  rcases isBlank_iff.mp h with rfl|rfl <;> rfl

/-- Where white space is spaces and tabs only, the two tokenisers agree. -/
theorem shellWords_eq_words {text : List Char}
    (h : ∀ d∈text, isWhitespace d=true → isBlank d=true) :
    shellWords text=words isWhitespace text := by
  refine words_congr fun d hd => ?_
  cases hw : isWhitespace d with
  | true => rw [isShellSeparator,h d hd hw,Bool.true_or]
  | false =>
    have hblank : isBlank d=false := by
      by_contra hb
      rw [isWhitespace_of_isBlank (by simpa using hb)] at hw
      cases hw
    have hnl : (d == '\n')=false := by
      by_contra hb
      have hd : d = '\n' := by simpa using hb
      rw [hd] at hw
      cases hw
    rw [isShellSeparator,hblank,hnl,Bool.false_or]

/-- What the shell is handed of an admitted command is a catalogued form exactly
when its white space is spaces and tabs only. -/
theorem shellWords_admitted {command : String} (h : admitLocalCommand command=.ok ()) :
    shellWords (trim command.toList)∈allowedForms ↔
      ∀ d∈trim command.toList, isWhitespace d=true → isBlank d=true := by
  obtain ⟨hmeta,hform⟩ := (admitLocalCommand_iff command).mp h
  constructor
  · intro hshell d hd hw
    rcases sep_or_mem_words (p:=isShellSeparator) hd with hsep|⟨w,hword,hdw⟩
    · have hnl : d ≠ '\n' := by
        intro heq
        have hexcluded := hmeta d (mem_of_mem_trimBy hd)
        rw [heq] at hexcluded
        cases hexcluded
      simpa [isShellSeparator,hnl] using hsep
    · rw [(mem_allowedForms hshell hword hdw).2] at hw
      cases hw
  · intro hblank
    rw [shellWords_eq_words hblank,trim,words_trimBy]
    exact hform

/-- A form written with spaces and tabs around and between its words is admitted. -/
theorem admit_of_blanks {command : String} (h : words isBlank command.toList∈allowedForms) :
    admitLocalCommand command=.ok () := by
  have hchar : ∀ d∈command.toList, isBlank d=true ∨
      SHELL_META.contains d=false ∧ isWhitespace d=false := by
    intro d hd
    rcases sep_or_mem_words (p:=isBlank) hd with hsep|⟨w,hword,hdw⟩
    · exact Or.inl hsep
    · exact Or.inr (mem_allowedForms h hword hdw)
  refine (admitLocalCommand_iff command).mpr ⟨fun d hd => ?_,?_⟩
  · rcases hchar d hd with hblank|hword
    · rcases isBlank_iff.mp hblank with rfl|rfl <;> decide
    · exact hword.1
  · have hsame : words isWhitespace command.toList=words isBlank command.toList := by
      refine words_congr fun d hd => ?_
      rcases hchar d hd with hblank|hword
      · rw [hblank,isWhitespace_of_isBlank hblank]
      · have hb : isBlank d=false := by
          by_contra hb
          rw [isWhitespace_of_isBlank (by simpa using hb)] at hword
          cases hword.2
        rw [hb,hword.2]
    rw [hsame]
    exact h

/-- An admitted command is not empty. -/
theorem trim_ne_nil_of_admitted {command : String} (h : admitLocalCommand command=.ok ()) :
    (trim command.toList).isEmpty=false := by
  obtain ⟨-,hform⟩ := (admitLocalCommand_iff command).mp h
  by_contra hempty
  have hnil : trim command.toList=[] := by simpa using hempty
  rw [←words_trimBy,←trim,hnil,words_nil] at hform
  revert hform
  decide

/-- For `bash_eval` the membrane passes exactly the admitted commands, whatever
other arguments come with them. -/
theorem preDispatchCheck_bash (escapeDebug : String → String) {args : JsonValue} {command : String}
    (h : args.get "command"=some (.string command)) :
    preDispatchCheck escapeDebug "bash_eval" args=.ok () ↔ admitLocalCommand command=.ok () := by
  have hcheck : preDispatchCheck escapeDebug "bash_eval" args=
      if (trim command.toList).isEmpty then .error "Empty shell command is never dispatched"
      else
        match admitLocalCommand command with
        | .error e => .error e.text
        | .ok () => .ok () := by
    rw [preDispatchCheck,if_neg (by decide),if_neg (by decide),
      if_neg (by simp [JsonValue.isObject_of_get h]),if_pos (by decide),commandText,h]
  rw [hcheck]
  cases hok : admitLocalCommand command with
  | ok u => simp [trim_ne_nil_of_admitted hok]
  | error e =>
    refine iff_of_false (fun h => ?_) (by simp)
    split at h <;> cases h

theorem commandArgs_get (command : String) :
    (commandArgs command).get "command"=some (.string command) := rfl

/-- What the shell entry starts is an admitted command, handed to the inner
shell as its trimmed text between quotes. -/
theorem dispatchShell_eq {escapeDebug : String → String}
    {run : String → Loc → Except String ProcessOutput} {ws : WorkspaceCapability}
    {fs : FileSystem} {command : String} {cwd : Option String} {timeoutSecs : ℕ}
    (h : admitLocalCommand command=.ok ()) :
    WorkspaceCapability.dispatchShell escapeDebug run ws fs command cwd timeoutSecs=
        WorkspaceCapability.executeShell run ws fs command cwd timeoutSecs ∧
      wrappedCommand command timeoutSecs="timeout "++toString timeoutSecs++"s bash -c '"++
        String.ofList (trim command.toList)++"'" := by
  have hquote : ∀ d∈trim command.toList, d ≠ '\'' := by
    intro d hd heq
    have hmeta := ((admitLocalCommand_iff command).mp h).1 d (mem_of_mem_trimBy hd)
    rw [heq] at hmeta
    cases hmeta
  constructor
  · rw [WorkspaceCapability.dispatchShell,(preDispatchCheck_bash escapeDebug (commandArgs_get command)).mpr h,
      h]
  · rw [wrappedCommand,replaceAll_of_notMem hquote]

/-- A command that is not admitted starts no process. -/
theorem dispatchShell_refused {escapeDebug : String → String} {command : String}
    (h : admitLocalCommand command≠.ok ()) (ws : WorkspaceCapability) (fs : FileSystem)
    (cwd : Option String) (timeoutSecs : ℕ) : ∃ e, ∀ run,
      WorkspaceCapability.dispatchShell escapeDebug run ws fs command cwd timeoutSecs=
        .error (.accessDenied e) := by
  have hcheck := mt (preDispatchCheck_bash escapeDebug (commandArgs_get command)).mp h
  cases he : preDispatchCheck escapeDebug "bash_eval" (commandArgs command) with
  | ok u => exact absurd he hcheck
  | error e => exact ⟨e,fun run => by rw [WorkspaceCapability.dispatchShell,he]⟩

/-- The shell allowlist: every way in admits the same commands; what an admitted
command gives the shell is a catalogued form exactly when its trimmed text has no
white space but spaces and tabs; and a form written with any runs of spaces and
tabs is admitted. -/
theorem shell_words_catalogued (escapeDebug : String → String) (command : String) :
    (∀ args : JsonValue, args.get "command"=some (.string command) →
        (preDispatchCheck escapeDebug "bash_eval" args=.ok () ↔
          admitLocalCommand command=.ok ())) ∧
      (admitLocalCommand command=.ok () →
        (shellWords (trim command.toList)∈allowedForms ↔
          ∀ d∈trim command.toList, isWhitespace d=true → isBlank d=true)) ∧
      (words isBlank command.toList∈allowedForms → admitLocalCommand command=.ok ()) :=
  ⟨fun _ => preDispatchCheck_bash escapeDebug,shellWords_admitted,admit_of_blanks⟩

/-- A form with other spaces and tabs than the catalog's own spelling. -/
theorem shell_words_catalogued_spaced :
    shellWords (trim " git \t log  -1 --oneline".toList)∈allowedForms ∧
      admitLocalCommand " git \t log  -1 --oneline"=.ok () := by
  obtain ⟨-,hshell,hblank⟩ := shell_words_catalogued id " git \t log  -1 --oneline"
  have hok := hblank (by decide)
  have hall : ((trim " git \t log  -1 --oneline".toList).all fun d =>
      !isWhitespace d || isBlank d)=true := rfl
  simp only [List.all_eq_true,Bool.or_eq_true,Bool.not_eq_true',or_iff_not_imp_left,
    Bool.not_eq_false] at hall
  exact ⟨(hshell hok).mpr hall,hok⟩

/-- A no-break space separates words for the check and not for the shell. -/
theorem shell_words_not_catalogued :
    ¬∀ command, admitLocalCommand command=.ok () →
      shellWords (trim command.toList)∈allowedForms := by
  intro hall
  have hwords := hall "git\u00a0status" (by decide)
  exact absurd hwords (by decide)

end AegisRuntime.LocalCommands
