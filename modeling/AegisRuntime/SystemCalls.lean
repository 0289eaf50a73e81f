import AegisRuntime.CallPrograms
import AegisRuntime.LocalCommands

/-!
# System calls

The calls that the skills make on the machine, each one step of its own: between
two of them other processes may change anything, so a program of calls can be
answered in any way. A machine that nothing else changes, the processes it starts
included, answers from its file system. Where others change it, a call takes effect
as far as it goes and a started process leaves any tree.
-/

namespace AegisRuntime.SystemCalls

open SymlinkTrees FileSystemCalls WorkspacePaths LocalCommands CallPrograms

/-- Why a call failed. -/
structure IoError where
  /-- Whether its kind is `NotFound`. -/
  notFound : Bool
  /-- Its displayed text. -/
  text : String
  deriving DecidableEq,Repr

/-- The error of a file-system call. -/
def IoError.ofErrno (e : Errno) : IoError := ⟨e==.notFound,errnoText e⟩

/-- A call. -/
inductive SystemCall where
  /-- `Path::exists`. -/
  | pathExists (p : List Component)
  /-- `Path::canonicalize`. -/
  | canonicalize (p : List Component)
  /-- `Path::is_dir`. -/
  | isDir (p : List Component)
  /-- Makes the last component of a path as a directory. -/
  | mkdir (parent : List Component) (last : Component)
  /-- `fs::write`. -/
  | write (p : List Component) (content : String)
  /-- `fs::read_to_string`. -/
  | readToString (p : List Component)
  /-- `fs::read_dir`: the names in the order of the directory. -/
  | readDir (p : List Component)
  /-- `Command::output`. -/
  | spawn (program : String) (args : List String) (dir : Option (List Component))
  deriving DecidableEq,Repr

/-- What a call is answered with. -/
abbrev SystemCall.Answer : SystemCall → Type
  | .pathExists _ => Bool
  | .canonicalize _ => Except IoError Loc
  | .isDir _ => Bool
  | .mkdir _ _ => Except IoError Unit
  | .write _ _ => Except IoError Unit
  | .readToString _ => Except IoError String
  | .readDir _ => Except IoError (List String)
  | .spawn _ _ _ => Except IoError ProcessOutput

/-- A program of system calls. -/
abbrev SystemProgram (α : Type) : Type := Program SystemCall SystemCall.Answer α

/-- A system call with its answer. -/
abbrev SystemEvent : Type := Event SystemCall SystemCall.Answer

/-- Reads a whole file. -/
def readToString (fs : FileSystem) (p : List Component) : Except Errno String :=
  match fs.canonicalize p with
  | .error e => .error e
  | .ok loc =>
    match fs.tree.entry loc with
    | some (.file content) => .ok content
    | some .dir => .error .isDir
    | some (.symlink _) | none => .error .notFound

/-- What a machine answers that its file system does not determine. -/
structure Machine where
  /-- What a process prints and returns. -/
  spawn : FileSystem → String → List String → Option (List Component) → Except IoError ProcessOutput
  /-- The names in a directory, in an order of the file system's own. -/
  readDir : FileSystem → List Component → Except IoError (List String)

/-- A change of the file system and its answer. -/
def answered (fs : FileSystem) : Except Errno FileSystem → FileSystem×Except IoError Unit
  | .ok fs' => (fs',.ok ())
  | .error e => (fs,.error (.ofErrno e))

/-- The answer of a machine whose files nothing else changes, the processes it starts included. -/
def respond (m : Machine) (fs : FileSystem) : (call : SystemCall) → FileSystem×call.Answer
  | .pathExists p => (fs,fs.pathExists p)
  | .canonicalize p => (fs,(fs.canonicalize p).mapError .ofErrno)
  | .isDir p => (fs,fs.isDir p)
  | .mkdir parent last => answered fs (fs.mkdir parent last)
  | .write p content => answered fs (fs.write p content)
  | .readToString p => (fs,(readToString fs p).mapError .ofErrno)
  | .readDir p => (fs,m.readDir fs p)
  | .spawn program args dir => (fs,m.spawn fs program args dir)

section Undisturbed

variable {α : Type} (m : Machine) (fs : FileSystem) (p : List Component)

/-- A program that has ended leaves the file system. -/
@[simp] theorem execute_done (value : α) :
    (Program.done value : SystemProgram α).execute (respond m) fs=(fs,value) := rfl

/-- Looking whether a path leads to something leaves the file system. -/
@[simp] theorem execute_pathExists (next : Bool → SystemProgram α) :
    (Program.ask (.pathExists p) next).execute (respond m) fs=
      (next (fs.pathExists p)).execute (respond m) fs := rfl

/-- So does looking where a path leads. -/
@[simp] theorem execute_canonicalize (next : Except IoError Loc → SystemProgram α) :
    (Program.ask (.canonicalize p) next).execute (respond m) fs=
      (next ((fs.canonicalize p).mapError .ofErrno)).execute (respond m) fs := rfl

/-- So does looking for a directory. -/
@[simp] theorem execute_isDir (next : Bool → SystemProgram α) :
    (Program.ask (.isDir p) next).execute (respond m) fs=
      (next (fs.isDir p)).execute (respond m) fs := rfl

/-- Making a directory goes on in the file system that has it, or in the same one. -/
@[simp] theorem execute_mkdir (last : Component) (next : Except IoError Unit → SystemProgram α) :
    (Program.ask (.mkdir p last) next).execute (respond m) fs=
      (next (answered fs (fs.mkdir p last)).2).execute (respond m)
        (answered fs (fs.mkdir p last)).1 := rfl

/-- Writing a file goes on in the file system that has it, or in the same one. -/
@[simp] theorem execute_write (content : String) (next : Except IoError Unit → SystemProgram α) :
    (Program.ask (.write p content) next).execute (respond m) fs=
      (next (answered fs (fs.write p content)).2).execute (respond m)
        (answered fs (fs.write p content)).1 := rfl

/-- Reading a file leaves the file system. -/
@[simp] theorem execute_readToString (next : Except IoError String → SystemProgram α) :
    (Program.ask (.readToString p) next).execute (respond m) fs=
      (next ((readToString fs p).mapError .ofErrno)).execute (respond m) fs := rfl

/-- Listing a directory leaves it, in the order that the machine gives. -/
@[simp] theorem execute_readDir (next : Except IoError (List String) → SystemProgram α) :
    (Program.ask (.readDir p) next).execute (respond m) fs=
      (next (m.readDir fs p)).execute (respond m) fs := rfl

/-- A process that leaves the files alone is answered by the machine. -/
@[simp] theorem execute_spawn (program : String) (args : List String)
    (dir : Option (List Component)) (next : Except IoError ProcessOutput → SystemProgram α) :
    (Program.ask (.spawn program args dir) next).execute (respond m) fs=
      (next (m.spawn fs program args dir)).execute (respond m) fs := rfl

end Undisturbed

/-- What came of a call on the machine, whatever it was answered. -/
inductive Effect where
  /-- Nothing. -/
  | nothing
  /-- What it asked for; so many characters of a text have reached the file. -/
  | took (written : ℕ)
  /-- The process that it started left this tree. -/
  | left (tree : FileTree)

/-- The file system after a call: a process leaves what it likes. -/
def changed (fs : FileSystem) : SystemCall → Effect → FileSystem
  | .mkdir parent last,.took _ => (answered fs (fs.mkdir parent last)).1
  | .write p content,.took written =>
    (answered fs (fs.write p (String.ofList (content.toList.take written)))).1
  | .spawn _ _ _,.left tree => { fs with tree := tree }
  | _,_ => fs

/-- The calls that start a process. -/
def SystemCall.StartsProcess (call : SystemCall) : Prop :=
  ∃ program args dir, call=.spawn program args dir

/-- A directory that could not be made may be there. -/
def orDirectory (p : List Component) (e : IoError) : SystemProgram (Except IoError Unit) :=
  .ask (.isDir p) fun (isDir : Bool) => .done (if isDir then .ok () else .error e)

/-- `fs::create_dir_all`, the components last first. -/
def createAncestors : List Component → SystemProgram (Except IoError Unit)
  | [] => .done (.ok ())
  | c::rest =>
    .ask (.mkdir rest.reverse c) fun (made : Except IoError Unit) =>
      match made with
      | .ok () => .done (.ok ())
      | .error e =>
        if e.notFound then
          (createAncestors rest).bind fun above =>
            match above with
            | .error e => .done (.error e)
            | .ok () =>
              .ask (.mkdir rest.reverse c) fun (made : Except IoError Unit) =>
                match made with
                | .ok () => .done (.ok ())
                | .error e => orDirectory (c::rest).reverse e
        else orDirectory (c::rest).reverse e

/-- `fs::create_dir_all`. -/
def createDirAll (p : List Component) : SystemProgram (Except IoError Unit) :=
  createAncestors p.reverse

/-- Only a missing file is reported as missing. -/
theorem ofErrno_notFound (e : Errno) : (IoError.ofErrno e).notFound=true ↔ e=.notFound :=
  beq_iff_eq

/-- A directory that is there after all is no failure. -/
theorem execute_orDirectory (m : Machine) (fs : FileSystem) (p : List Component) (e : Errno) :
    (orDirectory p (.ofErrno e)).execute (respond m) fs=
      (fs,(if fs.isDir p then .ok () else .error e : Except Errno Unit).mapError .ofErrno) := by
  rw [orDirectory,execute_isDir,execute_done]
  by_cases hdir : fs.isDir p=true
  · rw [if_pos hdir,if_pos hdir]
    rfl
  · rw [if_neg hdir,if_neg hdir]
    rfl

/-- On an undisturbed machine the calls make the directories that the ancestors need. -/
theorem execute_createAncestors (m : Machine) (fs : FileSystem) (l : List Component) :
    (createAncestors l).execute (respond m) fs=
      ((fs.createAncestors l).2,(fs.createAncestors l).1.mapError .ofErrno) := by
  induction l generalizing fs with
  | nil => rfl
  | cons c rest ih =>
    rw [createAncestors,FileSystem.createAncestors,execute_mkdir]
    cases hmade : fs.mkdir rest.reverse c with
    | ok fs' => rfl
    | error e =>
      simp only [answered]
      by_cases hmissing : e=.notFound
      · subst hmissing
        rw [if_pos ((ofErrno_notFound _).mpr rfl),execute_bind,ih]
        cases habove : fs.createAncestors rest with
        | mk above fs' =>
          cases above with
          | error e => rfl
          | ok u =>
            simp only [Except.mapError,execute_mkdir]
            cases hagain : fs'.mkdir rest.reverse c with
            | ok fs'' => rfl
            | error e => exact execute_orDirectory m fs' (c::rest).reverse e
      · rw [if_neg (mt (ofErrno_notFound e).mp hmissing),execute_orDirectory]
        cases e with
        | notFound => exact absurd rfl hmissing
        | notDir | isDir | alreadyExists | tooManyLinks => rfl

/-- On an undisturbed machine a directory is made with its ancestors. -/
theorem execute_createDirAll (m : Machine) (fs : FileSystem) (p : List Component) :
    (createDirAll p).execute (respond m) fs=
      ((fs.createDirAll p).2,(fs.createDirAll p).1.mapError .ofErrno) :=
  execute_createAncestors m fs p.reverse

end AegisRuntime.SystemCalls
