import ReactiveNotebook.CommandLine.Arguments
import ReactiveNotebook.Config.Reader
import ReactiveNotebook.Notebook.Document
import ReactiveNotebook.Notebook.Markdown
import ReactiveNotebook.Script.Run

/-!
# The command

The command opens a notebook, gives variables the literals asked for, evaluates everything, and prints or
exports the result. Files are reached through a record of operations in any monad, so that what the command
does is defined apart from how files are kept.
-/
namespace ReactiveNotebook.CommandLine

structure Files (m : Type → Type) where
  read : String → m (Except FileError ByteArray)
  holds : String → m Bool
  write : String → String → m (Except FileError Unit)

structure Outcome where
  code : Nat
  out : String
  err : String
  deriving DecidableEq, Repr

/-- What the command was about when it failed. -/
inductive Activity where
  | loadingConfig
  | opening (path : String)
  | setting (name : String)
  | writing (path : String)
  deriving DecidableEq, Repr

def Activity.text : Activity → String
  | .loadingConfig => "loading config"
  | .opening path => s!"opening {path}"
  | .setting name => s!"setting {name}"
  | .writing path => s!"writing {path}"

structure Failure where
  activity : Activity
  cause : DocumentError
  deriving DecidableEq, Repr

/-- The line that reports a failure, from the activity down to the innermost cause. -/
def Failure.message (f : Failure) : String :=
  let chain := [f.activity.text, f.cause.message] ++ f.cause.cause?.toList
  "Error: " ++ String.intercalate ": " chain ++ "\n"

def readConfig (path : String) (file : Except FileError ByteArray) : Except DocumentError Config :=
  match file with
  | .error cause => .error (.file cause)
  | .ok bytes =>
    if FileError.mostConfigBytes < bytes.size then .error (.file (.tooLarge path bytes.size))
    else
      match decodeText bytes with
      | .error cause => .error (.file cause)
      | .ok text =>
        match Config.read? text with
        | some config => .ok config
        | none => .error (.config path)

/-- The settings to use: those of the given file, or else those of the user's file if there is one. -/
def loadConfig {m : Type → Type} [Monad m] (files : Files m) (given user : Option String) :
    m (Except DocumentError Config) := do
  match given, user with
  | some path, _ => return readConfig path (← files.read path)
  | none, none => return .ok .standard
  | none, some path =>
    if ← files.holds path then return readConfig path (← files.read path) else return .ok .standard

/-- Gives variables other literals, in order. -/
def overrideAll (d : Document) : List (String × String) → Except Failure Document
  | [] => .ok d
  | (name, text) :: rest =>
    match d.overrideVariable name text with
    | .error cause => .error ⟨.setting name, cause⟩
    | .ok d => overrideAll d rest

def warnings (e : Engine) : String :=
  String.join (e.cells.filterMap fun c => c.status.fault?.map fun f => s!"Warning: cell {c.id}: {f.message}\n")

def variableLines (d : Document) : String :=
  String.join (d.variableTexts.map fun (name, text) => s!"{name} = {text}\n")

/-- Prints or exports an evaluated document. -/
def finish {m : Type → Type} [Monad m] (files : Files m) (o : Options) (d : Document) : m Outcome := do
  let err := warnings d.engine
  let out := if o.vars then variableLines d else ""
  match o.output with
  | some path =>
    match ← files.write path (Notebook.markdown d.engine) with
    | .ok () => return ⟨0, out ++ s!"Exported to {path}\n", err⟩
    | .error cause => return ⟨1, out, err ++ Failure.message ⟨.writing path, .file cause⟩⟩
  | none => return ⟨0, if o.vars then out else Notebook.markdown d.engine, err⟩

/-- The text shown for a run that has no result. -/
def stopMessage : Engine.Stop → String
  | .panic cause => cause.message ++ "\n"
  | .outOfFuel => "The run did not end\n"

/-- Evaluates a notebook. `user` is the place of the user's own settings. -/
def runNotebook {m : Type → Type} [Monad m] (files : Files m) (user : Option String) (o : Options) :
    m Outcome := do
  match ← loadConfig files o.config user with
  | .error cause => return ⟨1, "", Failure.message ⟨.loadingConfig, cause⟩⟩
  | .ok config =>
    match Document.openFile o.notebook config (← files.read o.notebook) with
    | .error cause => return ⟨1, "", Failure.message ⟨.opening o.notebook, cause⟩⟩
    | .ok d =>
      match overrideAll d o.overrides with
      | .error failure => return ⟨1, "", failure.message⟩
      | .ok d =>
        match d.run (.ofConfig config) with
        | .error stop => return ⟨101, "", stopMessage stop⟩
        | .ok (d, _) => finish files o d

def run {m : Type → Type} [Monad m] (files : Files m) (user : Option String) (args : List String) :
    m Outcome := do
  match readArguments args with
  | .error e => return ⟨1, "", s!"Error: {e.message}\n" ++ usage⟩
  | .ok none => return ⟨0, "", usage⟩
  | .ok (some o) => runNotebook files user o

end ReactiveNotebook.CommandLine
