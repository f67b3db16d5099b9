import ReactiveNotebook.Text.Blank
import ReactiveNotebook.Text.Quoted

/-!
# Arguments of the command

The command takes a notebook file and options. Arguments are read from left to right, and the first one that
asks for help or is wrong decides.
-/
namespace ReactiveNotebook.CommandLine

structure Options where
  notebook : String
  /-- Variables to give another literal before the run, in order. -/
  overrides : List (String × String)
  /-- The file to export to. -/
  output : Option String
  /-- The file of settings. -/
  config : Option String
  /-- Whether to print the variables. -/
  vars : Bool
  deriving DecidableEq, Repr

/-- Why arguments are refused. -/
inductive UsageError where
  | missingPair
  | notPair (text : String)
  | missingOutput
  | missingConfig
  | unknownOption (text : String)
  | unexpectedArgument (text : String)
  | missingNotebook
  deriving DecidableEq, Repr

/-- The text shown for refused arguments. -/
def UsageError.message : UsageError → String
  | .missingPair => "--set requires NAME=VALUE"
  | .notPair text => s!"--set expects NAME=VALUE, got {Text.quote text}"
  | .missingOutput => "--output requires a file path"
  | .missingConfig => "--config requires a file path"
  | .unknownOption text => s!"Unknown option: {text}"
  | .unexpectedArgument text => s!"Unexpected argument: {text}"
  | .missingNotebook => "missing <NOTEBOOK>"

/-- The options read so far. -/
structure Draft where
  notebook : Option String
  /-- The overrides, latest first. -/
  overrides : List (String × String)
  output : Option String
  config : Option String
  vars : Bool

/-- No options. -/
def Draft.empty : Draft := ⟨none, [], none, none, false⟩

def Draft.complete (d : Draft) : Except UsageError Options :=
  match d.notebook with
  | none => .error .missingNotebook
  | some notebook => .ok ⟨notebook, d.overrides.reverse, d.output, d.config, d.vars⟩

/-- Splits a pair at its first equals sign. Blanks around the name do not count. -/
def splitPair? (text : String) : Option (String × String) :=
  let name := text.toList.takeWhile (· != '=')
  match text.toList.drop name.length with
  | [] => none
  | _ :: value => some (Text.trim (String.ofList name), String.ofList value)

/-- Reads arguments on top of a draft. No options at all means that help is asked for. -/
def readFrom (d : Draft) : List String → Except UsageError (Option Options)
  | [] => d.complete.map some
  | arg :: rest =>
    if arg == "-h" || arg == "--help" then .ok none
    else if arg == "--set" then
      match rest with
      | [] => .error .missingPair
      | pair :: rest =>
        match splitPair? pair with
        | none => .error (.notPair pair)
        | some override => readFrom { d with overrides := override :: d.overrides } rest
    else if arg == "-o" || arg == "--output" then
      match rest with
      | [] => .error .missingOutput
      | path :: rest => readFrom { d with output := some path } rest
    else if arg == "--config" then
      match rest with
      | [] => .error .missingConfig
      | path :: rest => readFrom { d with config := some path } rest
    else if arg == "--vars" then readFrom { d with vars := true } rest
    else if arg.toList.head? == some '-' then .error (.unknownOption arg)
    else
      match d.notebook with
      | some _ => .error (.unexpectedArgument arg)
      | none => readFrom { d with notebook := some arg } rest

/-- Reads the arguments of the command. No options at all means that help is asked for. -/
def readArguments (args : List String) : Except UsageError (Option Options) :=
  readFrom .empty args

/-- The text that explains the arguments. -/
def usage : String :=
  String.join ([
    "Usage: cellflow [OPTIONS] <NOTEBOOK>",
    "",
    "Arguments:",
    "  <NOTEBOOK>                Notebook file to run (.json)",
    "",
    "Options:",
    "  --set <NAME=VALUE>        Override a variable before running (can be repeated)",
    "  -o, --output <FILE>       Export the evaluated notebook to a markdown file",
    "  --config <FILE>           Load engine settings from a TOML file",
    "  --vars                    Print every variable as \x60name = value\x60",
    "  -h, --help                Print help",
    "",
    "Set CELLFLOW_LOG (e.g. CELLFLOW_LOG=debug) to control log output."].map (· ++ "\n"))

end ReactiveNotebook.CommandLine
