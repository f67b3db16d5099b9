import ReactiveNotebook.CommandLine

/-!
# The program

Connects the command to the file system, the environment and the standard streams.
-/
namespace ReactiveNotebook.CommandLine

/-- What an error of the system says about a file. -/
def fileError : IO.Error → FileError
  | .noFileOrDirectory .. => .notFound
  | e => .other (toString e)

def attempt {α : Type} (action : IO α) : IO (Except FileError α) := do
  try
    return .ok (← action)
  catch e => return .error (fileError e)

def systemFiles : Files IO where
  read path := attempt (IO.FS.readBinFile path)
  holds path := return (← attempt (IO.FS.readBinFile path)).isOk
  write path text := attempt (IO.FS.writeFile path text)

/-- The place of the user's own settings. -/
def userConfigPath? : IO (Option String) := do
  let base ← match ← IO.getEnv "XDG_CONFIG_HOME" with
    | some dir => if dir.toList.head? == some '/' then pure (some dir) else homeConfig
    | none => homeConfig
  return base.map (· ++ "/cellflow/config.toml")
where
  homeConfig : IO (Option String) := do
    return (← IO.getEnv "HOME").map (· ++ "/.config")

end ReactiveNotebook.CommandLine

/-- Runs the command on the arguments of the process. -/
def main (args : List String) : IO UInt32 := do
  let user ← ReactiveNotebook.CommandLine.userConfigPath?
  let outcome ← ReactiveNotebook.CommandLine.run ReactiveNotebook.CommandLine.systemFiles user args
  IO.print outcome.out
  IO.eprint outcome.err
  return UInt32.ofNat outcome.code
