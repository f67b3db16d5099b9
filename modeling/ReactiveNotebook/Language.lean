import ReactiveNotebook.Format.Filter
import ReactiveNotebook.Store.Slot

/-!
# What the engine needs of a script language

The engine treats evaluation as two pure functions: one evaluates an expression, the other runs a script. A
run also says what the script printed, what it left in the storage area, and how long it slept. A script runs on a
thread of its own, which the system may refuse.
-/
namespace ReactiveNotebook

open Script (Value Fields)

/-- The variables an evaluation sees, each with its slot. -/
abbrev Inputs := List (String × Slot)

/-- Why a script has no exports. -/
inductive RunFailure where
  /-- The script failed with a message. -/
  | failed (message : String)
  /-- The script asked for a field wider than formatting allows. -/
  | overflow (cause : Format.Overflow)

structure ScriptRun where
  result : Except RunFailure Fields
  logs : List String
  storage : Fields
  /-- The time the script slept, in nanoseconds. -/
  slept : Nat

/-- What a thread is asked to do: to run the script of a cell in some version on some inputs. -/
structure Job where
  cell : CellId
  version : Nat
  source : String
  inputs : Inputs

namespace Job

def threadName (j : Job) : String := "cellflow-script-" ++ j.cell

/-- A name with a null character is none that a thread can have. -/
def isNamable (j : Job) : Bool := !j.threadName.toList.contains '\x00'

end Job

/-- A script language, and the system that its scripts run on. -/
structure Language where
  /-- The value of an expression, or the message of its failure. -/
  evaluate : (text : String) → Inputs → Except String Value
  /-- The run of a script. -/
  run : (source : String) → Inputs → (storage : Fields) → ScriptRun
  /-- Why the system starts no thread for a script, if it does not. -/
  refusal? : Job → Option String

end ReactiveNotebook
