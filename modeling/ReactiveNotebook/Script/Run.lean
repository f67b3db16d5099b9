import ReactiveNotebook.Analysis.Token
import ReactiveNotebook.Analysis.Name
import ReactiveNotebook.Language
import ReactiveNotebook.Script.Evaluate
import ReactiveNotebook.Script.Reader
import ReactiveNotebook.Script.Simplify

/-!
# The script language of a notebook

Expressions see their inputs as constants, and a dollar sign before a name is ignored. Scripts see theirs as
variables. What a script leaves in its map of exports becomes the value of variables, together with a map
that is its last value; names that are no variables are dropped.
-/
namespace ReactiveNotebook

open Script

namespace Language

def inputValues (inputs : Inputs) : List (String × Value) :=
  inputs.map fun (name, slot) => (name, slot.toValue)

/-- The message of an evaluation that ended early. -/
def exitMessage : Exit → String
  | .fault f => f.message
  | .overflow cause => cause.message
  | .break_ _ | .continue_ | .return_ _ | .outOfFuel => "Evaluation did not end"

def evaluateExpression (config : Config) (text : String) (inputs : Inputs) : Except String Value :=
  let text := Analysis.stripSigils text
  if Text.allBlank text then .ok .unit
  else
    match Expr.read config.maxArraySize text with
    | .error fault => .error fault.message
    | .ok e =>
      let context : Context := ⟨config, [], false⟩
      match e.run context (inputValues inputs) (.start []) with
      | .ok v _ => .ok v
      | .error exit _ => .error (exitMessage exit)

def fieldsOf : Value → Fields
  | .map fields => fields
  | _ => []

/-- The exports of a script: what is in its map of exports, then what is in its last value. -/
def exportsOf (last exports : Value) : Fields :=
  (Fields.merge (fieldsOf exports) (fieldsOf last)).filter fun f => Analysis.isVariableName f.1

def runScript (config : Config) (source : String) (inputs : Inputs) (storage : Fields) : ScriptRun :=
  match Program.read config.maxArraySize source with
  | .error fault => ⟨.error (.failed fault.message), [], storage, 0⟩
  | .ok written =>
    let program := written.simplify
    let context : Context := ⟨config, program.functions, true⟩
    match program.run context (inputValues inputs) (.start storage) with
    | .ok (last, exports) m => ⟨.ok (exportsOf last exports), m.logs.reverse, m.storage, m.slept⟩
    | .error (.overflow cause) m => ⟨.error (.overflow cause), m.logs.reverse, m.storage, m.slept⟩
    | .error exit m => ⟨.error (.failed (exitMessage exit)), m.logs.reverse, m.storage, m.slept⟩

/-- The script language with the settings of an engine. -/
def ofConfig (config : Config) : Language where
  evaluate := evaluateExpression config
  run := runScript config
  refusal? _ := none

end Language

end ReactiveNotebook
