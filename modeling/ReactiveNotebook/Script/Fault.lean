import ReactiveNotebook.Script.Display
import ReactiveNotebook.Format.Basic

/-!
# Faults of scripts and expressions

A text that is no script has a syntax fault. A script that runs may fail with a cause at some place; a failure
inside a function or closure also names the calls that led there, innermost first.
-/
namespace ReactiveNotebook.Script

/-- Why a text is no script or expression. -/
inductive SyntaxCause where
  | incomplete
  | unexpected (token : String)
  | expecting (token reason : String)
  | expectingExpression (kind : String)
  | expectingOther (wanted given : String)
  | variableExpected
  | propertyExpected
  | reserved (word : String) (isWord : Bool)
  | unknownOperator (op : String)
  | badSymbol (reason : String)
  | openString
  | badEscape (text : String)
  | badNumber (text : String)
  | badCharacter (text : String)
  | badName (text : String)
  | constantAssigned (name : String)
  | notAssignable
  | duplicateProperty (name : String)
  | duplicateVariable (name : String)
  | duplicateParameter (function : Option String) (name : String)
  | duplicateFunction (name : String) (params : Nat)
  | functionNameExpected
  | parametersExpected (function : String)
  | bodyExpected (function : String)
  | functionNotGlobal
  | exportNotGlobal
  | outsideLoop
  | indexMismatch (reason : String)
  | defaultCaseCondition
  | defaultCaseNotLast
  | literalTooLarge (limit : Nat)
  /-- The text was not read to its end within the given number of steps. -/
  | outOfFuel
  deriving DecidableEq, Repr

namespace SyntaxCause

def message : SyntaxCause → String
  | .incomplete => "Script is incomplete"
  | .unexpected token => s!"Unexpected '{token}'"
  | .expecting token reason => s!"Expecting '{token}' {reason}"
  | .expectingExpression kind => s!"Expecting {kind} expression"
  | .expectingOther wanted given => s!"Expecting {wanted}, not {given}"
  | .variableExpected => "Expecting name of a variable"
  | .propertyExpected => "Expecting name of a property"
  | .reserved word true => s!"'{word}' is a reserved keyword"
  | .reserved word false => s!"'{word}' is a reserved symbol"
  | .unknownOperator op => s!"Unknown operator: '{op}'"
  | .badSymbol reason => reason
  | .openString => "Open string is not terminated"
  | .badEscape text => s!"Invalid escape sequence: '{text}'"
  | .badNumber text => s!"Invalid number: '{text}'"
  | .badCharacter text => s!"Invalid character: '{text}'"
  | .badName text => s!"Variable name is not proper: '{text}'"
  | .constantAssigned "" => "Cannot assign to a constant value"
  | .constantAssigned name => s!"Cannot assign to constant {name}"
  | .notAssignable => "Expression cannot be assigned to"
  | .duplicateProperty name => s!"Duplicated property for object map literal: {name}"
  | .duplicateVariable name => s!"Duplicated variable name: {name}"
  | .duplicateParameter none name => s!"Duplicated parameter '{name}' for anonymous function"
  | .duplicateParameter (some function) name => s!"Duplicated parameter '{name}' for function '{function}'"
  | .duplicateFunction name 0 => s!"Function '{name}' with no parameters already exists"
  | .duplicateFunction name 1 => s!"Function '{name}' with 1 parameter already exists"
  | .duplicateFunction name n => s!"Function '{name}' with {n} parameters already exists"
  | .functionNameExpected => "Expecting function name in function declaration"
  | .parametersExpected function => s!"Expecting parameters for function '{function}'"
  | .bodyExpected function => s!"Expecting body statement block for function '{function}'"
  | .functionNotGlobal =>
    "Function definitions must be at global level and cannot be inside a block or another function"
  | .exportNotGlobal => "Export statement can only appear at global level"
  | .outsideLoop => "Break statement should only be used inside a loop"
  | .indexMismatch reason => reason
  | .defaultCaseCondition => "Default switch case cannot have condition"
  | .defaultCaseNotLast => "Default switch case must be the last"
  | .literalTooLarge limit => s!"Size of array literal exceeds the maximum limit ({limit})"
  | .outOfFuel => "Script is too complex"

end SyntaxCause

structure SyntaxFault where
  cause : SyntaxCause
  pos : Position
  deriving DecidableEq, Repr

def SyntaxFault.message (f : SyntaxFault) : String :=
  "Syntax error: " ++ f.cause.message ++ f.pos.suffix

/-- Why an evaluation fails. -/
inductive Cause where
  | variableNotFound (name : String)
  | functionNotFound (name : String) (args : List Value)
  | propertyNotFound (name type : String)
  | propertyNotWritable (name type : String)
  /-- A failure of an operator or function, in its own words. -/
  | plain (text : String)
  | typeMismatch (given wanted : String)
  | indexUnsupported (type index : String)
  | arrayBounds (length : Nat) (index : Int64)
  | stringBounds (length : Nat) (index : Int64)
  | thrown (value : Value)
  | moduleNotFound (name : String)
  | constantMutated (method : String)
  | constantAssigned (name : String)
  | notIterable
  | stackOverflow
  | tooManyOperations
  | tooLarge (what : String)

namespace Cause

/-- The name under which a value is listed when no function accepts it. -/
def argumentType : Value → String
  | .str _ => "&str | ImmutableString | String"
  | v => v.typeName

/-- A function with the types of its arguments. -/
def signature (name : String) (args : List Value) : String :=
  name ++ " (" ++ String.intercalate ", " (args.map argumentType) ++ ")"

/-- How many elements or characters there are. -/
def extent (whole parts part : String) : Nat → String
  | 0 => s!"{whole} is empty"
  | 1 => s!"only 1 {part} in {whole}"
  | n => s!"only {n} {parts} in {whole}"

def message : Cause → String
  | .variableNotFound name => s!"Variable not found: {name}"
  | .functionNotFound name args => "Function not found: " ++ signature name args
  | .propertyNotFound name type => s!"Unknown property '{name}' - a getter is not registered for type '{type}'"
  | .propertyNotWritable name type => s!"Unknown property '{name}' - a setter is not registered for type '{type}'"
  | .plain text => text
  | .typeMismatch given wanted => s!"Data type incorrect: {given} (expecting {wanted})"
  | .indexUnsupported type index => s!"Indexer unavailable: {type} [{index}]"
  | .arrayBounds length index =>
    s!"Array index {index} out of bounds: " ++ extent "array" "elements" "element" length
  | .stringBounds length index =>
    s!"String index {index} out of bounds: " ++ extent "string" "characters" "character" length
  | .thrown .unit => "Runtime error"
  | .thrown v => s!"Runtime error: {v.displayText}"
  | .moduleNotFound name => s!"Module not found: {name}"
  | .constantMutated method => s!"Non-pure method '{method}' cannot be called on constant"
  | .constantAssigned name => s!"Cannot modify constant: {name}"
  | .notIterable => "For loop expects iterable type"
  | .stackOverflow => "Stack overflow"
  | .tooManyOperations => "Too many operations"
  | .tooLarge what => s!"{what} too large"

/-- Whether the cause ends a script whatever it does to recover. -/
def isFatal : Cause → Bool
  | .stackOverflow | .tooManyOperations | .tooLarge _ => true
  | _ => false

end Cause

/-- A failure of an evaluation. -/
inductive RunFault where
  | at_ (cause : Cause) (pos : Position)
  /-- A failure inside the function `callee`, or inside a closure, called at `pos`. -/
  | within (callee : Option String) (inner : RunFault) (pos : Position)

namespace RunFault

/-- The place that is reported last. -/
def pos : RunFault → Position
  | .at_ _ pos | .within _ _ pos => pos

/-- What went wrong, apart from the calls that led there. -/
def cause : RunFault → Cause
  | .at_ cause _ => cause
  | .within _ inner _ => inner.cause

/-- The failure with another last place. -/
def withPos (f : RunFault) (pos : Position) : RunFault :=
  match f with
  | .at_ cause _ => .at_ cause pos
  | .within callee inner _ => .within callee inner pos

/-- The failure with a last place, if it has none. -/
def fillPos (f : RunFault) (pos : Position) : RunFault :=
  if f.pos.isNone then f.withPos pos else f

/-- The text shown for a failure. -/
def message : RunFault → String
  | .at_ cause pos => cause.message ++ pos.suffix
  | .within none inner pos => inner.message ++ "\nin closure call" ++ pos.suffix
  | .within (some callee) inner pos => inner.message ++ s!"\nin call to function '{callee}'" ++ pos.suffix

/-- Whether the failure ends a script whatever it does to recover. -/
def isFatal : RunFault → Bool
  | .at_ cause _ => cause.isFatal
  | .within .. => false

/-- A failure that left a function or closure called at `pos`. A fatal one only takes the place of the
call. -/
def leaving (f : RunFault) (callee : Option String) (pos : Position) : RunFault :=
  if f.isFatal then f.withPos pos else .within callee f pos

end RunFault

end ReactiveNotebook.Script
