import ReactiveNotebook.Config
import ReactiveNotebook.Format.Filter
import ReactiveNotebook.Script.Module

/-!
# The machine that runs scripts

Variables name memory cells, so that a closure and the script that made it see the same variable. The machine
counts operations and refuses to go beyond the limits; it also keeps what the script prints, its storage area
and the time it slept.
-/
namespace ReactiveNotebook.Script

/-- What ends an evaluation early. -/
inductive Exit where
  | fault (f : RunFault)
  /-- A loop is left with a value. -/
  | break_ (value : Value)
  /-- The next turn of a loop begins. -/
  | continue_
  /-- A function or script is left with a value. -/
  | return_ (value : Value)
  | overflow (cause : Format.Overflow)
  /-- The evaluation did not end within the given number of steps. -/
  | outOfFuel

structure Machine where
  memory : Array Value
  operations : Nat
  /-- The lines printed, latest first. -/
  logs : List String
  storage : Fields
  /-- The time slept, in nanoseconds. -/
  slept : Nat
  /-- The constants of the script that functions reach through the global namespace. -/
  constants : Fields

/-- A computation of the machine. -/
abbrev Run := EStateM Exit Machine

/-- What stays the same during an evaluation. -/
structure Context where
  config : Config
  functions : List Function
  /-- Whether a script is run, which may use the storage area and modules, and not a single expression. -/
  isScript : Bool

/-- A variable in scope. -/
structure Binding where
  name : String
  cell : Nat
  constant : Bool

structure Env where
  context : Context
  /-- The variables in scope, innermost first. -/
  bindings : List Binding
  /-- The modules in scope with their aliases, latest first. -/
  imports : List (String × Module)
  /-- The number of calls around the place. -/
  level : Nat
  /-- The number of blocks around the place. -/
  depth : Nat

namespace Machine

/-- The machine before an evaluation. -/
def start (storage : Fields) : Machine := ⟨#[], 0, [], storage, 0, []⟩

end Machine

def failAt {α : Type} (cause : Cause) (pos : Position) : Run α := throw (.fault (.at_ cause pos))

/-- The value of an answer, or its failure at a place. -/
def orFail {α : Type} (answer : Except Cause α) (pos : Position) : Run α :=
  match answer with
  | .ok a => return a
  | .error cause => failAt cause pos

/-- Runs a computation and turns its failures into others. -/
def mapFault {α : Type} (f : RunFault → RunFault) (r : Run α) : Run α := fun m =>
  match r m with
  | .error (.fault fault) m => .error (.fault (f fault)) m
  | result => result

/-- Counts an operation. -/
def Env.tick (env : Env) (pos : Position) : Run Unit := do
  modify fun m => { m with operations := m.operations + 1 }
  let limit := env.context.config.maxOperations
  if limit != 0 && limit < (← get).operations then failAt .tooManyOperations pos

/-- The size of a value: items of arrays, fields of maps and bytes of texts at every depth. -/
structure Extent where
  items : Nat
  fields : Nat
  bytes : Nat

namespace Extent

/-- The sum of two sizes. -/
def add (a b : Extent) : Extent := ⟨a.items + b.items, a.fields + b.fields, a.bytes + b.bytes⟩

/-- What is too large, if anything is. -/
def excess? (c : Config) (e : Extent) : Option Cause :=
  if c.maxStringSize != 0 && c.maxStringSize < e.bytes then some (.tooLarge "Length of string")
  else if c.maxArraySize != 0 && c.maxArraySize < e.items then some (.tooLarge "Size of array/BLOB")
  else none

end Extent

mutual

/-- The size of a value on top of another size. -/
def Value.measure (e : Extent) : Value → Extent
  | .str s => { e with bytes := e.bytes + s.utf8ByteSize }
  | .array items => Value.measureItems e items
  | .map fields => Value.measureFields e fields
  | _ => e

/-- The size of the items of an array on top of another size. -/
def Value.measureItems (e : Extent) : List Value → Extent
  | [] => e
  | v :: rest => Value.measureItems (v.measure { e with items := e.items + 1 }) rest

/-- The size of the fields of a map on top of another size. -/
def Value.measureFields (e : Extent) : List (String × Value) → Extent
  | [] => e
  | (_, v) :: rest => Value.measureFields (v.measure { e with fields := e.fields + 1 }) rest

end

def Value.extent (v : Value) : Extent := v.measure ⟨0, 0, 0⟩

/-- Fails if a size is beyond the limits. -/
def Env.limit (env : Env) (e : Extent) (pos : Position) : Run Unit :=
  match e.excess? env.context.config with
  | some cause => failAt cause pos
  | none => return

/-- A value, unless it is too large. -/
def Env.limited (env : Env) (v : Value) (pos : Position) : Run Value := do
  env.limit v.extent pos
  return v

/-- The number of turns of a loop that the limit on operations allows. -/
def Env.turns (env : Env) : Nat :=
  let limit := env.context.config.maxOperations
  if limit = 0 then Nat.pow 2 60 else limit + 1

/-- Stores a value in a new memory cell. -/
def allocate (v : Value) : Run Nat := do
  let cell := (← get).memory.size
  modify fun m => { m with memory := m.memory.push v }
  return cell

def load (cell : Nat) : Run Value := do
  return (← get).memory.getD cell .unit

def store (cell : Nat) (v : Value) : Run Unit :=
  modify fun m => { m with memory := m.memory.setIfInBounds cell v }

namespace Env

def find? (env : Env) (name : String) : Option Binding := env.bindings.find? (·.name == name)

/-- The variable of a given name, which is used at a place. -/
def lookup (env : Env) (name : String) (pos : Position) : Run Binding :=
  match env.find? name with
  | some b => return b
  | none => failAt (.variableNotFound name) pos

/-- The surroundings with one more variable. -/
def bind (env : Env) (name : String) (cell : Nat) (constant : Bool) : Env :=
  { env with bindings := ⟨name, cell, constant⟩ :: env.bindings }

/-- The surroundings with a new variable. -/
def declare (env : Env) (name : String) (v : Value) (constant : Bool) : Run Env := do
  return env.bind name (← allocate v) constant

end Env

def declareAll (constant : Bool) : Env → List (String × Value) → Run Env
  | env, [] => return env
  | env, (name, v) :: rest => do declareAll constant (← env.declare name v constant) rest

/-- A value with the contents of memory cells in place of references. The fuel bounds how deep closures are
followed through the variables they captured. -/
def freezeWith (memory : Array Value) : Nat → Value → Value
  | 0, _ => .unit
  | fuel + 1, v =>
    match v with
    | .array items => .array (items.map (freezeWith memory fuel))
    | .map fields => .map (fields.map fun f => (f.1, freezeWith memory fuel f.2))
    | .closure lambda captured => .closure lambda (captured.map (freezeWith memory fuel))
    | .shared cell => freezeWith memory fuel (memory.getD cell .unit)
    | v => v

mutual

def Value.hasClosure : Value → Bool
  | .closure _ _ | .shared _ => true
  | .array items => Value.anyClosure items
  | .map fields => Value.anyFieldClosure fields
  | _ => false

def Value.anyClosure : List Value → Bool
  | [] => false
  | v :: rest => v.hasClosure || Value.anyClosure rest

def Value.anyFieldClosure : List (String × Value) → Bool
  | [] => false
  | (_, v) :: rest => v.hasClosure || Value.anyFieldClosure rest

end

/-- How deep values are followed that hold closures. -/
def freezeDepth : Nat := 16

def Machine.freeze (m : Machine) (v : Value) : Value :=
  if v.hasClosure then freezeWith m.memory freezeDepth v else v

end ReactiveNotebook.Script
