import ReactiveNotebook.Script.Machine

/-!
# Calling functions

A function of the script sees its parameters and the imported modules, a closure also what it captured. Other
names stand for functions of the library, for the storage area and for printing. A function that changes the
object it is called on answers with the changed object.
-/
namespace ReactiveNotebook.Script

structure Evaluator where
  /-- The value of an expression. -/
  expr : Env → Expr → Run Value
  /-- The last value of some statements in a scope of their own. -/
  block : Env → List Stmt → Run Value

/-- A value with the changed object, if the call has changed it. -/
abbrev Changed := Value × Option Value

def runBody (ev : Evaluator) (env : Env) (body : List Stmt) : Run Value := fun m =>
  match ev.block env body m with
  | .error (.return_ v) m => .ok v m
  | result => result

/-- The surroundings inside a call. -/
def Env.entered (env : Env) (levels : Nat) : Env :=
  { env with bindings := [], level := env.level + levels, depth := env.depth + 1 }

/-- Counts a call and refuses one that lies too deep. -/
def Env.enter (env : Env) (levels : Nat) (pos : Position) : Run Env := do
  env.tick pos
  let inner := env.entered levels
  if env.context.config.maxCallLevels < inner.level then failAt .stackOverflow pos
  return inner

/-- Calls a function of the script, on an object if it is called as a method. -/
def callFunction (ev : Evaluator) (env : Env) (f : Function) (this? : Option Value) (args : List Value)
    (pos : Position) : Run Changed := do
  if f.body.isEmpty then return (.unit, none)
  let inner ← env.enter 1 pos
  let inner ← match this? with
    | some this => inner.declare "this" this false
    | none => pure inner
  let inner ← declareAll false inner (f.params.zip args)
  let v ← mapFault (·.leaving (some f.name) pos) (runBody ev inner f.body)
  match this?, inner.find? "this" with
  | some _, some b => return (v, some (← load b.cell))
  | _, _ => return (v, none)

/-- Brings captured variables into scope: a reference as the variable it refers to, any other value as a new
variable. -/
def bindCaptured : Env → List (String × Value) → Run Env
  | env, [] => return env
  | env, (name, .shared cell) :: rest => bindCaptured (env.bind name cell false) rest
  | env, (name, v) :: rest => do bindCaptured (← env.declare name v false) rest

/-- Calls a closure. `levels` is how much deeper the call lies. -/
def callClosure (ev : Evaluator) (env : Env) (lambda : Lambda) (captured args : List Value) (levels : Nat)
    (pos : Position) : Run Value := do
  match lambda with
  | .mk params names body _ =>
    if params.length != args.length then failAt (.functionNotFound "anonymous" (captured ++ args)) pos
    if body.isEmpty then return .unit
    let inner ← env.enter levels pos
    let inner ← bindCaptured inner ((names.map (·.1)).zip captured)
    let inner ← declareAll false inner (params.zip args)
    mapFault (·.leaving none pos) (runBody ev inner body)

/-- The number of parameters of a closure. -/
def Lambda.arity : Lambda → Nat
  | .mk params _ _ _ => params.length

/-- Calls a closure on behalf of a function of the library, with as many of the arguments as it takes. -/
def callBack (ev : Evaluator) (env : Env) (caller : String) (lambda : Lambda) (captured args : List Value)
    (pos : Position) : Run Value :=
  mapFault (fun f => .within (some caller) f pos)
    (callClosure ev env lambda captured (args.take lambda.arity) 2 pos)

def mapItems (f : Value → Nat → Run Value) : Nat → List Value → Run (List Value)
  | _, [] => return []
  | index, v :: rest => do
    let w ← f v index
    return w :: (← mapItems f (index + 1) rest)

/-- The items of an array for which a function answers yes. -/
def filterItems (f : Value → Nat → Run Value) : Nat → List Value → Run (List Value)
  | _, [] => return []
  | index, v :: rest => do
    let keep := match ← f v index with
      | .bool b => b
      | _ => false
    let others ← filterItems f (index + 1) rest
    return if keep then v :: others else others

/-- Combines the items of an array from left to right. -/
def reduceItems (f : Value → Value → Nat → Run Value) : Nat → Value → List Value → Run Value
  | _, acc, [] => return acc
  | index, acc, v :: rest => do reduceItems f (index + 1) (← f acc v index) rest

/-- The value of a number of items. -/
def indexValue (n : Nat) : Value := .int (Int64.ofNat n)

/-- Inserts an item before the first one that a function puts after it. -/
def insertItem (after : Value → Value → Run Bool) (v : Value) : List Value → Run (List Value)
  | [] => return [v]
  | w :: rest => do
    if ← after w v then return v :: w :: rest
    else return w :: (← insertItem after v rest)

/-- The items in the order that a function gives them; equal ones keep their places. -/
def sortItems (after : Value → Value → Run Bool) : List Value → List Value → Run (List Value)
  | sorted, [] => return sorted
  | sorted, v :: rest => do sortItems after (← insertItem after v sorted) rest

/-- Functions of arrays that take a closure. -/
def callHigher? (ev : Evaluator) (env : Env) (name : String) (args : List Value) (pos : Position) :
    Option (Run Changed) :=
  match name, args with
  | "map", [.array items, .closure l c] => some do
    return (.array (← mapItems (fun v i => callBack ev env name l c [v, indexValue i] pos) 0 items), none)
  | "filter", [.array items, .closure l c] => some do
    return (.array (← filterItems (fun v i => callBack ev env name l c [v, indexValue i] pos) 0 items), none)
  | "reduce", [.array items, .closure l c] => some do
    return (← reduceItems (fun a v i => callBack ev env name l c [a, v, indexValue i] pos) 0 .unit items, none)
  | "reduce", [.array items, .closure l c, first] => some do
    return (← reduceItems (fun a v i => callBack ev env name l c [a, v, indexValue i] pos) 0 first items, none)
  | "sort", [.array items, .closure l c] => some do
    let after (a b : Value) : Run Bool := do
      match ← callBack ev env name l c [a, b] pos with
      | .int n => return 0 < n
      | .bool b => return !b
      | _ => return false
    return (.unit, some (.array (← sortItems after [] items)))
  | _, _ => none

/-- Prints a line, which only scripts do. -/
def Env.print (env : Env) (line : String) : Run Changed := do
  if env.context.isScript then modify fun m => { m with logs := line :: m.logs }
  return (.unit, none)

/-- What is logged of a value for a reader of the script's text. -/
def debugLine (v : Value) (pos : Position) : String :=
  let text := match v with
    | .char c => String.singleton c
    | v => v.debugText
  s!"[debug line {pos.line}, position {pos.column}] {text}"

/-- Sleeps. A negative time is none. -/
def sleepFor (nanos : Nat) : Run Changed := do
  modify fun m => { m with slept := m.slept + nanos }
  return (.unit, none)

/-- A number of seconds in nanoseconds. -/
def nanosOf (seconds : Double) : Nat :=
  if 0 < seconds then (seconds * 1000000000).round.toFloat.toUInt64.toNat else 0

/-- Functions that print, sleep, or reach the storage area of scripts. -/
def callEffect? (env : Env) (name : String) (args : List Value) (pos : Position) : Option (Run Changed) :=
  let stored (r : Run Changed) : Option (Run Changed) := if env.context.isScript then some r else none
  match name, args with
  | "print", [] => some (env.print "")
  | "print", [v] => some (env.print v.displayText)
  | "debug", [] => some (env.print s!"[debug line {pos.line}, position {pos.column}] ")
  | "debug", [v] => some (env.print (debugLine v pos))
  | "sleep", [.int n] => some (sleepFor (n.toInt.toNat * 1000000000))
  | "sleep", [.float x] => some (sleepFor (nanosOf x))
  | "storage_get", [.str key] => stored do
    return (((← get).storage.get? key).getD .unit, none)
  | "storage_has", [.str key] => stored do
    return (.bool ((← get).storage.get? key).isSome, none)
  | "storage_keys", [] => stored do
    return (.array ((← get).storage.map fun f => .str f.1), none)
  | "storage_set", [.str key, v] => stored do
    modify fun m => { m with storage := m.storage.insert key (m.freeze v) }
    return (.unit, none)
  | _, _ => none

/-- Calls a function of the library. `constant` says whether the first argument may not be changed. -/
def callNative (ev : Evaluator) (env : Env) (name : String) (args : List Value) (constant : Bool)
    (pos : Position) : Run Changed := do
  env.tick pos
  let (v, changed) ← match callHigher? ev env name args pos, callEffect? env name args pos with
    | some r, _ => r
    | none, some r => r
    | none, none =>
      match Library.pure? name args, Library.changing? name args with
      | some answer, _ => pure (← orFail answer pos, none)
      | none, some answer => do
        if constant then failAt (.constantMutated name) pos
        let (v, object) ← orFail answer pos
        pure (v, some object)
      | none, none => failAt (.functionNotFound name args) pos
  for object in changed do env.limit object.extent pos
  return (← env.limited v pos, changed)

/-- The function of the script with a name and a number of parameters. -/
def Env.function? (env : Env) (name : String) (params : Nat) : Option Function :=
  env.context.functions.find? fun f => f.name == name && f.params.length == params

/-- Calls a function by its name. `constant` says whether the first argument may not be changed. -/
def callNamed (ev : Evaluator) (env : Env) (name : String) (args : List Value) (constant : Bool)
    (pos : Position) : Run Changed :=
  match name, args with
  | "type_of", [v] => return (.str v.typeName, none)
  | "call", .closure l c :: rest => do
    return (← callClosure ev env l c rest 1 pos, none)
  | _, _ =>
    match env.function? name args.length with
    | some f => callFunction ev env f none args pos
    | none => callNative ev env name args constant pos

/-- Calls a method of an object, which may not be changed if it is constant. -/
def callMethod (ev : Evaluator) (env : Env) (object : Value) (name : String) (args : List Value)
    (constant : Bool) (pos : Position) : Run Changed :=
  match object, name, args with
  | .closure l c, "call", args => do
    return (← callClosure ev env l c args 1 pos, none)
  | v, "type_of", [] => return (.str v.typeName, none)
  | v, "call", [] => failAt (.typeMismatch v.typeName "Fn") pos
  | .map fields, name, args =>
    match Fields.get? fields name with
    | some (.closure l c) => do
      return (← callClosure ev env l c args 1 pos, none)
    | _ =>
      match env.function? name args.length with
      | some f => callFunction ev env f (some object) args pos
      | none => callNative ev env name (object :: args) constant pos
  | object, name, args =>
    match env.function? name args.length with
    | some f => callFunction ev env f (some object) args pos
    | none => callNative ev env name (object :: args) constant pos

def callModule (env : Env) (space name : String) (args : List Value) (spacePos pos : Position) : Run Value := do
  match env.imports.find? (·.1 == space) with
  | none => failAt (.moduleNotFound space) spacePos
  | some (_, m) =>
    match m.call? env.context.config.maxStringSize name args with
    | none => failAt (.functionNotFound (space ++ "::" ++ name) args) pos
    | some (.ok v) => env.limited v pos
    | some (.error (.thrown text)) => failAt (.thrown (.str text)) .none
    | some (.error (.overflow cause)) => throw (.overflow cause)

end ReactiveNotebook.Script
