import ReactiveNotebook.Script.Evaluate.Call

/-!
# Chains of properties, methods and indices

The arguments of all links are evaluated from left to right before the root is. Then the links are followed
from the root; what a link changes inside an object is put back into the object on the way out.
-/
namespace ReactiveNotebook.Script

/-- A link whose arguments have been evaluated. -/
inductive Step where
  | property (name : String) (optional : Bool) (pos : Position)
  | method (name : String) (args : List Value) (optional : Bool) (pos : Position)
  | index (at_ : Value) (optional : Bool) (pos : Position)

/-- Whether a unit object ends the chain. -/
def Step.optional : Step → Bool
  | .property _ o _ | .method _ _ o _ | .index _ o _ => o

mutual

/-- The constant that an expression is, also an array or map of constants. -/
def Expr.constant? : Expr → Option Literal
  | .literal l _ => some l
  | .array items _ => (Expr.constants? items).map .array
  | .map fields _ => (Expr.constantFields? fields).map .map
  | _ => none

def Expr.constants? : List Expr → Option (List Literal)
  | [] => some []
  | e :: rest => do
    let l ← e.constant?
    let ls ← Expr.constants? rest
    return l :: ls

def Expr.constantFields? : List (String × Expr) → Option (List (String × Literal))
  | [] => some []
  | (k, e) :: rest => do
    let l ← e.constant?
    let ls ← Expr.constantFields? rest
    return (k, l) :: ls

end

mutual

/-- The value of a constant, with the fields of maps in order. -/
def Literal.value : Literal → Value
  | .array items => .array (Literal.values items)
  | .map fields => .map (Fields.ofList (Literal.fieldValues fields))
  | l => .ofLiteral l

def Literal.values : List Literal → List Value
  | [] => []
  | l :: ls => l.value :: Literal.values ls

def Literal.fieldValues : List (String × Literal) → List (String × Value)
  | [] => []
  | (k, l) :: rest => (k, l.value) :: Literal.fieldValues rest

end

/-- The value of an argument. A constant counts as one operation. -/
def evalArg (ev : Evaluator) (env : Env) (e : Expr) : Run Value :=
  match e.constant? with
  | some l => do
    env.tick e.startPos
    return l.value
  | none => ev.expr env e

/-- The values of arguments, from left to right. -/
def evalArgs (ev : Evaluator) (env : Env) : List Expr → Run (List Value)
  | [] => return []
  | e :: rest => do
    let v ← evalArg ev env e
    return v :: (← evalArgs ev env rest)

def evalLink (ev : Evaluator) (env : Env) : Link → Run Step
  | .property name optional pos _ => return .property name optional pos
  | .method name args optional pos _ => do return .method name (← evalArgs ev env args) optional pos
  | .index at_ optional _ => do return .index (← evalArg ev env at_) optional at_.startPos

def Link.lastPos : Link → Position
  | .index at_ _ _ => at_.pos
  | l => l.pos

def evalLinks (ev : Evaluator) (env : Env) : List Link → Run (List Step)
  | [] => return []
  | [last] => do
    env.tick last.lastPos
    return [← evalLink ev env last]
  | l :: next :: rest => do
    env.tick next.opPos
    let step ← evalLink ev env l
    return step :: (← evalLinks ev env (next :: rest))

/-- Evaluates the arguments of all links. A single link with nothing to evaluate does not count. -/
def evalSteps (ev : Evaluator) (env : Env) (links : List Link) : Run (List Step) :=
  match links with
  | [.property name optional pos _] => return [.property name optional pos]
  | [.method name [] optional pos _] => return [.method name [] optional pos]
  | [.index at_ optional _] =>
    match at_.constant? with
    | some l => return [.index l.value optional at_.startPos]
    | none => evalLinks ev env links
  | links => evalLinks ev env links

/-- A value to assign, with the operator of a combined assignment. -/
structure Assignment where
  op : Option BinaryOp
  value : Value
  pos : Position

/-- Applies an operator. -/
def applyBinary (env : Env) (op : BinaryOp) (a b : Value) (pos : Position) : Run Value := do
  match op.direct a b with
  | some answer => env.limited (← orFail answer pos) pos
  | none =>
    env.tick pos
    match op.derived a b with
    | some answer => env.limited (← orFail answer pos) pos
    | none => failAt (.functionNotFound op.symbol [a, b]) pos

/-- The value of a variable, field or item after an assignment. -/
def Assignment.apply (env : Env) (a : Assignment) (old : Value) : Run Value :=
  match a.op with
  | none => return a.value
  | some op => applyBinary env op old a.value a.pos

/-- The place of an item that may be counted from the end. -/
def itemIndex? (length : Nat) (index : Int64) : Option Nat :=
  let i := index.toInt
  if 0 ≤ i then (if i < length then some i.toNat else none)
  else if -i ≤ length then some (length - i.natAbs)
  else none

def singleBit (place : Nat) : Int64 :=
  (1 : Int64) <<< Int64.ofNat place

/-- The bit of an integer at a place that may be counted from the end, and how to set it. -/
def bitAt (n index : Int64) : Except Cause (Value × (Value → Except Cause Value)) :=
  match itemIndex? 64 index with
  | some i =>
    .ok (.bool (n &&& singleBit i != 0), fun v =>
      match v with
      | .bool true => .ok (.int (n ||| singleBit i))
      | .bool false => .ok (.int (n &&& ~~~singleBit i))
      | v => .error (.typeMismatch v.typeName "bool"))
  | none => .error (.plain s!"Bit-field index {index} out of bounds: only 64 bits in bit-field")

/-- What lies at an index of an object, and how to put something else there. -/
def indexed (object at_ : Value) : Except Cause (Value × (Value → Except Cause Value)) :=
  match object, at_ with
  | .array items, .int n =>
    match itemIndex? items.length n with
    | some i => .ok (items.getD i .unit, fun v => .ok (.array (items.set i v)))
    | none => .error (.arrayBounds items.length n)
  | .array _, v => .error (.typeMismatch v.typeName "i64")
  | .map fields, .str key => .ok ((Fields.get? fields key).getD .unit, fun v => .ok (.map (Fields.insert fields key v)))
  | .map _, v => .error (.typeMismatch v.typeName "string")
  | .str s, .int n =>
    let cs := s.toList
    match itemIndex? cs.length n with
    | some i =>
      .ok (.char (cs.getD i ' '), fun v =>
        match v with
        | .char c => .ok (.str (String.ofList (cs.set i c)))
        | v => .error (.typeMismatch v.typeName "char"))
    | none => .error (.stringBounds cs.length n)
  | .str _, v => .error (.typeMismatch v.typeName "i64")
  | .int n, .int i => bitAt n i
  | object, v => .error (.indexUnsupported object.typeName v.typeName)

/-- What surrounds the links that are followed. -/
structure Path where
  /-- The name of the root, if it is a variable. -/
  root : String
  rootPos : Position
  /-- Whether the object may not be changed. -/
  constant : Bool

/-- Refuses to change a constant. -/
def Path.guard (p : Path) : Run Unit :=
  if p.constant then failAt (.constantAssigned p.root) p.rootPos else return

/-- The changed object after what was reached inside it has changed. -/
def putBack (put : Value → Except Cause Value) (changed : Option Value) (pos : Position) :
    Run (Option Value) :=
  match changed with
  | some v => some <$> orFail (put v) pos
  | none => return none

/-- Follows links from an object to a value, or to what is assigned to. -/
def follow (ev : Evaluator) (env : Env) (assignment? : Option Assignment) :
    Path → Value → List Step → Run Changed
  | path, object, [] =>
    match assignment? with
    | none => return (object, none)
    | some a => do
      path.guard
      let v ← a.apply env object
      return (.unit, some v)
  | path, object, step :: rest => do
    if step.optional && object.typeName == "()" then return (.unit, none)
    match step, object with
    | .property name _ _, .map fields =>
      env.tick .none
      let (v, inner) ← follow ev env assignment? path ((Fields.get? fields name).getD .unit) rest
      let changed := inner.map fun x => Value.map (Fields.insert fields name x)
      for a in assignment? do for x in changed do env.limit x.extent a.pos
      return (v, changed)
    | .property name _ pos, object =>
      let assigned := rest.isEmpty && assignment?.isSome
      let setterOnly := match assignment? with
        | some a => rest.isEmpty && a.op.isNone
        | none => false
      if setterOnly then failAt (.propertyNotWritable name object.typeName) pos
      env.tick pos
      match Library.property? name object with
      | none => failAt (.propertyNotFound name object.typeName) pos
      | some answer =>
        let v ← orFail answer pos
        if assigned then failAt (.propertyNotWritable name object.typeName) pos
        let (w, _) ← follow ev env assignment? { path with constant := false } v rest
        return (w, none)
    | .method name args _ pos, object =>
      let (v, changed) ← callMethod ev env object name args path.constant pos
      if rest.isEmpty then return (v, changed)
      else
        let (w, _) ← follow ev env assignment? { path with constant := false } v rest
        return (w, changed)
    | .index at_ _ pos, object =>
      env.tick .none
      let (v, put) ← orFail (indexed object at_) pos
      let (w, inner) ← follow ev env assignment? path v rest
      let changed ← putBack put inner pos
      for a in assignment? do for x in changed do env.limit x.extent a.pos
      return (w, changed)

/-- Follows a chain from its root, of which a variable may be changed. -/
def evalChain (ev : Evaluator) (env : Env) (root : Expr) (links : List Link) (assignment? : Option Assignment) :
    Run Value := do
  let steps ← evalSteps ev env links
  match root with
  | .variable name pos =>
    env.tick pos
    let b ← env.lookup name pos
    let (v, changed) ← follow ev env assignment? ⟨name, pos, b.constant⟩ (← load b.cell) steps
    for object in changed do store b.cell object
    return v
  | root =>
    let object ← ev.expr env root
    return (← follow ev env assignment? ⟨"", root.startPos, false⟩ object steps).1

end ReactiveNotebook.Script
