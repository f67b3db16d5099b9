import ReactiveNotebook.Script.Evaluate.Chain

/-!
# Evaluating expressions

Operands are evaluated from left to right; the right side of `&&`, `||` and `??` only if it matters. A call
whose first argument is a variable evaluates the other arguments before it, and may change the variable.
-/
namespace ReactiveNotebook.Script

def wantBool (v : Value) (pos : Position) : Run Bool :=
  match v with
  | .bool b => return b
  | v => failAt (.typeMismatch v.typeName "bool") pos

/-- Applies an operator on one operand. -/
def applyUnary (env : Env) (op : UnaryOp) (v : Value) (pos : Position) : Run Value := do
  match op, v with
  | .not, .bool b => return .bool !b
  | op, v =>
    env.tick pos
    match op.apply v with
    | some answer => orFail answer pos
    | none => failAt (.functionNotFound op.symbol [v]) pos

/-- The items of an array, whose size so far is `size`. -/
def evalItems (ev : Evaluator) (env : Env) : Extent → List Expr → Run (List Value)
  | _, [] => return []
  | size, e :: rest => do
    let v ← ev.expr env e
    let size := (size.add v.extent).add ⟨1, 0, 0⟩
    env.limit size e.pos
    return v :: (← evalItems ev env size rest)

/-- The fields of a map, whose size so far is `size`. -/
def evalFields (ev : Evaluator) (env : Env) : Extent → List (String × Expr) → Run (List (String × Value))
  | _, [] => return []
  | size, (k, e) :: rest => do
    let v ← ev.expr env e
    let size := (size.add v.extent).add ⟨0, 1, 0⟩
    env.limit size e.pos
    return (k, v) :: (← evalFields ev env size rest)

def evalPieces (ev : Evaluator) (env : Env) : String → List Expr → Run String
  | text, [] => return text
  | text, e :: rest => do
    let v ← ev.expr env e
    let text := text ++ v.displayText
    env.limit ⟨0, 0, text.utf8ByteSize⟩ e.pos
    evalPieces ev env text rest

/-- The values of captured variables: references to their memory cells. -/
def capture (env : Env) : List (String × Position) → Run (List Value)
  | [] => return []
  | (name, pos) :: rest => do
    env.tick pos
    let b ← env.lookup name pos
    return .shared b.cell :: (← capture env rest)

/-- Evaluates a closure. Capturing variables takes some operations. -/
def evalClosure (env : Env) (lambda : Lambda) (pos : Position) : Run Value := do
  match lambda with
  | .mk _ [] _ _ => return .closure lambda []
  | .mk _ captured _ _ =>
    env.tick pos
    env.tick pos
    env.tick pos
    return .closure lambda (← capture env captured)

def evalCall (ev : Evaluator) (env : Env) (name : String) (args : List Expr) (pos : Position) : Run Value := do
  match args with
  | .variable first firstPos :: rest =>
    let others ← evalArgs ev env rest
    env.tick firstPos
    let b ← env.lookup first firstPos
    let (v, changed) ← callNamed ev env name ((← load b.cell) :: others) false pos
    if !b.constant then
      for object in changed do store b.cell object
    return v
  | args => return (← callNamed ev env name (← evalArgs ev env args) false pos).1

def evalQualified (env : Env) (space name : String) (spacePos pos : Position) : Run Value := do
  if env.imports.any (·.1 == space) then failAt (.variableNotFound (space ++ "::" ++ name)) pos
  if space != "global" then failAt (.moduleNotFound space) spacePos
  match (← get).constants.get? name with
  | some v => return v
  | none => failAt (.variableNotFound (space ++ "::" ++ name)) spacePos

def evalCounted (ev : Evaluator) (env : Env) (e : Expr) : Run Value := do
  match e with
  | .literal l _ => return l.value
  | .variable name pos => load (← env.lookup name pos).cell
  | .qualified space name spacePos pos => evalQualified env space name spacePos pos
  | .interpolated parts _ => return .str (← evalPieces ev env "" parts)
  | .array items _ => return .array (← evalItems ev env ⟨0, 0, 0⟩ items)
  | .map fields _ => return .map (Fields.ofList (← evalFields ev env ⟨0, 0, 0⟩ fields))
  | .unary op arg pos => applyUnary env op (← evalArg ev env arg) pos
  | .binary op left right pos =>
    let a ← evalArg ev env left
    let b ← evalArg ev env right
    applyBinary env op a b pos
  | .logical .and left right _ =>
    if ← wantBool (← ev.expr env left) left.pos then return .bool (← wantBool (← ev.expr env right) right.pos)
    else return .bool false
  | .logical .or left right _ =>
    if ← wantBool (← ev.expr env left) left.pos then return .bool true
    else return .bool (← wantBool (← ev.expr env right) right.pos)
  | .logical .coalesce left right _ =>
    match ← ev.expr env left with
    | .unit => ev.expr env right
    | v => return v
  | .call name args pos => evalCall ev env name args pos
  | .moduleCall space name args spacePos pos =>
    let values ← evalArgs ev env args
    callModule env space name values spacePos pos
  | .chain root links => evalChain ev env root links none
  | .closure lambda pos => evalClosure env lambda pos
  | .block body _ => ev.block env body

def evalExpr (ev : Evaluator) (env : Env) (e : Expr) : Run Value := do
  env.tick e.pos
  evalCounted ev env e

end ReactiveNotebook.Script
