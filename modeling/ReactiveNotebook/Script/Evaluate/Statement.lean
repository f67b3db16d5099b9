import ReactiveNotebook.Script.Evaluate.Expression

/-!
# Running statements

A statement has a value and may bring variables and modules into scope for the statements after it. The value
of a block is that of its last statement.
-/
namespace ReactiveNotebook.Script

/-- Takes turns until one yields a value. The fuel bounds their number. -/
def repeatUntil : Nat → Run (Option Value) → Run Value
  | 0, _ => throw .outOfFuel
  | fuel + 1, turn => do
    match ← turn with
    | some v => return v
    | none => repeatUntil fuel turn

/-- Takes a turn for each number from `i` on, `count` times, unless one yields a value before. -/
def repeatFor (turn : Nat → Run (Option Value)) : Nat → Nat → Run Value
  | 0, _ => return .unit
  | count + 1, i => do
    match ← turn i with
    | some v => return v
    | none => repeatFor turn count (i + 1)

/-- How the body of a loop ended. -/
inductive Turn where
  | done
  | skipped
  | left (v : Value)

def runTurn (ev : Evaluator) (env : Env) (body : List Stmt) : Run Turn := fun m =>
  match ev.block env body m with
  | .ok _ m => .ok .done m
  | .error .continue_ m => .ok .skipped m
  | .error (.break_ v) m => .ok (.left v) m
  | .error exit m => .error exit m

/-- Runs the body of a loop once; the value with which the loop was left. -/
def runLoopBody (ev : Evaluator) (env : Env) (body : List Stmt) : Run (Option Value) := do
  match ← runTurn ev env body with
  | .left v => return some v
  | _ => return none

/-- The items of an iteration: their number, and the item at a place. -/
def iterate? : Value → Option (Nat × (Nat → Value))
  | .array items =>
    let items := items.toArray
    some (items.size, fun i => items.getD i .unit)
  | .str s =>
    let cs := s.toList.toArray
    some (cs.size, fun i => .char (cs.getD i ' '))
  | .range low high closed =>
    let count := (high.toInt - low.toInt + (if closed then 1 else 0)).toNat
    some (count, fun i => .int (Int64.ofInt (low.toInt + i)))
  | _ => none

/-- Runs a loop with a condition in front, or without one. -/
def runWhile (ev : Evaluator) (env : Env) (condition : Option Expr) (body : List Stmt) (bodyPos : Position) :
    Run Value :=
  let turn : Run (Option Value) := do
    let goOn ← match condition with
      | none => pure true
      | some (.literal (.bool true) _) => pure true
      | some c => wantBool (← ev.expr env c) c.pos
    if !goOn then return some .unit
    if body.isEmpty then
      match condition with
      | none | some (.literal _ _) => env.tick bodyPos
      | _ => pure ()
      return none
    else runLoopBody ev env body
  repeatUntil env.turns turn

/-- Runs a loop with its condition at the end. A skipped turn does not ask it. -/
def runDo (ev : Evaluator) (env : Env) (body : List Stmt) (condition : Expr) (negated : Bool) : Run Value :=
  let turn : Run (Option Value) := do
    match ← if body.isEmpty then pure Turn.done else runTurn ev env body with
    | .left v => return some v
    | .skipped => return none
    | .done =>
      let b ← wantBool (← ev.expr env condition) condition.pos
      return if b == negated then some .unit else none
  repeatUntil env.turns turn

/-- Runs an iteration. The variables are the same in all turns. -/
def runFor (ev : Evaluator) (env : Env) (name : String) (counter : Option String) (items : Expr)
    (body : List Stmt) (bodyPos : Position) : Run Value := do
  match iterate? (← ev.expr env items) with
  | none => failAt .notIterable items.startPos
  | some (count, item) =>
    let counterCell ← allocate (indexValue 0)
    let cell ← allocate .unit
    let inner := match counter with
      | some c => env.bind c counterCell false
      | none => env
    let inner := inner.bind name cell false
    let turn (i : Nat) : Run (Option Value) := do
      if body.isEmpty then
        env.tick bodyPos
        return none
      else
        store counterCell (indexValue i)
        store cell (item i)
        runLoopBody ev inner body
    repeatFor turn count 0

/-- Whether an integer lies in a range of constants. -/
def Literal.covers (l : Literal) (v : Value) : Bool :=
  match l, v with
  | .range low high closed, .int n => low ≤ n && (n < high || (closed && n == high))
  | _, _ => false

/-- The result of the first arm whose condition holds. -/
def pickCase (ev : Evaluator) (env : Env) : List Case → Run (Option Expr)
  | [] => return none
  | .mk _ none result :: _ => return some result
  | .mk _ (some condition) result :: rest => do
    if ← wantBool (← ev.expr env condition) condition.pos then return some result
    else pickCase ev env rest

/-- Whether an arm stands for a value. -/
def Case.matches (p : Literal → Bool) : Case → Bool
  | .mk values _ _ => values.any p

def default? : List Case → Option Expr
  | [] => none
  | .mk [] _ result :: _ => some result
  | _ :: rest => default? rest

/-- Runs a switch. Ranges are looked at only if no constant is the value. -/
def runSwitch (ev : Evaluator) (env : Env) (subject : Expr) (cases : List Case) : Run Value := do
  let v ← ev.expr env subject
  let exact := cases.filter (·.matches fun l => l.value.same v)
  let chosen ←
    if exact.isEmpty then pickCase ev env (cases.filter (·.matches (·.covers v)))
    else pickCase ev env exact
  match chosen.or (default? cases) with
  | some result => ev.expr env result
  | none => return .unit

def Cause.fields : Cause → List (String × Value)
  | .variableNotFound name | .constantAssigned name | .propertyNotFound name _
  | .propertyNotWritable name _ => [("variable", .str name)]
  | .functionNotFound name args => [("function", .str (signature name args))]
  | .typeMismatch given wanted => [("requested", .str wanted), ("actual", .str given)]
  | .arrayBounds length index | .stringBounds length index =>
    [("length", indexValue length), ("index", .int index)]
  | .moduleNotFound name => [("module", .str name)]
  | _ => []

/-- What a handler sees of a failure: the thrown value, or a description. -/
def RunFault.handled (f : RunFault) : Value :=
  match f.cause with
  | .thrown v => v
  | cause =>
    let place := if f.pos.isNone then [] else
      [("line", indexValue f.pos.line), ("position", indexValue f.pos.column)]
    let message := (f.withPos .none).message
    .map (Fields.ofList (("message", .str message) :: place ++ cause.fields))

/-- Runs a protected block. A handler that throws nothing throws the failure again. -/
def runTry (ev : Evaluator) (env : Env) (body : List Stmt) (name : Option String) (handler : List Stmt) :
    Run Value := fun m =>
  match ev.block env body m with
  | .error (.fault f) m =>
    if f.isFatal then .error (.fault f) m
    else
      let handle : Run Value := do
        let inner ← match name with
          | some n => env.declare n f.handled false
          | none => pure env
        let rethrow (g : RunFault) : RunFault :=
          match g with
          | .at_ (.thrown .unit) pos => f.withPos pos
          | g => g
        let _ ← mapFault rethrow (ev.block inner handler)
        return .unit
      handle m
  | result => result

/-- Assigns to a variable or through a chain. -/
def runAssign (ev : Evaluator) (env : Env) (op : Option BinaryOp) (target value : Expr) (pos : Position) :
    Run Unit := do
  let v ← ev.expr env value
  match target with
  | .variable name namePos =>
    env.tick namePos
    let b ← env.lookup name namePos
    if b.constant then failAt (.constantAssigned name) namePos
    let old ← load b.cell
    store b.cell (← (Assignment.mk op v pos).apply env old)
  | .chain root links => let _ ← evalChain ev env root links (some ⟨op, v, pos⟩)
  | e => failAt (.constantAssigned "") e.pos

/-- Whether an expression that is a statement of a script counts together with the statement. -/
def countsOnce : Expr → Bool
  | .call .. | .moduleCall .. | .unary .. | .binary .. => true
  | _ => false

def runImport (ev : Evaluator) (env : Env) (path : Expr) (alias_ : Option String) : Run Env := do
  match ← ev.expr env path with
  | .str name =>
    let known := env.context.isScript && env.context.config.modules.contains name
    match if known then Module.ofName? name else none with
    | some m => return { env with imports := (alias_.getD "", m) :: env.imports }
    | none => failAt (.moduleNotFound name) path.startPos
  | v => failAt (.typeMismatch v.typeName "string") path.pos

/-- Declares a variable. Functions see the constants that are declared outside of all blocks. -/
def runDeclare (ev : Evaluator) (env : Env) (name : String) (value : Expr) (constant : Bool) : Run Env := do
  let v ← ev.expr env value
  if constant && env.depth == 0 then
    modify fun m => { m with constants := m.constants.insert name v }
  env.declare name v constant

/-- Runs a statement, with the surroundings of the next one. -/
def runStmt (ev : Evaluator) (env : Env) (stmt : Stmt) : Run (Value × Env) := do
  env.tick stmt.pos
  let valued (r : Run Value) : Run (Value × Env) := do return (← r, env)
  match stmt with
  | .noop _ => return (.unit, env)
  | .expr e => valued (if env.context.isScript && countsOnce e then evalCounted ev env e else ev.expr env e)
  | .declare name value constant _ => return (.unit, ← runDeclare ev env name value constant)
  | .assign op target value pos =>
    runAssign ev env op target value pos
    return (.unit, env)
  | .block body _ => valued (ev.block env body)
  | .ifElse condition yes no _ =>
    let b ← wantBool (← ev.expr env condition) condition.pos
    valued (ev.block env (if b then yes else no))
  | .switch subject cases _ => valued (runSwitch ev env subject cases)
  | .while_ condition body _ bodyPos => valued (runWhile ev env condition body bodyPos)
  | .doLoop body condition negated _ _ => valued (runDo ev env body condition negated)
  | .for_ name counter items body _ bodyPos => valued (runFor ev env name counter items body bodyPos)
  | .tryCatch body name handler _ => valued (runTry ev env body name handler)
  | .break_ none _ => throw (.break_ .unit)
  | .break_ (some e) _ => throw (.break_ (← ev.expr env e))
  | .continue_ _ => throw .continue_
  | .return_ none _ => throw (.return_ .unit)
  | .return_ (some e) _ => throw (.return_ (← ev.expr env e))
  | .throw_ none pos => failAt (.thrown .unit) pos
  | .throw_ (some e) pos => failAt (.thrown (← ev.expr env e)) pos
  | .import_ path alias_ _ => return (.unit, ← runImport ev env path alias_)

/-- Runs statements in order. `last` is the value of the one before. -/
def runStmts (ev : Evaluator) : Env → Value → List Stmt → Run Value
  | _, last, [] => return last
  | env, _, stmt :: rest => do
    let (v, env) ← runStmt ev env stmt
    runStmts ev env v rest

/-- Runs the statements of a block in a scope of their own. -/
def runBlock (ev : Evaluator) (env : Env) (body : List Stmt) : Run Value :=
  runStmts ev { env with depth := env.depth + 1 } .unit body

/-- Runs the statements outside of all blocks, with the surroundings at the end. A return ends them. -/
def runGlobal (ev : Evaluator) : Env → Value → List Stmt → Run (Value × Env)
  | env, last, [] => return (last, env)
  | env, _, stmt :: rest => fun m =>
    match runStmt ev env stmt m with
    | .ok (v, env) m => runGlobal ev env v rest m
    | .error (.return_ v) m => .ok (v, env) m
    | .error exit m => .error exit m

end ReactiveNotebook.Script
