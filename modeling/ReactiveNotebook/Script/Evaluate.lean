import ReactiveNotebook.Script.Evaluate.Statement

/-!
# Evaluating scripts and expressions

The parts of a script are evaluated in terms of each other; every step into a part takes one unit of fuel.
-/
namespace ReactiveNotebook.Script

/-- The evaluator with an amount of fuel. -/
def evaluator : Nat → Evaluator
  | 0 => { expr := fun _ _ => throw .outOfFuel, block := fun _ _ => throw .outOfFuel }
  | fuel + 1 =>
    { expr := fun env e => evalExpr (evaluator fuel) env e
      block := fun env body => runBlock (evaluator fuel) env body }

/-- How deep the parts of a script may lie inside each other while it runs. -/
def evaluationFuel : Nat := 1000000000

/-- The surroundings of an evaluation in which nothing is declared. -/
def Env.outer (context : Context) : Env := ⟨context, [], [], 0, 0⟩

/-- Runs a script with given variables and an empty map to export to; the last value and the exports. -/
def Program.run (context : Context) (p : Program) (inputs : List (String × Value)) : Run (Value × Value) := do
  let ev := evaluator evaluationFuel
  let env ← declareAll false (.outer context) (inputs ++ [("exports", .map [])])
  let (v, env) ← runGlobal ev env .unit p.body
  let exports ← match env.find? "exports" with
    | some b => load b.cell
    | none => pure .unit
  let m ← get
  return (m.freeze v, m.freeze exports)

/-- The value of an expression with given constants. -/
def Expr.run (context : Context) (e : Expr) (inputs : List (String × Value)) : Run Value := do
  let ev := evaluator evaluationFuel
  let env ← declareAll true (.outer context) inputs
  let (v, _) ← runGlobal ev env .unit [.expr e]
  return (← get).freeze v

end ReactiveNotebook.Script
