/-!
# Faults of cells

A cell fails because it lies on a dependency cycle, because its own evaluation failed, or because a variable
it reads carries the fault of another cell. A fault travels through the store as the value of the variables
the failing cell would have written.
-/
namespace ReactiveNotebook

/-- The stable name of a cell. -/
abbrev CellId := String

/-- Why a cell has no result. -/
inductive Fault where
  /-- The cell lies on a dependency cycle and was not evaluated; `path` is a closed walk. -/
  | cycle (cell : CellId) (path : List CellId)
  /-- The evaluation of the cell failed. -/
  | execution (cell : CellId) (message : String)
  /-- The variable `name`, which the cell reads, carries a fault that started at the cell `origin`. -/
  | inherited (name : String) (origin : CellId)
  deriving DecidableEq, Repr

namespace Fault

def origin : Fault → CellId
  | .cycle cell _ => cell
  | .execution cell _ => cell
  | .inherited _ origin => origin

def isCycle : Fault → Bool
  | .cycle _ _ => true
  | _ => false

def message : Fault → String
  | .cycle _ path => "Circular dependency: " ++ String.intercalate " -> " path
  | .execution _ text => text
  | .inherited name origin => s!"Upstream error in \x60{name}\x60 (from cell {origin})"

end Fault

end ReactiveNotebook
