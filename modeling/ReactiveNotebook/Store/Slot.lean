import ReactiveNotebook.Cell.Fault
import ReactiveNotebook.Script.Value

/-!
# Slots

A slot is what the store holds for a variable: nothing yet, a value, or the fault of the cell that should
have written it.
-/
namespace ReactiveNotebook

open Script (Value)

/-- The content of a variable. -/
inductive Slot where
  | undefined
  | value (v : Value)
  | error (f : Fault)
  deriving Inhabited

namespace Slot

/-- Whether the variable has never been written or was cleared. -/
def isUndefined : Slot → Bool
  | .undefined => true
  | _ => false

/-- Whether the variable carries a fault. -/
def isError : Slot → Bool
  | .error _ => true
  | _ => false

def fault? : Slot → Option Fault
  | .error f => some f
  | _ => none

/-- The number in the slot; integers are widened. -/
def toFloat? : Slot → Option Double
  | .value v => v.toFloat?
  | _ => none

/-- The value that an evaluation sees: a slot without a value reads as unit. -/
def toValue : Slot → Value
  | .value v => v
  | _ => .unit

/-- Whether two slots are indistinguishable for change detection. -/
def same : Slot → Slot → Bool
  | .undefined, .undefined => true
  | .value a, .value b => a.same b
  | .error a, .error b => a == b
  | _, _ => false

end Slot

end ReactiveNotebook
