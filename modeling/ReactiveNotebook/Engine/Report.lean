import ReactiveNotebook.Cell.Basic

/-!
# Passes and their reports

A pass evaluates the cells that a change reaches. While it is in progress it keeps which cells take part,
which still wait, and the slots it started from together with its own commits.
-/
namespace ReactiveNotebook

/-- What happened to a cell in a pass. -/
inductive Outcome where
  | success
  | failed (fault : Fault)
  /-- Nothing the cell reads changed. -/
  | unchanged
  /-- The cell lies on a cycle, or is gone. -/
  | skipped
  /-- A result arrived for a cell that had been edited meanwhile. -/
  | discarded
  deriving DecidableEq, Repr

/-- Whether the cell was evaluated, with or without success. -/
def Outcome.isExecution : Outcome → Bool
  | .success | .failed _ => true
  | _ => false

/-- The summary of a pass. -/
structure Report where
  generation : Nat
  /-- The order computed at the start. -/
  order : List CellId
  /-- The outcomes in the order in which they came about. -/
  results : List (CellId × Outcome)
  /-- The variables whose committed slot changed. -/
  changed : Names
  /-- The number of script results that were not used. -/
  stale : Nat

namespace Report

def outcome? (r : Report) (id : CellId) : Option Outcome :=
  (r.results.find? (·.1 == id)).map (·.2)

def executed (r : Report) : List CellId :=
  (r.results.filter fun p => p.2.isExecution).map (·.1)

end Report

structure Pass where
  generation : Nat
  /-- The cells that run whether or not something they read changed. -/
  seeds : Names
  /-- The cells that take part. -/
  members : Names
  /-- The members that wait, in order. -/
  remaining : List CellId
  completed : Names
  /-- Scripts in flight that have to run again because their inputs changed. -/
  rerun : Names
  /-- The committed slots at the start, with the commits of the pass on top. -/
  snapshot : List (String × Slot)
  changed : Names
  order : List CellId
  results : List (CellId × Outcome)
  stale : Nat

namespace Pass

def start (generation : Nat) (seeds : Names) (snapshot : List (String × Slot)) : Pass where
  generation := generation
  seeds := seeds
  members := ∅
  remaining := []
  completed := ∅
  rerun := ∅
  snapshot := snapshot
  changed := ∅
  order := []
  results := []
  stale := 0

/-- The slot of a variable as the pass sees it. -/
def slot (p : Pass) (name : String) : Slot :=
  match p.snapshot.find? (·.1 == name) with
  | some (_, s) => s
  | none => .undefined

def record (p : Pass) (name : String) (slot : Slot) (changed : Bool) : Pass :=
  { p with
    snapshot := (name, slot) :: p.snapshot.filter (·.1 != name)
    changed := if changed then p.changed.insert name else p.changed }

def finish (p : Pass) (id : CellId) (outcome : Outcome) : Pass :=
  { p with completed := p.completed.insert id, results := p.results ++ [(id, outcome)] }

def report (p : Pass) : Report := ⟨p.generation, p.order, p.results, p.changed, p.stale⟩

end Pass

end ReactiveNotebook
