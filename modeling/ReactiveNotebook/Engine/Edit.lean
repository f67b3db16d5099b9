import ReactiveNotebook.Engine.Basic
import ReactiveNotebook.Text.Quoted

/-!
# Editing a notebook

Every edit derives the graph anew and seeds the cells whose results may no longer hold. An edit that is
refused changes nothing.
-/
namespace ReactiveNotebook

/-- Why an edit is refused. -/
inductive EditError where
  | unknownCell (id : CellId)
  | duplicateCell (id : CellId)
  | indexOutOfRange (index count : Nat)
  | noOutputVariable (id : CellId)
  | invalidVariableName (name : String)
  deriving DecidableEq, Repr

namespace EditError

/-- The text shown for a refused edit. -/
def message : EditError → String
  | .unknownCell id => s!"Unknown cell: {id}"
  | .duplicateCell id => s!"Duplicate cell id: {id}"
  | .indexOutOfRange index count => s!"Index {index} out of range (notebook has {count} cells)"
  | .noOutputVariable id => s!"Cell {id} does not declare an output variable"
  | .invalidVariableName name => s!"Invalid variable name: {Text.quote name}"

end EditError

namespace Definition

/-- Refuses a declared variable that is missing or no variable name. -/
def check (d : Definition) : Except EditError Unit :=
  match d.content.output? with
  | none => .ok ()
  | some name =>
    if name.isEmpty then .error (.noOutputVariable d.id)
    else if Analysis.isVariableName name then .ok ()
    else .error (.invalidVariableName name)

end Definition

namespace Engine

/-- Inserts a cell at a place from 0 up to the number of cells. -/
def addCell (e : Engine) (d : Definition) (index : Nat) : Except EditError Engine := do
  if e.cells.length < index then throw (.indexOutOfRange index e.cells.length)
  if e.hasCell d.id then throw (.duplicateCell d.id)
  d.check
  return rebuild { (e.seed d.id) with cells := e.cells.insertIdx index (.ofDefinition d) }

def pushCell (e : Engine) (d : Definition) : Except EditError Engine :=
  e.addCell d e.cells.length

/-- Clears a variable that no cell writes any more after a cell is gone, and seeds its readers. -/
def dropVariable (except : CellId) (e : Engine) (name : String) : Engine :=
  if e.isWrittenElsewhere name except then e
  else ((e.seedAll (e.graph.readersOf name)).clearVariable name true).1

/-- Removes a cell together with the variables that only it wrote. -/
def removeCell (e : Engine) (id : CellId) : Except EditError (Engine × Definition) :=
  match e.cell? id with
  | none => .error (.unknownCell id)
  | some c =>
    let e := rebuild { e with
      cells := e.cells.filter (·.id != id)
      seeds := e.seeds.filter (· != id) }
    .ok (c.writes.names.toList.foldl (dropVariable id) e, c.definition)

/-- Replaces the text of a cell. The same text again is no edit. -/
def setContent (e : Engine) (id : CellId) (text : String) : Except EditError Engine :=
  match e.cell? id with
  | none => .error (.unknownCell id)
  | some c =>
    if c.content.text == text then .ok e
    else
      let e := e.modifyCell id fun c =>
        Cell.reanalyze { c with content := c.content.withText text, version := c.version + 1 }
      .ok (rebuild (e.seed id))

/-- Moves a cell to a place below the number of cells. -/
def moveCell (e : Engine) (id : CellId) (index : Nat) : Except EditError Engine :=
  match e.index? id, e.cell? id with
  | some old, some c =>
    if e.cells.length ≤ index then .error (.indexOutOfRange index e.cells.length)
    else if old = index then .ok e
    else .ok (rebuild { (e.seed id) with cells := (e.cells.eraseIdx old).insertIdx index c })
  | _, _ => .error (.unknownCell id)

/-- Gives a formula or input cell another variable. The old one is cleared, unless another cell writes it,
but keeps its subscribers. -/
def renameVariable (e : Engine) (id : CellId) (name : String) : Except EditError Engine :=
  match e.cell? id with
  | none => .error (.unknownCell id)
  | some c =>
    if !Analysis.isVariableName name then .error (.invalidVariableName name)
    else
      match c.content.output? with
      | none => .error (.noOutputVariable id)
      | some old =>
        if old == name then .ok e
        else
          let e := e.modifyCell id fun c =>
            Cell.reanalyze { c with content := c.content.withOutput name, version := c.version + 1 }
          let e := e.seed id
          let e :=
            if e.isWrittenElsewhere old id then e
            else ((e.seedAll (e.graph.readersOf old)).clearVariable old false).1
          .ok e.rebuild

end Engine

end ReactiveNotebook
