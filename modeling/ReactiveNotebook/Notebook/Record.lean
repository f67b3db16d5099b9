import ReactiveNotebook.Json.Reader
import ReactiveNotebook.Json.Writer
import ReactiveNotebook.Cell.Basic

/-!
# The notebook format

A notebook is a JSON object with a list of cells, or that list by itself. Each cell is a record of five
fields, given by name or in order; other fields are ignored. Reading a written notebook yields the same
cells whenever the format can express them.
-/
namespace ReactiveNotebook.Notebook

/-- Why a text is no notebook. -/
inductive ReadError where
  /-- The text is no JSON. -/
  | malformed
  /-- The JSON has not the shape of a notebook. -/
  | wrongShape
  /-- The record at `index` is no cell. -/
  | badRecord (index : Nat) (message : String)
  deriving DecidableEq, Repr

/-- A cell as it is stored. -/
structure Record where
  kind : String
  id : Option String
  variableName : Option String
  content : Option Json
  formula : Option String

namespace Record

/-- An optional text; the outer option is the failure. -/
def optionalText? : Option Json → Option (Option String)
  | none | some .null => some none
  | some (.str s) => some (some s)
  | some _ => none

/-- Makes a record of its fields. Only the kind is required. -/
def ofFields? (kind id variableName content formula : Option Json) : Option Record := do
  let .some (.str kind) := kind | none
  let id ← optionalText? id
  let variableName ← optionalText? variableName
  let formula ← optionalText? formula
  let content := match content with
    | some .null => none
    | content => content
  some { kind, id, variableName, content, formula }

/-- The only value under a name; the outer option is the failure, when there are several. -/
def unique? (fields : List (String × Json)) (name : String) : Option (Option Json) :=
  match fields.filter (·.1 == name) with
  | [] => some none
  | [(_, v)] => some (some v)
  | _ => none

def ofJson? : Json → Option Record
  | .obj fields => do
    ofFields? (← unique? fields "type") (← unique? fields "id") (← unique? fields "variableName")
      (← unique? fields "content") (← unique? fields "formula")
  | .arr items =>
    if 5 < items.length then none
    else ofFields? items[0]? items[1]? items[2]? items[3]? items[4]?
  | _ => none

/-- The text of a content. A content that is no text keeps its compact JSON. -/
def contentText : Option Json → String
  | none | some .null => ""
  | some (.str s) => s
  | some v => v.compact

/-- The id of the record at `index`; a missing or blank one is made of the position. -/
def cellId (r : Record) (index : Nat) : CellId :=
  match r.id with
  | some id => if Text.allBlank id then s!"cell-{index + 1}" else id
  | none => s!"cell-{index + 1}"

def variableName? (r : Record) : Option String :=
  match r.variableName.map Text.trim with
  | some "" | none => none
  | some name => some name

/-- The cell that a record at `index` describes. -/
def toDefinition (index : Nat) (r : Record) : Except ReadError Definition :=
  let id := r.cellId index
  let missing (kind : String) : ReadError :=
    .badRecord index s!"{kind} cell \x60{id}\x60 has no variableName"
  let kind := String.ofList ((Text.trimList r.kind.toList).map Char.toLower)
  if kind == "script" || kind == "code" then .ok ⟨id, .script (contentText r.content)⟩
  else if kind == "formula" then
    match r.variableName? with
    | none => .error (missing kind)
    | some name => .ok ⟨id, .formula (r.formula.getD (contentText r.content)) name⟩
  else if kind == "markdown" || kind == "md" then .ok ⟨id, .markdown (contentText r.content)⟩
  else if kind == "input" then
    match r.variableName? with
    | none => .error (missing kind)
    | some name => .ok ⟨id, .input (contentText r.content) name⟩
  else .error (.badRecord index s!"unknown cell type \x60{kind}\x60")

/-- The fields of a cell. -/
def ofDefinition (d : Definition) : List (String × Json) :=
  let head := [("type", Json.str d.content.kindName), ("id", Json.str d.id)]
  match d.content with
  | .script s | .markdown s => head ++ [("content", .str s)]
  | .formula s output => head ++ [("variableName", .str output), ("formula", .str s)]
  | .input s output => head ++ [("variableName", .str output), ("content", .str s)]

end Record

def records? : Json → Option (List Record)
  | .obj fields => do
    let .some (.arr items) ← Record.unique? fields "cells" | none
    items.mapM Record.ofJson?
  | .arr items => items.mapM Record.ofJson?
  | _ => none

/-- The cells of numbered records. -/
def definitionsFrom (index : Nat) : List Record → Except ReadError (List Definition)
  | [] => .ok []
  | r :: rs => do
    let d ← r.toDefinition index
    let ds ← definitionsFrom (index + 1) rs
    return d :: ds

/-- Reads a notebook. A wrong shape is reported before what follows the JSON is looked at. -/
def read (text : String) : Except ReadError (List Definition) :=
  match Json.read? text.toList with
  | none => .error .malformed
  | some (json, rest) =>
    match records? json with
    | none => .error .wrongShape
    | some records => if (Json.skipSpace rest).isEmpty then definitionsFrom 0 records else .error .malformed

def write (cells : List Definition) : String :=
  Json.indented 0 (.obj [("cells", .arr (cells.map fun d => .obj (Record.ofDefinition d)))]) ++ "\n"

end ReactiveNotebook.Notebook
