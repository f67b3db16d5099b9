import ReactiveNotebook.Analysis.Template

/-!
# Cells

A cell has a stable id and a content of one of four kinds. From the content follow the names it reads and
writes; a script's writes are an estimate until it has run. A cell also keeps what its last evaluation left.
-/
namespace ReactiveNotebook

/-- What a cell holds. Formulas and inputs declare the variable they write. -/
inductive Content where
  | script (source : String)
  | formula (expression output : String)
  | markdown (template : String)
  | input (literal output : String)
  deriving DecidableEq, Repr

namespace Content

def text : Content → String
  | .script s | .formula s _ | .markdown s | .input s _ => s

def withText (c : Content) (s : String) : Content :=
  match c with
  | .script _ => .script s
  | .formula _ output => .formula s output
  | .markdown _ => .markdown s
  | .input _ output => .input s output

/-- The declared variable. -/
def output? : Content → Option String
  | .formula _ output | .input _ output => some output
  | _ => none

/-- The content with another declared variable, where it declares one. -/
def withOutput (c : Content) (name : String) : Content :=
  match c with
  | .formula s _ => .formula s name
  | .input s _ => .input s name
  | c => c

def isScript : Content → Bool
  | .script _ => true
  | _ => false

def kindName : Content → String
  | .script _ => "script"
  | .formula .. => "formula"
  | .markdown _ => "markdown"
  | .input .. => "input"

end Content

/-- A cell as its author gives it. -/
structure Definition where
  id : CellId
  content : Content
  deriving DecidableEq, Repr

/-- The names a cell writes, and how sure that is. -/
inductive WriteSet where
  | unanalyzed
  /-- An estimate from the text of a script. -/
  | provisional (names : Names)
  /-- The declared variable, or what a script exported. -/
  | confirmed (names : Names)
  deriving DecidableEq

namespace WriteSet

def names : WriteSet → Names
  | .unanalyzed => ∅
  | .provisional names | .confirmed names => names

def contains (w : WriteSet) (name : String) : Bool := w.names.contains name

def isConfirmed : WriteSet → Bool
  | .confirmed _ => true
  | _ => false

end WriteSet

/-- What analysis says about a content. -/
structure Analysis where
  reads : Names
  writes : WriteSet
  warnings : List Analysis.Warning

/-- The reads, writes and warnings of a content. -/
def Content.analyze : Content → Analysis
  | .script source =>
    let (reads, warnings) := Analysis.scriptReads source
    ⟨reads, .provisional (Analysis.exportEstimate source), warnings⟩
  | .formula expression output =>
    let (reads, warnings) := Analysis.expressionReads expression
    ⟨reads, .confirmed (Names.ofList [output]), warnings⟩
  | .markdown template =>
    let (reads, warnings) := Analysis.templateReads template
    ⟨reads, .confirmed ∅, warnings⟩
  | .input _ output => ⟨∅, .confirmed (Names.ofList [output]), []⟩

/-- How the last evaluation of a cell ended. -/
inductive Status where
  | pending
  | ok
  | failed (fault : Fault)
  deriving DecidableEq, Repr

namespace Status

def fault? : Status → Option Fault
  | .failed f => some f
  | _ => none

/-- Whether the cell is marked as lying on a cycle. -/
def isCycle : Status → Bool
  | .failed f => f.isCycle
  | _ => false

end Status

/-- A cell of a notebook with what is derived from its content and what its last evaluation left. -/
structure Cell where
  id : CellId
  content : Content
  reads : Names
  writes : WriteSet
  warnings : List Analysis.Warning
  /-- The number of edits of the text since the cell was added. -/
  version : Nat
  status : Status
  /-- The text of a markdown cell. -/
  rendered : Option String
  /-- The lines the last run of a script printed. -/
  logs : List String

namespace Cell

/-- Derives reads, writes and warnings from the content. A script keeps the names it was known to write, so
that its readers stay connected until the next run settles them. -/
def reanalyze (c : Cell) : Cell :=
  let a := c.content.analyze
  let writes := match c.content, a.writes with
    | .script _, .provisional estimate => .provisional (estimate.union c.writes.names)
    | _, writes => writes
  { c with reads := a.reads, warnings := a.warnings, writes }

def ofDefinition (d : Definition) : Cell :=
  reanalyze
    { id := d.id, content := d.content, reads := ∅, writes := .unanalyzed, warnings := [], version := 0,
      status := .pending, rendered := none, logs := [] }

def definition (c : Cell) : Definition := ⟨c.id, c.content⟩

@[simp] theorem reanalyze_id (c : Cell) : c.reanalyze.id = c.id := rfl
@[simp] theorem reanalyze_content (c : Cell) : c.reanalyze.content = c.content := rfl
@[simp] theorem reanalyze_version (c : Cell) : c.reanalyze.version = c.version := rfl
@[simp] theorem reanalyze_status (c : Cell) : c.reanalyze.status = c.status := rfl
@[simp] theorem reanalyze_reads (c : Cell) : c.reanalyze.reads = c.content.analyze.reads := rfl
@[simp] theorem definition_ofDefinition (d : Definition) : (ofDefinition d).definition = d := rfl

end Cell

end ReactiveNotebook
