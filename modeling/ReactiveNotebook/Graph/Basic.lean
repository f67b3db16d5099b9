import ReactiveNotebook.Cell.Basic

/-!
# The dependency graph

There is an edge from a cell to every other cell that reads a name it writes. The graph is derived from the
cells alone and built anew after every change, so it never holds a stale edge. A cell that reads a name it
writes itself has no edge to itself.
-/
namespace ReactiveNotebook

/-- What the graph knows about a cell, apart from its edges. -/
structure Graph.Source where
  id : CellId
  reads : Names
  writes : Names
  deriving DecidableEq

/-- Whether one cell writes a name that another one reads. -/
def Graph.Source.feeds (a b : Graph.Source) : Bool :=
  a.id != b.id && a.writes.toList.any fun name => b.reads.contains name

/-- A cell with its edges; the neighbours are in ascending order. -/
structure Graph.Node extends Graph.Source where
  /-- The cells that read something this cell writes. -/
  dependents : Names
  /-- The cells that write something this cell reads. -/
  dependencies : Names

/-- The nodes, in notebook order, and the cycles that were found. -/
structure Graph where
  nodes : List Graph.Node
  /-- For each cell on a cycle a closed walk through it. -/
  cycles : List (CellId × List CellId)

namespace Graph

def empty : Graph := ⟨[], []⟩

instance : Inhabited Graph := ⟨empty⟩

def node? (g : Graph) (id : CellId) : Option Node :=
  g.nodes.find? (·.id == id)

def contains (g : Graph) (id : CellId) : Bool :=
  (g.node? id).isSome

def position? (g : Graph) (id : CellId) : Option Nat :=
  g.nodes.findIdx? (·.id == id)

/-- The cells that read something the cell writes, ascending. -/
def dependents (g : Graph) (id : CellId) : List CellId :=
  match g.node? id with
  | some n => n.dependents.toList
  | none => []

/-- The cells that write something the cell reads, ascending. -/
def dependencies (g : Graph) (id : CellId) : List CellId :=
  match g.node? id with
  | some n => n.dependencies.toList
  | none => []

def writersOf (g : Graph) (name : String) : List CellId :=
  (g.nodes.filter (·.writes.contains name)).map (·.id)

def readersOf (g : Graph) (name : String) : List CellId :=
  (g.nodes.filter (·.reads.contains name)).map (·.id)

/-- Every name that a cell reads or writes. -/
def names (g : Graph) : Names :=
  g.nodes.foldl (fun s n => (s.union n.reads).union n.writes) ∅

/-- The closed walk found for a cell on a cycle. -/
def cycleOf? (g : Graph) (id : CellId) : Option (List CellId) :=
  (g.cycles.find? (·.1 == id)).map (·.2)

def hasCycles (g : Graph) : Bool := !g.cycles.isEmpty

/-- The nodes with the edges that names induce. -/
def connect (sources : List Source) : List Node :=
  sources.map fun s =>
    { s with
      dependents := Names.ofList ((sources.filter fun t => s.feeds t).map (·.id))
      dependencies := Names.ofList ((sources.filter fun t => t.feeds s).map (·.id)) }

def Source.ofCell (c : Cell) : Source := ⟨c.id, c.reads, c.writes.names⟩

end Graph

end ReactiveNotebook
