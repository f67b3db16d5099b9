import ReactiveNotebook.Graph.Cycle

/-!
# What a change reaches, and in which order

The closure of some cells is all that can be reached from them. A set of cells is ordered wave by wave: each
wave holds the cells whose dependencies inside the set stand in earlier waves, in notebook order. Cells that
wait for a cycle inside the set are left out.
-/
namespace ReactiveNotebook.Graph

/-- Adds what the queued cells reach. Every queued cell is in `reached` already; the fuel bounds the number
of cells. -/
def spread (next : CellId → List CellId) : Nat → List CellId → Names → Names
  | 0, _, reached => reached
  | fuel + 1, queue, reached =>
    match queue with
    | [] => reached
    | id :: queue =>
      let fresh := (next id).filter fun other => !reached.contains other
      spread next fuel (queue ++ fresh) (reached.insertAll fresh)

/-- The known cells among `seeds` and all that is downstream of them. -/
def closure (g : Graph) (seeds : List CellId) : Names :=
  let known := Names.ofList (seeds.filter g.contains)
  spread g.dependents (g.nodes.length + 1) known.toList known

/-- Releases wave after wave. The fuel bounds the number of waves. -/
def waves (members : Names) : Nat → List Node → List CellId → List CellId
  | 0, _, _ => []
  | fuel + 1, waiting, released =>
    let isReady (n : Node) : Bool :=
      n.dependencies.toList.all fun d => !members.contains d || released.contains d
    match waiting.filter isReady with
    | [] => []
    | ready =>
      let ids := ready.map (·.id)
      ids ++ waves members fuel (waiting.filter fun n => !isReady n) (released ++ ids)

/-- The cells of a set, each after its dependencies inside the set. -/
def order (g : Graph) (members : Names) : List CellId :=
  waves members (g.nodes.length + 1) (g.nodes.filter fun n => members.contains n.id) []

end ReactiveNotebook.Graph
