import ReactiveNotebook.Graph.Basic

/-!
# Finding cycles

A depth-first search records the closed part of its path at every edge that leads back into the path. If
that finds a cycle at all, every cell that no recorded path contains is searched for a shortest way back to
itself, so that each cell on a cycle has a closed walk in the end.
-/
namespace ReactiveNotebook.Graph

/-- The state of the depth-first search. -/
structure Search where
  /-- The cells from the current one back to the root. -/
  path : List CellId
  finished : List CellId
  /-- The closed walks found, latest first. -/
  found : List (List CellId)

namespace Search

/-- The closed walk that an edge back to `id` closes: from `id` along the path and back. -/
def closedWalk (path : List CellId) (id : CellId) : List CellId :=
  id :: ((path.takeWhile (· != id)).reverse ++ [id])

/-- Visits a cell. The fuel bounds the length of the path. -/
def visit (next : CellId → List CellId) : Nat → CellId → Search → Search
  | 0, _, s => s
  | fuel + 1, id, s =>
    let inside := (next id).foldl (fun s other =>
      if s.path.contains other then { s with found := closedWalk s.path other :: s.found }
      else if s.finished.contains other then s
      else visit next fuel other s) { s with path := id :: s.path }
    { inside with path := inside.path.drop 1, finished := id :: inside.finished }

/-- Visits every cell that is not finished, in the given order. -/
def run (next : CellId → List CellId) (ids : List CellId) : Search :=
  ids.foldl (fun s id => if s.finished.contains id then s else visit next (ids.length + 1) id s) ⟨[], [], []⟩

end Search

def record (cycles : List (CellId × List CellId)) (walk : List CellId) : List (CellId × List CellId) :=
  walk.dropLast.foldl (fun cs id => if cs.any (·.1 == id) then cs else cs ++ [(id, walk)]) cycles

/-- Breadth-first search for `start`. The queue holds reversed paths from `start`, and `seen` the cells some
path ends at. The fuel bounds the number of paths. -/
def searchBack (next : CellId → List CellId) (start : CellId) :
    Nat → List (List CellId) → List CellId → Option (List CellId)
  | 0, _, _ => none
  | fuel + 1, queue, seen =>
    match queue with
    | [] => none
    | path :: queue =>
      match path with
      | [] => searchBack next start fuel queue seen
      | id :: _ =>
        if id == start && path.length != 1 then some path.reverse
        else
          let fresh := (next id).filter fun other => !seen.contains other
          searchBack next start fuel (queue ++ fresh.map (· :: path)) (seen ++ fresh)

/-- A shortest closed walk from a cell back to itself. -/
def shortestReturn? (next : CellId → List CellId) (count : Nat) (start : CellId) : Option (List CellId) :=
  searchBack next start (count + 2) [[start]] []

/-- The closed walks of the cells that lie on cycles. -/
def findCycles (next : CellId → List CellId) (ids : List CellId) : List (CellId × List CellId) :=
  let direct := (Search.run next ids).found.reverse.foldl record []
  if direct.isEmpty then []
  else
    ids.foldl (fun cs id =>
      if cs.any (·.1 == id) then cs
      else
        match shortestReturn? next ids.length id with
        | some walk => cs ++ [(id, walk)]
        | none => cs) direct

def build (cells : List Cell) : Graph :=
  let g : Graph := ⟨connect (cells.map .ofCell), []⟩
  { g with cycles := findCycles g.dependents (g.nodes.map (·.id)) }

end ReactiveNotebook.Graph
