import Mathlib.Logic.Relation
import Mathlib.Data.List.Nodup
import ReactiveNotebook.Graph.Order
import ReactiveNotebook.Proofs.Names

/-!
# Edges of the dependency graph

The edges of a graph are read off the neighbours that its nodes store. For the graph of cells with distinct
ids they are what the names say: an edge from one cell to another where the first writes a name that the
second reads, and the two lists of neighbours are converse to each other.
-/
namespace ReactiveNotebook

/-- A closed walk stays among the points that lie on it. -/
lemma transGen_inside {α : Type*} {r : α → α → Prop} {x : α} (h : Relation.TransGen r x x) :
    Relation.TransGen (fun a b => r a b ∧ (Relation.TransGen r x a ∧ Relation.TransGen r a x) ∧
      Relation.TransGen r x b ∧ Relation.TransGen r b x) x x := by
  have hwalk : ∀ y, Relation.TransGen r x y → Relation.TransGen r y x → Relation.TransGen (fun a b =>
      r a b ∧ (Relation.TransGen r x a ∧ Relation.TransGen r a x) ∧
        Relation.TransGen r x b ∧ Relation.TransGen r b x) x y := by
    intro y hy
    induction hy with
    | single hxy => exact fun hback => .single ⟨hxy, ⟨h, h⟩, .single hxy, hback⟩
    | tail hxy hyz ih =>
      intro hback
      have hyx := hback.head hyz
      exact (ih hyx).tail ⟨hyz, ⟨hxy, hyx⟩, hxy.tail hyz, hback⟩
  exact hwalk x h h

namespace Graph

variable {g : Graph} {cells : List Cell} {a b : CellId}

/-- The second cell reads something that the first one writes. -/
def Edge (g : Graph) (a b : CellId) : Prop := b ∈ g.dependents a

lemma exists_node_of_edge (h : g.Edge a b) : ∃ n ∈ g.nodes, n.id = a ∧ b ∈ n.dependents.toList := by
  unfold Edge dependents at h
  split at h
  · next n hn => exact ⟨n, List.mem_of_find?_eq_some hn, by simpa using List.find?_some hn, h⟩
  · cases h

/-- The second cell is the first one or downstream of it. -/
def Reaches (g : Graph) : CellId → CellId → Prop := Relation.ReflTransGen g.Edge

/-- The cell is downstream of itself. -/
def OnCycle (g : Graph) (a : CellId) : Prop := Relation.TransGen g.Edge a a

/-- The cell is downstream of itself by way of cells with the property only. -/
def OnCycleWithin (g : Graph) (p : CellId → Prop) (a : CellId) : Prop :=
  Relation.TransGen (fun a b => g.Edge a b ∧ p a ∧ p b) a a

def ids (g : Graph) : List CellId := g.nodes.map (·.id)

/-- No two nodes have one id, and the neighbours that a node stores are nodes of the graph which store it as
a neighbour in turn. -/
structure Coherent (g : Graph) : Prop where
  nodup : g.ids.Nodup
  edge_iff : ∀ a b, g.Edge a b ↔ a ∈ g.dependencies b
  known : ∀ a b, g.Edge a b → b ∈ g.ids

lemma OnCycleWithin.onCycle {p : CellId → Prop} (h : g.OnCycleWithin p a) : g.OnCycle a :=
  Relation.TransGen.mono (fun _ _ hab => hab.1) _ _ h

lemma OnCycleWithin.of_edges {g' : Graph} {p q : CellId → Prop} (h : g'.OnCycleWithin q a)
    (hedge : ∀ a b, g'.Edge a b → q a → q b → g.Edge a b ∧ p a ∧ p b) : g.OnCycleWithin p a :=
  Relation.TransGen.mono (fun a b hab => hedge a b hab.1 hab.2.1 hab.2.2) _ _ h

lemma contains_iff_mem_ids : g.contains a = true ↔ a ∈ g.ids := by
  simp [contains, node?, ids]

lemma node?_eq_some {n : Node} (hg : g.ids.Nodup) (hn : n ∈ g.nodes) : g.node? n.id = some n := by
  have hp : g.nodes.Pairwise fun x y => x.id ≠ y.id := List.pairwise_map.mp hg
  rw [node?, List.find?_eq_some_iff_append]
  obtain ⟨before, after, h⟩ := List.append_of_mem hn
  refine ⟨by simp, before, after, h, fun x hx => ?_⟩
  rw [h, List.pairwise_append] at hp
  simpa using hp.2.2 x hx n List.mem_cons_self

lemma Edge.known_source (h : g.Edge a b) : a ∈ g.ids := by
  unfold Edge dependents at h
  split at h
  · next n hn =>
    have hid : n.id = a := by simpa using List.find?_some hn
    exact hid ▸ List.mem_map_of_mem (List.mem_of_find?_eq_some hn)
  · simp at h

/-- Another cell reads a name that the first one writes. -/
def Feeds (c d : Cell) : Prop := c.id ≠ d.id ∧ ∃ name, name ∈ c.writes.names ∧ name ∈ d.reads

lemma Source.feeds_ofCell {c d : Cell} : (Source.ofCell c).feeds (.ofCell d) = true ↔ Feeds c d := by
  simp [Source.feeds, Source.ofCell, Feeds]

def nodeOf (cells : List Cell) (c : Cell) : Node :=
  let s := Source.ofCell c
  { s with
    dependents := Names.ofList (((cells.map Source.ofCell).filter fun t => s.feeds t).map (·.id))
    dependencies := Names.ofList (((cells.map Source.ofCell).filter fun t => t.feeds s).map (·.id)) }

lemma nodes_build (cells : List Cell) : (build cells).nodes = cells.map (nodeOf cells) := by
  simp [build, connect, nodeOf, Function.comp_def]

@[simp] lemma ids_build (cells : List Cell) : (build cells).ids = cells.map (·.id) := by
  simp [ids, nodes_build, nodeOf, Source.ofCell, Function.comp_def]

lemma node?_build (hc : (cells.map (·.id)).Nodup) {c : Cell} (h : c ∈ cells) :
    (build cells).node? c.id = some (nodeOf cells c) := by
  have hn : nodeOf cells c ∈ (build cells).nodes := by
    rw [nodes_build]; exact List.mem_map_of_mem h
  have hg : (build cells).ids.Nodup := by rwa [ids_build]
  exact node?_eq_some hg hn

lemma node?_build_eq_none (h : a ∉ cells.map (·.id)) : (build cells).node? a = none := by
  rw [node?, List.find?_eq_none]
  intro n hn
  rw [nodes_build] at hn
  obtain ⟨c, hc, rfl⟩ := List.mem_map.mp hn
  have hne : c.id ≠ a := fun he => h (he ▸ List.mem_map_of_mem hc)
  simpa [nodeOf, Source.ofCell] using hne

/-- Between cells with distinct ids there is an edge exactly where one feeds the other. -/
theorem edge_build_iff (hc : (cells.map (·.id)).Nodup) :
    (build cells).Edge a b ↔ ∃ c ∈ cells, ∃ d ∈ cells, c.id = a ∧ d.id = b ∧ Feeds c d := by
  by_cases ha : a ∈ cells.map (·.id)
  · obtain ⟨c, hca, rfl⟩ := List.mem_map.mp ha
    unfold Edge dependents
    rw [node?_build hc hca]
    simp only [nodeOf, Names.mem_toList, Names.mem_ofList, List.mem_map, List.mem_filter]
    constructor
    · rintro ⟨s, ⟨⟨d, hd, rfl⟩, hf⟩, rfl⟩
      exact ⟨c, hca, d, hd, rfl, rfl, Source.feeds_ofCell.mp hf⟩
    · rintro ⟨c', hc', d, hd, he, rfl, hf⟩
      have hcc : c' = c := List.inj_on_of_nodup_map hc hc' hca he
      exact ⟨.ofCell d, ⟨⟨d, hd, rfl⟩, Source.feeds_ofCell.mpr (hcc ▸ hf)⟩, rfl⟩
  · refine iff_of_false (fun h => ?_) ?_
    · exact ha (by simpa using h.known_source)
    · rintro ⟨c, hca, -, -, rfl, -⟩
      exact ha (List.mem_map_of_mem hca)

lemma mem_dependencies_build_iff (hc : (cells.map (·.id)).Nodup) :
    a ∈ (build cells).dependencies b ↔ ∃ c ∈ cells, ∃ d ∈ cells, c.id = a ∧ d.id = b ∧ Feeds c d := by
  by_cases hb : b ∈ cells.map (·.id)
  · obtain ⟨d, hdb, rfl⟩ := List.mem_map.mp hb
    unfold dependencies
    rw [node?_build hc hdb]
    simp only [nodeOf, Names.mem_toList, Names.mem_ofList, List.mem_map, List.mem_filter]
    constructor
    · rintro ⟨s, ⟨⟨c, hca, rfl⟩, hf⟩, rfl⟩
      exact ⟨c, hca, d, hdb, rfl, rfl, Source.feeds_ofCell.mp hf⟩
    · rintro ⟨c, hca, d', hd', rfl, he, hf⟩
      have hdd : d' = d := List.inj_on_of_nodup_map hc hd' hdb he
      exact ⟨.ofCell c, ⟨⟨c, hca, rfl⟩, Source.feeds_ofCell.mpr (hdd ▸ hf)⟩, rfl⟩
  · refine iff_of_false (fun h => ?_) ?_
    · unfold dependencies at h
      rw [node?_build_eq_none hb] at h
      simp at h
    · rintro ⟨-, -, d, hd, -, rfl, -⟩
      exact hb (List.mem_map_of_mem hd)

theorem coherent_build (hc : (cells.map (·.id)).Nodup) : (build cells).Coherent where
  nodup := by rwa [ids_build]
  edge_iff a b := by rw [edge_build_iff hc, mem_dependencies_build_iff hc]
  known a b h := by
    obtain ⟨-, -, d, hd, -, rfl, -⟩ := (edge_build_iff hc).mp h
    rw [ids_build]
    exact List.mem_map_of_mem hd

lemma mem_readersOf_build {name : String} :
    a ∈ (build cells).readersOf name ↔ ∃ c ∈ cells, c.id = a ∧ name ∈ c.reads := by
  simp only [readersOf, nodes_build, List.mem_map, List.mem_filter]
  constructor
  · rintro ⟨n, ⟨⟨c, hc, rfl⟩, hr⟩, rfl⟩
    exact ⟨c, hc, rfl, Names.contains_iff.mp hr⟩
  · rintro ⟨c, hc, rfl, hr⟩
    exact ⟨nodeOf cells c, ⟨⟨c, hc, rfl⟩, Names.contains_iff.mpr hr⟩, rfl⟩

/-- The graph depends on no more of a cell than its id and the names it reads and writes. -/
lemma build_congr {cells' : List Cell} (h : cells.map Source.ofCell = cells'.map Source.ofCell) :
    build cells = build cells' := by
  simp only [build, h]

end Graph

end ReactiveNotebook
