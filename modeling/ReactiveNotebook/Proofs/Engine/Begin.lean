import ReactiveNotebook.Proofs.Engine.Extend
import ReactiveNotebook.Proofs.Engine.Step

/-!
# The start of a pass

A pass starts from the seeds and reaches all that is downstream of them. The cells on cycles among these are
marked, and the others wait.
-/
namespace ReactiveNotebook.Engine

variable {e : Engine} {c d : Cell} {x y : CellId}

lemma mem_ids_iff (ht : e.Tidy) : x ∈ e.graph.ids ↔ x ∈ e.cells.map (·.id) := by
  rw [ht.graph, Graph.ids_build]

lemma cycleOf?_isSome_iff (ht : e.Tidy) : (e.graph.cycleOf? x).isSome = true ↔ e.graph.OnCycle x := by
  rw [ht.graph]
  exact Graph.cycleOf?_isSome_iff ht.ids

/-- The cells on cycles that a new pass reaches. -/
def blocked (e : Engine) : List CellId :=
  (e.graph.nodes.map (·.id)).filter fun id => e.reached.contains id && (e.graph.cycleOf? id).isSome

lemma mem_blocked_iff (ht : e.Tidy) :
    x ∈ e.blocked ↔ x ∈ e.reached ∧ e.graph.OnCycle x := by
  have hcoherent : e.graph.Coherent := ht.graph ▸ Graph.coherent_build ht.ids
  simp only [blocked, List.mem_filter, Bool.and_eq_true, Names.contains_iff, cycleOf?_isSome_iff ht]
  exact ⟨fun h => h.2, fun h => ⟨Graph.closure_known hcoherent h.1, h⟩⟩

lemma blockCycles_eq (e : Engine) : e.blockCycles = e.blocked.foldl Stage.block e.openPass := rfl

lemma mem_completed_blockCycles (ht : e.Tidy) :
    x ∈ e.blockCycles.pass.completed ↔ x ∈ e.reached ∧ e.graph.OnCycle x := by
  have hcontrol : e.blockCycles.pass.completed =
      e.openPass.pass.completed.insertAll (e.blocked.filter e.openPass.engine.hasCell) :=
    congrArg (·.pass.completed) (control_blockCycles e)
  have hhas : ∀ x, e.openPass.engine.hasCell x = e.hasCell x := fun _ => rfl
  have hempty : ¬ x ∈ e.openPass.pass.completed := Names.not_mem_empty x
  rw [hcontrol, Names.mem_insertAll, List.mem_filter, mem_blocked_iff ht, hhas]
  constructor
  · rintro (⟨h, -⟩ | h)
    · exact h
    · exact absurd h hempty
  · intro h
    have hcoherent : e.graph.Coherent := ht.graph ▸ Graph.coherent_build ht.ids
    exact .inl ⟨h, hasCell_iff.mpr ((mem_ids_iff ht).mp (Graph.closure_known hcoherent h.1))⟩

/-- A new pass lets the cells off the cycles wait that its seeds reach. -/
lemma mem_remaining_beginPass (ht : e.Tidy) :
    x ∈ e.beginPass.pass.remaining ↔ x ∈ e.reached ∧ ¬ e.graph.OnCycle x := by
  have hcoherent : e.graph.Coherent := ht.graph ▸ Graph.coherent_build ht.ids
  have hmembers : ∀ y, y ∈ e.reached.filter (fun id => !e.blockCycles.pass.completed.contains id) ↔
      y ∈ e.reached ∧ ¬ e.graph.OnCycle y := by
    intro y
    simp only [Names.mem_filter, Bool.not_eq_true', Names.contains_eq_false_iff, mem_completed_blockCycles ht]
    tauto
  rw [beginPass_eq]
  change x ∈ e.graph.order _ ↔ _
  rw [Graph.mem_order_iff hcoherent, hmembers]
  · exact fun y hy => Graph.closure_known hcoherent ((hmembers y).mp hy).1
  · exact fun y hy => ((hmembers y).mp hy).2

lemma graph_beginPass (e : Engine) : e.beginPass.engine.graph = e.graph :=
  congrArg (·.engine.graph) (control_blockCycles e)

lemma sorted_beginPass (ht : e.Tidy) : e.beginPass.pass.remaining.Pairwise fun a b => ¬ e.graph.Edge b a :=
  Graph.pairwise_order (ht.graph ▸ Graph.coherent_build ht.ids)

lemma inFlight_beginPass (e : Engine) : e.beginPass.engine.inFlight = e.inFlight :=
  congrArg (·.engine.inFlight) (control_blockCycles e)

/-- No script is in flight when a pass begins. -/
lemma flying_beginPass (ht : e.Tidy) (hp : e.pass = none) : e.beginPass.flying = [] := by
  rw [Stage.flying, inFlight_beginPass, (ht.idle hp).1]
  rfl

/-- What waits at the start takes part and is not done. -/
lemma active_beginPass (hx : x ∈ e.beginPass.pass.remaining) :
    x ∈ e.beginPass.pass.members ∧ x ∉ e.beginPass.pass.completed := by
  have hmember := (Graph.mem_order hx).1
  have hcompleted : (!e.blockCycles.pass.completed.contains x) = true := (Names.mem_filter.mp hmember).2
  rw [Bool.not_eq_true'] at hcompleted
  exact ⟨hmember, Names.contains_eq_false_iff.mp hcompleted⟩

/-- What the seeds reach is closed under what reads from it. -/
lemma reached_of_edge (ht : e.Tidy) (hx : x ∈ e.reached) (hedge : e.graph.Edge x y) : y ∈ e.reached :=
  Graph.closure_closed (ht.graph ▸ Graph.coherent_build ht.ids) hx hedge

lemma mem_roots (ht : e.Tidy) (hx : x ∈ e.seeds) (hk : x ∈ e.cells.map (·.id)) :
    x ∈ e.beginPass.pass.seeds := by
  have hroots : e.beginPass.pass.seeds = e.seeds.filter e.graph.contains :=
    congrArg (·.pass.seeds) (control_blockCycles e)
  rw [hroots, Names.mem_filter, Graph.contains_iff_mem_ids]
  exact ⟨hx, (mem_ids_iff ht).mpr hk⟩

lemma reached_of_seed (ht : e.Tidy) (hx : x ∈ e.seeds) (hk : x ∈ e.cells.map (·.id)) : x ∈ e.reached := by
  have hknown := (mem_ids_iff ht).mpr hk
  exact Graph.subset_closure (ht.graph ▸ Graph.coherent_build ht.ids)
    (Names.mem_filter.mpr ⟨hx, Graph.contains_iff_mem_ids.mpr hknown⟩) hknown

/-- At the start the reached cells on cycles show the walks that the graph has recorded for them. -/
lemma mem_or_marked_beginPass (ht : e.Tidy) (hd : d ∈ e.beginPass.engine.cells) :
    d ∈ e.cells ∧ ¬ (d.id ∈ e.reached ∧ e.graph.OnCycle d.id) ∨
      (d.id ∈ e.reached ∧ e.graph.OnCycle d.id) ∧ d.status = e.graph.mark d.id := by
  rw [← mem_blocked_iff ht]
  exact Stage.mem_or_marked_foldl_block (s := e.openPass) e.blocked hd

/-- At the start the reached cells on cycles are marked, and the others are as they were. -/
lemma mem_cells_beginPass (ht : e.Tidy) (hd : d ∈ e.beginPass.engine.cells) :
    d ∈ e.cells ∧ ¬ (d.id ∈ e.reached ∧ e.graph.OnCycle d.id) ∨
      (d.id ∈ e.reached ∧ e.graph.OnCycle d.id) ∧ d.status.isCycle = true :=
  (mem_or_marked_beginPass ht hd).imp_right fun ⟨hin, hmark⟩ => ⟨hin, hmark ▸ rfl⟩

/-- The start of a pass replaces what the marked cells write. -/
lemma replaces_beginPass (ht : e.Tidy) : Stage.Replaces
    (fun v => ∃ c ∈ e.cells, c.id ∈ e.reached ∧ e.graph.OnCycle c.id ∧ v ∈ c.writes.names) e.openPass e.beginPass := by
  have hblock : Stage.Replaces
      (fun v => ∃ c ∈ e.cells, c.id ∈ e.reached ∧ e.graph.OnCycle c.id ∧ v ∈ c.writes.names)
      e.openPass e.blockCycles :=
    Stage.replaces_foldl_block (s := e.openPass) e.blocked fun c hc hid v hv => by
      obtain ⟨hreached, hcycle⟩ := (mem_blocked_iff ht).mp hid
      exact ⟨c, hc, hreached, hcycle, hv⟩
  exact hblock.trans (.of_eq (fun _ => rfl) (fun _ => rfl) rfl)

end ReactiveNotebook.Engine
