import ReactiveNotebook.Proofs.Engine.Begin
import ReactiveNotebook.Proofs.Graph.Depth
import ReactiveNotebook.Proofs.Scheduling.Oscillation

/-!
# The plan of a pass

A pass plans its cells before it evaluates any: it closes the seeds under the edges, leaves out the cells on
cycles, and orders the others by their depth and their place in the notebook.
-/
namespace ReactiveNotebook

namespace Graph

variable {g : Graph} {seeds : List CellId} {a x : CellId}

lemma Reaches.source_known (h : g.Reaches a x) (hx : x ∈ g.ids) : a ∈ g.ids := by
  rcases Relation.ReflTransGen.cases_head h with rfl | ⟨b, hab, -⟩
  · exact hx
  · exact hab.known_source

/-- The closure of some cells holds the known cells that can be reached from them. -/
lemma mem_closure_iff_known (hg : g.Coherent) :
    x ∈ g.closure seeds ↔ x ∈ g.ids ∧ ∃ a ∈ seeds, g.Reaches a x := by
  rw [mem_closure_iff hg]
  constructor
  · rintro ⟨a, ha, hk, hreach⟩
    exact ⟨hreach.known hg hk, a, ha, hreach⟩
  · rintro ⟨hk, a, ha, hreach⟩
    exact ⟨a, ha, hreach.source_known hk, hreach⟩

end Graph

namespace Engine

open ReactiveNotebook.Graph (build coherent_build)

variable {l : Language} {e : Engine} {x : CellId} {cells : List Cell}

/-- The plan of a new pass lists the cells off the cycles that the seeds reach. -/
lemma mem_order_beginPass (he : Reachable l e) : x ∈ e.beginPass.pass.order ↔
    x ∈ e.graph.ids ∧ (∃ a ∈ e.seeds, e.graph.Reaches a x) ∧ ¬ e.graph.OnCycle x := by
  have hg : e.graph.Coherent := he.tidy.graph ▸ coherent_build he.tidy.ids
  have hplan : x ∈ e.beginPass.pass.order ↔ x ∈ e.reached ∧ ¬ e.graph.OnCycle x :=
    mem_remaining_beginPass he.tidy
  rw [hplan, reached, Graph.mem_closure_iff_known hg, and_assoc]
  simp only [Names.mem_toList, Names.mem_filter, Graph.contains_iff_mem_ids]
  refine and_congr_right fun hk => and_congr_left fun _ => ?_
  constructor
  · rintro ⟨a, ⟨ha, -⟩, hreach⟩
    exact ⟨a, ha, hreach⟩
  · rintro ⟨a, ha, hreach⟩
    exact ⟨a, ⟨ha, hreach.source_known hk⟩, hreach⟩

/-- How the cells of a set are ordered and what some seeds reach, for the graph of cells with distinct ids; and
what a new pass lists. -/
theorem pass_plan (hc : (cells.map (·.id)).Nodup) (members : Names) (seeds : List CellId) :
    ((build cells).order members).Nodup ∧
    (∀ x, x ∈ (build cells).order members ↔
      x ∈ members ∧ x ∈ (build cells).ids ∧ ¬ (build cells).Stuck members x) ∧
    (∀ x ∈ (build cells).order members, ∃ n, (build cells).IsDepth members x n) ∧
    ((build cells).order members).Pairwise ((build cells).Before members) ∧
    (∀ x ∈ (build cells).order members, ∀ d, (build cells).Inner members d x →
      d ∈ (build cells).order members ∧
        ((build cells).order members).idxOf d < ((build cells).order members).idxOf x) ∧
    (∀ x, x ∈ (build cells).closure seeds ↔
      x ∈ (build cells).ids ∧ ∃ a ∈ seeds, (build cells).Reaches a x) ∧
    ∀ l e, Reachable l e → e.beginPass.pass.order.Nodup ∧ ∀ x, x ∈ e.beginPass.pass.order ↔
      x ∈ e.graph.ids ∧ (∃ a ∈ e.seeds, e.graph.Reaches a x) ∧ ¬ e.graph.OnCycle x := by
  have hg := coherent_build hc
  refine ⟨Graph.nodup_order hg, fun _ => Graph.mem_order_iff_not_stuck hg,
    fun _ => Graph.exists_isDepth_of_mem_order hg, Graph.pairwise_before_order hg,
    fun x hx d hd => Graph.idxOf_lt_of_inner hg hx hd, fun _ => Graph.mem_closure_iff_known hg,
    fun l e he => ⟨?_, fun _ => mem_order_beginPass he⟩⟩
  exact Graph.nodup_order (he.tidy.graph ▸ coherent_build he.tidy.ids)

/-- A formula with the input it reads, and two formulas that read each other with one that reads from them. -/
def besideCycle : Engine :=
  (((((new .standard true).grow ⟨"mid", .formula "x + 1" "y"⟩).grow ⟨"src", .input "1" "x"⟩).grow
    ⟨"p", .formula "q" "p"⟩).grow ⟨"q", .formula "p" "q"⟩).grow ⟨"r", .formula "p" "r"⟩

lemma reachable_besideCycle : Reachable l besideCycle :=
  ⟨.standard, true, ((((steps_grow _ _).trans (steps_grow _ _)).trans (steps_grow _ _)).trans
    (steps_grow _ _)).trans (steps_grow _ _)⟩

/-- In the order of all cells the reader of the cycle has no place. A pass that starts from all of them lists it
among the cells of depth zero, since the cycle takes no part. -/
theorem pass_plan_besideCycle :
    (build besideCycle.cells).order (Names.ofList ["mid", "src", "p", "q", "r"]) = ["src", "mid"] ∧
    (build besideCycle.cells).Stuck (Names.ofList ["mid", "src", "p", "q", "r"]) "r" ∧
    (build besideCycle.cells).Before (Names.ofList ["mid", "src", "p", "q", "r"]) "src" "mid" ∧
    besideCycle.beginPass.pass.order = ["src", "r", "mid"] ∧ ¬ besideCycle.graph.OnCycle "r" := by
  have hids : (besideCycle.cells.map (·.id)).Nodup := by decide +kernel
  have horder : (build besideCycle.cells).order (Names.ofList ["mid", "src", "p", "q", "r"]) = ["src", "mid"] := by
    decide +kernel
  have hplan : besideCycle.beginPass.pass.order = ["src", "r", "mid"] := by decide +kernel
  obtain ⟨-, hmem, -, hbefore, -, -, hpass⟩ :=
    pass_plan hids (Names.ofList ["mid", "src", "p", "q", "r"]) []
  refine ⟨horder, ?_, ?_, hplan, ?_⟩
  · by_contra hfree
    have hlisted := (hmem "r").mpr ⟨by decide +kernel, by decide +kernel, hfree⟩
    rw [horder] at hlisted
    simp at hlisted
  · rw [horder] at hbefore
    exact List.rel_of_pairwise_cons hbefore (List.mem_singleton_self _)
  · have hlisted : "r" ∈ besideCycle.beginPass.pass.order := by
      rw [hplan]
      simp
    exact (((hpass (.ofConfig .standard) besideCycle reachable_besideCycle).2 "r").mp hlisted).2.2

end Engine

end ReactiveNotebook
