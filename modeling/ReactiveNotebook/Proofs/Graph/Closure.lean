import Mathlib.Data.Finset.Card
import Mathlib.Tactic
import ReactiveNotebook.Proofs.Graph.Edge

/-!
# What a change reaches

The closure of a set of seeds is exactly what can be reached from the known ones. The search adds every cell
once: the cells that are not reached yet and those that wait in the queue are together one fewer after each
step, so the given fuel never runs out.
-/
namespace ReactiveNotebook

namespace Graph

/-- The relation that a function listing neighbours stands for. -/
def Next (next : CellId → List CellId) (a b : CellId) : Prop := b ∈ next a

section Spread

variable {next : CellId → List CellId}

/-- New cells leave as many fewer cells unreached as they are. -/
lemma card_sdiff_insertAll (known : Finset CellId) {reached : Names} {fresh : List CellId} (hn : fresh.Nodup)
    (hk : ∀ x ∈ fresh, x ∈ known) (hr : ∀ x ∈ fresh, x ∉ reached) :
    (known \ (reached.insertAll fresh).toFinset).card + fresh.length =
      (known \ reached.toFinset).card := by
  have hset : known \ (reached.insertAll fresh).toFinset =
      (known \ reached.toFinset) \ fresh.toFinset := by
    ext x
    simp only [Finset.mem_sdiff, Names.mem_toFinset, Names.mem_insertAll, List.mem_toFinset]
    tauto
  have hsub : fresh.toFinset ⊆ known \ reached.toFinset := by
    intro x hx
    have hx' : x ∈ fresh := List.mem_toFinset.mp hx
    exact Finset.mem_sdiff.mpr ⟨hk x hx', fun h => hr x hx' (Names.mem_toFinset.mp h)⟩
  have hcard : fresh.toFinset.card = fresh.length := List.toFinset_card_of_nodup hn
  rw [hset, ← hcard]
  exact Finset.card_sdiff_add_card_eq_card hsub

/-- The search keeps what it reached, ends closed under neighbours, and adds only what is downstream. -/
lemma spread_spec {known : Finset CellId} (hnext : ∀ x, (next x).Nodup) (hknown : ∀ x, ∀ y ∈ next x, y ∈ known)
    (fuel : ℕ) (queue : List CellId) (reached : Names)
    (hfuel : (known \ reached.toFinset).card + queue.length < fuel)
    (hclosed : ∀ x ∈ reached, x ∈ queue ∨ ∀ y ∈ next x, y ∈ reached)
    (hqueue : ∀ x ∈ queue, x ∈ reached) :
    (∀ x ∈ reached, x ∈ spread next fuel queue reached) ∧
      (∀ x ∈ spread next fuel queue reached, ∀ y ∈ next x, y ∈ spread next fuel queue reached) ∧
      ∀ y ∈ spread next fuel queue reached, ∃ x ∈ reached, Relation.ReflTransGen (Next next) x y := by
  induction fuel generalizing queue reached with
  | zero => omega
  | succ fuel ih =>
    cases queue with
    | nil =>
      refine ⟨fun x hx => hx, fun x hx y hy => ?_, fun y hy => ⟨y, hy, .refl⟩⟩
      exact (hclosed x hx).resolve_left List.not_mem_nil y hy
    | cons a queue =>
      simp only [spread]
      set fresh := (next a).filter fun other => !reached.contains other with hfresh
      have hmem : ∀ x, x ∈ fresh ↔ x ∈ next a ∧ x ∉ reached := by
        simp [hfresh, Names.contains_eq_false_iff]
      have hcard : (known \ (reached.insertAll fresh).toFinset).card + fresh.length =
          (known \ reached.toFinset).card := card_sdiff_insertAll known
        ((hnext a).filter _) (fun x hx => hknown a x ((hmem x).mp hx).1)
        (fun x hx => ((hmem x).mp hx).2)
      -- a cell is taken from the queue once all its neighbours are reached
      have hclosed' : ∀ x ∈ reached.insertAll fresh,
          x ∈ queue ++ fresh ∨ ∀ y ∈ next x, y ∈ reached.insertAll fresh := by
        intro x hx
        rcases Names.mem_insertAll.mp hx with hx | hx
        · exact .inl (List.mem_append_right _ hx)
        · rcases hclosed x hx with hq | hn
          · rcases List.mem_cons.mp hq with rfl | hq
            · refine .inr fun y hy => Names.mem_insertAll.mpr ?_
              by_cases hyr : y ∈ reached
              · exact .inr hyr
              · exact .inl ((hmem y).mpr ⟨hy, hyr⟩)
            · exact .inl (List.mem_append_left _ hq)
          · exact .inr fun y hy => Names.mem_insertAll.mpr (.inr (hn y hy))
      have hqueue' : ∀ x ∈ queue ++ fresh, x ∈ reached.insertAll fresh := by
        intro x hx
        rcases List.mem_append.mp hx with hx | hx
        · exact Names.mem_insertAll.mpr (.inr (hqueue x (List.mem_cons_of_mem _ hx)))
        · exact Names.mem_insertAll.mpr (.inl hx)
      have hfuel' : (known \ (reached.insertAll fresh).toFinset).card + (queue ++ fresh).length < fuel := by
        simp only [List.length_append, List.length_cons] at *
        omega
      obtain ⟨hsub, hstep, hsound⟩ := ih _ _ hfuel' hclosed' hqueue'
      refine ⟨fun x hx => hsub x (Names.mem_insertAll.mpr (.inr hx)), hstep, fun y hy => ?_⟩
      obtain ⟨x, hx, hxy⟩ := hsound y hy
      rcases Names.mem_insertAll.mp hx with hx | hx
      · have hax : Relation.ReflTransGen (Next next) a x := .single ((hmem x).mp hx).1
        exact ⟨a, hqueue a List.mem_cons_self, hax.trans hxy⟩
      · exact ⟨x, hx, hxy⟩

end Spread

variable {g : Graph} {seeds : List CellId} {a b : CellId}

lemma nodup_dependents (g : Graph) (a : CellId) : (g.dependents a).Nodup := by
  unfold dependents
  split
  · exact Names.nodup _
  · exact List.nodup_nil

/-- The closure of some cells is exactly what is reached from those of them that are in the graph. -/
theorem mem_closure_iff (hg : g.Coherent) :
    b ∈ g.closure seeds ↔ ∃ a ∈ seeds, a ∈ g.ids ∧ g.Reaches a b := by
  have hstart : ∀ x, x ∈ Names.ofList (seeds.filter g.contains) ↔ x ∈ seeds ∧ x ∈ g.ids := by
    simp [contains_iff_mem_ids]
  have hids : g.ids.toFinset.card = g.nodes.length := by
    rw [List.toFinset_card_of_nodup hg.nodup, ids, List.length_map]
  have hsub : (Names.ofList (seeds.filter g.contains)).toFinset ⊆ g.ids.toFinset := fun x hx =>
    List.mem_toFinset.mpr ((hstart x).mp (Names.mem_toFinset.mp hx)).2
  have hlen : (Names.ofList (seeds.filter g.contains)).toFinset.card =
      (Names.ofList (seeds.filter g.contains)).toList.length :=
    List.toFinset_card_of_nodup (Names.nodup _)
  have hcard := Finset.card_sdiff_add_card_eq_card hsub
  have hknown : ∀ x, ∀ y ∈ g.dependents x, y ∈ g.ids.toFinset := fun x y hy =>
    List.mem_toFinset.mpr (hg.known x y hy)
  obtain ⟨hkeep, hclosed, hsound⟩ := spread_spec g.nodup_dependents hknown (g.nodes.length + 1)
    (Names.ofList (seeds.filter g.contains)).toList (Names.ofList (seeds.filter g.contains))
    (by omega) (fun x hx => .inl hx) (fun x hx => hx)
  constructor
  · intro hb
    obtain ⟨x, hx, hxb⟩ := hsound b hb
    exact ⟨x, ((hstart x).mp hx).1, ((hstart x).mp hx).2, hxb⟩
  · rintro ⟨x, hx, hxg, hxb⟩
    induction hxb with
    | refl => exact hkeep x ((hstart x).mpr ⟨hx, hxg⟩)
    | tail _ hyz ih => exact hclosed _ ih _ hyz

lemma closure_closed (hg : g.Coherent) (ha : a ∈ g.closure seeds) (h : g.Edge a b) :
    b ∈ g.closure seeds := by
  obtain ⟨x, hx, hxg, hxa⟩ := (mem_closure_iff hg).mp ha
  exact (mem_closure_iff hg).mpr ⟨x, hx, hxg, hxa.tail h⟩

lemma subset_closure (hg : g.Coherent) (ha : a ∈ seeds) (hk : a ∈ g.ids) : a ∈ g.closure seeds :=
  (mem_closure_iff hg).mpr ⟨a, ha, hk, .refl⟩

lemma Reaches.known (hg : g.Coherent) (h : g.Reaches a b) (ha : a ∈ g.ids) : b ∈ g.ids := by
  induction h with
  | refl => exact ha
  | tail _ hyz _ => exact hg.known _ _ hyz

lemma closure_known (hg : g.Coherent) (h : b ∈ g.closure seeds) : b ∈ g.ids := by
  obtain ⟨x, -, hxg, hxb⟩ := (mem_closure_iff hg).mp h
  exact Reaches.known hg hxb hxg

end Graph

end ReactiveNotebook
