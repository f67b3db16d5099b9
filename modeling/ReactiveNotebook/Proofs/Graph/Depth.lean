import Mathlib.Order.Bounds.Basic
import ReactiveNotebook.Proofs.Graph.Order

/-!
# The depth of a cell

The depth of a cell in a set is the length of the longest chain of dependencies inside the set that ends at it.
Every wave of the order releases the cells of one depth, in notebook order, and a cell has no depth exactly if
the chains that end at it come from a cycle.
-/
namespace ReactiveNotebook.Graph

open Relation (ReflTransGen TransGen)

variable {g : Graph} {members : Names} {fuel n : ℕ} {waiting : List Node} {released : List CellId}
variable {x y : CellId}

/-- Each member of the chain is a dependency of the next, and the last is the cell. -/
structure ChainTo (g : Graph) (members : Names) (x : CellId) (chain : List CellId) : Prop where
  steps : chain.IsChain g.Edge
  members : ∀ y ∈ chain, y ∈ members
  ends : chain.getLast? = some x

/-- Some chain of so many edges ends at the cell. -/
def Deep (g : Graph) (members : Names) (n : ℕ) (x : CellId) : Prop :=
  ∃ chain, g.ChainTo members x chain ∧ chain.length = n + 1

/-- The longest chains that end at the cell have so many edges. -/
def IsDepth (g : Graph) (members : Names) (x : CellId) (n : ℕ) : Prop := IsGreatest {k | g.Deep members k x} n

/-- The first cell has the smaller depth, or the same depth and the earlier place in the notebook. -/
def Before (g : Graph) (members : Names) (a b : CellId) : Prop :=
  ∃ i j p q, g.IsDepth members a i ∧ g.IsDepth members b j ∧ g.position? a = some p ∧ g.position? b = some q ∧
    (i < j ∨ i = j ∧ p < q)

lemma Deep.member (h : g.Deep members n x) : x ∈ members := by
  obtain ⟨chain, ⟨-, hmem, hends⟩, -⟩ := h
  exact hmem x (List.mem_of_getLast? hends)

lemma deep_zero (hx : x ∈ members) : g.Deep members 0 x :=
  ⟨[x], ⟨List.isChain_singleton x, fun _ hy => List.mem_singleton.mp hy ▸ hx, rfl⟩, rfl⟩

/-- A longer chain ends at a cell if a chain ends at one of its dependencies. -/
lemma deep_succ : g.Deep members (n + 1) x ↔ x ∈ members ∧ ∃ d, g.Edge d x ∧ g.Deep members n d := by
  constructor
  · intro h
    refine ⟨h.member, ?_⟩
    obtain ⟨chain, ⟨hsteps, hmem, hends⟩, hlen⟩ := h
    obtain ⟨before, z, hchain⟩ := (List.eq_nil_or_concat chain).resolve_left fun hnil => by simp [hnil] at hlen
    rw [List.concat_eq_append] at hchain
    subst hchain
    rw [List.getLast?_concat, Option.some.injEq] at hends
    subst hends
    rw [List.length_append, List.length_singleton, Nat.add_right_cancel_iff] at hlen
    obtain ⟨hbefore, -, hlast⟩ := List.isChain_append.mp hsteps
    have hne : before ≠ [] := List.ne_nil_of_length_pos (by omega)
    have hd : before.getLast? = some (before.getLast hne) := List.getLast?_eq_some_getLast hne
    exact ⟨before.getLast hne, hlast _ hd z rfl, before,
      ⟨hbefore, fun y hy => hmem y (List.mem_append_left _ hy), hd⟩, hlen⟩
  · rintro ⟨hx, d, hedge, chain, ⟨hsteps, hmem, hends⟩, hlen⟩
    refine ⟨chain ++ [x], ⟨?_, fun y hy => ?_, List.getLast?_concat ..⟩, by simp [hlen]⟩
    · refine hsteps.append (List.isChain_singleton x) fun u hu v hv => ?_
      rw [hends] at hu
      cases hu
      cases hv
      exact hedge
    · rcases List.mem_append.mp hy with hy | hy
      · exact hmem y hy
      · exact List.mem_singleton.mp hy ▸ hx

lemma Deep.of_succ (h : g.Deep members (n + 1) x) : g.Deep members n x := by
  induction n generalizing x with
  | zero => exact deep_zero h.member
  | succ n ih =>
    obtain ⟨hx, d, hedge, hd⟩ := deep_succ.mp h
    exact deep_succ.mpr ⟨hx, d, hedge, ih hd⟩

lemma Deep.of_le {k : ℕ} (h : g.Deep members n x) (hk : k ≤ n) : g.Deep members k x := by
  induction n, hk using Nat.le_induction with
  | base => exact h
  | succ n _ ih => exact ih h.of_succ

lemma isDepth_iff : g.IsDepth members x n ↔ g.Deep members n x ∧ ¬ g.Deep members (n + 1) x := by
  refine and_congr_right fun _ => ⟨fun hbound hdeep => ?_, fun hnot k hk => ?_⟩
  · exact absurd (hbound hdeep) (by omega)
  · by_contra hlt
    exact hnot (Deep.of_le hk (by omega))

/-- Chains of any length come from a cycle. -/
lemma Stuck.deep (h : g.Stuck members x) (n : ℕ) : g.Deep members n x := by
  obtain ⟨y, hcycle, hyx⟩ := h
  have hloop : ∀ n z, TransGen (g.Inner members) z z → g.Deep members n z := by
    intro n
    induction n with
    | zero =>
      intro z hz
      obtain ⟨-, -, -, -, hmem⟩ := TransGen.tail'_iff.mp hz
      exact deep_zero hmem
    | succ n ih =>
      intro z hz
      obtain ⟨d, hzd, hdz⟩ := TransGen.tail'_iff.mp hz
      exact deep_succ.mpr ⟨hdz.2.2, d, hdz.1, ih d (.head' hdz hzd)⟩
  induction hyx generalizing n with
  | refl => exact hloop n y hcycle
  | tail _ hbc ih =>
    cases n with
    | zero => exact deep_zero hbc.2.2
    | succ n => exact deep_succ.mpr ⟨hbc.2.2, _, hbc.1, ih n⟩

/-- What a wave finds: the nodes at the end of chains of so many edges wait, in notebook order, and the other
members have been released. -/
structure Frontier (g : Graph) (members : Names) (n : ℕ) (waiting : List Node) (released : List CellId) :
    Prop where
  sublist : waiting.Sublist g.nodes
  waits : ∀ m ∈ g.nodes, m ∈ waiting ↔ g.Deep members n m.id
  done : ∀ x ∈ members, x ∈ g.ids → (x ∈ released ↔ ¬ g.Deep members n x)

lemma frontier_zero (g : Graph) (members : Names) :
    Frontier g members 0 (g.nodes.filter fun m => members.contains m.id) [] where
  sublist := List.filter_sublist
  waits m hm := by
    rw [List.mem_filter, Names.contains_iff]
    exact ⟨fun h => deep_zero h.2, fun h => ⟨hm, h.member⟩⟩
  done x hx _ := iff_of_false List.not_mem_nil fun h => h (deep_zero hx)

namespace Frontier

/-- A waiting node is ready if no longer chain ends at it. -/
lemma isReady_iff (h : Frontier g members n waiting released) (hg : g.Coherent) {m : Node} (hm : m ∈ waiting) :
    m.isReady members released = true ↔ ¬ g.Deep members (n + 1) m.id := by
  have hnode := h.sublist.subset hm
  have hdeep := (h.waits m hnode).mp hm
  have hdep : ∀ d, d ∈ m.dependencies ↔ g.Edge d m.id := fun d => by
    rw [hg.edge_iff, dependencies_of_mem hg hnode, Names.mem_toList]
  rw [Node.isReady_iff, deep_succ, not_and]
  constructor
  · rintro hready - ⟨d, hedge, hd⟩
    exact (h.done d hd.member hedge.known_source).mp (hready d ((hdep d).mpr hedge) hd.member) hd
  · intro hnone d hd hmem
    have hedge := (hdep d).mp hd
    exact (h.done d hmem hedge.known_source).mpr fun hdeep' => hnone hdeep.member ⟨d, hedge, hdeep'⟩

lemma isDepth (h : Frontier g members n waiting released) (hg : g.Coherent) {m : Node}
    (hm : m ∈ waiting.filter (Node.isReady members released)) : g.IsDepth members m.id n := by
  obtain ⟨hwaits, hready⟩ := List.mem_filter.mp hm
  exact isDepth_iff.mpr ⟨(h.waits m (h.sublist.subset hwaits)).mp hwaits, (h.isReady_iff hg hwaits).mp hready⟩

/-- A wave leaves the nodes at the end of longer chains to the next one. -/
lemma succ (h : Frontier g members n waiting released) (hg : g.Coherent) :
    Frontier g members (n + 1) (waiting.filter fun m => !m.isReady members released)
      (released ++ (waiting.filter (Node.isReady members released)).map (·.id)) where
  sublist := List.filter_sublist.trans h.sublist
  waits m hm := by
    rw [List.mem_filter]
    constructor
    · rintro ⟨hwaits, hready⟩
      by_contra hdeep
      rw [(h.isReady_iff hg hwaits).mpr hdeep] at hready
      cases hready
    · intro hdeep
      have hwaits := (h.waits m hm).mpr hdeep.of_succ
      refine ⟨hwaits, ?_⟩
      rw [Bool.not_eq_true', ← Bool.not_eq_true, h.isReady_iff hg hwaits]
      exact fun hnot => hnot hdeep
  done x hx hk := by
    rw [List.mem_append, h.done x hx hk]
    constructor
    · rintro (hnot | hready)
      · exact fun hdeep => hnot hdeep.of_succ
      · obtain ⟨m, hm, rfl⟩ := List.mem_map.mp hready
        exact (isDepth_iff.mp (h.isDepth hg hm)).2
    · intro hnot
      by_cases hdeep : g.Deep members n x
      · obtain ⟨m, hm, rfl⟩ := List.mem_map.mp hk
        have hwaits := (h.waits m hm).mpr hdeep
        exact .inr (List.mem_map_of_mem (List.mem_filter.mpr ⟨hwaits, (h.isReady_iff hg hwaits).mpr hnot⟩))
      · exact .inl hdeep

end Frontier

/-- Nodes stand in the order of their places. -/
lemma pairwise_position? (hg : g.ids.Nodup) : g.nodes.Pairwise fun a b =>
    ∃ p q, g.position? a.id = some p ∧ g.position? b.id = some q ∧ p < q := by
  have hplace : ∀ i (hi : i < g.nodes.length), g.position? g.nodes[i].id = some i := by
    intro i hi
    rw [position?, List.findIdx?_eq_some_iff_getElem]
    refine ⟨hi, by simp, fun j hj => ?_⟩
    have hne : g.nodes[j].id ≠ g.nodes[i].id := by
      have := List.pairwise_iff_getElem.mp (List.pairwise_map.mp hg) j i (by omega) hi hj
      exact this
    simpa using hne
  exact List.pairwise_iff_getElem.mpr fun i j hi hj hij => ⟨i, j, hplace i hi, hplace j hj, hij⟩

lemma waves_layered (hg : g.Coherent) (h : Frontier g members n waiting released) :
    (∀ x ∈ waves members fuel waiting released,
      ∃ k p, n ≤ k ∧ g.IsDepth members x k ∧ g.position? x = some p) ∧
    (waves members fuel waiting released).Pairwise (g.Before members) := by
  induction fuel generalizing n waiting released with
  | zero => simp [waves]
  | succ fuel ih =>
    rw [waves_succ]
    split
    · exact ⟨fun x hx => (List.not_mem_nil hx).elim, .nil⟩
    · obtain ⟨hlater, hpairs⟩ := ih (h.succ hg)
      have hnow : ∀ x ∈ (waiting.filter (Node.isReady members released)).map (·.id),
          g.IsDepth members x n ∧ ∃ p, g.position? x = some p := by
        intro x hx
        obtain ⟨m, hm, rfl⟩ := List.mem_map.mp hx
        refine ⟨h.isDepth hg hm, ?_⟩
        have hmem : m ∈ g.nodes := h.sublist.subset (List.mem_filter.mp hm).1
        rw [← Option.isSome_iff_exists, position?, List.findIdx?_isSome, List.any_eq_true]
        exact ⟨m, hmem, beq_self_eq_true _⟩
      refine ⟨fun x hx => ?_, List.pairwise_append.mpr ⟨?_, hpairs, fun a ha b hb => ?_⟩⟩
      · rcases List.mem_append.mp hx with hx | hx
        · obtain ⟨hdepth, p, hp⟩ := hnow x hx
          exact ⟨n, p, le_rfl, hdepth, hp⟩
        · obtain ⟨k, p, hk, hdepth, hp⟩ := hlater x hx
          exact ⟨k, p, by omega, hdepth, hp⟩
      · have hsub : (waiting.filter (Node.isReady members released)).Sublist g.nodes :=
          List.filter_sublist.trans h.sublist
        have hplaces := (pairwise_position? hg.nodup).sublist hsub
        rw [List.pairwise_map]
        refine hplaces.imp_of_mem fun {a b} ha hb hab => ?_
        obtain ⟨p, q, hp, hq, hpq⟩ := hab
        exact ⟨n, n, p, q, h.isDepth hg ha, h.isDepth hg hb, hp, hq, .inr ⟨rfl, hpq⟩⟩
      · obtain ⟨hdepth, p, hp⟩ := hnow a ha
        obtain ⟨k, q, hk, hdepth', hq⟩ := hlater b hb
        exact ⟨n, k, p, q, hdepth, hdepth', hp, hq, .inl hk⟩

/-- The order of a set goes by depth, and by place in the notebook among cells of one depth. -/
theorem pairwise_before_order (hg : g.Coherent) : (g.order members).Pairwise (g.Before members) :=
  (waves_layered hg (frontier_zero g members)).2

lemma exists_isDepth_of_mem_order (hg : g.Coherent) (hx : x ∈ g.order members) : ∃ n, g.IsDepth members x n := by
  obtain ⟨n, -, -, hdepth, -⟩ := (waves_layered hg (frontier_zero g members)).1 x hx
  exact ⟨n, hdepth⟩

/-- The order of a set lists the known members that are not downstream of a cycle inside the set. -/
theorem mem_order_iff_not_stuck (hg : g.Coherent) :
    x ∈ g.order members ↔ x ∈ members ∧ x ∈ g.ids ∧ ¬ g.Stuck members x := by
  constructor
  · intro hx
    obtain ⟨hmem, hknown⟩ := mem_order hx
    refine ⟨hmem, hknown, fun hstuck => ?_⟩
    obtain ⟨n, hdepth⟩ := exists_isDepth_of_mem_order hg hx
    exact (isDepth_iff.mp hdepth).2 (hstuck.deep (n + 1))
  · rintro ⟨hmem, hknown, hfree⟩
    by_contra hout
    exact hfree (stuck_of_not_mem_order hg hmem hknown hout)

/-- A dependency inside the set is listed, and before the cell. -/
theorem idxOf_lt_of_inner (hg : g.Coherent) (hx : x ∈ g.order members) (hd : g.Inner members y x) :
    y ∈ g.order members ∧ (g.order members).idxOf y < (g.order members).idxOf x := by
  obtain ⟨-, -, hfree⟩ := (mem_order_iff_not_stuck hg).mp hx
  have hy : y ∈ g.order members :=
    (mem_order_iff_not_stuck hg).mpr ⟨hd.2.1, hd.1.known_source, fun hstuck => hfree (hstuck.tail hd)⟩
  refine ⟨hy, Nat.lt_of_le_of_ne (Nat.le_of_not_lt fun hlt => ?_) fun heq => ?_⟩
  · have hsorted : (g.order members).Pairwise fun a b => ¬ g.Edge b a := pairwise_order hg
    have hedge := List.pairwise_iff_getElem.mp hsorted _ _
      (List.idxOf_lt_length_of_mem hx) (List.idxOf_lt_length_of_mem hy) hlt
    rw [List.getElem_idxOf, List.getElem_idxOf] at hedge
    exact hedge hd.1
  · obtain rfl : y = x := List.idxOf_inj hy |>.mp heq
    exact hfree ⟨y, .single hd, .refl⟩

end ReactiveNotebook.Graph
