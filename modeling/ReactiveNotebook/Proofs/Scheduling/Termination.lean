import ReactiveNotebook.Proofs.Engine.Extend
import ReactiveNotebook.Proofs.Engine.Revision
import ReactiveNotebook.Proofs.Engine.Route
import ReactiveNotebook.Script.Run

/-!
# Passes end

Every waiting cell, every result under way and every script to run again is worth some tokens. A move takes
a token from one cell and gives at most two to each cell that is downstream of it in the new graph. So if the
edges that ever appear during a pass form no cycle, a token can be weighed by how many cells lie downstream of
its cell, and the weight falls with every move. It matters that the edges together form no cycle: scripts
that drop and add exports in turn can run for ever without a cycle at any single moment.
-/
namespace ReactiveNotebook

open Relation (ReflTransGen TransGen)

section Weight

variable {r : CellId → CellId → Prop} {ids : Finset CellId} {f f' : CellId → ℕ} {x y : CellId}

open Classical in
noncomputable def below (r : CellId → CellId → Prop) (ids : Finset CellId) (x : CellId) : Finset CellId :=
  ids.filter (TransGen r x)

/-- The base of the weights. A token outweighs two on every cell below it. -/
def tokenBase (ids : Finset CellId) : ℕ := 2 * ids.card + 1

noncomputable def tokenWeight (r : CellId → CellId → Prop) (ids : Finset CellId) (x : CellId) : ℕ :=
  tokenBase ids ^ (below r ids x).card

noncomputable def totalWeight (r : CellId → CellId → Prop) (ids : Finset CellId) (f : CellId → ℕ) : ℕ :=
  ∑ x ∈ ids, f x * tokenWeight r ids x

lemma mem_below : y ∈ below r ids x ↔ y ∈ ids ∧ TransGen r x y := by
  classical
  simp [below]

lemma card_below_lt (hr : ∀ x, ¬ TransGen r x x) (hy : y ∈ below r ids x) :
    (below r ids y).card < (below r ids x).card := by
  refine Finset.card_lt_card ⟨fun z hz => ?_, fun hsub => ?_⟩
  · obtain ⟨hzi, hyz⟩ := mem_below.mp hz
    exact mem_below.mpr ⟨hzi, (mem_below.mp hy).2.trans hyz⟩
  · exact hr y (mem_below.mp (hsub hy)).2

lemma tokenBase_pos : 0 < tokenBase ids := Nat.succ_pos _

/-- Two tokens on every cell below a cell weigh less than one token on the cell. -/
lemma sum_below_lt (hr : ∀ x, ¬ TransGen r x x) (x : CellId) :
    ∑ y ∈ below r ids x, 2 * tokenWeight r ids y < tokenWeight r ids x := by
  by_cases hnil : below r ids x = ∅
  · rw [hnil, Finset.sum_empty]
    exact pow_pos tokenBase_pos _
  · have hcard : 0 < (below r ids x).card := Finset.card_pos.mpr (Finset.nonempty_of_ne_empty hnil)
    obtain ⟨d, hd⟩ := Nat.exists_eq_succ_of_ne_zero hcard.ne'
    have hle : ∀ y ∈ below r ids x, 2 * tokenWeight r ids y ≤ 2 * tokenBase ids ^ d := by
      intro y hy
      have hlt := card_below_lt hr hy
      exact Nat.mul_le_mul_left 2 (Nat.pow_le_pow_right tokenBase_pos (by omega))
    have hsum := Finset.sum_le_card_nsmul _ _ _ hle
    have hids : (below r ids x).card ≤ ids.card :=
      Finset.card_le_card fun y hy => (mem_below.mp hy).1
    have hpow : tokenWeight r ids x = tokenBase ids * tokenBase ids ^ d := by
      rw [tokenWeight, hd, pow_succ, Nat.mul_comm]
    have hpos : 0 < tokenBase ids ^ d := pow_pos tokenBase_pos d
    calc ∑ y ∈ below r ids x, 2 * tokenWeight r ids y
        ≤ (below r ids x).card • (2 * tokenBase ids ^ d) := hsum
      _ = (2 * (below r ids x).card) * tokenBase ids ^ d := by rw [smul_eq_mul]; ring
      _ ≤ (2 * ids.card) * tokenBase ids ^ d := by gcongr
      _ < tokenBase ids * tokenBase ids ^ d := by
        refine Nat.mul_lt_mul_of_pos_right ?_ hpos
        unfold tokenBase
        omega
      _ = tokenWeight r ids x := hpow.symm

/-- Taking a token from a cell and giving up to two to each cell below it lowers the weight. -/
theorem totalWeight_lt (hr : ∀ x, ¬ TransGen r x x) (hx : x ∈ ids) (htake : f' x < f x)
    (hgive : ∀ y ∈ ids, y ≠ x → f' y ≤ f y ∨ TransGen r x y ∧ f' y ≤ f y + 2) :
    totalWeight r ids f' < totalWeight r ids f := by
  classical
  have hterm : ∀ y ∈ ids, f' y * tokenWeight r ids y + (if y = x then tokenWeight r ids x else 0) ≤
      f y * tokenWeight r ids y + if y ∈ below r ids x then 2 * tokenWeight r ids y else 0 := by
    intro y hy
    by_cases hyx : y = x
    · subst hyx
      have hself : y ∉ below r ids y := fun h => hr y (mem_below.mp h).2
      rw [if_pos rfl, if_neg hself, ← Nat.succ_mul]
      exact Nat.mul_le_mul_right _ htake
    · rw [if_neg hyx]
      rcases hgive y hy hyx with hle | ⟨hbelow, hle⟩
      · exact (Nat.mul_le_mul_right _ hle).trans (Nat.le_add_right _ _)
      · rw [if_pos (mem_below.mpr ⟨hy, hbelow⟩), ← Nat.add_mul]
        exact Nat.mul_le_mul_right _ hle
  have hsum := Finset.sum_le_sum hterm
  rw [Finset.sum_add_distrib, Finset.sum_add_distrib, Finset.sum_ite_eq' ids x, if_pos hx,
    Finset.sum_ite_mem, Finset.inter_eq_right.mpr fun y hy => (mem_below.mp hy).1] at hsum
  have hlt : ∑ y ∈ below r ids x, 2 * tokenWeight r ids y < tokenWeight r ids x := sum_below_lt hr x
  unfold totalWeight
  omega

/-- At most two tokens on each cell have a bounded weight. -/
lemma totalWeight_le (hf : ∀ x ∈ ids, f x ≤ 2) :
    totalWeight r ids f ≤ 2 * ids.card * tokenBase ids ^ ids.card := by
  have hle : ∀ x ∈ ids, f x * tokenWeight r ids x ≤ 2 * tokenBase ids ^ ids.card := by
    intro x hx
    have hcard : (below r ids x).card ≤ ids.card := Finset.card_le_card fun y hy => (mem_below.mp hy).1
    exact Nat.mul_le_mul (hf x hx) (Nat.pow_le_pow_right tokenBase_pos hcard)
  calc totalWeight r ids f ≤ ids.card • (2 * tokenBase ids ^ ids.card) :=
        Finset.sum_le_card_nsmul _ _ _ hle
    _ = 2 * ids.card * tokenBase ids ^ ids.card := by rw [smul_eq_mul]; ring

end Weight

variable {l : Language}

namespace Stage

variable {s s' t : Stage} {a : Arrival} {c : Cell} {id x y : CellId} {names : Names}

def tokens (s : Stage) (x : CellId) : ℕ :=
  2 * s.pass.remaining.count x + (s.engine.arriving.map (·.cell)).count x + 2 * s.pass.rerun.toList.count x

/-- The move of a cell takes a token from it and gives up to two to cells downstream of it. -/
structure Spends (s s' : Stage) (x : CellId) : Prop where
  takes : s'.tokens x < s.tokens x
  gives : ∀ y, y ≠ x → s'.tokens y ≤ s.tokens y ∨
    TransGen s'.engine.graph.Edge x y ∧ s'.tokens y ≤ s.tokens y + 2

lemma tokens_of_control (h : s.control = t.control) : s.tokens = t.tokens :=
  show s.control.tokens = t.control.tokens from congrArg tokens h

/-- A list that is an order of `members` counts each cell at most as often as an order of what is added. -/
lemma count_order_le {g : Graph} (hg : g.Coherent) {waiting : List CellId} {members : Names} {p : Prop}
    [Decidable p] (hm : y ∈ members → p ∨ y ∈ waiting) :
    (g.order members).count y ≤ waiting.count y + if p then 1 else 0 := by
  by_cases hy : y ∈ g.order members
  · have hnodup : (g.order members).Nodup := Graph.nodup_order hg
    have hone := List.nodup_iff_count_le_one.mp hnodup y
    rcases hm (Graph.mem_order hy).1 with hp | hw
    · rw [if_pos hp]
      omega
    · have := List.one_le_count_iff.mpr hw
      omega
  · rw [List.count_eq_zero.mpr hy]
    exact Nat.zero_le _

lemma count_insertAll_le {xs : List CellId} {p : Prop} [Decidable p] (hm : y ∈ xs → p) :
    (names.insertAll xs).toList.count y ≤ names.toList.count y + if p then 1 else 0 := by
  have hone := List.nodup_iff_count_le_one.mp (names.insertAll xs).nodup y
  by_cases hy : y ∈ names.insertAll xs
  · rcases Names.mem_insertAll.mp hy with hx | hn
    · rw [if_pos (hm hx)]
      omega
    · have := List.one_le_count_iff.mpr (Names.mem_toList.mpr hn)
      omega
  · rw [List.count_eq_zero.mpr hy]
    exact Nat.zero_le _

/-- Starting a cell takes its two tokens and gives one back if a script is dispatched. -/
lemma spends_start {i : ℕ} (hid : s.pass.remaining[i]? = some id)
    (h : (s.withdraw i).runCell l id = .ok s') : s.Spends s' id := by
  obtain ⟨hi, hval⟩ := List.getElem?_eq_some_iff.mp hid
  have hperm : (id :: s.pass.remaining.eraseIdx i).Perm s.pass.remaining := by
    rw [← hval]
    exact List.getElem_cons_eraseIdx_perm hi
  have hself : s.pass.remaining.count id = (s.pass.remaining.eraseIdx i).count id + 1 := by
    rw [← hperm.count_eq, List.count_cons_self]
  have hother : ∀ y, y ≠ id → s.pass.remaining.count y = (s.pass.remaining.eraseIdx i).count y := by
    intro y hy
    rw [← hperm.count_eq, List.count_cons_of_ne hy.symm]
  rcases runCell_cases h with hcontrol | ⟨c, source, hc, -, -, -, rfl⟩
  · have htokens : s'.tokens = (s.withdraw i).tokens :=
      tokens_of_control (t := (s.withdraw i).finish id .success) hcontrol
    constructor
    · rw [htokens]
      simp only [tokens, withdraw]
      omega
    · intro y hy
      refine .inl ?_
      rw [htokens]
      simp only [tokens, withdraw, hother y hy, le_refl]
  · have hcid := id_eq_of_cell? hc
    constructor
    · simp only [tokens, launch, withdraw, List.map_append, List.count_append, List.map_cons, List.map_nil, hcid,
        List.count_singleton_self]
      omega
    · intro y hy
      refine .inl ?_
      have hne : (id == y) = false := by simpa using hy.symm
      simp only [tokens, launch, withdraw, List.map_append, List.count_append, List.map_cons, List.map_nil, hcid,
        List.count_singleton, hother y hy, hne]
      simp

/-- Landing a result takes its token, and those of its script for another run. -/
lemma tokens_land {rest : List Arrival} (hp : s.engine.arriving.Perm (a :: rest)) (y : CellId) :
    s.tokens y = ((s.deliver rest).land a.cell).tokens y +
      if y = a.cell then 1 + 2 * s.pass.rerun.toList.count a.cell else 0 := by
  have hcount : (s.engine.arriving.map (·.cell)).count y =
      (rest.map (·.cell)).count y + if a.cell == y then 1 else 0 := by
    rw [(hp.map (·.cell)).count_eq, List.map_cons, List.count_cons]
  simp only [tokens, deliver, land, hcount, Names.filter]
  by_cases hy : y = a.cell
  · subst hy
    have hzero : (s.pass.rerun.toList.filter (· != a.cell)).count a.cell = 0 :=
      List.count_eq_zero.mpr fun h => by simpa using (List.mem_filter.mp h).2
    simp only [beq_self_eq_true, if_true, hzero]
    omega
  · have hb : (a.cell == y) = false := by simpa using Ne.symm hy
    rw [List.count_filter (by simpa using hy), if_neg hy, hb]
    simp

/-- What follows a landing spends the token of the result if it gives no more than allowed. -/
lemma Spends.of_land {rest : List Arrival} (hp : s.engine.arriving.Perm (a :: rest))
    (htakes : s'.tokens a.cell ≤ ((s.deliver rest).land a.cell).tokens a.cell +
      2 * s.pass.rerun.toList.count a.cell)
    (hgives : ∀ y, y ≠ a.cell → s'.tokens y ≤ ((s.deliver rest).land a.cell).tokens y ∨
      TransGen s'.engine.graph.Edge a.cell y ∧
        s'.tokens y ≤ ((s.deliver rest).land a.cell).tokens y + 2) : s.Spends s' a.cell where
  takes := by
    have hland := tokens_land hp a.cell
    rw [if_pos rfl] at hland
    omega
  gives y hy := by
    have hland := tokens_land hp y
    rw [if_neg hy, Nat.add_zero] at hland
    rw [hland]
    exact hgives y hy

/-- Putting a script back makes it a waiting cell. -/
lemma tokens_requeue (hg : s.engine.graph.Coherent) (y : CellId) :
    (s.requeue id).tokens y ≤ s.tokens y + if y = id then 2 else 0 := by
  have hcount : (s.requeue id).pass.remaining.count y ≤
      s.pass.remaining.count y + if y = id then 1 else 0 :=
    count_order_le hg fun hy => by simpa using hy
  have hrest : (s.requeue id).tokens y = 2 * (s.requeue id).pass.remaining.count y +
      (s.engine.arriving.map (·.cell)).count y + 2 * s.pass.rerun.toList.count y := rfl
  rw [hrest, tokens]
  split at hcount <;> simp_all
  omega

/-- Enlarging the pass gives two tokens to cells downstream of the readers: those in flight are noted to run
again, the others wait. -/
lemma tokens_enlarge (hg : s.engine.graph.Coherent) (y : CellId) :
    (s.enlarge id names).tokens y ≤ s.tokens y + if y ∈ s.downstream id names then 2 else 0 := by
  have hcount : (s.enlarge id names).pass.remaining.count y ≤ s.pass.remaining.count y +
      if y ∈ s.downstream id names ∧ s.isFlying y = false then 1 else 0 := by
    refine count_order_le hg fun hy => ?_
    have hp := (Names.mem_filter.mp hy).1
    simp only [pending, Names.mem_insertAll, Names.mem_ofList, List.mem_filter, Bool.and_eq_true,
      Bool.not_eq_true'] at hp
    rcases hp with ⟨hd, -, hf⟩ | hw
    · exact .inl ⟨hd, hf⟩
    · exact .inr hw
  have hrerun : (s.enlarge id names).pass.rerun.toList.count y ≤ s.pass.rerun.toList.count y +
      if y ∈ s.downstream id names ∧ s.isFlying y = true then 1 else 0 :=
    count_insertAll_le fun hy => List.mem_filter.mp hy
  have hrest : (s.enlarge id names).tokens y = 2 * (s.enlarge id names).pass.remaining.count y +
      (s.engine.arriving.map (·.cell)).count y + 2 * (s.enlarge id names).pass.rerun.toList.count y := rfl
  rw [hrest, tokens]
  by_cases hd : y ∈ s.downstream id names
  · cases hf : s.isFlying y <;> simp only [hd, hf, true_and, if_true, Bool.true_eq_false, Bool.false_eq_true,
      if_false] at * <;> omega
  · simp only [hd, false_and, if_false] at *
    omega

lemma tokens_extend (s : Stage) (id : CellId) (names : Names) :
    (s.extend id names).tokens = (s.enlarge id names).tokens := by
  rw [extend_eq, tokens_of_control (control_foldl_block _ (s.enlarge id names))]
  rfl

lemma tokens_rebuild (s : Stage) : ({ s with engine := s.engine.rebuild } : Stage).tokens = s.tokens := rfl

/-- Enlarging the pass gives tokens to cells downstream of the script only. -/
lemma tokens_extend_le (hs : s.Tidy) (hc : c ∈ s.engine.cells) (hid : c.id = id)
    (hn : ∀ name ∈ names, name ∈ c.writes.names) (y : CellId) :
    (s.extend id names).tokens y ≤ s.tokens y ∨
      y ≠ id ∧ TransGen (s.extend id names).engine.graph.Edge id y ∧
        (s.extend id names).tokens y ≤ s.tokens y + 2 := by
  have hle : (s.enlarge id names).tokens y ≤ s.tokens y + _ := tokens_enlarge hs.coherent y
  rw [tokens_extend, graph_extend]
  by_cases hy : y ∈ s.downstream id names
  · rw [if_pos hy] at hle
    have hne : y ≠ id := by simpa using (List.mem_filter.mp hy).2
    exact .inr ⟨hne, transGen_of_mem_downstream hs hc hid hn hy, hle⟩
  · rw [if_neg hy, Nat.add_zero] at hle
    exact .inl hle

lemma tokens_adopt (s : Stage) (c : Cell) (exports : Script.Fields) :
    (s.adopt c exports).tokens = s.tokens :=
  tokens_of_control (t := (s.confirm c.id (Names.ofList (exports.map (·.1)))).finish c.id .success)
    (control_adopt s c exports)

/-- Taking over exports gives tokens to cells downstream of the script only. -/
lemma tokens_accept (hs : s.Tidy) (exports : Script.Fields) {d : Cell} (hd : d ∈ s.engine.cells)
    (hid : d.id = c.id) (y : CellId) :
    (s.accept c exports).tokens y ≤ s.tokens y ∨
      y ≠ c.id ∧ TransGen (s.accept c exports).engine.graph.Edge c.id y ∧
        (s.accept c exports).tokens y ≤ s.tokens y + 2 := by
  have hsource := mem_adopt exports hd hid
  have htidy : ({ s.adopt c exports with engine := (s.adopt c exports).engine.rebuild } : Stage).Tidy :=
    hs.rebuild_adopt
  have htokens := tokens_adopt s c exports
  rw [accept_eq]
  generalize s.adopt c exports = t at *
  split
  · rw [← htokens, ← tokens_rebuild t]
    exact tokens_extend_le htidy hsource hid (fun name hname => (Names.mem_filter.mp hname).1) y
  · exact .inl (htokens ▸ le_rfl)

/-- Every move spends a token. -/
theorem Move.spends (hm : s.Move l s') (hs : s.Tidy) : ∃ x, s.Spends s' x := by
  cases hm with
  | start _ _ hid hrun => exact ⟨_, spends_start hid hrun⟩
  | @receive a rest hp =>
    have hland := hs.land hp
    have hlanding := landing_receive (s.deliver rest) a
    generalize (s.deliver rest).receive a = t at hlanding
    refine ⟨a.cell, ?_⟩
    cases hlanding with
    | stale _ =>
      have htokens : (((s.deliver rest).land a.cell).dismiss a.cell).tokens =
          ((s.deliver rest).land a.cell).tokens := by
        simp only [dismiss]
        split <;> rfl
      exact .of_land hp (by rw [htokens]; omega) fun y _ => .inl (by rw [htokens])
    | again _ hr =>
      have hle : ∀ y, (((s.deliver rest).land a.cell).requeue a.cell).tokens y ≤ _ := fun y =>
        tokens_requeue hland.coherent y
      have hone : 1 ≤ s.pass.rerun.toList.count a.cell := List.one_le_count_iff.mpr hr
      refine .of_land hp ?_ fun y hy => .inl ?_
      · have := hle a.cell
        rw [if_pos rfl] at this
        omega
      · have := hle y
        rwa [if_neg hy, Nat.add_zero] at this
    | @failed c message logs _ _ _ =>
      have htokens : ((((s.deliver rest).land a.cell).keepLogs a.cell logs).fail c
          (.execution a.cell message)).tokens = ((s.deliver rest).land a.cell).tokens :=
        (tokens_of_control control_fail).trans
          (tokens_of_control (s := ((s.deliver rest).land a.cell).keepLogs a.cell logs) control_keepLogs)
      exact .of_land hp (by rw [htokens]; omega) fun y _ => .inl (by rw [htokens])
    | @accepted c exports logs hsome _ _ =>
      have hcell := cell?_of_addressee? hsome
      have hcid : c.id = a.cell := id_eq_of_cell? hcell
      have hkept : (((s.deliver rest).land a.cell).keepLogs a.cell logs).tokens =
          ((s.deliver rest).land a.cell).tokens := tokens_of_control control_keepLogs
      have hmem : { c with logs := logs } ∈
          (((s.deliver rest).land a.cell).keepLogs a.cell logs).engine.cells := by
        rw [← hcid]
        exact mem_modifyCell (List.mem_of_find?_eq_some hcell)
      have htokens : ∀ y, ((((s.deliver rest).land a.cell).keepLogs a.cell logs).accept c exports).tokens y ≤ _ ∨ _ :=
        tokens_accept (hland.keepLogs a.cell logs) exports hmem rfl
      rw [hkept] at htokens
      refine .of_land hp ?_ fun y hy => ?_
      · rcases htokens a.cell with hle | ⟨hne, -, -⟩
        · omega
        · exact absurd hcid.symm hne
      · rcases htokens y with hle | ⟨-, htrans, hle⟩
        · exact .inl hle
        · exact .inr ⟨hcid ▸ htrans, hle⟩

def cellIds (s : Stage) : Finset CellId := (s.engine.cells.map (·.id)).toFinset

/-- Only cells of the notebook have tokens. -/
def Known (s : Stage) : Prop := ∀ x, 0 < s.tokens x → x ∈ s.cellIds

lemma Move.cellIds_eq (hm : s.Move l s') : s'.cellIds = s.cellIds := by
  have h := congrArg (List.map Prod.fst) hm.revisions_eq
  simp only [revisions, List.map_map] at h
  exact congrArg List.toFinset h

lemma mem_cellIds_of_transGen (hs : s.Tidy) (h : TransGen s.engine.graph.Edge x y) : y ∈ s.cellIds := by
  obtain ⟨z, -, hedge⟩ := TransGen.tail'_iff.mp h
  have hy := hs.coherent.known z y hedge
  rw [hs.graph, Graph.ids_build] at hy
  exact List.mem_toFinset.mpr hy

lemma Move.known (hm : s.Move l s') (hs : s.Tidy) (hk : s.Known) : s'.Known := by
  obtain ⟨x, hx⟩ := hm.spends hs
  intro y hy
  rw [hm.cellIds_eq]
  by_cases hyx : y = x
  · subst hyx
    exact hk y (hy.trans hx.takes)
  · rcases hx.gives y hyx with hle | ⟨htrans, -⟩
    · exact hk y (hy.trans_le hle)
    · rw [← hm.cellIds_eq]
      exact mem_cellIds_of_transGen (hs.move hm) htrans

/-- A pass with nothing left to do. -/
def IsDone (s : Stage) : Prop := s.pass.remaining = [] ∧ s.engine.inFlight = []

/-- The cell to start next stops the scheduler: it asks for a field wider than formatting allows, or it is a script
whose id no thread can bear. -/
def Panics (l : Language) (s : Stage) : Prop :=
  ∃ i id cause, s.next? = some i ∧ s.pass.remaining[i]? = some id ∧ (s.withdraw i).runCell l id = .error cause

/-- A pass that is not done can move on, unless the scheduler is stopped. -/
lemma can_move (hs : s.Tidy) : s.IsDone ∨ (∃ s', s.Move l s') ∨ s.Panics l := by
  rcases harr : s.engine.arriving with _ | ⟨a, rest⟩
  · have hf : s.engine.inFlight = [] := by
      have hperm := hs.flights
      rw [harr] at hperm
      exact hperm.symm.eq_nil
    by_cases hr : s.pass.remaining = []
    · exact .inl ⟨hr, hf⟩
    · obtain ⟨i, id, hi, hid⟩ := exists_next hf hr
      cases hrun : (s.withdraw i).runCell l id with
      | ok s' => exact .inr (.inl ⟨s', .start (.inr hf) hi hid hrun⟩)
      | error cause => exact .inr (.inr ⟨i, id, cause, hi, hid, hrun⟩)
  · have hperm : s.engine.arriving.Perm (a :: rest) := by rw [harr]
    exact .inr (.inl ⟨_, .receive hperm⟩)

end Stage

namespace Engine

variable {e : Engine}

/-- A pass starts with two tokens on each cell that takes part. -/
lemma tokens_beginPass_le (ht : e.Tidy) (hp : e.pass = none) (x : CellId) : e.beginPass.tokens x ≤ 2 := by
  obtain ⟨-, ha⟩ := ht.idle hp
  have hcontrol := control_blockCycles e
  have harr : e.beginPass.engine.arriving = [] := (congrArg (·.engine.arriving) hcontrol).trans ha
  have hrerun : e.beginPass.pass.rerun = ∅ := congrArg (·.pass.rerun) hcontrol
  have hone := List.nodup_iff_count_le_one.mp (beginPass_tidy ht hp).waiting x
  rw [Stage.tokens, harr, hrerun, List.map_nil, List.count_nil]
  have hzero : (∅ : Names).toList.count x = 0 := rfl
  omega

lemma cellIds_beginPass (e : Engine) : e.beginPass.cellIds = (e.cells.map (·.id)).toFinset := by
  have hcontrol := control_blockCycles e
  exact congrArg List.toFinset (Stage.ids_of_control hcontrol)

lemma known_beginPass (ht : e.Tidy) (hp : e.pass = none) : e.beginPass.Known := by
  intro x hx
  obtain ⟨-, ha⟩ := ht.idle hp
  have hcontrol := control_blockCycles e
  have harr : e.beginPass.engine.arriving = [] := (congrArg (·.engine.arriving) hcontrol).trans ha
  have hrerun : e.beginPass.pass.rerun = ∅ := congrArg (·.pass.rerun) hcontrol
  have hzero : (∅ : Names).toList.count x = 0 := rfl
  rw [Stage.tokens, harr, hrerun, List.map_nil, List.count_nil, hzero] at hx
  have hmem : x ∈ e.beginPass.pass.remaining := List.one_le_count_iff.mp (by omega)
  rw [beginPass_eq] at hmem
  have hids := (Graph.mem_order hmem).2
  rw [ht.graph, Graph.ids_build] at hids
  rw [cellIds_beginPass]
  exact List.mem_toFinset.mpr hids

/-- If the edges that appear during a pass together form no cycle, the number of its moves is bounded, and the
pass ends or stops the scheduler. -/
theorem pass_ends_of_acyclic {l : Language} {σ : ℕ → Stage} {n : ℕ} (he : Reachable l e) (hp : e.pass = none)
    (hstart : σ 0 = e.beginPass) (hmoves : ∀ k < n, (σ k).Move l (σ (k + 1)))
    (hacyclic : ∀ x, ¬ TransGen (fun a b => ∃ k ≤ n, (σ k).engine.graph.Edge a b) x x) :
    n ≤ 2 * e.cells.length * (2 * e.cells.length + 1) ^ e.cells.length ∧
      ((σ n).IsDone ∨ (∃ s, (σ n).Move l s) ∨ (σ n).Panics l) := by
  have ht := he.tidy
  set ids := (e.cells.map (·.id)).toFinset with hids
  have hcard : ids.card = e.cells.length := by
    rw [hids, List.toFinset_card_of_nodup ht.ids, List.length_map]
  have hrun : ∀ k ≤ n, (σ k).Tidy ∧ (σ k).Known ∧ (σ k).cellIds = ids ∧
      totalWeight (fun a b => ∃ k ≤ n, (σ k).engine.graph.Edge a b) ids (σ k).tokens + k ≤
        2 * ids.card * tokenBase ids ^ ids.card := by
    intro k
    induction k with
    | zero =>
      intro _
      rw [hstart, Nat.add_zero]
      exact ⟨beginPass_tidy ht hp, known_beginPass ht hp, cellIds_beginPass e,
        totalWeight_le fun x _ => tokens_beginPass_le ht hp x⟩
    | succ k ih =>
      intro hk
      obtain ⟨htidy, hknown, hcells, hweight⟩ := ih (by omega)
      have hm := hmoves k hk
      obtain ⟨x, hx⟩ := hm.spends htidy
      have hxi : x ∈ ids := hcells ▸ hknown x (by have := hx.takes; omega)
      have hlt := totalWeight_lt hacyclic hxi hx.takes fun y _ hy => by
        rcases hx.gives y hy with hle | ⟨htrans, hle⟩
        · exact .inl hle
        · exact .inr ⟨TransGen.mono (fun a b hab => ⟨k + 1, hk, hab⟩) _ _ htrans, hle⟩
      exact ⟨htidy.move hm, hm.known htidy hknown, hm.cellIds_eq.trans hcells, by omega⟩
  obtain ⟨htidy, -, -, hweight⟩ := hrun n le_rfl
  refine ⟨?_, Stage.can_move htidy⟩
  rw [tokenBase, hcard] at hweight
  omega

/-- The reader waits first, so it is done when the script turns out to export `v`. -/
def surprising : Engine :=
  ((new .standard true).grow ⟨"r", .formula "v" "out"⟩).grow ⟨"s", .script "#\x7b v: 1 \x7d"⟩

lemma reachable_surprising {l : Language} : Reachable l surprising :=
  ⟨.standard, true, (steps_grow _ _).trans (steps_grow _ _)⟩

/-- The reader runs, the script runs and lands, and the reader runs again. -/
def surprisingPass : ℕ → Stage := surprising.beginPass.route (.ofConfig .standard) [none, none, some 0, none]

lemma isRoute_surprisingPass :
    surprising.beginPass.isRoute (.ofConfig .standard) [none, none, some 0, none] = true := by
  decide +kernel

/-- The pass in which the reader is put back ends after four moves. -/
theorem pass_with_late_export_ends :
    4 ≤ 2 * surprising.cells.length * (2 * surprising.cells.length + 1) ^ surprising.cells.length ∧
      ((surprisingPass 4).IsDone ∨ (∃ s, (surprisingPass 4).Move (.ofConfig .standard) s) ∨
        (surprisingPass 4).Panics (.ofConfig .standard)) := by
  refine pass_ends_of_acyclic reachable_surprising rfl rfl (fun k hk => ?_) fun x hcycle => ?_
  · exact Stage.move_of_move? (Stage.move?_route isRoute_surprisingPass (List.getElem?_eq_getElem hk))
  · -- the one edge that appears leads from the script to the reader
    have hedges : ∀ k ≤ 4, ((surprisingPass k).engine.graph.nodes.all fun n =>
        n.dependents.toList.all fun b => n.id == "s" && b == "r") = true := by decide +kernel
    have hedge : ∀ a b, (∃ k ≤ 4, (surprisingPass k).engine.graph.Edge a b) → a = "s" ∧ b = "r" := by
      rintro a b ⟨k, hk, hab⟩
      obtain ⟨n, hn, rfl, hb⟩ := Graph.exists_node_of_edge hab
      simpa using List.all_eq_true.mp (List.all_eq_true.mp (hedges k hk) n hn) b hb
    obtain ⟨y, hfirst, -⟩ := TransGen.head'_iff.mp hcycle
    obtain ⟨z, -, hlast⟩ := TransGen.tail'_iff.mp hcycle
    have hends : "s" = "r" := (hedge x y hfirst).1.symm.trans (hedge z x hlast).2
    exact absurd hends (by decide)

end Engine

end ReactiveNotebook
