import ReactiveNotebook.Proofs.Scheduling.Acts
import ReactiveNotebook.Proofs.Scheduling.CycleMark
import ReactiveNotebook.Proofs.Scheduling.LateExport
import ReactiveNotebook.Proofs.Scheduling.StaleResult

/-!
# Cells that wait on a cycle

A pass asks which cells lie on cycles when it begins and when it is enlarged, and lets none of them wait. The
graph may change in between. So a cell whose turn comes on a cycle has waited there since one of two things
happened: an edit closed the cycle around the waiting cell, or a script that has to run again was put back on
the cycle. Each such cycle has a seed on it, so the next pass marks the cell.
-/
namespace ReactiveNotebook

variable {l : Language}

namespace Engine

variable {e e' : Engine} {s : Stage} {c : Cell} {x : CellId} {σ : ℕ → Engine} {k n : ℕ}

/-- The turn of the cell comes next. -/
def Picks (e : Engine) (x : CellId) : Prop :=
  ∃ p i, e.pass = some p ∧ (e.resume p).next? = some i ∧ p.remaining[i]? = some x

/-- The step evaluates the formula of a cell, renders its template, or dispatches its script. -/
def Evaluates (l : Language) (e e' : Engine) (c : Cell) : Prop :=
  ∃ p s, e.pass = some p ∧ (e.resume p).Judges l s c ∧ Stage.firstFault ((e.resume p).inputs c) = none ∧
    e' = s.suspend

/-- The cell waits and lies on a cycle. -/
def WaitsOnCycle (e : Engine) (x : CellId) : Prop :=
  ∃ p, e.pass = some p ∧ x ∈ p.remaining ∧ e.graph.OnCycle x

/-- An edit closes a cycle around a waiting cell. -/
def ClosesOn (e e' : Engine) (x : CellId) : Prop :=
  Edit e e' ∧ (∃ p, e.pass = some p ∧ x ∈ p.remaining) ∧ ¬ e.graph.OnCycle x ∧ e'.graph.OnCycle x

/-- The script of a cell is put back to run again although it lies on a cycle. -/
def Rejoins (e e' : Engine) (x : CellId) : Prop :=
  ∃ p s a, e.pass = some p ∧ (e.resume p).PutsBack s a ∧ e' = s.suspend ∧ a.cell = x ∧ e.graph.OnCycle x

lemma Picks.waits (h : e.Picks x) : ∃ p, e.pass = some p ∧ x ∈ p.remaining := by
  obtain ⟨p, i, hp, -, hx⟩ := h
  exact ⟨p, hp, List.mem_of_getElem? hx⟩

lemma Evaluates.picks (h : Evaluates l e e' c) : e.Picks c.id := by
  obtain ⟨p, s, hp, ⟨i, verdict, hi, hid, -⟩, -, -⟩ := h
  exact ⟨p, i, hp, hi, hid⟩

lemma Picks.waitsOnCycle (h : e.Picks x) (hcycle : e.graph.OnCycle x) : e.WaitsOnCycle x := by
  obtain ⟨p, hp, hx⟩ := h.waits
  exact ⟨p, hp, hx, hcycle⟩

end Engine

namespace Stage

open Engine (Rejoins)

variable {s s' t : Stage} {a : Arrival} {x : CellId}

/-- The result of a script lets no cell wait on a cycle that did not, unless it puts its own script back. -/
lemma rejoins_or_of_landing (hs : s.Tidy) {rest : List Arrival} (hperm : s.engine.arriving.Perm (a :: rest))
    (h : Landing (s.deliver rest) a t) (hx : x ∈ t.pass.remaining) (hcycle : t.engine.graph.OnCycle x) :
    x ∈ s.pass.remaining ∧ s.engine.graph.OnCycle x ∨
      (∃ c, s.engine.cell? a.cell = some c ∧ c.version = a.version) ∧ a.cell ∈ s.pass.rerun ∧ a.cell = x ∧
        s.engine.graph.OnCycle x := by
  cases h with
  | stale _ =>
    have hdismiss : ∀ u : Stage, (u.dismiss a.cell).pass.remaining = u.pass.remaining ∧
        (u.dismiss a.cell).engine.graph = u.engine.graph := fun u => by
      unfold dismiss
      dsimp only
      split <;> exact ⟨rfl, rfl⟩
    rw [(hdismiss _).1] at hx
    rw [(hdismiss _).2] at hcycle
    exact .inl ⟨hx, hcycle⟩
  | @again c hc hr =>
    have hmem := (Graph.mem_order hx).1
    rw [Names.mem_insert, Names.mem_ofList] at hmem
    rcases hmem with rfl | hmem
    · exact .inr ⟨⟨c, cell?_of_addressee? hc, version_of_addressee? hc⟩, hr, rfl, hcycle⟩
    · exact .inl ⟨hmem, hcycle⟩
  | @failed c message logs hc hr hsettle =>
    have hcontrol := control_failed (s.deliver rest) a c logs message
    have hremaining : _ = s.pass.remaining := congrArg (·.pass.remaining) hcontrol
    have hgraph : _ = s.engine.graph := congrArg (·.engine.graph) hcontrol
    exact .inl ⟨hremaining ▸ hx, hgraph ▸ hcycle⟩
  | @accepted c exports logs hc hr hsettle =>
    rcases accept_cases ((s.deliver rest).landed a logs) c exports with ⟨-, heq⟩ | heq
    · rw [heq] at hx hcycle
      have hcontrol := control_adopt ((s.deliver rest).landed a logs) c exports
      have hremaining : _ = s.pass.remaining := congrArg (·.pass.remaining) hcontrol
      have hgraph : _ = s.engine.graph := congrArg (·.engine.graph) hcontrol
      exact .inl ⟨hremaining ▸ hx, hgraph ▸ hcycle⟩
    · -- the pass is enlarged, which marks what turns out to lie on cycles
      rw [heq] at hx hcycle
      have ht : (((s.deliver rest).landed a logs).readopt c exports).Tidy :=
        ((hs.land hperm).keepLogs a.cell logs).rebuild_adopt
      rw [graph_extend] at hcycle
      exact absurd hcycle ((mem_remaining_extend ht).mp hx).2.2

end Stage

namespace Engine

variable {e e' : Engine} {s : Stage} {c : Cell} {x : CellId} {σ : ℕ → Engine} {k n : ℕ}

/-- A step after which a cell waits on a cycle, and did not before, closes the cycle by an edit or puts the
script of the cell back. -/
theorem Step.closesOn_or_rejoins (hstep : Step l e e') (ht : e.Tidy) (hbefore : ¬ e.WaitsOnCycle x)
    (hafter : e'.WaitsOnCycle x) : ClosesOn e e' x ∨ Rejoins e e' x := by
  obtain ⟨p', hp', hx, hcycle⟩ := hafter
  cases hstep with
  | edit hedit =>
    have hpass : e'.pass = e.pass := by
      rcases hedit.shape with rfl | ⟨cells, store, seeds, rfl⟩ <;> rfl
    rw [hpass] at hp'
    exact .inl ⟨hedit, ⟨p', hp', hx⟩, fun hold => hbefore ⟨p', hp', hx, hold⟩, hcycle⟩
  | host hh =>
    refine absurd ?_ hbefore
    cases hh <;> exact ⟨p', hp', hx, hcycle⟩
  | collect hp =>
    rw [pass_collect, hp] at hp'
    cases hp'
  | begin hp =>
    obtain rfl : e.beginPass.pass = p' := Option.some.inj hp'
    change e.beginPass.engine.graph.OnCycle x at hcycle
    rw [graph_beginPass] at hcycle
    exact absurd hcycle ((mem_remaining_beginPass ht).mp hx).2
  | @move p s hp hm =>
    have hs := ht.pass p hp
    obtain rfl : s.pass = p' := Option.some.inj hp'
    change s.engine.graph.OnCycle x at hcycle
    cases hm with
    | start hfree hi hid hrun =>
      have hstarts := Stage.starts_of_runCell hs hid hrun
      rw [hstarts.graph] at hcycle
      exact absurd ⟨p, hp, ((hstarts.waiting x).mp hx).1, hcycle⟩ hbefore
    | @receive a rest hperm =>
      rcases Stage.rejoins_or_of_landing hs hperm (Stage.landing_receive _ a) hx hcycle with
        ⟨hwait, hold⟩ | ⟨hcell, hrerun, hid, hold⟩
      · exact absurd ⟨p, hp, hwait, hold⟩ hbefore
      · exact .inr ⟨p, _, a, hp, ⟨rest, hperm, rfl, hrerun, hcell⟩, rfl, hid, hold⟩
  | finish => cases hp'

/-- A cell that waits on a cycle has done so ever since the cycle was closed around it, or since its script was
put back there. -/
lemma IsRun.since_closed (hrun : IsRun l n σ) (hstart : (σ 0).pass = none) (hk : k ≤ n)
    (hwaits : (σ k).WaitsOnCycle x) : ∃ j < k, (ClosesOn (σ j) (σ (j + 1)) x ∨ Rejoins (σ j) (σ (j + 1)) x) ∧
      ∀ i, j < i → i ≤ k → (σ i).WaitsOnCycle x := by
  induction k with
  | zero =>
    obtain ⟨p, hp, -⟩ := hwaits
    rw [hstart] at hp
    cases hp
  | succ k ih =>
    by_cases hbefore : (σ k).WaitsOnCycle x
    · obtain ⟨j, hj, hcause, hsince⟩ := ih (by omega) hbefore
      refine ⟨j, by omega, hcause, fun i hji hik => ?_⟩
      rcases Nat.le_succ_iff.mp hik with hik | rfl
      · exact hsince i hji hik
      · exact hwaits
    · have ht := (hrun.reachable_of_le (by omega : k ≤ n)).tidy
      refine ⟨k, k.lt_succ_self, (hrun.step k hk).closesOn_or_rejoins ht hbefore hwaits, fun i hki hik => ?_⟩
      obtain rfl : i = k + 1 := by omega
      exact hwaits

/-- A cell whose turn comes while it lies on a cycle has waited on a cycle ever since an edit of a pass in
progress closed one around it, or since its own script was put back on one. Every cycle that it lies on has a
seed of the next pass on it. -/
theorem picked_on_cycle_since (hrun : IsRun l n σ) (hstart : (σ 0).pass = none) (hk : k ≤ n)
    (hpick : (σ k).Picks x) : ((σ k).graph.OnCycle x → ∃ j < k,
        (ClosesOn (σ j) (σ (j + 1)) x ∨ Rejoins (σ j) (σ (j + 1)) x) ∧
          ∀ i, j < i → i ≤ k → (σ i).WaitsOnCycle x) ∧ ¬ (σ k).OnUnseededCycle x := by
  refine ⟨fun hcycle => hrun.since_closed hstart hk (hpick.waitsOnCycle hcycle), ?_⟩
  obtain ⟨p, hp, hx⟩ := hpick.waits
  exact ((hrun.reachable_of_le hk).marked.running p hp).barred x (.inl hx)

lemma isRun_along {acts : List Act} (he : Reachable l e) (h : leads (act? l) e acts = true) :
    IsRun l acts.length (along (act? l) e acts) where
  reachable := he
  step _ hk := step_of_act? (step_along h (List.getElem?_eq_getElem hk))

/-- Whether the turn of a cell comes next and it has a reason to be evaluated. -/
def evaluatesNext (e : Engine) (x : CellId) : Bool :=
  e.pass.any fun p =>
    let s := e.resume p
    (s.next?.bind fun i => p.remaining[i]?) == some x &&
      (e.cell? x).any fun c => s.isTriggered c && (Stage.firstFault (s.inputs c)).isNone

lemma evaluates_of_act? (h : e.act? l (.move none) = some e') (hx : e.evaluatesNext x = true) :
    ∃ c, e.cell? x = some c ∧ c.id = x ∧ Evaluates l e e' c := by
  obtain ⟨p, hp, hmove⟩ := Option.bind_eq_some_iff.mp h
  obtain ⟨s, hs, rfl⟩ := Option.map_eq_some_iff.mp hmove
  simp only [evaluatesNext, hp, Option.any_some, Bool.and_eq_true, beq_iff_eq, Option.any_eq_true] at hx
  obtain ⟨hnext, c, hc, htriggered, hfault⟩ := hx
  obtain ⟨i, y, -, hi, hy, hturn⟩ := Stage.start_of_move? hs
  rw [hi] at hnext
  obtain rfl : y = x := Option.some.inj (hy.symm.trans hnext)
  rcases Stage.judges_or hi hy hturn with ⟨d, hdid, hjudges⟩ | ⟨hidle, -⟩
  · obtain ⟨-, -, -, -, hd, -⟩ := id hjudges
    obtain rfl : d = c := Option.some.inj ((hdid ▸ hd).symm.trans hc)
    exact ⟨d, hc, hdid, p, s, hp, hjudges, Option.isNone_iff_eq_none.mp hfault, rfl⟩
  · exact absurd ((hidle c hc).symm.trans htriggered) Bool.false_ne_true

/-- A script that is going to fail, and two formulas that wait for it to land. -/
def behindScript : Engine :=
  (((new .standard true).grow ⟨"s", .script "throw 1;"⟩).grow ⟨"b", .formula "1" "y"⟩).grow ⟨"a", .formula "y" "x"⟩

/-- While the script is in flight the formula `b` is edited so that it reads what `a` writes. Then the script
lands, and `b` has its turn. -/
def closing : ℕ → Engine :=
  along (act? (.ofConfig .standard)) behindScript [.begin, .move none, .content "b" "x", .move (some 0), .move none]

/-- How the run goes, as far as it can be computed. -/
lemma closing_trace :
    leads (act? (.ofConfig .standard)) behindScript
      [.begin, .move none, .content "b" "x", .move (some 0), .move none] = true ∧
    (closing 0).pass.isNone = true ∧ (closing 4).evaluatesNext "b" = true ∧
    ((closing 4).graph.cycleOf? "b").isSome = true ∧
    ((closing 4).cell? "b").map (·.content) = some (.formula "x" "y") := by
  decide +kernel

lemma isRun_closing : IsRun (.ofConfig .standard) 5 closing := by
  have hreach : Reachable (.ofConfig .standard) behindScript :=
    ⟨.standard, true, ((steps_grow _ _).trans (steps_grow _ _)).trans (steps_grow _ _)⟩
  exact isRun_along hreach closing_trace.1

lemma onCycle_closing : (closing 4).graph.OnCycle "b" :=
  (cycleOf?_isSome_iff (isRun_closing.reachable_of_le (by decide : 4 ≤ 5)).tidy).mp closing_trace.2.2.2.1

lemma exists_evaluates_closing : ∃ c, (closing 4).cell? "b" = some c ∧ c.id = "b" ∧
    Evaluates (.ofConfig .standard) (closing 4) (closing 5) c :=
  evaluates_of_act? (step_along closing_trace.1 rfl) closing_trace.2.2.1

/-- The cycle that the formula `b` lies on when its turn comes was closed around it while it waited. -/
theorem closed_around_waiting_formula : (closing 4).Picks "b" ∧ (∃ j < 4,
    (ClosesOn (closing j) (closing (j + 1)) "b" ∨ Rejoins (closing j) (closing (j + 1)) "b") ∧
      ∀ i, j < i → i ≤ 4 → (closing i).WaitsOnCycle "b") ∧ ¬ (closing 4).OnUnseededCycle "b" := by
  obtain ⟨c, -, hid, heval⟩ := exists_evaluates_closing
  have hpick : (closing 4).Picks "b" := hid ▸ heval.picks
  have hidle : (closing 0).pass = none := Option.isNone_iff_eq_none.mp closing_trace.2.1
  obtain ⟨hsince, hseeded⟩ := picked_on_cycle_since isRun_closing hidle (by decide : 4 ≤ 5) hpick
  exact ⟨hpick, hsince onCycle_closing, hseeded⟩

/-- A formula that lies on a cycle is evaluated. -/
theorem formula_evaluated_on_cycle : IsRun (.ofConfig .standard) 5 closing ∧ (closing 0).pass = none ∧
    (closing 4).graph.OnCycle "b" ∧ ∃ c, c.id = "b" ∧ c.content = .formula "x" "y" ∧
      Evaluates (.ofConfig .standard) (closing 4) (closing 5) c := by
  obtain ⟨c, hc, hid, heval⟩ := exists_evaluates_closing
  have hcontent := closing_trace.2.2.2.2
  rw [hc] at hcontent
  exact ⟨isRun_closing, Option.isNone_iff_eq_none.mp closing_trace.2.1, onCycle_closing, c, hid,
    Option.some.inj hcontent, heval⟩

end Engine

end ReactiveNotebook
