import ReactiveNotebook.Proofs.Engine.Alike
import ReactiveNotebook.Proofs.Graph.Cycle
import ReactiveNotebook.Proofs.Scheduling.Termination

/-!
# A pass without an end

A pass whose moves lead back to a stage like an earlier one goes on for ever. Three scripts in a ring do so
without a cycle at any single moment: each of them exports its variable only as long as it sees none from the
one before, so an edge that closed the ring is gone before the next one appears.
-/
namespace ReactiveNotebook

deriving instance DecidableEq for Cell

variable {l : Language}

lemma forall₂_bare_iff {cs ds : List Cell} :
    List.Forall₂ (fun c d => Cell.bare c = Cell.bare d) cs ds ↔ cs.map Cell.bare = ds.map Cell.bare := by
  rw [← List.forall₂_eq_eq_eq, List.forall₂_map_left_iff, List.forall₂_map_right_iff]

namespace Stage

variable {s s' t u : Stage}

lemma Alike.trans (h : s.Alike t) (h' : t.Alike u) : s.Alike u where
  control := h.control.trans h'.control
  cells := forall₂_bare_iff.mpr ((forall₂_bare_iff.mp h.cells).trans (forall₂_bare_iff.mp h'.cells))
  storage := h.storage.trans h'.storage
  get x := (h.get x).trans (h'.get x)
  slot x := (h.slot x).trans (h'.slot x)
  changed := h.changed.trans h'.changed

/-- If moves lead back to a stage like one of the stages passed, they can be gone on with for ever. -/
lemma exists_run_of_return {R : ℕ → Stage} {i n : ℕ} (hmoves : ∀ k < n, (R k).Move l (R (k + 1)))
    (hi : i < n) (hreturn : (R n).Alike (R i)) :
    ∃ σ : ℕ → Stage, σ 0 = R 0 ∧ (∀ k, (σ k).Move l (σ (k + 1))) ∧ ∀ k, ∃ j < n, (σ k).Alike (R j) := by
  have hstep : ∀ s : { s : Stage // ∃ j < n, s.Alike (R j) },
      ∃ t : { s : Stage // ∃ j < n, s.Alike (R j) }, s.1.Move l t.1 := by
    rintro ⟨s, j, hj, hs⟩
    obtain ⟨t, hm, ht⟩ := hs.symm.move (hmoves j hj)
    by_cases hlast : j + 1 < n
    · exact ⟨⟨t, j + 1, hlast, ht.symm⟩, hm⟩
    · obtain rfl : j + 1 = n := by omega
      exact ⟨⟨t, i, hi, ht.symm.trans hreturn⟩, hm⟩
  choose next hnext using hstep
  let run : ℕ → { s : Stage // ∃ j < n, s.Alike (R j) } :=
    fun k => next^[k] ⟨R 0, 0, by omega, .refl _⟩
  refine ⟨fun k => (run k).1, rfl, fun k => ?_, fun k => (run k).2⟩
  have hrun : run (k + 1) = next (run k) := Function.iterate_succ_apply' ..
  change (run k).1.Move l (run (k + 1)).1
  rw [hrun]
  exact hnext (run k)

/-- The next move with as few scripts in flight as possible: the oldest result arrives before a cell is
started. -/
def serialMove? (l : Language) (s : Stage) : Option Stage :=
  match s.engine.arriving with
  | a :: rest => some ((s.deliver rest).receive a)
  | [] =>
    match s.next?.bind fun i => (s.pass.remaining[i]?).map fun id => (i, id) with
    | none => none
    | some (i, id) => ((s.withdraw i).runCell l id).toOption

lemma move_of_serialMove? (hs : s.Tidy) (h : s.serialMove? l = some t) : s.Move l t := by
  unfold serialMove? at h
  split at h
  · next a rest harr =>
    cases h
    exact .receive (by rw [harr])
  · next harr =>
    have hf : s.engine.inFlight = [] := by
      have hperm := hs.flights
      rw [harr] at hperm
      exact hperm.symm.eq_nil
    split at h
    · cases h
    · next i id hnext =>
      obtain ⟨j, hj, hid⟩ := Option.bind_eq_some_iff.mp hnext
      obtain ⟨x, hx, heq⟩ := Option.map_eq_some_iff.mp hid
      cases heq
      cases hrun : (s.withdraw i).runCell l id with
      | error cause => rw [hrun] at h; cases h
      | ok s' =>
        rw [hrun] at h
        cases h
        exact .start (.inr hf) hj hx hrun

def serialRun (l : Language) (s : Stage) (n : ℕ) : Stage := (fun s => (s.serialMove? l).getD s)^[n] s

/-- Whether a number of serial moves can be made, with no cycle before any of them. -/
def movesFreely (l : Language) : ℕ → Stage → Bool
  | 0, _ => true
  | n + 1, s =>
    !s.engine.graph.hasCycles &&
      match s.serialMove? l with
      | none => false
      | some t => movesFreely l n t

lemma moves_of_movesFreely {n : ℕ} (hs : s.Tidy) (h : s.movesFreely l n = true) :
    ∀ k < n, (s.serialRun l k).Tidy ∧ (s.serialRun l k).engine.graph.hasCycles = false ∧
      (s.serialRun l k).Move l (s.serialRun l (k + 1)) := by
  induction n generalizing s with
  | zero => exact fun k hk => absurd hk (Nat.not_lt_zero k)
  | succ n ih =>
    rw [movesFreely, Bool.and_eq_true, Bool.not_eq_true'] at h
    obtain ⟨hcycles, hmove⟩ := h
    split at hmove
    · cases hmove
    · next t ht =>
      have hm := move_of_serialMove? hs ht
      have hrun : ∀ k, s.serialRun l (k + 1) = t.serialRun l k := fun k => by
        rw [serialRun, Function.iterate_succ_apply, ht]
        rfl
      intro k hk
      cases k with
      | zero =>
        rw [hrun]
        exact ⟨hs, hcycles, hm⟩
      | succ k =>
        rw [hrun, hrun]
        exact ih (hs.move hm) hmove k (by omega)

/-- What the scheduler keeps beside the cells and the values. -/
structure Schedule where
  config : Config
  clock : Clock
  phase : Phase
  seeds : Names
  inFlight : List (CellId × ℕ)
  workTime : ℕ
  generations : ℕ × ℕ
  start : Names
  members : Names
  remaining : List CellId
  completed : Names
  rerun : Names
  order : List CellId
  changed : Names
  deriving DecidableEq

def schedule (s : Stage) : Schedule where
  config := s.engine.config
  clock := s.engine.clock
  phase := s.engine.phase
  seeds := s.engine.seeds
  inFlight := s.engine.inFlight
  workTime := s.engine.workTime
  generations := (s.engine.generation, s.pass.generation)
  start := s.pass.seeds
  members := s.pass.members
  remaining := s.pass.remaining
  completed := s.pass.completed
  rerun := s.pass.rerun
  order := s.pass.order
  changed := s.pass.changed

/-- Whether two stages without results under way are alike. -/
def isLike (s t : Stage) : Bool :=
  decide (s.schedule = t.schedule) && decide (s.engine.cells.map Cell.bare = t.engine.cells.map Cell.bare)
    && s.engine.arriving.isEmpty && t.engine.arriving.isEmpty
    && s.engine.storage.isEmpty && t.engine.storage.isEmpty
    && (s.engine.store.entries ++ t.engine.store.entries).all (fun v =>
      (s.engine.get v.name).same (t.engine.get v.name))
    && (s.pass.snapshot ++ t.pass.snapshot).all fun p => (s.pass.slot p.1).same (t.pass.slot p.1)

lemma get_of_unknown {name : String} (h : ∀ v ∈ s.engine.store.entries, v.name ≠ name) :
    s.engine.get name = .undefined := by
  have hnone : s.engine.store.find? name = none := by simpa [Store.find?] using h
  simp [Engine.get, Store.get, hnone]

lemma slot_of_unknown {name : String} (h : ∀ p ∈ s.pass.snapshot, p.1 ≠ name) :
    s.pass.slot name = .undefined := by
  have hnone : s.pass.snapshot.find? (·.1 == name) = none := by
    rw [List.find?_eq_none]
    exact fun p hp => by simpa using h p hp
  simp [Pass.slot, hnone]

lemma alike_of_isLike (hs : s.Tidy) (ht : t.Tidy) (hps : s.engine.pass = none) (hpt : t.engine.pass = none)
    (h : s.isLike t = true) : s.Alike t := by
  simp only [isLike, Bool.and_eq_true, decide_eq_true_eq, List.isEmpty_iff, List.all_eq_true,
    List.mem_append] at h
  obtain ⟨⟨⟨⟨⟨⟨⟨hschedule, hbare⟩, has⟩, hat⟩, hss⟩, hst⟩, hget⟩, hslot⟩ := h
  have hblank : s.engine.cells.map Cell.blank = t.engine.cells.map Cell.blank := by
    have h := congrArg (List.map Cell.blank) hbare
    rwa [List.map_map, List.map_map] at h
  have hsource : s.engine.cells.map Graph.Source.ofCell = t.engine.cells.map Graph.Source.ofCell := by
    have h := congrArg (List.map Graph.Source.ofCell) hblank
    rwa [List.map_map, List.map_map] at h
  have hgraph : s.engine.graph = t.engine.graph := by
    rw [hs.graph, ht.graph]
    exact Graph.build_congr hsource
  have hchanged : s.pass.changed = t.pass.changed := congrArg (·.changed) hschedule
  simp only [schedule, Schedule.mk.injEq, Prod.mk.injEq] at hschedule
  constructor
  · simp only [control, Stage.mk.injEq, Engine.mk.injEq, Pass.mk.injEq]
    simp_all
  · exact forall₂_bare_iff.mpr hbare
  · rw [hss, hst]
  · intro x
    by_cases hx : ∃ v, (v ∈ s.engine.store.entries ∨ v ∈ t.engine.store.entries) ∧ v.name = x
    · obtain ⟨v, hv, rfl⟩ := hx
      exact Slot.eq_of_same (hget v hv)
    · rw [get_of_unknown fun v hv hvx => hx ⟨v, .inl hv, hvx⟩,
        get_of_unknown fun v hv hvx => hx ⟨v, .inr hv, hvx⟩]
  · intro x
    by_cases hx : ∃ p, (p ∈ s.pass.snapshot ∨ p ∈ t.pass.snapshot) ∧ p.1 = x
    · obtain ⟨p, hp, rfl⟩ := hx
      exact Slot.eq_of_same (hslot p hp)
    · rw [slot_of_unknown fun p hp hpx => hx ⟨p, .inl hp, hpx⟩,
        slot_of_unknown fun p hp hpx => hx ⟨p, .inr hp, hpx⟩]
  · exact hchanged

/-- Serial moves that come back to a stage like one passed can be gone on with for ever, and no cell lies on a
cycle at any moment. -/
lemma exists_run_of_isLike {i n : ℕ} (hs : s.Tidy) (hp : s.engine.pass = none)
    (hfree : s.movesFreely l (n + 1) = true) (hi : i ≤ n)
    (hlike : (s.serialRun l (n + 1)).isLike (s.serialRun l i) = true) :
    ∃ σ : ℕ → Stage, σ 0 = s ∧ (∀ k, (σ k).Move l (σ (k + 1))) ∧ ∀ k x, ¬ (σ k).engine.graph.OnCycle x := by
  have hmoves := moves_of_movesFreely hs hfree
  have hpass : ∀ k ≤ n + 1, (s.serialRun l k).engine.pass = none := by
    intro k
    induction k with
    | zero => exact fun _ => hp
    | succ k ih => exact fun hk => (hmoves k hk).2.2.engine_pass.trans (ih (by omega))
  have hreturn := alike_of_isLike ((hmoves n n.lt_succ_self).1.move (hmoves n n.lt_succ_self).2.2)
    (hmoves i (by omega)).1 (hpass (n + 1) le_rfl) (hpass i (by omega)) hlike
  obtain ⟨σ, hstart, hrun, hlikes⟩ :=
    exists_run_of_return (fun k hk => (hmoves k hk).2.2) (Nat.lt_succ_of_le hi) hreturn
  refine ⟨σ, hstart, hrun, fun k x => ?_⟩
  obtain ⟨j, hj, hlike⟩ := hlikes k
  obtain ⟨ht, hcycles, -⟩ := hmoves j hj
  rw [hlike.graph]
  rw [ht.graph] at hcycles ⊢
  exact Graph.not_onCycle_of_not_hasCycles ht.ids hcycles

end Stage

namespace Engine

/-- A script that exports a number as `out` as long as it sees no `seen`. -/
def alternating (id seen out : String) : Definition :=
  ⟨id, .script ("if " ++ seen ++ " == () \x7b #\x7b " ++ out ++ ": 1 \x7d \x7d")⟩

/-- Three scripts, each of which reads what the one before exports. -/
def ring : Engine :=
  (((new .standard true).grow (alternating "u" "m" "n")).grow (alternating "w" "n" "w")).grow
    (alternating "s" "w" "m")

lemma reachable_ring : Reachable l ring :=
  ⟨.standard, true, ((steps_grow _ _).trans (steps_grow _ _)).trans (steps_grow _ _)⟩

/-- After 22 moves the pass over the ring is where it was after 10. -/
lemma exists_ring_run : ∃ σ : ℕ → Stage, σ 0 = ring.beginPass ∧
    (∀ k, (σ k).Move (.ofConfig .standard) (σ (k + 1))) ∧ ∀ k x, ¬ (σ k).engine.graph.OnCycle x := by
  have htidy : ring.beginPass.Tidy := beginPass_tidy (reachable_ring (l := .ofConfig .standard)).tidy rfl
  have hfree : ring.beginPass.movesFreely (.ofConfig .standard) (21 + 1) = true := by decide +kernel
  have hlike : (ring.beginPass.serialRun (.ofConfig .standard) (21 + 1)).isLike
      (ring.beginPass.serialRun (.ofConfig .standard) 10) = true := by decide +kernel
  exact Stage.exists_run_of_isLike htidy rfl hfree (by decide) hlike

/-- A notebook whose only cell asks for more decimals than formatting allows. -/
def wideField : Engine := (new .standard true).grow ⟨"a", .markdown "\x7b\x7b 1.5 | fixed,70000 \x7d\x7d"⟩

/-- A pass need not end though the graph has no cycle at any moment: the scripts of the ring run for ever, and
a template that asks for too wide a field stops its pass. -/
theorem pass_without_cycle_need_not_end :
    (∃ σ : ℕ → Stage, σ 0 = ring.beginPass ∧ (∀ k, (σ k).Move (.ofConfig .standard) (σ (k + 1))) ∧
      ∀ k x, ¬ (σ k).engine.graph.OnCycle x) ∧
    (wideField.tick (.ofConfig .standard)).toOption.isNone = true := by
  refine ⟨exists_ring_run, ?_⟩
  decide +kernel

end Engine

end ReactiveNotebook
