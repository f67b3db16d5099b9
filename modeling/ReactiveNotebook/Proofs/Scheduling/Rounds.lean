import ReactiveNotebook.Proofs.Scheduling.Agreement
import ReactiveNotebook.Proofs.Scheduling.Incremental
import ReactiveNotebook.Proofs.Scheduling.Termination

/-!
# Runs of a notebook

A run takes over bursts of host writes, goes through passes, and waits for bursts to settle, until nothing is
left to do. In a pass cells are started and results arrive in any order that the scheduler admits. Between two
passes a notebook of predictable cells is ready for the next one, and of two notebooks that agree then, one goes
through the same bursts and passes as the other. Each step leaves less to do, so a run ends.
-/
namespace ReactiveNotebook

open Relation (ReflTransGen TransGen)

variable {l : Language}

namespace Stage

lemma silent_foldl_block (ids : List CellId) (s : Stage) :
    s.engine.store.Silent (ids.foldl block s).engine.store := by
  induction ids generalizing s with
  | nil => exact .refl _
  | cons id ids ih => exact silent_block.trans (ih (s.block id))

lemma panics_of_runReadyFor {s : Stage} {fuel : ℕ} {cause : Panic}
    (h : s.runReadyFor l fuel = .error cause) : ∃ t, ReflTransGen (Move l) s t ∧ t.Panics l := by
  induction fuel generalizing s with
  | zero => cases h
  | succ fuel ih =>
    rcases runReadyFor_succ l fuel s with ⟨hstop, -⟩ | ⟨i, id, hfree, hi, hid, hstart⟩
    · cases hstop.symm.trans h
    · rw [hstart] at h
      cases hrun : (s.withdraw i).runCell l id with
      | error cause => exact ⟨s, .refl, i, id, cause, hi, hid, hrun⟩
      | ok u =>
        obtain ⟨t, hmoves, hpanics⟩ := ih (by rwa [hrun] at h)
        exact ⟨t, .head (.start hfree hi hid hrun) hmoves, hpanics⟩

/-- The time that is taken for the scripts in flight has no part in how a pass goes on. -/
lemma Follows.work {b s : Stage} (h : Follows l b s) (time : ℕ) :
    Follows l b { s with engine := { s.engine with workTime := time } } := by
  have hgoes : s.Goes l { s with engine := { s.engine with workTime := time } } := .host (.work time)
  exact
    { h with
      tidy := hgoes.tidy h.tidy
      steady := hgoes.steady h.steady h.tidy fun a ⟨_, _, _, hr, _⟩ => absurd hr (h.calm a.cell) }

end Stage

namespace Engine

open Stage (Begun Follows Matches Parallels)

variable {e e' e₀ f : Engine} {w : PendingWrite} {x : CellId}

/-- A notebook of predictable cells between two passes. -/
structure Ready (l : Language) (e : Engine) : Prop where
  tidy : e.Tidy
  rest : e.pass = none
  predictable : Predictable l e.cells
  quiet : e.store.Quiet
  marked : ∀ c ∈ e.cells, c.status.isCycle = true → e.graph.OnCycle c.id
  seeded : ∀ c ∈ e.cells, e.graph.OnCycle c.id → c.status.isCycle = true ∨ c.id ∈ e.seeds

/-- Two notebooks agree on all that matters between two passes. -/
structure Agree (e e' : Engine) : Prop where
  cells : e.cells = e'.cells
  graph : e.graph = e'.graph
  seeds : e.seeds = e'.seeds
  get : ∀ v, e.get v = e'.get v
  clock : e.clock = e'.clock
  queue : e.store.queue = e'.store.queue
  window : e.config.settleWindow = e'.config.settleWindow

@[symm] lemma Agree.symm (h : e.Agree e') : e'.Agree e :=
  ⟨h.cells.symm, h.graph.symm, h.seeds.symm, fun v => (h.get v).symm, h.clock.symm, h.queue.symm, h.window.symm⟩

namespace Ready

lemma host (h : e.Ready l) (hh : Host e e') (hq : e'.store.Quiet) : e'.Ready l := by
  have ht := hh.tidy h.tidy
  cases hh with
  | seed ids =>
    exact ⟨ht, h.rest, h.predictable, hq, h.marked, fun c hc hcycle =>
      (h.seeded c hc hcycle).imp_right fun hs => Names.mem_insertAll.mpr (.inr hs)⟩
  | _ => exact ⟨ht, h.rest, h.predictable, hq, h.marked, h.seeded⟩

lemma collect (h : e.Ready l) : e.collect.Ready l := by
  have hquiet := quiet_collect h.quiet
  have ht := collect_tidy h.tidy
  obtain ⟨store, seeds, phase, hseeds, heq⟩ := collect_shape e
  rw [heq] at hquiet ht ⊢
  exact ⟨ht, h.rest, h.predictable, hquiet, h.marked, fun c hc hcycle =>
    (h.seeded c hc hcycle).imp_right (hseeds c.id)⟩

lemma begun (h : e.Ready l) : Begun l e.beginPass where
  predictable := h.predictable.congr fun d hd => by
    have hblank := Stage.cells_blank_of_control (control_blockCycles e)
    have hmem : d.blank ∈ e.openPass.engine.cells.map Cell.blank := hblank ▸ List.mem_map_of_mem hd
    obtain ⟨c, hc, heq⟩ := List.mem_map.mp hmem
    have hrev : c.blank.revision = d.blank.revision := congrArg Cell.revision heq
    have hwrites : c.blank.writes.names = d.blank.writes.names := congrArg (·.writes.names) heq
    exact ⟨c, hc, hrev.symm, hwrites.symm⟩
  tidy := beginPass_tidy h.tidy h.rest
  quiet := (Stage.silent_foldl_block e.blocked e.openPass h.quiet).1
  unseeded := congrArg (·.engine.seeds) (control_blockCycles e)
  off x hx := by
    rw [graph_beginPass]
    exact ((mem_members_beginPass h.tidy).mp hx).2
  marks c hc := by
    rw [graph_beginPass]
    rcases mem_cells_beginPass h.tidy hc with ⟨hc, hout⟩ | ⟨⟨-, hcycle⟩, hmark⟩
    · refine ⟨h.marked c hc, fun hcycle => (h.seeded c hc hcycle).resolve_right fun hs => ?_⟩
      exact hout ⟨reached_of_seed h.tidy hs (List.mem_map_of_mem hc), hcycle⟩
    · exact iff_of_true hmark hcycle

lemma follows (h : e.Ready l) : Follows l e.beginPass e.beginPass := by
  have hfly := flying_beginPass h.tidy h.rest
  have hopen : ∀ x ∈ e.beginPass.pass.members, x ∉ e.beginPass.pass.completed := fun x hx hdone =>
    ((mem_members_beginPass h.tidy).mp hx).2 ((mem_completed_blockCycles h.tidy).mp hdone).2
  have hrerun : e.beginPass.pass.rerun = ∅ := congrArg (·.pass.rerun) (control_blockCycles e)
  have hb := h.begun
  exact
    { Stage.Keeps.refl e.beginPass with
      tidy := hb.tidy
      steady := steady_beginPass h.tidy h.rest h.predictable.declared
      calm := fun x hx => absurd (hrerun ▸ hx) (Names.not_mem_empty x)
      free := fun v _ => rfl
      idle := fun c hc _ => ⟨hc, fun _ _ => rfl⟩
      launched := fun c _ hf => by rw [hfly] at hf; cases hf
      concluded := fun c _ hmember hdone => absurd hdone (hopen c.id hmember)
      ready := fun c _ hdone => by
        rcases hdone with hf | ⟨hmember, hdone⟩
        · rw [hfly] at hf
          cases hf
        · exact absurd hdone (hopen c.id hmember) }

end Ready

namespace Agree

lemma parallels (h : e.Agree e') (hq : e.store.Quiet) (hq' : e'.store.Quiet) :
    Parallels e.beginPass e'.beginPass := by
  have hroots : e.seeds.filter e.graph.contains = e'.seeds.filter e'.graph.contains := by rw [h.seeds, h.graph]
  have hreached : e.reached = e'.reached := by rw [reached, reached, hroots, h.graph]
  have hblocked : e.blocked = e'.blocked := by rw [blocked, blocked, hreached, h.graph]
  have hopen : Matches e.openPass e'.openPass := ⟨h.cells, h.graph, fun v => Prod.ext (h.get v) rfl⟩
  have hmatches : Matches e.blockCycles e'.blockCycles := by
    rw [blockCycles_eq, blockCycles_eq, ← hblocked]
    exact hopen.foldl_block e.blocked
  have hhas : e.openPass.engine.hasCell = e'.openPass.engine.hasCell := by
    funext x
    rw [Engine.hasCell, Engine.hasCell, Engine.cell?, Engine.cell?, hopen.cells]
  have hcompleted : e.blockCycles.pass.completed = e'.blockCycles.pass.completed := by
    have hdone : ∀ e : Engine, e.blockCycles.pass.completed = Names.insertAll ∅ (e.blocked.filter e.openPass.engine.hasCell) :=
      fun e => congrArg (·.pass.completed) (control_blockCycles e)
    rw [hdone, hdone, hblocked, hhas]
  have hqueue : ∀ e : Engine, e.store.Quiet → e.beginPass.engine.store.queue = e.store.queue := fun e hq =>
    (Stage.silent_foldl_block e.blocked e.openPass hq).2
  have hkeeps : ∀ e : Engine, e.beginPass.pass.seeds = e.seeds.filter e.graph.contains ∧
      e.beginPass.engine.clock = e.clock ∧ e.beginPass.engine.config = e.config := fun e =>
    ⟨congrArg (·.pass.seeds) (control_blockCycles e), congrArg (·.engine.clock) (control_blockCycles e),
      congrArg (·.engine.config) (control_blockCycles e)⟩
  exact
    { cells := hmatches.cells
      graph := hmatches.graph
      holds := hmatches.holds
      members := by
        change e.reached.filter (fun id => !e.blockCycles.pass.completed.contains id) =
          e'.reached.filter fun id => !e'.blockCycles.pass.completed.contains id
        rw [hreached, hcompleted]
      roots := by rw [(hkeeps e).1, (hkeeps e').1, hroots]
      clock := by rw [(hkeeps e).2.1, (hkeeps e').2.1, h.clock]
      queue := by rw [hqueue e hq, hqueue e' hq', h.queue]
      window := by rw [(hkeeps e).2.2, (hkeeps e').2.2, h.window] }

lemma takeWrite (h : e.Agree e') (hq : e.store.Quiet) (hq' : e'.store.Quiet) :
    (e.takeWrite w).Agree (e'.takeWrite w) := by
  have hseeds : ∀ e : Engine, (e.takeWrite w).seeds = if !(e.get w.name).same (.value w.value) || w.forced then
      e.seeds.insertAll (e.graph.readersOf w.name) else e.seeds := fun e => by
    change (if (!(e.get w.name).same (.value w.value) || w.forced) = true then _ else _ : Engine).seeds = _
    split <;> rfl
  have hqueue := (silent_takeWrite (w := w) hq).2
  have hqueue' := (silent_takeWrite (w := w) hq').2
  refine ⟨?_, ?_, ?_, fun v => ?_, ?_, ?_, ?_⟩
  · rw [cells_takeWrite, cells_takeWrite, h.cells]
  · obtain ⟨_, _, -, heq⟩ := sameButSeeds_takeWrite e w
    obtain ⟨_, _, -, heq'⟩ := sameButSeeds_takeWrite e' w
    rw [heq, heq']
    exact h.graph
  · rw [hseeds, hseeds, h.get, h.seeds, h.graph]
  · rw [get_takeWrite, get_takeWrite, h.get]
  · obtain ⟨_, _, -, heq⟩ := sameButSeeds_takeWrite e w
    obtain ⟨_, _, -, heq'⟩ := sameButSeeds_takeWrite e' w
    rw [heq, heq']
    exact h.clock
  · rw [hqueue, hqueue', h.queue]
  · obtain ⟨_, _, -, heq⟩ := sameButSeeds_takeWrite e w
    obtain ⟨_, _, -, heq'⟩ := sameButSeeds_takeWrite e' w
    rw [heq, heq']
    exact h.window

lemma foldl_takeWrite (ws : List PendingWrite) (h : e.Agree e') (hq : e.store.Quiet) (hq' : e'.store.Quiet) :
    (ws.foldl Engine.takeWrite e).Agree (ws.foldl Engine.takeWrite e') := by
  induction ws generalizing e e' with
  | nil => exact h
  | cons w ws ih => exact ih (h.takeWrite hq hq') (silent_takeWrite hq).1 (silent_takeWrite hq').1

/-- Two notebooks that agree take over the same burst. -/
lemma collect (h : e.Agree e') (hq : e.store.Quiet) (hq' : e'.store.Quiet) : e.collect.Agree e'.collect := by
  have hsettled : e.store.queue.isSettled e.clock.now e.config.settleWindow =
      e'.store.queue.isSettled e'.clock.now e'.config.settleWindow := by rw [h.queue, h.clock, h.window]
  have hpending : e.store.queue.pending = e'.store.queue.pending := congrArg (·.pending) h.queue
  unfold Engine.collect
  rw [hsettled]
  split
  · dsimp only
    rw [← hpending]
    exact foldl_takeWrite _ ⟨h.cells, h.graph, h.seeds, h.get, h.clock, congrArg (·.drained) h.queue, h.window⟩ hq hq'
  · exact h

end Agree

section Finish

variable {b b' s t : Stage}

lemma ready_endPass (hb : Begun l b) (h : Follows l b s) (hs : s.IsDone) : (endPass s).1.Ready l where
  tidy := by
    have hperm := h.tidy.flights
    rw [hs.2] at hperm
    have hnil : s.engine.arriving = [] := by simpa using hperm.eq_nil
    exact ⟨h.tidy.ids, h.tidy.graph, (fun p hp => by cases hp), fun _ => ⟨hs.2, hnil⟩⟩
  rest := rfl
  predictable := hb.predictable.congr fun d hd => by
    obtain ⟨c, hc, hrev, hw, -⟩ := h.exists_origin hb hd
    exact ⟨c, hc, hrev, hw⟩
  quiet := (h.silent hb.quiet).1
  marked c hc := (h.marks hb hc).mp
  seeded c hc hcycle := .inl ((h.marks hb hc).mpr hcycle)

lemma agree_endPass (hb : Begun l b) (hb' : Begun l b') (hp : Parallels b b') (h : Follows l b s)
    (h' : Follows l b' t) (hs : s.IsDone) (ht : t.IsDone) : (endPass s).1.Agree (endPass t).1 := by
  have hmatches := h.matches_of_done h' hb hp ht hs
  refine ⟨hmatches.cells, hmatches.graph, ?_, fun v => congrArg Prod.fst (hmatches.holds v), ?_, ?_, ?_⟩
  · exact h.seeds.trans (hb.unseeded.trans (hb'.unseeded.symm.trans h'.seeds.symm))
  · exact h.clock.trans (hp.clock.trans h'.clock.symm)
  · exact (h.silent hb.quiet).2.trans (hp.queue.trans (h'.silent hb'.quiet).2.symm)
  · change s.engine.config.settleWindow = t.engine.config.settleWindow
    rw [h.config, h'.config]
    exact hp.window

end Finish

lemma not_settled_of_wait? {time now window : ℕ} {q : WriteQueue} (h : q.wait? now window = some time) :
    q.isSettled now window = false := by
  simp [WriteQueue.isSettled, h]

lemma pending_of_wait? {time now window : ℕ} {q : WriteQueue} (h : q.wait? now window = some time) :
    q.pending ≠ [] := fun hnil => by
  simp [WriteQueue.wait?, hnil] at h

lemma wait?_eq_some_iff {time now window : ℕ} {q : WriteQueue} : q.wait? now window = some time ↔
    q.pending ≠ [] ∧ q.immediate = false ∧
      ∃ last, q.lastWrite = some last ∧ now < last + window ∧ now + time = last + window := by
  unfold WriteQueue.wait?
  cases hlast : q.lastWrite with
  | none => simp
  | some last =>
    by_cases hopen : q.pending = [] ∨ q.immediate = true
    · rw [if_pos (by simpa using hopen)]
      rcases hopen with hnil | himmediate
      · simp [hnil]
      · simp [himmediate]
    · rw [if_neg (by simpa using hopen)]
      rw [not_or, Bool.not_eq_true] at hopen
      by_cases hdone : last + window ≤ now
      · simp [hdone]
      · simp [hdone, hopen]
        omega

/-- The burst that waits settles later than a manual clock can show. -/
def OutOfReach (e : Engine) : Prop :=
  e.clock.isManual = true ∧ (e.store.queue.wait? (2 ^ 64 - 1) e.config.settleWindow).isSome = true

lemma OutOfReach.pending (h : e.OutOfReach) : e.store.queue.pending ≠ [] := by
  obtain ⟨time, hw⟩ := Option.isSome_iff_exists.mp h.2
  exact (wait?_eq_some_iff.mp hw).1

/-- A burst that is out of reach does not settle. -/
lemma OutOfReach.not_settled (h : e.OutOfReach) :
    e.store.queue.isSettled e.clock.now e.config.settleWindow = false := by
  obtain ⟨time, hw⟩ := Option.isSome_iff_exists.mp h.2
  obtain ⟨hpending, himmediate, last, hlast, hlate, -⟩ := wait?_eq_some_iff.mp hw
  have hnow : e.clock.now < 2 ^ 64 := by
    obtain ⟨reading, hclock⟩ : ∃ reading, e.clock = .manual reading := by
      cases hclock : e.clock with
      | manual reading => exact ⟨reading, rfl⟩
      | running elapsed => simp [OutOfReach, hclock, Clock.isManual] at h
    rw [hclock]
    exact reading.toNat_lt
  exact not_settled_of_wait? (wait?_eq_some_iff.mpr ⟨hpending, himmediate, last, hlast, by omega,
    (by omega : _ + (last + e.config.settleWindow - e.clock.now) = _)⟩)

/-- A burst within reach has settled after the time that was left. -/
lemma settled_of_wait? {time : ℕ} (hreach : ¬ e.OutOfReach)
    (h : e.store.queue.wait? e.clock.now e.config.settleWindow = some time) :
    e.store.queue.isSettled (e.clock.after time).now e.config.settleWindow = true := by
  obtain ⟨hpending, himmediate, last, hlast, -, htime⟩ := wait?_eq_some_iff.mp h
  have hdone : last + e.config.settleWindow ≤ (e.clock.after time).now := by
    cases hclock : e.clock with
    | running elapsed =>
      rw [hclock] at htime
      exact htime.ge
    | manual reading =>
      rw [hclock] at htime
      -- the sum is a reading of the clock, so it does not wrap around
      have hshown : last + e.config.settleWindow ≤ 2 ^ 64 - 1 := by
        by_contra hlate
        refine hreach ⟨by rw [hclock]; rfl, Option.isSome_iff_exists.mpr ⟨_, wait?_eq_some_iff.mpr
          ⟨hpending, himmediate, last, hlast, by omega, (by omega : _ + (last + e.config.settleWindow - (2 ^ 64 - 1)) = _)⟩⟩⟩
      change last + e.config.settleWindow ≤ (reading + UInt64.ofNat time).toNat
      have htime : reading.toNat + time = last + e.config.settleWindow := htime
      rw [UInt64.toNat_add, UInt64.toNat_ofNat']
      omega
  have hsettled : e.store.queue.wait? (e.clock.after time).now e.config.settleWindow = none := by
    by_contra hsome
    obtain ⟨left, hleft⟩ := Option.ne_none_iff_exists'.mp hsome
    obtain ⟨-, -, last', hlast', hlate, -⟩ := wait?_eq_some_iff.mp hleft
    obtain rfl : last = last' := Option.some.inj (hlast.symm.trans hlast')
    omega
  simp [WriteQueue.isSettled, hsettled, hpending]

/-- All that is left to do is to wait for a burst that does not settle. -/
structure Stalled (e : Engine) : Prop where
  rest : e.pass = none
  seeds : e.seeds.toList = []
  outOfReach : e.OutOfReach

/-- Nothing is left to do, or nothing but waiting for a burst that does not settle. -/
def Final (e : Engine) : Prop := e.AtRest ∨ e.Stalled

lemma Final.rest (h : e.Final) : e.pass = none := h.elim (·.rest) (·.rest)

/-- A run that is stalled waits for ever. -/
lemma Stalled.proceeds (h : e.Stalled) (hstep : Proceeds l e f) : f.Stalled := by
  have hopen := h.outOfReach.not_settled
  cases hstep with
  | begin _ hs => exact absurd (by rw [collect_of_not_settled hopen]; exact h.seeds) hs
  | collect _ hq _ => rw [hopen] at hq; cases hq
  | @wait phase time _ _ _ =>
    refine ⟨h.rest, h.seeds, ?_, h.outOfReach.2⟩
    have hmanual := h.outOfReach.1
    change (e.clock.after time).isManual = true
    cases hclock : e.clock with
    | manual reading => rfl
    | running elapsed => rw [hclock] at hmanual; cases hmanual
  | move hsome _ => rw [h.rest] at hsome; cases hsome
  | finish hsome _ _ => rw [h.rest] at hsome; cases hsome

lemma Stalled.of_reflTransGen (h : e.Stalled) (hruns : ReflTransGen (Proceeds l) e f) : f.Stalled := by
  induction hruns with
  | refl => exact h
  | tail _ hstep ih => exact ih.proceeds hstep

/-- Between two passes a run goes on unless nothing is left to do. -/
lemma exists_proceeds (hp : e.pass = none) : e.AtRest ∨ ∃ f, e.Proceeds l f := by
  by_cases hs : e.collect.seeds.toList = []
  · cases hq : e.store.queue.isSettled e.clock.now e.config.settleWindow with
    | true => exact .inr ⟨e.collect, .collect hp hq hs⟩
    | false =>
      rw [collect_of_not_settled hq] at hs
      by_cases hpending : e.store.queue.pending = []
      · exact .inl ⟨hp, hs, hpending⟩
      · obtain ⟨time, hw⟩ := exists_wait?_of_not_settled hpending hq
        exact .inr ⟨e.sleep time, .wait hp hs hw⟩
  · exact .inr ⟨_, .begin hp hs⟩

/-- How far the burst of host writes is from being taken over. -/
def burst (e : Engine) : ℕ :=
  if e.store.queue.pending = [] then 0
  else if e.store.queue.isSettled e.clock.now e.config.settleWindow then 1 else 2

/-- A bound of the number of steps that a run has left. -/
def effort (e : Engine) : ℕ :=
  e.burst * (2 * e.cells.length + 3) +
    match e.pass with
    | none => if e.seeds.toList = [] then 0 else 2 * e.cells.length + 2
    | some p => (e.resume p).load + 1

lemma burst_congr (hq : e'.store.queue = e.store.queue) (hc : e'.clock = e.clock) (hw : e'.config = e.config) :
    e'.burst = e.burst := by
  rw [burst, burst, hq, hc, hw]

lemma effort_le (hp : e.pass = none) : e.effort ≤ 6 * e.cells.length + 8 := by
  have hburst : e.burst ≤ 2 := by
    unfold burst
    split
    · omega
    · split <;> omega
  have hmul : e.burst * (2 * e.cells.length + 3) ≤ 2 * (2 * e.cells.length + 3) := Nat.mul_le_mul_right _ hburst
  unfold effort
  rw [hp]
  dsimp only
  split <;> omega

/-- A pass has at most two steps to go for each cell. -/
lemma load_beginPass_le (ht : e.Tidy) (hp : e.pass = none) : e.beginPass.load ≤ 2 * e.cells.length := by
  have hfly := flying_beginPass ht hp
  have hsub : e.beginPass.pass.remaining.toFinset ⊆ (e.cells.map (·.id)).toFinset := fun x hx => by
    rw [List.mem_toFinset] at hx ⊢
    have hknown := (accounted_beginPass ht hp).1.known x hx
    rwa [graph_beginPass, mem_ids_iff ht] at hknown
  have hcard := (Finset.card_le_card hsub).trans (List.toFinset_card_le _)
  rw [List.length_map] at hcard
  unfold Stage.load
  rw [hfly, List.toFinset_nil, Finset.card_empty]
  omega

lemma effort_collect (h : e.Ready l) {phase : Phase}
    (hq : e.store.queue.isSettled e.clock.now e.config.settleWindow = true) :
    ({ e.collect with phase } : Engine).effort < e.effort := by
  have hbefore : e.burst = 1 := by
    have hpending : e.store.queue.pending ≠ [] := fun hnil => by
      simp [WriteQueue.isSettled, hnil] at hq
    rw [burst, if_neg hpending, if_pos hq]
  have hafter : ({ e.collect with phase } : Engine).burst = 0 := if_pos (pending_collect h.quiet hq)
  have hpass : e.collect.pass = none := h.collect.rest
  unfold effort
  rw [hbefore, hafter, h.rest, hpass]
  dsimp only
  rw [cells_collect]
  split <;> split <;> omega

lemma effort_collect_le (h : e.Ready l) : e.collect.effort ≤ e.effort := by
  cases hq : e.store.queue.isSettled e.clock.now e.config.settleWindow with
  | true => exact le_of_lt (effort_collect h hq)
  | false => rw [collect_of_not_settled hq]

lemma effort_beginPass (h : e.Ready l) (hs : e.seeds.toList ≠ []) : e.beginPass.suspend.effort < e.effort := by
  have hqueue : e.beginPass.engine.store.queue = e.store.queue :=
    (Stage.silent_foldl_block e.blocked e.openPass h.quiet).2
  have hburst : e.beginPass.suspend.burst = e.burst :=
    burst_congr hqueue (congrArg (·.engine.clock) (control_blockCycles e)) (congrArg (·.engine.config) (control_blockCycles e))
  have hlength : e.beginPass.suspend.cells.length = e.cells.length := by
    have hids : e.beginPass.engine.cells.map (·.id) = e.cells.map (·.id) := Stage.ids_of_control (control_blockCycles e)
    have hlength := congrArg List.length hids
    rwa [List.length_map, List.length_map] at hlength
  have hload : (e.beginPass.suspend.resume e.beginPass.pass).load ≤ 2 * e.cells.length := load_beginPass_le h.tidy h.rest
  unfold effort
  rw [hburst, hlength, h.rest]
  change _ + ((e.beginPass.suspend.resume e.beginPass.pass).load + 1) < _ + if _ then _ else _
  rw [if_neg hs]
  omega

lemma effort_wait {phase : Phase} {time : ℕ} (hreach : ¬ e.OutOfReach) (hp : e.pass = none) (hs : e.seeds.toList = [])
    (hw : e.store.queue.wait? e.clock.now e.config.settleWindow = some time) :
    (sleep { e with phase } time).effort < e.effort := by
  have hbefore : e.burst = 2 := by
    rw [burst, if_neg (pending_of_wait? hw), not_settled_of_wait? hw]
    rfl
  have hafter : (sleep { e with phase } time).burst = 1 := by
    have hpending : (sleep { e with phase } time).store.queue.pending ≠ [] := pending_of_wait? hw
    rw [burst, if_neg hpending]
    exact if_pos (settled_of_wait? hreach hw)
  unfold effort
  rw [hbefore, hafter]
  change _ + (match e.pass with | none => _ | some p => _) < _
  rw [hp]
  change 1 * (2 * e.cells.length + 3) + (if e.seeds.toList = [] then 0 else _) < _ + if e.seeds.toList = [] then 0 else _
  rw [if_pos hs, if_pos hs]
  omega

section Pass

variable {b s : Stage} {p : Pass}

/-- A step of a pass leaves the burst and the number of cells as they are. -/
lemma effort_of_follows (hb : Begun l b) (h : Follows l b (e.resume p)) (h' : Follows l b s) :
    s.engine.burst = e.burst ∧ s.engine.cells.length = e.cells.length := by
  refine ⟨burst_congr ?_ (h'.clock.trans h.clock.symm) (h'.config.trans h.config.symm), ?_⟩
  · exact (h'.silent hb.quiet).2.trans (h.silent hb.quiet).2.symm
  · have hlength := congrArg List.length (h'.ids.trans h.ids.symm)
    rwa [List.length_map, List.length_map] at hlength

lemma effort_move {time : ℕ} (hb : Begun l b) (h : Follows l b (e.resume p)) (hp : e.pass = some p)
    (hm : (resume { e with workTime := time } p).Move l s) : s.suspend.effort < e.effort := by
  obtain ⟨hs, hload⟩ := (h.work time).move hb hm
  obtain ⟨hburst, hlength⟩ := effort_of_follows hb h hs
  have hburst : s.suspend.burst = e.burst := hburst
  have hlength : s.suspend.cells.length = e.cells.length := hlength
  have hload : (s.suspend.resume s.pass).load < (e.resume p).load := hload
  unfold effort
  rw [hburst, hlength, hp]
  change _ + ((s.suspend.resume s.pass).load + 1) < _
  dsimp only
  omega

lemma effort_finish (hb : Begun l b) (h : Follows l b (e.resume p)) (hp : e.pass = some p) :
    (endPass (e.resume p)).1.effort < e.effort := by
  have hseeds : e.seeds = ∅ := h.seeds.trans hb.unseeded
  unfold effort
  rw [hp]
  change e.burst * (2 * e.cells.length + 3) + (if e.seeds.toList = [] then 0 else _) < _
  have hnil : e.seeds.toList = [] := by rw [hseeds]; rfl
  rw [if_pos hnil]
  dsimp only
  omega

end Pass

/-- A run over predictable cells, between two passes or within one. -/
inductive Orderly (l : Language) (e : Engine) : Prop
  | between (h : e.Ready l)
  | within {p : Pass} {b : Stage} (hp : e.pass = some p) (hb : Begun l b) (h : Follows l b (e.resume p))

/-- The scheduler is stopped at the cell to start next. -/
def Jams (l : Language) (e : Engine) : Prop := ∃ p, e.pass = some p ∧ (e.resume p).Panics l

lemma AtRest.not_proceeds (h : e.AtRest) : ¬ Proceeds l e f := fun hstep => by
  have hopen : e.store.queue.isSettled e.clock.now e.config.settleWindow = false := by
    simp [WriteQueue.isSettled, h.pending]
  cases hstep with
  | begin _ hs => exact hs (by rw [collect_of_not_settled hopen]; exact h.seeds)
  | collect _ hq _ => rw [hopen] at hq; cases hq
  | wait _ _ hw => exact pending_of_wait? hw h.pending
  | move hsome _ => rw [h.rest] at hsome; cases hsome
  | finish hsome _ _ => rw [h.rest] at hsome; cases hsome

lemma AtRest.not_jams (h : e.AtRest) : ¬ e.Jams l := fun ⟨_, hsome, _⟩ => by
  rw [h.rest] at hsome
  cases hsome

lemma jams_of_advance {s : Stage} {cause : Panic} (hs : s.Tidy) (hp : s.engine.pass = none)
    (h : advance l s = .error cause) : ∃ u, ReflTransGen (Proceeds l) s.suspend u ∧ u.Jams l := by
  unfold advance at h
  cases hrun : s.drain.runReady l with
  | error cause =>
    obtain ⟨t, ht, hover⟩ := Stage.panics_of_runReadyFor hrun
    have hmoves : ReflTransGen (Stage.Move l) s t := (Stage.moves_drainFor hs).trans ht
    refine ⟨t.suspend, proceeds_of_moves hmoves hp, t.pass, rfl, ?_⟩
    rw [resume_suspend ((Stage.engine_pass_of_moves hmoves).trans hp)]
    exact hover
  | ok t =>
    simp only [hrun, bind, Except.bind, pure, Except.pure] at h
    split at h <;> cases h

/-- A tick that fails has come to a cell that stops the scheduler. -/
lemma jams_of_tick {cause : Panic} (ht : e.Tidy) (h : e.tick l = .error cause) :
    ∃ u, ReflTransGen (Proceeds l) e u ∧ u.Jams l := by
  rcases tick_cases l ht with ⟨-, -, phase, htick⟩ | ⟨s, hruns, hpass, htidy, htick⟩
  · cases htick.symm.trans h
  · obtain ⟨u, hu, hjams⟩ := jams_of_advance htidy hpass (htick.symm.trans h)
    exact ⟨u, hruns.trans hu, hjams⟩

/-- A run that is stopped has come to such a cell. -/
lemma jams_of_drive {fuel : ℕ} {reports : List Report} {cause : Panic} (ht : e.Tidy)
    (h : e.drive l fuel reports = .error (.panic cause)) : ∃ u, ReflTransGen (Proceeds l) e u ∧ u.Jams l := by
  induction fuel generalizing e reports with
  | zero => cases h
  | succ fuel ih =>
    rcases drive_succ ht fuel reports with ⟨cause', htick, -⟩ | ⟨u, phase, -, -, hround⟩ | ⟨f, reports', hf, hround⟩
    · exact jams_of_tick ht htick
    · cases hround.symm.trans h
    · obtain ⟨u, hu, hjams⟩ := ih (tidy_of_proceeds hf.to_reflTransGen ht) (hround.symm.trans h)
      exact ⟨u, hf.to_reflTransGen.trans hu, hjams⟩

namespace Orderly

/-- Each step leaves less to do, unless there is nothing but waiting in vain. -/
theorem proceeds (h : e.Orderly l) (hstep : Proceeds l e f) : f.Orderly l ∧ (f.effort < e.effort ∨ f.Stalled) := by
  cases h with
  | between h =>
    cases hstep with
    | begin hp hs =>
      have hpass : e.collect.beginPass.engine.pass = none := engine_pass_beginPass.trans (pass_collect.trans hp)
      refine ⟨.within rfl h.collect.begun ?_, .inl ((effort_beginPass h.collect hs).trans_le (effort_collect_le h))⟩
      rw [resume_suspend hpass]
      exact h.collect.follows
    | collect _ hq _ => exact ⟨.between (h.collect.host (.phase _) h.collect.quiet), .inl (effort_collect h hq)⟩
    | @wait phase time hp hs hw =>
      have hready : ({ e with phase } : Engine).Ready l := h.host (.phase _) h.quiet
      refine ⟨.between (hready.host (.sleep time) h.quiet), ?_⟩
      by_cases hreach : e.OutOfReach
      · exact .inr (Stalled.proceeds ⟨hp, hs, hreach⟩ (.wait (l := l) hp hs hw))
      · exact .inl (effort_wait hreach hp hs hw)
    | move hsome _ => rw [h.rest] at hsome; cases hsome
    | finish hsome _ _ => rw [h.rest] at hsome; cases hsome
  | @within p b hp hb h =>
    cases hstep with
    | begin hnone _ => rw [hp] at hnone; cases hnone
    | collect hnone _ _ => rw [hp] at hnone; cases hnone
    | wait hnone _ _ => rw [hp] at hnone; cases hnone
    | @move p' s time hp' hm =>
      obtain rfl : p = p' := Option.some.inj (hp.symm.trans hp')
      refine ⟨.within rfl hb ?_, .inl (effort_move hb h hp hm)⟩
      rw [resume_suspend (hm.engine_pass.trans rfl)]
      exact ((h.work time).move hb hm).1
    | @finish p' hp' hr hf =>
      obtain rfl : p = p' := Option.some.inj (hp.symm.trans hp')
      exact ⟨.between (ready_endPass hb h ⟨hr, hf⟩), .inl (effort_finish hb h hp)⟩

/-- A run goes on until nothing is left to do, unless it is stopped. -/
lemma progress (h : e.Orderly l) : e.AtRest ∨ (∃ f, Proceeds l e f) ∨ e.Jams l := by
  cases h with
  | between h => exact (exists_proceeds h.rest).imp_right .inl
  | @within p b hp hb h =>
    rcases Stage.can_move (l := l) h.tidy with hdone | ⟨s, hm⟩ | hpanics
    · exact .inr (.inl ⟨_, .finish hp hdone.1 hdone.2⟩)
    · exact .inr (.inl ⟨s.suspend, .move hp hm⟩)
    · exact .inr (.inr ⟨p, hp, hpanics⟩)

lemma of_reflTransGen (h : e.Orderly l) (hruns : ReflTransGen (Proceeds l) e f) : f.Orderly l := by
  induction hruns with
  | refl => exact h
  | tail _ hstep ih => exact (ih.proceeds hstep).1

/-- Steps one after the other leave ever less to do, until the run is stalled. -/
lemma run {σ : ℕ → Engine} {n : ℕ} (h : (σ 0).Orderly l) (hsteps : ∀ k < n, Proceeds l (σ k) (σ (k + 1))) :
    ReflTransGen (Proceeds l) (σ 0) (σ n) ∧ ((σ n).effort + n ≤ (σ 0).effort ∨ (σ n).Stalled) := by
  induction n with
  | zero => exact ⟨.refl, .inl le_rfl⟩
  | succ n ih =>
    obtain ⟨hruns, hleft⟩ := ih fun k hk => hsteps k (by omega)
    have hstep := hsteps n (by omega)
    refine ⟨hruns.tail hstep, ?_⟩
    rcases hleft with hle | hstalled
    · exact ((h.of_reflTransGen hruns).proceeds hstep).2.imp_left fun hlt => by omega
    · exact .inr (hstalled.proceeds hstep)

lemma of_transGen (h : e.Orderly l) (hruns : TransGen (Proceeds l) e f) :
    f.Orderly l ∧ (f.effort < e.effort ∨ f.Stalled) := by
  induction hruns with
  | single hstep => exact h.proceeds hstep
  | tail _ hstep ih =>
    obtain ⟨hf, hleft⟩ := ih.1.proceeds hstep
    refine ⟨hf, ?_⟩
    rcases ih.2 with hlt | hstalled
    · exact hleft.imp_left (·.trans hlt)
    · exact .inr (hstalled.proceeds hstep)

lemma tidy (h : e.Orderly l) : e.Tidy := by
  cases h with
  | between h => exact h.tidy
  | within hp hb h => exact suspend_resume hp ▸ suspend_tidy h.tidy rfl

/-- A run that is given enough fuel and runs out of it is stalled. -/
theorem stalled_of_drive {fuel : ℕ} {reports : List Report} (h : e.Orderly l) (hfuel : e.effort < fuel)
    (hdrive : e.drive l fuel reports = .error .outOfFuel) : ∃ u, ReflTransGen (Proceeds l) e u ∧ u.Stalled := by
  induction fuel generalizing e reports with
  | zero => omega
  | succ fuel ih =>
    rcases drive_succ h.tidy fuel reports with ⟨cause, -, hround⟩ | ⟨u, phase, -, -, hround⟩ | ⟨f, reports', hf, hround⟩
    · cases hround.symm.trans hdrive
    · cases hround.symm.trans hdrive
    · obtain ⟨horderly, hleft⟩ := h.of_transGen hf
      rcases hleft with hlt | hstalled
      · obtain ⟨u, hu, hstalled⟩ := ih horderly (by omega) (hround.symm.trans hdrive)
        exact ⟨u, hf.to_reflTransGen.trans hu, hstalled⟩
      · exact ⟨f, hf.to_reflTransGen, hstalled⟩

end Orderly

/-- The run that has come to the engine goes along with one that ends at `e₀`. -/
inductive InStep (l : Language) (e₀ e : Engine) : Prop
  /-- Both runs wait in vain. -/
  | stalled (h : e.Stalled) (h₀ : e₀.Stalled)
  /-- The other run has been where the notebooks agree. -/
  | between {e' : Engine} (h : e.Ready l) (h' : e'.Ready l) (hagree : e.Agree e')
      (hrun : ReflTransGen (Proceeds l) e' e₀)
  /-- The other run has been through a pass that begins alike. -/
  | within {p : Pass} {b b' t : Stage} (hp : e.pass = some p) (hb : Begun l b) (hb' : Begun l b')
      (halike : Parallels b b') (h : Follows l b (e.resume p)) (h' : Follows l b' t) (ht : t.IsDone)
      (hrun : ReflTransGen (Proceeds l) (endPass t).1 e₀)

/-- A run that is within a pass comes to its end. -/
lemma exists_end_of_pass {b s : Stage} (hb : Begun l b) (h : Follows l b s) (hp : s.engine.pass = none)
    (hrun : ReflTransGen (Proceeds l) s.suspend e₀) (hrest : e₀.pass = none) :
    ∃ t, Follows l b t ∧ t.IsDone ∧ ReflTransGen (Proceeds l) (endPass t).1 e₀ := by
  generalize hx : s.suspend = x at hrun
  induction hrun using ReflTransGen.head_induction_on generalizing s with
  | refl =>
    rw [← hx] at hrest
    cases hrest
  | @head x y hstep hrun ih =>
    subst hx
    cases hstep with
    | begin hnone _ => cases hnone
    | collect hnone _ _ => cases hnone
    | wait hnone _ _ => cases hnone
    | @move p s' time hsome hm =>
      cases hsome
      have hstage : resume { s.suspend with workTime := time } s.pass =
          { s with engine := { s.engine with workTime := time } } := by
        unfold resume Stage.suspend
        rw [← hp]
      rw [hstage] at hm
      exact ih ((h.work time).move hb hm).1 (hm.engine_pass.trans hp) rfl
    | @finish p hsome hr hf =>
      cases hsome
      rw [resume_suspend hp] at hrun
      exact ⟨s, h, ⟨hr, hf⟩, hrun⟩

lemma Agree.stalled (h : e.Agree e') (hp : e.pass = none) (hstalled : e'.Stalled) : e.Stalled := by
  refine ⟨hp, h.seeds ▸ hstalled.seeds, ?_⟩
  rw [OutOfReach, h.clock, h.queue, h.window]
  exact hstalled.outOfReach

/-- Where one run goes on between two passes, the other one does too, or both wait in vain. -/
lemma exists_next_of_agree (h : e.Agree e') (hp : e.pass = none) (hstep : Proceeds l e f) (hend : e₀.Final)
    (hrun : ReflTransGen (Proceeds l) e' e₀) :
    (f.Stalled ∧ e₀.Stalled) ∨ ∃ g, Proceeds l e' g ∧ ReflTransGen (Proceeds l) g e₀ := by
  rcases ReflTransGen.cases_head hrun with rfl | hnext
  · rcases hend with hrest | hstalled
    · have hstop : e.AtRest := ⟨hp, h.seeds ▸ hrest.seeds, h.queue ▸ hrest.pending⟩
      exact absurd hstep hstop.not_proceeds
    · exact .inl ⟨(h.stalled hp hstalled).proceeds hstep, hstalled⟩
  · exact .inr hnext

namespace InStep

/-- Between two passes the two runs take the same steps. -/
lemma proceeds_between (h : e.Ready l) (h' : e'.Ready l) (hagree : e.Agree e') (hend : e₀.Final)
    (hrun : ReflTransGen (Proceeds l) e' e₀) (hstep : Proceeds l e f) : InStep l e₀ f := by
  obtain ⟨hf, h₀⟩ | ⟨g, hstep', hrun⟩ := exists_next_of_agree hagree h.rest hstep hend hrun
  · exact .stalled hf h₀
  have hsettled : e'.store.queue.isSettled e'.clock.now e'.config.settleWindow =
      e.store.queue.isSettled e.clock.now e.config.settleWindow := by rw [hagree.queue, hagree.clock, hagree.window]
  have hwait : e'.store.queue.wait? e'.clock.now e'.config.settleWindow =
      e.store.queue.wait? e.clock.now e.config.settleWindow := by rw [hagree.queue, hagree.clock, hagree.window]
  have hcollect := hagree.collect h.quiet h'.quiet
  cases hstep with
  | begin hp hs =>
    cases hstep' with
    | begin hp' hs' =>
      have hpass : e.collect.beginPass.engine.pass = none := engine_pass_beginPass.trans (pass_collect.trans hp)
      have hpass' : e'.collect.beginPass.engine.pass = none := engine_pass_beginPass.trans (pass_collect.trans hp')
      obtain ⟨t, ht, hdone, hrun⟩ := exists_end_of_pass h'.collect.begun h'.collect.follows hpass' hrun hend.rest
      refine .within rfl h.collect.begun h'.collect.begun (hcollect.parallels h.collect.quiet h'.collect.quiet) ?_ ht
        hdone hrun
      rw [resume_suspend hpass]
      exact h.collect.follows
    | collect _ _ hs' => exact absurd (hcollect.seeds ▸ hs') hs
    | wait _ hs' hw =>
      have hopen : e.store.queue.isSettled e.clock.now e.config.settleWindow = false :=
        hsettled.symm.trans (not_settled_of_wait? hw)
      rw [collect_of_not_settled hopen] at hs
      exact absurd (hagree.seeds ▸ hs') hs
    | move hsome _ => rw [h'.rest] at hsome; cases hsome
    | finish hsome _ _ => rw [h'.rest] at hsome; cases hsome
  | @collect phase hp hq hs =>
    cases hstep' with
    | begin _ hs' => exact absurd (hcollect.seeds ▸ hs) hs'
    | @collect phase' hp' hq' _ =>
      have hready : ({ e.collect with phase } : Engine).Ready l := h.collect.host (.phase _) h.collect.quiet
      have hready' : ({ e'.collect with phase := phase' } : Engine).Ready l := h'.collect.host (.phase _) h'.collect.quiet
      exact .between hready hready' ⟨hcollect.cells, hcollect.graph, hcollect.seeds, hcollect.get, hcollect.clock,
        hcollect.queue, hcollect.window⟩ hrun
    | wait _ _ hw => rw [← hsettled, not_settled_of_wait? hw] at hq; cases hq
    | move hsome _ => rw [h'.rest] at hsome; cases hsome
    | finish hsome _ _ => rw [h'.rest] at hsome; cases hsome
  | @wait phase time hp hs hw =>
    cases hstep' with
    | begin _ hs' =>
      rw [collect_of_not_settled (hsettled.trans (not_settled_of_wait? hw))] at hs'
      exact absurd (hagree.seeds ▸ hs) hs'
    | collect _ hq' _ => rw [hsettled, not_settled_of_wait? hw] at hq'; cases hq'
    | @wait phase' time' hp' hs' hw' =>
      obtain rfl : time = time' := Option.some.inj (hw.symm.trans (hwait.symm.trans hw'))
      have hready : ({ e with phase } : Engine).Ready l := h.host (.phase _) h.quiet
      have hready' : ({ e' with phase := phase' } : Engine).Ready l := h'.host (.phase _) h'.quiet
      refine .between (hready.host (.sleep time) h.quiet) (hready'.host (.sleep time) h'.quiet)
        ⟨hagree.cells, hagree.graph, hagree.seeds, hagree.get, ?_, hagree.queue, hagree.window⟩ hrun
      exact congrArg (·.after time) hagree.clock
    | move hsome _ => rw [h'.rest] at hsome; cases hsome
    | finish hsome _ _ => rw [h'.rest] at hsome; cases hsome
  | move hsome _ => rw [h.rest] at hsome; cases hsome
  | finish hsome _ _ => rw [h.rest] at hsome; cases hsome

/-- Whatever step the run takes, it goes along with the other one. -/
theorem proceeds (h : InStep l e₀ e) (hend : e₀.Final) (hstep : Proceeds l e f) : InStep l e₀ f := by
  cases h with
  | stalled h h₀ => exact .stalled (h.proceeds hstep) h₀
  | between h h' hagree hrun => exact proceeds_between h h' hagree hend hrun hstep
  | @within p b b' t hp hb hb' halike h h' ht hrun =>
    cases hstep with
    | begin hnone _ => rw [hp] at hnone; cases hnone
    | collect hnone _ _ => rw [hp] at hnone; cases hnone
    | wait hnone _ _ => rw [hp] at hnone; cases hnone
    | @move p' s time hp' hm =>
      obtain rfl : p = p' := Option.some.inj (hp.symm.trans hp')
      refine .within rfl hb hb' halike ?_ h' ht hrun
      rw [resume_suspend (hm.engine_pass.trans rfl)]
      exact ((h.work time).move hb hm).1
    | @finish p' hp' hr hf =>
      obtain rfl : p = p' := Option.some.inj (hp.symm.trans hp')
      exact .between (ready_endPass hb h ⟨hr, hf⟩) (ready_endPass hb' h' ht)
        (agree_endPass hb hb' halike h h' ⟨hr, hf⟩ ht) hrun

lemma of_reflTransGen (h : InStep l e₀ e) (hend : e₀.Final) (hruns : ReflTransGen (Proceeds l) e f) :
    InStep l e₀ f := by
  induction hruns with
  | refl => exact h
  | tail _ hstep ih => exact ih.proceeds hend hstep

/-- A run that goes along with one that ends is not stopped. -/
lemma not_jams (h : InStep l e₀ e) : ¬ e.Jams l := by
  rintro ⟨p, hp, hpanics⟩
  cases h with
  | stalled h _ => rw [h.rest] at hp; cases hp
  | between h h' hagree hrun => rw [h.rest] at hp; cases hp
  | @within p' b b' t hp' hb hb' halike h h' ht hrun =>
    obtain rfl : p = p' := Option.some.inj (hp.symm.trans hp')
    exact h.not_panics h' hb halike ht hpanics

/-- A run that goes along with one that comes to rest does not wait in vain. -/
lemma not_stalled (h : InStep l e₀ e) (hrest : e₀.AtRest) : ¬ e.Stalled := fun hstalled => by
  cases h with
  | stalled _ h₀ => exact h₀.outOfReach.pending hrest.pending
  | @between e' h h' hagree hrun =>
    have hstalled' : e'.Stalled := hagree.symm.stalled h'.rest hstalled
    exact (hstalled'.of_reflTransGen hrun).outOfReach.pending hrest.pending
  | within hp _ _ _ _ _ _ _ => rw [hstalled.rest] at hp; cases hp

/-- A run that goes along with one that ends comes to rest in the same state. -/
lemma eq_of_atRest (h : InStep l e₀ e) (hrest : e₀.AtRest) (hstop : e.AtRest) :
    e.cells = e₀.cells ∧ ∀ v, e.get v = e₀.get v := by
  cases h with
  | stalled h _ => exact absurd hstop.pending h.outOfReach.pending
  | @between e' h h' hagree hrun =>
    have hstop' : e'.AtRest := ⟨h'.rest, hagree.seeds ▸ hstop.seeds, hagree.queue ▸ hstop.pending⟩
    obtain rfl : e' = e₀ := (ReflTransGen.cases_head hrun).resolve_right fun ⟨g, hstep, _⟩ => hstop'.not_proceeds hstep
    exact ⟨hagree.cells, hagree.get⟩
  | within hp hb hb' halike h h' ht hrun => rw [hstop.rest] at hp; cases hp

end InStep

end Engine

end ReactiveNotebook
