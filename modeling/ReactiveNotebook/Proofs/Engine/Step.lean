import Mathlib.Logic.Relation
import ReactiveNotebook.Proofs.Engine.Edit
import ReactiveNotebook.Proofs.Engine.Move

/-!
# The steps of an engine

An engine is edited, written to by its host, and moved on by its scheduler. The steps are finer than the
calls that an engine offers: an edit may come between any two moves of a pass and results of scripts arrive
in any order, so a property of all sequences of steps holds for every interleaving. Ticks and runs are
sequences of steps.
-/
namespace ReactiveNotebook

open Script (Value Fields)

variable {l : Language}

namespace Stage

/-- The engine between two steps of its pass. -/
def suspend (s : Stage) : Engine := { s.engine with pass := some s.pass }

end Stage

namespace Engine

variable {e e' : Engine} {p : Pass}

def resume (e : Engine) (p : Pass) : Stage := ⟨{ e with pass := none }, p⟩

/-- What a host may do beside editing the notebook. -/
inductive Host (e : Engine) : Engine → Prop
  | set (name : String) (value : Value) : Host e (e.set name value)
  | setForced (name : String) (value : Value) : Host e (e.setForced name value)
  | setImmediate (name : String) (value : Value) : Host e (e.setImmediate name value)
  | flush : Host e e.flush
  | sleep (nanos : ℕ) : Host e (e.sleep nanos)
  | subscribe (name : String) (forward : Option String) :
      Host e { e with store := (e.store.subscribe name forward).1 }
  | unsubscribe (h : Subscription) : Host e { e with store := (e.store.unsubscribe h).1 }
  | storage (fields : Fields) : Host e { e with storage := fields }
  | seed (ids : List CellId) : Host e (e.seedAll ids)
  /-- Time passes for the scripts in flight. -/
  | work (time : ℕ) : Host e { e with workTime := time }
  | phase (phase : Phase) : Host e { e with phase }

/-- A step of an engine. -/
inductive Step (l : Language) (e : Engine) : Engine → Prop
  | edit {e' : Engine} (h : Edit e e') : Step l e e'
  | host {e' : Engine} (h : Host e e') : Step l e e'
  /-- A settled burst of host writes is taken over. -/
  | collect (h : e.pass = none) : Step l e e.collect
  | begin (h : e.pass = none) : Step l e e.beginPass.suspend
  | move {p : Pass} {s : Stage} (h : e.pass = some p) (hm : (e.resume p).Move l s) : Step l e s.suspend
  | finish {p : Pass} (h : e.pass = some p) (hr : p.remaining = []) (hf : e.inFlight = []) :
      Step l e (endPass (e.resume p)).1

/-- A step that is no edit. -/
inductive Ongoing (l : Language) (e : Engine) : Engine → Prop
  | host {e' : Engine} (h : Host e e') : Ongoing l e e'
  | collect (h : e.pass = none) : Ongoing l e e.collect
  | begin (h : e.pass = none) : Ongoing l e e.beginPass.suspend
  | move {p : Pass} {s : Stage} (h : e.pass = some p) (hm : (e.resume p).Move l s) : Ongoing l e s.suspend
  | finish {p : Pass} (h : e.pass = some p) (hr : p.remaining = []) (hf : e.inFlight = []) :
      Ongoing l e (endPass (e.resume p)).1

lemma Ongoing.step (h : Ongoing l e e') : Step l e e' := by
  cases h with
  | host h => exact .host h
  | collect h => exact .collect h
  | begin h => exact .begin h
  | move h hm => exact .move h hm
  | finish h hr hf => exact .finish h hr hf

/-- The engine is one that steps lead to from a notebook without cells. -/
def Reachable (l : Language) (e : Engine) : Prop :=
  ∃ config manual, Relation.ReflTransGen (Step l) (new config manual) e

/-- The bookkeeping of the scheduler between two steps. -/
structure Tidy (e : Engine) : Prop where
  ids : (e.cells.map (·.id)).Nodup
  graph : e.graph = Graph.build e.cells
  pass : ∀ p, e.pass = some p → (e.resume p).Tidy
  /-- Without a pass no script is in flight. -/
  idle : e.pass = none → e.inFlight = [] ∧ e.arriving = []

lemma resume_suspend {s : Stage} (h : s.engine.pass = none) : s.suspend.resume s.pass = s := by
  unfold resume Stage.suspend
  rw [← h]

end Engine

namespace Stage

variable {s s' : Stage} {a : Arrival} {c : Cell} {id : CellId}

/-- Moves stay inside the pass. -/
lemma engine_pass_extend {names : Names} : (s.extend id names).engine.pass = s.engine.pass := by
  rw [extend_eq]
  exact congrArg (·.engine.pass) (control_foldl_block _ _)

lemma engine_pass_accept {exports : Fields} : (s.accept c exports).engine.pass = s.engine.pass := by
  have hadopt : (s.adopt c exports).engine.pass = s.engine.pass :=
    congrArg (·.engine.pass) (control_adopt s c exports)
  rw [accept_eq]
  split
  · rw [engine_pass_extend]
    exact hadopt
  · exact hadopt

lemma Landing.engine_pass (h : Landing s a s') : s'.engine.pass = s.engine.pass := by
  cases h with
  | stale _ =>
    simp only [dismiss]
    split <;> rfl
  | again _ _ => rfl
  | failed _ _ _ => exact congrArg (·.engine.pass) control_fail
  | accepted _ _ _ => exact engine_pass_accept

theorem Move.engine_pass (h : s.Move l s') : s'.engine.pass = s.engine.pass := by
  cases h with
  | start _ _ _ hrun =>
    rcases runCell_cases hrun with hcontrol | ⟨c, source, -, -, -, -, rfl⟩
    · exact congrArg (·.engine.pass) hcontrol
    · rfl
  | receive _ => exact (landing_receive _ _).engine_pass

end Stage

namespace Engine

variable {e e' : Engine} {p : Pass}

lemma Edit.tidy (h : Edit e e') (ht : e.Tidy) : e'.Tidy := by
  have hids := h.nodup_ids ht.ids
  rcases h.shape with rfl | ⟨cells, store, seeds, rfl⟩
  · exact ht
  · exact ⟨hids, rfl, fun p hp => { ht.pass p hp with ids := hids, graph := rfl }, ht.idle⟩

lemma Host.tidy (h : Host e e') (ht : e.Tidy) : e'.Tidy := by
  cases h <;> exact { ht with pass := fun p hp => { ht.pass p hp with } }

/-- Taking over host writes changes the store and the seeds only. -/
lemma sameButSeeds_takeWrite (e : Engine) (w : PendingWrite) : SameButSeeds e (e.takeWrite w) := by
  unfold takeWrite
  split
  next store changed _ =>
  simp only
  split
  · exact ⟨_, _, fun x hx => Names.mem_insertAll.mpr (.inr hx), rfl⟩
  · exact ⟨_, _, fun x hx => hx, rfl⟩

lemma sameButSeeds_foldl_takeWrite (ws : List PendingWrite) (e : Engine) :
    SameButSeeds e (ws.foldl takeWrite e) := by
  induction ws generalizing e with
  | nil => rfl
  | cons w ws ih => exact (sameButSeeds_takeWrite e w).trans (ih _)

lemma collect_shape (e : Engine) :
    ∃ store seeds phase, (∀ x ∈ e.seeds, x ∈ seeds) ∧ e.collect = { e with store, seeds, phase } := by
  unfold collect
  split
  · obtain ⟨store, seeds, hs, heq⟩ := sameButSeeds_foldl_takeWrite e.store.queue.pending
      { e with phase := .collecting, store := { e.store with queue := e.store.queue.drained } }
    exact ⟨store, seeds, .collecting, hs, heq⟩
  · exact ⟨e.store, e.seeds, e.phase, fun _ h => h, rfl⟩

lemma mem_seeds_collect {x : CellId} (hx : x ∈ e.seeds) : x ∈ e.collect.seeds := by
  obtain ⟨store, seeds, phase, hseeds, heq⟩ := collect_shape e
  rw [heq]
  exact hseeds x hx

lemma cells_collect (e : Engine) : e.collect.cells = e.cells := by
  obtain ⟨store, seeds, phase, -, heq⟩ := collect_shape e
  rw [heq]

lemma pass_collect : e.collect.pass = e.pass := by
  obtain ⟨store, seeds, phase, -, heq⟩ := collect_shape e
  rw [heq]

lemma collect_tidy (ht : e.Tidy) : e.collect.Tidy := by
  obtain ⟨store, seeds, phase, -, heq⟩ := collect_shape e
  rw [heq]
  exact { ht with pass := fun p hp => { ht.pass p hp with } }

/-- The stage of a new pass before the cells on cycles are marked. -/
def openPass (e : Engine) : Stage where
  engine := { e with phase := .executing, generation := e.generation + 1, seeds := ∅ }
  pass := Pass.start (e.generation + 1) (e.seeds.filter e.graph.contains) e.store.snapshot

/-- The cells that the seeds of a new pass reach. -/
def reached (e : Engine) : Names := e.graph.closure (e.seeds.filter e.graph.contains).toList

/-- The stage of a new pass after the cells on cycles have been marked. -/
def blockCycles (e : Engine) : Stage :=
  ((e.graph.nodes.map (·.id)).filter fun id =>
    e.reached.contains id && (e.graph.cycleOf? id).isSome).foldl Stage.block e.openPass

lemma beginPass_eq (e : Engine) :
    e.beginPass =
      let members := e.reached.filter fun id => !e.blockCycles.pass.completed.contains id
      { e.blockCycles with pass := { e.blockCycles.pass with
        members, order := e.graph.order members, remaining := e.graph.order members } } :=
  rfl

lemma control_blockCycles (e : Engine) :
    e.blockCycles.control = ({ e.openPass with pass := { e.openPass.pass with
      completed := e.openPass.pass.completed.insertAll (((e.graph.nodes.map (·.id)).filter fun id =>
        e.reached.contains id && (e.graph.cycleOf? id).isSome).filter e.openPass.engine.hasCell) } } :
      Stage).control :=
  Stage.control_foldl_block _ _

lemma engine_pass_beginPass : e.beginPass.engine.pass = e.pass :=
  congrArg (·.engine.pass) (control_blockCycles e)

lemma beginPass_tidy (ht : e.Tidy) (hp : e.pass = none) : e.beginPass.Tidy := by
  obtain ⟨hf, ha⟩ := ht.idle hp
  have hcontrol := control_blockCycles e
  have hfly : e.blockCycles.engine.inFlight = e.inFlight := congrArg (·.engine.inFlight) hcontrol
  have harr : e.blockCycles.engine.arriving = e.arriving := congrArg (·.engine.arriving) hcontrol
  have hrerun : e.blockCycles.pass.rerun = ∅ := congrArg (·.pass.rerun) hcontrol
  have hgraph : e.blockCycles.engine.graph = e.graph := congrArg (·.engine.graph) hcontrol
  have hnil : e.beginPass.flying = [] := by
    change e.blockCycles.engine.inFlight.map _ = []
    rw [hfly, hf]
    rfl
  have hcoherent : e.graph.Coherent := by
    rw [ht.graph]
    exact Graph.coherent_build ht.ids
  rw [beginPass_eq] at hnil ⊢
  exact
    { ids := by
        change (e.blockCycles.engine.cells.map _).Nodup
        rw [Stage.ids_of_control hcontrol]
        exact ht.ids
      graph := by
        change e.blockCycles.engine.graph = Graph.build e.blockCycles.engine.cells
        rw [hgraph, ht.graph]
        exact (Graph.build_congr (Stage.map_ofCell_of_control hcontrol)).symm
      flights := by
        change (e.blockCycles.engine.arriving.map _).Perm e.blockCycles.engine.inFlight
        rw [hfly, harr, hf, ha]
        exact .nil
      single := hnil ▸ List.nodup_nil
      waiting := Graph.nodup_order hcoherent
      grounded := fun id _ => hnil ▸ List.not_mem_nil
      rerun := fun id hid => by
        change id ∈ e.blockCycles.pass.rerun at hid
        rw [hrerun] at hid
        exact absurd hid (Names.not_mem_empty id) }

lemma suspend_tidy {s : Stage} (h : s.Tidy) (hp : s.engine.pass = none) : s.suspend.Tidy where
  ids := h.ids
  graph := h.graph
  pass p hp' := by
    have hps : p = s.pass := (Option.some.inj hp').symm
    rw [hps, resume_suspend hp]
    exact h
  idle hn := by cases hn

/-- The scheduler stays tidy along every step. -/
theorem Step.tidy (h : Step l e e') (ht : e.Tidy) : e'.Tidy := by
  cases h with
  | edit h => exact h.tidy ht
  | host h => exact h.tidy ht
  | collect _ => exact collect_tidy ht
  | begin hp =>
    exact suspend_tidy (beginPass_tidy ht hp) (engine_pass_beginPass.trans hp)
  | move hp hm => exact suspend_tidy ((ht.pass _ hp).move hm) hm.engine_pass
  | @finish p hp hr hf =>
    have hnil : e.arriving = [] := by
      have hperm : (e.arriving.map fun a => (a.cell, a.version)).Perm e.inFlight := (ht.pass p hp).flights
      rw [hf] at hperm
      simpa using hperm.eq_nil
    exact ⟨ht.ids, ht.graph, (fun p hp => by cases hp), fun _ => ⟨hf, hnil⟩⟩

lemma new_tidy (config : Config) (manual : Bool) : (new config manual).Tidy :=
  ⟨List.nodup_nil, rfl, (fun p hp => by cases hp), fun _ => ⟨rfl, rfl⟩⟩

lemma steps_tidy (h : Relation.ReflTransGen (Step l) e e') (ht : e.Tidy) : e'.Tidy := by
  induction h with
  | refl => exact ht
  | tail _ hs ih => exact hs.tidy ih

/-- The scheduler of every engine that can be reached is tidy. -/
theorem Reachable.tidy (h : Reachable l e) : e.Tidy := by
  obtain ⟨config, manual, hsteps⟩ := h
  exact steps_tidy hsteps (new_tidy config manual)

end Engine

end ReactiveNotebook
