import Mathlib.Tactic
import ReactiveNotebook.Engine.Run
import ReactiveNotebook.Proofs.Names

/-!
# What evaluation leaves alone

Most of what happens to a stage changes values only: slots of variables and what the cells show. The control
of a stage is the stage with these erased. It keeps the definitions of the cells, the graph, the scripts in
flight and the bookkeeping of the pass, so an operation is described by saying what it does to the control.
-/
namespace ReactiveNotebook

/-- The cell without what its last evaluation left. -/
def Cell.blank (c : Cell) : Cell := { c with status := .pending, rendered := none, logs := [] }

namespace Stage

variable {l : Language} {s s' t : Stage} {c : Cell} {id : CellId} {name : String} {slot : Slot}
variable {fault : Fault} {outcome : Outcome}

/-- The stage without the values of variables, what the cells show, and what has been reported. -/
def control (s : Stage) : Stage where
  engine := { s.engine with store := .empty, storage := [], cells := s.engine.cells.map Cell.blank }
  pass := { s.pass with snapshot := [], changed := ∅, results := [], stale := 0 }

@[simp] lemma control_control (s : Stage) : s.control.control = s.control := by
  simp [control, Function.comp_def, Cell.blank]

/-- Stages with the same control agree in each part that the control keeps. -/
lemma part_of_control {α : Type} (part : Stage → α) (hpart : ∀ s, part s.control = part s)
    (h : s.control = t.control) : part s = part t := by
  rw [← hpart s, h, hpart]

lemma cells_blank_of_control (h : s.control = t.control) :
    s.engine.cells.map Cell.blank = t.engine.cells.map Cell.blank :=
  congrArg (·.engine.cells) h

lemma ids_of_control (h : s.control = t.control) :
    s.engine.cells.map (·.id) = t.engine.cells.map (·.id) := by
  have hb := congrArg (List.map (·.id)) (cells_blank_of_control h)
  rw [List.map_map, List.map_map] at hb
  exact hb

lemma map_ofCell_of_control (h : s.control = t.control) :
    s.engine.cells.map Graph.Source.ofCell = t.engine.cells.map Graph.Source.ofCell := by
  have hb := congrArg (List.map Graph.Source.ofCell) (cells_blank_of_control h)
  rw [List.map_map, List.map_map] at hb
  exact hb

lemma hasCell_eq_contains (e : Engine) (id : CellId) : e.hasCell id = (e.cells.map (·.id)).contains id := by
  rw [Bool.eq_iff_iff]
  simp [Engine.hasCell, Engine.cell?]

lemma hasCell_of_control (h : s.control = t.control) : s.engine.hasCell = t.engine.hasCell := by
  funext id
  rw [hasCell_eq_contains, hasCell_eq_contains, ids_of_control h]

@[simp] lemma control_commit : (s.commit name slot).control = s.control := rfl

/-- What no single operation changes a sequence of them does not change. -/
lemma foldl_keeps {α β : Type} {f : Stage → α → Stage} (part : Stage → β) (hf : ∀ s a, part (f s a) = part s)
    (xs : List α) (s : Stage) : part (xs.foldl f s) = part s := by
  induction xs generalizing s with
  | nil => rfl
  | cons x xs ih => rw [List.foldl_cons, ih, hf]

lemma control_foldl {α : Type} {f : Stage → α → Stage} (hf : ∀ s a, (f s a).control = s.control)
    (xs : List α) (s : Stage) : (xs.foldl f s).control = s.control :=
  foldl_keeps control hf xs s

lemma ids_modifyCell {f : Cell → Cell} (hf : ∀ c, (f c).id = c.id) :
    (s.modifyCell id f).engine.cells.map (·.id) = s.engine.cells.map (·.id) := by
  simp only [modifyCell, Engine.modifyCell, List.map_map]
  refine List.map_congr_left fun c _ => ?_
  simp only [Function.comp_apply]
  split
  · exact hf c
  · rfl

lemma control_modifyCell {f : Cell → Cell} (hf : ∀ c, (f c).blank = c.blank) :
    (s.modifyCell id f).control = s.control := by
  have hcells : (s.engine.cells.map fun c => if c.id == id then f c else c).map Cell.blank =
      s.engine.cells.map Cell.blank := by
    rw [List.map_map]
    refine List.map_congr_left fun c _ => ?_
    simp only [Function.comp_apply]
    split
    · exact hf c
    · rfl
  simp only [control, modifyCell, Engine.modifyCell, hcells]

@[simp] lemma control_mark : (s.mark c fault).control = s.control := by
  unfold mark
  rw [control_foldl fun _ _ => control_commit]
  exact control_modifyCell fun _ => rfl

@[simp] lemma control_retract : (retract id s name).control = s.control := by
  unfold retract
  split
  · rfl
  · rcases h : s.engine.clearVariable name false with ⟨e, had⟩
    have he : e = (s.engine.clearVariable name false).1 := by rw [h]
    subst he
    cases had <;> rfl

lemma control_finish (outcome' : Outcome) :
    (s.finish id outcome).control = (s.control.finish id outcome').control := by
  simp [control, finish, Pass.finish, Cell.blank]

lemma finish_congr (h : s.control = t.control) (outcome' : Outcome) :
    (s.finish id outcome).control = (t.finish id outcome').control := by
  rw [control_finish .success, h, ← control_finish]

lemma control_succeed : (s.succeed id).control = (s.finish id .success).control := by
  refine finish_congr ?_ _
  exact control_modifyCell fun _ => rfl

lemma control_fail : (s.fail c fault).control = (s.finish c.id .success).control :=
  finish_congr control_mark _

lemma control_block :
    (s.block id).control = if s.engine.hasCell id then (s.finish id .success).control else s.control := by
  unfold block Engine.hasCell
  cases s.engine.cell? id with
  | none => rfl
  | some c =>
    simp only [Option.isSome_some, if_true]
    exact finish_congr control_mark _

/-- The cell turned out as one that is evaluated at once: all that remains of its turn is that it is done. -/
lemma control_evaluate {inputs : Inputs} (hc : c.content.isScript = false)
    (h : s.evaluate l c inputs = .ok s') : s'.control = (s.finish c.id .success).control := by
  unfold evaluate at h
  cases hcontent : c.content with
  | script source => simp [hcontent, Content.isScript] at hc
  | formula expression output =>
    simp only [hcontent] at h
    split at h
    · cases h
      rw [control_succeed]
      exact finish_congr control_commit _
    · cases h
      exact control_fail
  | markdown template =>
    simp only [hcontent] at h
    cases hr : l.render template inputs with
    | error cause => simp [hr, Except.mapError, bind, Except.bind] at h
    | ok text =>
      simp only [hr, Except.mapError, bind, Except.bind, pure, Except.pure] at h
      cases h
      rw [control_succeed]
      refine finish_congr ?_ _
      exact control_modifyCell fun _ => rfl
  | input literal output =>
    simp only [hcontent] at h
    cases h
    rw [control_succeed]
    exact finish_congr control_commit _

lemma id_eq_of_cell? (h : s.engine.cell? id = some c) : c.id = id := by
  simpa using List.find?_some h

/-- A script is on its way, or it has failed because there is no thread for it. -/
lemma dispatch_cases {source : String} {inputs : Inputs} (h : s.dispatch l c source inputs = .ok s') :
    s'.control = (s.finish c.id .success).control ∨ s' = s.launch l c source inputs := by
  unfold dispatch at h
  dsimp only at h
  split at h
  · cases h
  · split at h
    · cases h
      exact .inl control_fail
    · cases h
      exact .inr rfl

lemma dispatch_eq_launch {source : String} {inputs : Inputs}
    (hname : (⟨c.id, c.version, source, inputs⟩ : Job).isNamable = true)
    (hrefusal : l.refusal? ⟨c.id, c.version, source, inputs⟩ = none) :
    s.dispatch l c source inputs = .ok (s.launch l c source inputs) := by
  unfold dispatch
  simp only [hname, hrefusal, Bool.not_true, Bool.false_eq_true, if_false]

/-- The turn of a cell either ends it at once or sends its script on its way. -/
theorem runCell_cases (h : s.runCell l id = .ok s') :
    s'.control = (s.finish id .success).control ∨
      ∃ c source, s.engine.cell? id = some c ∧ c.content = .script source ∧
        s.isTriggered c = true ∧ firstFault (s.inputs c) = none ∧
        s' = s.launch l c source (s.inputs c) := by
  unfold runCell at h
  cases hc : s.engine.cell? id with
  | none =>
    simp only [hc] at h
    cases h
    exact .inl (finish_congr rfl _)
  | some c =>
    have hid := id_eq_of_cell? hc
    simp only [hc] at h
    split at h
    · cases h
      exact .inl (finish_congr rfl _)
    · next ht =>
      split at h
      · cases h
        exact .inl (hid ▸ control_fail)
      · next hf =>
        cases hs : c.content.isScript with
        | false => exact .inl (hid ▸ control_evaluate hs h)
        | true =>
          cases hcontent : c.content with
          | script source =>
            simp only [evaluate, hcontent] at h
            rcases dispatch_cases h with hfail | rfl
            · exact .inl (hid ▸ hfail)
            · exact .inr ⟨c, source, rfl, hcontent, by simpa using ht, hf, rfl⟩
          | _ => simp [hcontent, Content.isScript] at hs

lemma remaining_of_runCell (h : s.runCell l id = .ok s') : s'.pass.remaining = s.pass.remaining := by
  rcases runCell_cases h with hcontrol | ⟨c, source, -, -, -, -, rfl⟩
  · exact congrArg (·.pass.remaining) hcontrol
  · rfl

end Stage

end ReactiveNotebook
