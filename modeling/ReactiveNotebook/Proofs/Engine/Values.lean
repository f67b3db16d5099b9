import ReactiveNotebook.Proofs.Engine.Control
import ReactiveNotebook.Proofs.Store.Commit

/-!
# What happens to the values of variables

A pass reads variables from its own snapshot and commits to the store and the snapshot alike. Every operation
of a pass is described by what it does to the slots of the store, to those the pass sees, and to the set of
variables that count as changed.
-/
namespace ReactiveNotebook

variable {name x : String} {slot : Slot} {changed : Bool} {id : CellId} {outcome : Outcome}

namespace Pass

variable {p : Pass}

/-- A recorded commit is what the pass sees of the variable from then on. -/
@[simp] lemma slot_record : (p.record name slot changed).slot x = if x = name then slot else p.slot x := by
  simp only [Pass.slot, record, List.find?_cons, List.find?_filter]
  by_cases hx : x = name
  · simp [hx]
  · have hx' : (name == x) = false := by simpa using Ne.symm hx
    have hp : (fun a : String × Slot => decide ((a.1 != name) = true ∧ (a.1 == x) = true)) =
        fun a => a.1 == x := by
      funext a
      by_cases ha : a.1 = x
      · simp [ha, hx]
      · simp [ha]
    rw [hx', hp, if_neg hx]

@[simp] lemma slot_finish : (p.finish id outcome).slot x = p.slot x := rfl

/-- At the start a pass sees what is committed. -/
lemma slot_start {generation : ℕ} {seeds : Names} {store : Store} :
    (start generation seeds store.snapshot).slot x = store.get x := by
  have h : (store.snapshot.find? (·.1 == x)).map (·.2) = (store.find? x).map (·.slot) := Store.find?_snapshot
  simp only [Pass.slot, start, Store.get]
  cases hv : store.find? x with
  | none =>
    rw [hv] at h
    rw [Option.map_eq_none_iff.mp h]
  | some v =>
    rw [hv] at h
    obtain ⟨p, hp, hps⟩ := Option.map_eq_some_iff.mp h
    rw [hp]
    exact hps

end Pass

namespace Stage

variable {s t : Stage}

@[simp] lemma get_commit : (s.commit name slot).engine.get x = if x = name then slot else s.engine.get x :=
  Store.get_commit

@[simp] lemma slot_commit : (s.commit name slot).pass.slot x = if x = name then slot else s.pass.slot x :=
  Pass.slot_record

lemma changed_commit : (s.commit name slot).pass.changed =
    if (s.engine.get name).same slot then s.pass.changed else s.pass.changed.insert name := by
  change (s.pass.record name slot (!(s.engine.get name).same slot)).changed = _
  unfold Pass.record
  cases (s.engine.get name).same slot <;> rfl

/-- A script that drops an export clears the variable, unless another cell writes it too. -/
lemma get_retract : (retract id s name).engine.get x =
    if x = name ∧ s.engine.isWrittenElsewhere name id = false then .undefined else s.engine.get x := by
  unfold retract
  split
  · next h => simp [h]
  · next h =>
    change (s.engine.store.clear name false s.engine.clock.now).1.get x = _
    rw [Store.get_clear]
    simp [Engine.get, h]

/-- Clearing a variable that was not undefined is recorded as a change. -/
lemma retract_of_undefined (h : s.engine.get name = .undefined) :
    (retract id s name).pass = s.pass := by
  unfold retract
  split
  · rfl
  · have hhad : (s.engine.clearVariable name false).2 = false := by
      change (s.engine.store.clear name false s.engine.clock.now).2 = false
      rw [Store.clear_had, show s.engine.store.get name = .undefined from h]
      rfl
    rcases hc : s.engine.clearVariable name false with ⟨e, had⟩
    rw [hc] at hhad
    cases hhad
    rfl

lemma retract_of_defined (h : s.engine.get name ≠ .undefined)
    (hw : s.engine.isWrittenElsewhere name id = false) :
    (retract id s name).pass = s.pass.record name .undefined true := by
  unfold retract
  rw [if_neg (by simp [hw])]
  have hhad : (s.engine.clearVariable name false).2 = true := by
    change (s.engine.store.clear name false s.engine.clock.now).2 = true
    rw [Store.clear_had]
    change (!(s.engine.get name).isUndefined) = true
    cases hs : s.engine.get name with
    | undefined => exact absurd hs h
    | value v => rfl
    | error f => rfl
  rcases hc : s.engine.clearVariable name false with ⟨e, had⟩
  rw [hc] at hhad
  cases hhad
  rfl

end Stage

end ReactiveNotebook
