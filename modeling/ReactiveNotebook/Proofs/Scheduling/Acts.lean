import ReactiveNotebook.Proofs.Scheduling.Bookkeeping
import ReactiveNotebook.Proofs.Scheduling.Chronicle

/-!
# Acts and deeds

The edits of a notebook and the steps of its scheduler can be named, so that a run is given by the acts that it
is made of. Deeds are the acts together with the removal of cells and the writes of the host; a chronicle can be
given by them.
-/
namespace ReactiveNotebook

open Script (Value)

variable {l : Language}

/-- An edit, or a step of the scheduler. -/
inductive Act where
  | push (d : Definition)
  | content (id : CellId) (text : String)
  | begin
  | move (choice : Option ℕ)
  | finish

/-- An act, or one of the things that acts leave out. -/
inductive Deed where
  | act (act : Act)
  | remove (id : CellId)
  /-- The host writes a variable and releases the burst. -/
  | write (name : String) (value : Value)
  | collect

def Act.isEdit : Act → Bool
  | .push _ | .content _ _ => true
  | _ => false

namespace Engine

variable {e e' : Engine} {act : Act}

def act? (l : Language) (e : Engine) : Act → Option Engine
  | .push d => (e.pushCell d).toOption
  | .content id text => (e.setContent id text).toOption
  | .begin => if e.pass.isNone then some e.beginPass.suspend else none
  | .move choice => e.pass.bind fun p => ((e.resume p).move? l choice).map Stage.suspend
  | .finish => (e.pass.filter fun p => p.remaining.isEmpty && e.inFlight.isEmpty).map fun p => (endPass (e.resume p)).1

lemma edit_or_schedules_of_act? (h : e.act? l act = some e') : act.isEdit = true ∧ Edit e e' ∨ Schedules l e e' := by
  cases act with
  | push d =>
    simp only [act?] at h
    cases hedit : e.pushCell d with
    | error _ => rw [hedit] at h; cases h
    | ok t =>
      rw [hedit] at h
      cases h
      exact .inl ⟨rfl, .add hedit⟩
  | content id text =>
    simp only [act?] at h
    cases hedit : e.setContent id text with
    | error _ => rw [hedit] at h; cases h
    | ok t =>
      rw [hedit] at h
      cases h
      exact .inl ⟨rfl, .content hedit⟩
  | begin =>
    simp only [act?] at h
    split at h
    · next hp =>
      cases h
      exact .inr (.begin (Option.isNone_iff_eq_none.mp hp))
    · cases h
  | move choice =>
    obtain ⟨p, hp, hmove⟩ := Option.bind_eq_some_iff.mp h
    obtain ⟨s, hs, rfl⟩ := Option.map_eq_some_iff.mp hmove
    exact .inr (.move hp (Stage.move_of_move? hs))
  | finish =>
    obtain ⟨p, hp, rfl⟩ := Option.map_eq_some_iff.mp h
    obtain ⟨hp, hdone⟩ := Option.filter_eq_some_iff.mp hp
    rw [Bool.and_eq_true, List.isEmpty_iff, List.isEmpty_iff] at hdone
    exact .inr (.finish hp hdone.1 hdone.2)

lemma operation_of_act? (h : e.act? l act = some e') : Operation l e e' := by
  rcases edit_or_schedules_of_act? h with ⟨-, hedit⟩ | hschedules
  · exact .edit hedit
  · exact .schedule hschedules

lemma step_of_act? (h : e.act? l act = some e') : Step l e e' := (operation_of_act? h).step

def deed? (l : Language) (e : Engine) : Deed → Option Engine
  | .act act => e.act? l act
  | .remove id => (e.removeCell id).toOption.map (·.1)
  | .write name value => some (e.setImmediate name value)
  | .collect => if e.pass.isNone then some e.collect else none

lemma operation_of_deed? {deed : Deed} (h : e.deed? l deed = some e') : Operation l e e' := by
  cases deed with
  | act act => exact operation_of_act? h
  | remove id =>
    simp only [deed?] at h
    cases hremove : e.removeCell id with
    | error _ => rw [hremove] at h; cases h
    | ok t =>
      rw [hremove] at h
      cases h
      exact .edit (.remove hremove)
  | write name value =>
    cases h
    exact .host (.setImmediate name value) rfl
  | collect =>
    simp only [deed?] at h
    split at h
    · next hp =>
      cases h
      exact .schedule (.collect (Option.isNone_iff_eq_none.mp hp))
    · cases h

lemma isChronicle_along {config : Config} {manual : Bool} {deeds : List Deed}
    (h : leads (deed? l) (new config manual) deeds = true) :
    IsChronicle l deeds.length (along (deed? l) (new config manual) deeds) where
  start := ⟨config, manual, rfl⟩
  step _ hk := operation_of_deed? (step_along h (List.getElem?_eq_getElem hk))

/-- Cells that are added between passes only do not come back too early. -/
lemma noReturn_of_idle {σ : ℕ → Engine} {n : ℕ} (h : ∀ k < n, (σ k).pass.isNone = true ∨
    ((σ (k + 1)).cells.all fun c => (σ k).hasCell c.id) = true) : NoReturn n σ := by
  intro j k x hjk hk _ hgone hback
  rcases h k hk with hidle | hkept
  · exact ⟨k, hjk, le_rfl, Option.isNone_iff_eq_none.mp hidle⟩
  · obtain ⟨c, hc, rfl⟩ := List.mem_map.mp (hasCell_iff.mp hback)
    exact absurd (List.all_eq_true.mp hkept c hc) (by simp [hgone])

end Engine

end ReactiveNotebook
