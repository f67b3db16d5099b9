import ReactiveNotebook.Proofs.Engine.Tick

/-!
# Passes along given choices

A pass is determined by what is chosen at each move: to start the next cell, or to let one of the results under way
arrive. So the stages of a pass can be computed from a list of choices.
-/
namespace ReactiveNotebook

variable {l : Language}

namespace Engine

/-- The notebook with one more cell at the end. -/
def grow (e : Engine) (d : Definition) : Engine := (e.pushCell d).toOption.getD e

lemma steps_grow (e : Engine) (d : Definition) : Relation.ReflTransGen (Step l) e (e.grow d) := by
  unfold grow pushCell
  cases h : e.addCell d e.cells.length with
  | error _ => exact .refl
  | ok _ => exact .single (.edit (.add h))

end Engine

section Along

variable {α β : Type} {f : α → β → Option α} {a : α} {b : β} {bs : List β} {k : ℕ}

/-- What the first `k` of some steps lead to. -/
def along (f : α → β → Option α) (a : α) (bs : List β) (k : ℕ) : α :=
  (bs.take k).foldl (fun a b => (f a b).getD a) a

/-- Whether the steps can be made one after the other. -/
def leads (f : α → β → Option α) : α → List β → Bool
  | _, [] => true
  | a, b :: bs =>
    match f a b with
    | none => false
    | some a => leads f a bs

lemma step_along (h : leads f a bs = true) (hk : bs[k]? = some b) :
    f (along f a bs k) b = some (along f a bs (k + 1)) := by
  induction bs generalizing a k with
  | nil => cases hk
  | cons first bs ih =>
    rw [leads] at h
    split at h
    · cases h
    · next t ht =>
      cases k with
      | zero =>
        obtain rfl : first = b := Option.some.inj hk
        change f a first = some ((f a first).getD a)
        rw [ht]
        rfl
      | succ k =>
        have hsucc : ∀ j, along f a (first :: bs) (j + 1) = along f t bs j := fun j => by
          change (bs.take j).foldl _ ((f a first).getD a) = _
          rw [ht]
          rfl
        rw [hsucc, hsucc]
        exact ih h hk

end Along

namespace Stage

variable {s t : Stage} {a : Arrival} {c : Cell} {choice : Option ℕ} {choices : List (Option ℕ)} {k : ℕ}

/-- The move that starts the next cell, or lets the result at a given place arrive. -/
def move? (l : Language) (s : Stage) : Option ℕ → Option Stage
  | none =>
    if s.engine.config.parallelScripts || s.engine.inFlight.isEmpty then
      (s.next?.bind fun i => (s.pass.remaining[i]?).map fun id => (i, id)).bind fun p =>
        ((s.withdraw p.1).runCell l p.2).toOption
    else none
  | some i => (s.engine.arriving[i]?).map fun a => (s.deliver (s.engine.arriving.eraseIdx i)).receive a

lemma perm_eraseIdx {i : ℕ} (ha : s.engine.arriving[i]? = some a) :
    s.engine.arriving.Perm (a :: s.engine.arriving.eraseIdx i) := by
  obtain ⟨hlt, rfl⟩ := List.getElem?_eq_some_iff.mp ha
  exact (List.getElem_cons_eraseIdx_perm hlt).symm

lemma start_of_move? (h : s.move? l none = some t) : ∃ i id,
    (s.engine.config.parallelScripts = true ∨ s.engine.inFlight = []) ∧ s.next? = some i ∧
      s.pass.remaining[i]? = some id ∧ (s.withdraw i).runCell l id = .ok t := by
  simp only [move?] at h
  split at h
  · next hfree =>
    obtain ⟨⟨i, id⟩, hnext, hrun⟩ := Option.bind_eq_some_iff.mp h
    obtain ⟨j, hj, hid⟩ := Option.bind_eq_some_iff.mp hnext
    obtain ⟨x, hx, heq⟩ := Option.map_eq_some_iff.mp hid
    cases heq
    have hfree : s.engine.config.parallelScripts = true ∨ s.engine.inFlight = [] := by simpa using hfree
    cases hturn : (s.withdraw i).runCell l id with
    | error cause => rw [hturn] at hrun; cases hrun
    | ok s' =>
      rw [hturn] at hrun
      cases hrun
      exact ⟨i, id, hfree, hj, hx, hturn⟩
  · cases h

lemma move_of_move? (h : s.move? l choice = some t) : s.Move l t := by
  cases choice with
  | some i =>
    obtain ⟨a, ha, rfl⟩ := Option.map_eq_some_iff.mp h
    exact .receive (perm_eraseIdx ha)
  | none =>
    obtain ⟨i, id, hfree, hi, hid, hrun⟩ := start_of_move? h
    exact .start hfree hi hid hrun

def route (l : Language) (s : Stage) (choices : List (Option ℕ)) (k : ℕ) : Stage :=
  (choices.take k).foldl (fun s choice => (s.move? l choice).getD s) s

/-- Whether the choices can be made one after the other. -/
def isRoute (l : Language) : Stage → List (Option ℕ) → Bool
  | _, [] => true
  | s, choice :: choices =>
    match s.move? l choice with
    | none => false
    | some t => isRoute l t choices

lemma isRoute_eq_leads : s.isRoute l choices = leads (move? l) s choices := by
  induction choices generalizing s with
  | nil => rfl
  | cons choice choices ih =>
    rw [isRoute, leads]
    cases s.move? l choice with
    | none => rfl
    | some t => exact ih

lemma move?_route (h : s.isRoute l choices = true) (hk : choices[k]? = some choice) :
    (s.route l choices k).move? l choice = some (s.route l choices (k + 1)) :=
  step_along (isRoute_eq_leads ▸ h) hk

end Stage

end ReactiveNotebook
