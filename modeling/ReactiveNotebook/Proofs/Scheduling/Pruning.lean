import ReactiveNotebook.Proofs.Scheduling.LostUpdate
import ReactiveNotebook.Proofs.Store.Plain

/-!
# What a pass may leave out

A cell that is not seeded is left out of a pass unless a variable that it reads counts as changed or carries a fault.
That is sound since no commit goes unnoticed: as long as a variable does not count as changed, the pass sees in it
what was committed when the pass began. Edits meanwhile do not matter. They only clear variables, which the pass does
not see, and no commit leaves a variable cleared. And since no update is lost, that is what the cell saw when it was
evaluated last. Only of the variables that it writes itself it need not have seen the present value.
-/
namespace ReactiveNotebook

open Script (Value)

variable {l : Language}

namespace Stage

variable {s t u : Stage} {a : Arrival} {c : Cell} {id source : CellId} {name : String} {slot : Slot}
variable {fault : Fault} {v : Verdict} {names : Names} {exports : Script.Fields}

/-- The pass sees what is committed, except for variables that have been cleared meanwhile. -/
def Mirrors (s : Stage) : Prop := ∀ x, s.engine.get x = s.pass.slot x ∨ s.engine.get x = .undefined

/-- From one stage to the other the pass has noted as changed whatever it sees differently. -/
structure Notes (s t : Stage) : Prop where
  mirrors : s.Mirrors → t.Mirrors
  noted : s.Mirrors → ∀ x, x ∉ t.pass.changed → t.pass.slot x = s.pass.slot x
  keeps : ∀ x ∈ s.pass.changed, x ∈ t.pass.changed

namespace Notes

lemma of_eq (hg : ∀ x, t.engine.get x = s.engine.get x) (hp : ∀ x, t.pass.slot x = s.pass.slot x)
    (hc : t.pass.changed = s.pass.changed) : Notes s t where
  mirrors h x := by
    rw [hg, hp]
    exact h x
  noted _ x _ := hp x
  keeps _ hx := hc ▸ hx

/-- The bookkeeping of a pass and of its engine may be anything. -/
lemma of_rest (hstore : t.engine.store = s.engine.store) (hsnapshot : t.pass.snapshot = s.pass.snapshot)
    (hc : t.pass.changed = s.pass.changed) : Notes s t :=
  .of_eq (fun x => by rw [Engine.get, hstore, Engine.get]) (fun x => by rw [Pass.slot, hsnapshot, Pass.slot]) hc

@[refl] lemma refl (s : Stage) : Notes s s := .of_rest rfl rfl rfl

lemma trans (h : Notes s t) (h' : Notes t u) : Notes s u where
  mirrors hs := h'.mirrors (h.mirrors hs)
  noted hs x hx := (h'.noted (h.mirrors hs) x hx).trans (h.noted hs x fun hold => hx (h'.keeps x hold))
  keeps x hx := h'.keeps x (h.keeps x hx)

lemma foldl {α : Type} {f : Stage → α → Stage} (hf : ∀ s a, Notes s (f s a)) (xs : List α) (s : Stage) :
    Notes s (xs.foldl f s) := by
  induction xs generalizing s with
  | nil => rfl
  | cons a xs ih => exact (hf s a).trans (ih _)

end Notes

/-- A commit is noted, unless what is committed stood there already. -/
lemma notes_commit (hslot : slot ≠ .undefined) : Notes s (s.commit name slot) where
  mirrors h x := by
    rw [get_commit, slot_commit]
    split
    · exact .inl rfl
    · exact h x
  noted h x hx := by
    rw [changed_commit] at hx
    rw [slot_commit]
    split at hx
    · next hsame =>
      have hget : s.engine.get name = slot := Slot.eq_of_same hsame
      split
      · next hxn =>
        subst hxn
        rcases h x with hmirrored | hcleared
        · exact hget.symm.trans hmirrored
        · exact absurd (hget.symm.trans hcleared) hslot
      · rfl
    · rw [if_neg fun hxn => hx (Names.mem_insert.mpr (.inl hxn))]
  keeps x hx := by
    rw [changed_commit]
    split
    · exact hx
    · exact Names.mem_insert.mpr (.inr hx)

lemma notes_retract : Notes s (retract id s name) := by
  by_cases hw : s.engine.isWrittenElsewhere name id = true
  · have heq : retract id s name = s := by simp [retract, hw]
    rw [heq]
  · have hw : s.engine.isWrittenElsewhere name id = false := by simpa using hw
    by_cases hu : s.engine.get name = .undefined
    · have hpass : (retract id s name).pass = s.pass := retract_of_undefined hu
      refine .of_eq (fun x => ?_) (fun x => by rw [hpass]) (by rw [hpass])
      rw [get_retract]
      split
      · next hx => rw [hx.1, hu]
      · rfl
    · have hpass := retract_of_defined hu hw
      refine ⟨fun h x => ?_, fun _ x hx => ?_, fun x hx => ?_⟩
      · rw [get_retract]
        split
        · exact .inr rfl
        · next hx =>
          rw [hpass, Pass.slot_record, if_neg fun hxn => hx ⟨hxn, hw⟩]
          exact h x
      · rw [hpass] at hx ⊢
        rw [Pass.slot_record, if_neg fun hxn => hx (Names.mem_insert.mpr (.inl hxn))]
      · rw [hpass]
        exact Names.mem_insert.mpr (.inr hx)

lemma notes_fail : Notes s (s.fail c fault) := by
  have hmodified : Notes s (s.modifyCell c.id (Cell.withVerdict (.fault fault))) := .of_rest rfl rfl rfl
  exact (hmodified.trans (.foldl (fun t name => notes_commit (by simp)) _ _)).trans (.of_rest rfl rfl rfl)

lemma notes_block : Notes s (s.block id) := by
  unfold block
  split
  · rfl
  · exact notes_fail.trans (.of_rest rfl rfl rfl)

lemma notes_conclude : Notes s (s.conclude l c v) := by
  cases v with
  | fault f => exact notes_fail
  | value output value => exact (notes_commit (by simp)).trans (.of_rest rfl rfl rfl)
  | text text => exact .of_rest rfl rfl rfl
  | script source inputs => exact .of_rest rfl rfl rfl

lemma notes_turn (h : Turn l s id t) : Notes s t := by
  cases h with
  | gone _ => exact .of_rest rfl rfl rfl
  | unchanged _ _ => exact .of_rest rfl rfl rfl
  | evaluated _ _ _ => exact notes_conclude

lemma notes_adopt : Notes s (s.adopt c exports) := by
  have hcommits : Notes s (exports.foldl (fun s x => s.commit x.1 (.value x.2)) s) :=
    .foldl (fun t f => notes_commit (by simp)) exports s
  exact (hcommits.trans (.foldl (fun t name => notes_retract) _ _)).trans (.of_rest rfl rfl rfl)

lemma notes_extend : Notes s (s.extend source names) := by
  have henlarge : Notes s (s.enlarge source names) := .of_rest rfl rfl rfl
  exact henlarge.trans (.foldl (fun t id => notes_block) _ _)

lemma notes_accept : Notes s (s.accept c exports) := by
  rcases accept_cases s c exports with ⟨-, heq⟩ | heq
  · exact heq ▸ notes_adopt
  · have hreadopt : Notes s (s.readopt c exports) := notes_adopt.trans (.of_rest rfl rfl rfl)
    exact heq ▸ hreadopt.trans notes_extend

lemma Landing.notes (h : Landing s a t) : Notes s t := by
  cases h with
  | stale _ =>
    obtain ⟨completed, results, heq⟩ := dismiss_shape (s.land a.cell) a.cell
    exact heq ▸ .of_rest rfl rfl rfl
  | again _ _ => exact .of_rest rfl rfl rfl
  | @failed c message logs _ _ _ =>
    have hlanded : Notes s (s.landed a logs) := .of_rest rfl rfl rfl
    exact hlanded.trans notes_fail
  | @accepted c exports logs _ _ _ =>
    have hlanded : Notes s (s.landed a logs) := .of_rest rfl rfl rfl
    exact hlanded.trans notes_accept

/-- Whatever a move of a pass replaces is noted. -/
lemma Move.notes (h : s.Move l t) : Notes s t := by
  cases h with
  | @start i id _ _ _ _ hrun =>
    have hwithdraw : Notes s (s.withdraw i) := .of_rest rfl rfl rfl
    exact hwithdraw.trans (notes_turn (turn_of_runCell hrun))
  | @receive a rest _ =>
    have hdeliver : Notes s (s.deliver rest) := .of_rest rfl rfl rfl
    exact hdeliver.trans (landing_receive _ a).notes

end Stage

namespace Engine

variable {e e' : Engine} {p p' : Pass} {σ : ℕ → Engine} {c : Cell} {j k n : ℕ}

lemma notes_beginPass (e : Engine) : Stage.Notes e.openPass e.beginPass := by
  have hblock : Stage.Notes e.openPass e.blockCycles := .foldl (fun t id => Stage.notes_block) e.blocked _
  exact hblock.trans (.of_rest rfl rfl rfl)

/-- An edit leaves a variable as it is, or clears it. -/
lemma Edit.get_or_undefined (h : Edit e e') (ht : e.Tidy) (x : String) : e'.get x = e.get x ∨ e'.get x = .undefined := by
  rcases h.effect ht.ids ht.graph with rfl | heffect
  · exact .inl rfl
  · exact (heffect.value x).imp_right Cleared.undefined

/-- The pass in progress, if there is one, has noted as changed whatever it sees differently from the given view. -/
def Noted (view : String → Slot) (e : Engine) : Prop :=
  ∀ p, e.pass = some p → (e.resume p).Mirrors ∧ ∀ x, x ∉ p.changed → p.slot x = view x

lemma noted_beginPass (e : Engine) : e.beginPass.suspend.Noted e.get := by
  intro p hp
  cases hp
  have hopen : e.openPass.Mirrors := fun x => .inl Pass.slot_start.symm
  have hnotes := notes_beginPass e
  exact ⟨hnotes.mirrors hopen, fun x hx => (hnotes.noted hopen x hx).trans Pass.slot_start⟩

lemma Noted.move {view : String → Slot} {s : Stage} (h : e.Noted view) (hp : e.pass = some p)
    (hm : (e.resume p).Move l s) : s.suspend.Noted view := by
  intro p' hp'
  cases hp'
  obtain ⟨hmirrors, hview⟩ := h p hp
  refine ⟨hm.notes.mirrors hmirrors, fun x hx => ?_⟩
  exact (hm.notes.noted hmirrors x hx).trans (hview x fun hold => hx (hm.notes.keeps x hold))

/-- What happens beside the moves of a pass in progress leaves it alone, and clears variables at most. -/
lemma Noted.of_beside {view : String → Slot} (h : e.Noted view) (hpass : e'.pass = e.pass)
    (hget : ∀ x, e'.get x = e.get x ∨ e'.get x = .undefined) : e'.Noted view := by
  intro p hp
  obtain ⟨hmirrors, hview⟩ := h p (hpass ▸ hp)
  refine ⟨fun x => ?_, hview⟩
  rcases hget x with hsame | hcleared
  · exact (hmirrors x).imp (fun hold => hsame.trans hold) fun hold => hsame.trans hold
  · exact .inr hcleared

lemma Noted.operation {view : String → Slot} (h : e.Noted view) (hop : Operation l e e') (ht : e.Tidy)
    (hbusy : e.pass ≠ none) : e'.Noted view := by
  rcases hop.edit_or_ongoing with hedit | hongoing
  · have hpass : e'.pass = e.pass := by
      rcases hedit.shape with rfl | ⟨cells, store, seeds, rfl⟩ <;> rfl
    exact h.of_beside hpass (hedit.get_or_undefined ht)
  · cases hongoing with
    | host hh =>
      have hpass : e'.pass = e.pass := by cases hh <;> rfl
      exact h.of_beside hpass fun x => .inl (hh.get_eq x)
    | collect hp => exact absurd hp hbusy
    | begin hp => exact absurd hp hbusy
    | move hp hm => exact h.move hp hm
    | finish _ _ _ => exact fun _ => nofun

/-- As long as the pass that began at some moment is in progress, a variable that does not count as changed is seen
as it was committed at that moment. -/
theorem IsChronicle.noted (h : IsChronicle l n σ) (hidle : (σ j).pass = none) (hjk : j < k) (hk : k ≤ n)
    (hbusy : ∀ i, j < i → i ≤ k → (σ i).pass ≠ none) : (σ k).Noted (σ j).get := by
  induction k, hjk using Nat.le_induction with
  | base =>
    have hop := h.step j (by omega)
    have hbegun := hbusy (j + 1) (by omega) le_rfl
    rcases hop.edit_or_ongoing with hedit | hongoing
    · have hpass : (σ (j + 1)).pass = (σ j).pass := by
        rcases hedit.shape with heq | ⟨cells, store, seeds, heq⟩ <;> rw [heq]
      exact absurd (hpass.trans hidle) hbegun
    · generalize σ (j + 1) = e' at hongoing hbegun
      cases hongoing with
      | host hh =>
        have hpass : e'.pass = (σ j).pass := by cases hh <;> rfl
        exact absurd (hpass.trans hidle) hbegun
      | collect hp => exact absurd (pass_collect.trans hp) hbegun
      | begin _ => exact noted_beginPass (σ j)
      | move hp _ => rw [hidle] at hp; cases hp
      | finish hp _ _ => rw [hidle] at hp; cases hp
  | succ k hjk ih =>
    have hbefore : (σ k).Noted (σ j).get := ih (by omega) fun i hji hik => hbusy i hji (by omega)
    exact hbefore.operation (h.step k hk) (h.tidy (by omega)) (hbusy k (by omega) (by omega))

namespace LeftOut

variable {v : String}

end LeftOut

/-- Whether the turn of a cell comes next. -/
def picks (e : Engine) (x : CellId) : Bool :=
  e.pass.any fun p => ((e.resume p).next?.bind fun i => p.remaining[i]?) == some x

end Engine

end ReactiveNotebook
