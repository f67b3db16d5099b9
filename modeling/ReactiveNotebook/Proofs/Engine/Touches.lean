import ReactiveNotebook.Proofs.Engine.Arrival
import ReactiveNotebook.Proofs.Engine.Begin
import ReactiveNotebook.Proofs.Engine.Start

/-!
# Which variables a pass touches

Successes commit values to declared variables and to exports. Failures, marks of cells on cycles and exports that
are dropped leave faults and nothing, on what the cells count as writing. Every other variable of the store stays
as it is, the number of its commits included.
-/
namespace ReactiveNotebook

variable {l : Language}

namespace Stage

variable {s t u : Stage} {a : Arrival} {c : Cell} {id source : CellId} {name : String} {slot : Slot}
variable {fault : Fault} {v : Verdict} {names : Names} {exports : Script.Fields} {p q p' q' : String → Prop}

/-- From one stage to the other each variable is as it was, has one of the first names, or has one of the second
names and holds no value. -/
def Touches (p q : String → Prop) (s t : Stage) : Prop :=
  ∀ x, t.engine.store.find? x = s.engine.store.find? x ∨ p x ∨ q x ∧ ∀ v, t.engine.get x ≠ .value v

namespace Touches

lemma of_store (h : t.engine.store = s.engine.store) : Touches p q s t := fun _ => .inl (by rw [h])

@[refl] lemma refl (s : Stage) : Touches p q s s := .of_store rfl

lemma trans (h : Touches p q s t) (h' : Touches p q t u) : Touches p q s u := fun x => by
  rcases h' x with hsame | htouched
  · have hget : u.engine.get x = t.engine.get x := by
      rw [Engine.get, Store.get, hsame]
      rfl
    rw [hsame, hget]
    exact h x
  · exact .inr htouched

lemma mono (h : Touches p q s t) (hp : ∀ x, p x → p' x) (hq : ∀ x, q x → p' x ∨ q' x) : Touches p' q' s t :=
  fun x => (h x).imp_right fun hx => by
    rcases hx with hx | ⟨hx, hno⟩
    · exact .inl (hp x hx)
    · exact (hq x hx).imp_right fun hx => ⟨hx, hno⟩

lemma foldl_mem {α : Type} {f : Stage → α → Stage} (xs : List α) (hf : ∀ s, ∀ a ∈ xs, Touches p q s (f s a))
    (s : Stage) : Touches p q s (xs.foldl f s) := by
  induction xs generalizing s with
  | nil => rfl
  | cons a xs ih =>
    exact (hf s a List.mem_cons_self).trans (ih (fun s b hb => hf s b (List.mem_cons_of_mem _ hb)) _)

end Touches

lemma touches_commit (h : p name ∨ q name ∧ ∀ v, slot ≠ .value v) : Touches p q s (s.commit name slot) := by
  intro x
  by_cases hx : x = name
  · subst hx
    rw [get_commit, if_pos rfl]
    exact .inr h
  · exact .inl (Store.find?_commit_of_ne hx)

lemma touches_mark (hc : ∀ x ∈ c.writes.names, q x) : Touches p q s (s.mark c fault) := by
  have hmodified : Touches p q s (s.modifyCell c.id (Cell.withVerdict (.fault fault))) := .of_store rfl
  refine hmodified.trans (.foldl_mem _ (fun t name hname => touches_commit (.inr ⟨hc name hname, ?_⟩)) _)
  exact fun _ => nofun

lemma touches_fail (hc : ∀ x ∈ c.writes.names, q x) : Touches p q s (s.fail c fault) :=
  (touches_mark hc).trans (.of_store rfl)

lemma touches_block (hc : ∀ c ∈ s.engine.cells, c.id = id → ∀ x ∈ c.writes.names, q x) :
    Touches p q s (s.block id) := by
  unfold block
  split
  · rfl
  · next c hcell =>
    have hmem := List.mem_of_find?_eq_some hcell
    exact (touches_mark (hc c hmem (id_eq_of_cell? hcell))).trans (.of_store rfl)

lemma touches_foldl_block (ids : List CellId) (hc : ∀ c ∈ s.engine.cells, ∀ x ∈ c.writes.names, q x) :
    Touches p q s (ids.foldl block s) := by
  induction ids generalizing s with
  | nil => rfl
  | cons id ids ih =>
    refine (touches_block fun c hcs _ => hc c hcs).trans (ih fun c hcs => ?_)
    rw [cells_block] at hcs
    rcases mem_conclusion.mp hcs with ⟨hcs, -⟩ | ⟨d, hds, -, rfl⟩
    · exact hc c hcs
    · rw [Cell.writes_withVerdict]
      exact hc d hds

lemma touches_retract (h : q name) : Touches p q s (retract id s name) := fun x => by
  by_cases hx : x = name
  · subst hx
    by_cases hw : s.engine.isWrittenElsewhere x id = true
    · exact .inl (by rw [retract, if_pos hw])
    · have hget : (retract id s x).engine.get x = .undefined := by
        rw [get_retract, if_pos ⟨rfl, Bool.eq_false_iff.mpr hw⟩]
      exact .inr (.inr ⟨h, fun v hv => by cases hget.symm.trans hv⟩)
  · refine .inl ?_
    unfold retract
    split
    · rfl
    · exact Store.find?_clear_of_ne hx

/-- The turn of a cell commits a value to the variable that the cell declares only. -/
lemma touches_conclude (hv : ∀ output value, v = .value output value → p output) (hc : ∀ x ∈ c.writes.names, q x) :
    Touches p q s (s.conclude l c v) := by
  cases v with
  | fault f => exact touches_fail hc
  | value output value => exact (touches_commit (.inl (hv output value rfl))).trans (.of_store rfl)
  | text text => exact .of_store rfl
  | script source inputs => exact .of_store rfl

lemma touches_adopt (hp : ∀ f ∈ exports, p f.1) (hc : ∀ x ∈ c.writes.names, q x) :
    Touches p q s (s.adopt c exports) := by
  have hcommits : Touches p q s (exports.foldl (fun s x => s.commit x.1 (.value x.2)) s) :=
    .foldl_mem exports (fun t f hf => touches_commit (.inl (hp f hf))) s
  refine (hcommits.trans (.foldl_mem _ (fun t name hname => touches_retract ?_) _)).trans (.of_store rfl)
  exact hc name (List.mem_filter.mp hname).1

lemma touches_extend (hc : ∀ c ∈ s.engine.cells, ∀ x ∈ c.writes.names, q x) :
    Touches p q s (s.extend source names) := by
  have henlarge : Touches p q s (s.enlarge source names) := .of_store rfl
  exact henlarge.trans (touches_foldl_block (s := s.enlarge source names) _ hc)

/-- The turn of a cell touches the variable that it declares and what it counts as writing. -/
lemma touches_turn (h : Turn l s id t) (hp : ∀ c ∈ s.engine.cells, ∀ x, c.content.output? = some x → p x)
    (hq : ∀ c ∈ s.engine.cells, ∀ x ∈ c.writes.names, q x) : Touches p q s t := by
  cases h with
  | gone _ => exact .of_store rfl
  | unchanged _ _ => exact .of_store rfl
  | @evaluated c v hc _ hv =>
    have hmem : c ∈ s.engine.cells := List.mem_of_find?_eq_some hc
    exact touches_conclude (fun output _ heq => hp c hmem output (Cell.output_of_verdict (heq ▸ hv))) (hq c hmem)

/-- Exports that are taken over touch themselves, and what cells count as writing. -/
lemma touches_accept (hp : ∀ f ∈ exports, p f.1) (hq : ∀ b ∈ s.engine.cells, ∀ x ∈ b.writes.names, q x)
    (hc : ∀ x ∈ c.writes.names, q x) : Touches p q s (s.accept c exports) := by
  have hadopt : Touches p q s (s.adopt c exports) := touches_adopt hp hc
  rcases accept_cases s c exports with ⟨-, heq⟩ | heq
  · exact heq ▸ hadopt
  · -- what the script itself counts as writing now are the exports
    have hcells : ∀ b ∈ (s.readopt c exports).engine.cells, ∀ x ∈ b.writes.names, p x ∨ q x := fun b hb x hx => by
      rcases mem_cells_adopt hb with ⟨hb, -⟩ | ⟨d, -, -, rfl⟩
      · exact .inr (hq b hb x hx)
      · obtain ⟨f, hf, rfl⟩ := List.mem_map.mp (Names.mem_ofList.mp hx)
        exact .inl (hp f hf)
    have hextend : Touches p (fun x => p x ∨ q x) (s.readopt c exports)
        ((s.readopt c exports).extend c.id (novel c exports)) := touches_extend hcells
    rw [heq]
    exact (hadopt.trans (.of_store rfl)).trans (hextend.mono (fun _ hx => hx) fun _ hx => hx)

/-- A result touches the exports of its run, and what cells count as writing. -/
lemma Landing.touches (h : Landing s a t) (hp : ∀ exports, a.run.result = .ok exports → ∀ f ∈ exports, p f.1)
    (hq : ∀ b ∈ s.engine.cells, ∀ x ∈ b.writes.names, q x) : Touches p q s t := by
  have haddressee : ∀ {c}, s.addressee? a = some c → ∀ x ∈ c.writes.names, q x := fun hc =>
    hq _ (List.mem_of_find?_eq_some (cell?_of_addressee? hc))
  cases h with
  | stale _ =>
    obtain ⟨completed, results, heq⟩ := dismiss_shape (s.land a.cell) a.cell
    rw [heq]
    exact .of_store rfl
  | again _ _ => exact .of_store rfl
  | @failed c message logs hc _ _ =>
    have hlanded : Touches p q s (s.landed a logs) := .of_store rfl
    exact hlanded.trans (touches_fail (haddressee hc))
  | @accepted c exports logs hc _ hsettle =>
    have hlanded : Touches p q s (s.landed a logs) := .of_store rfl
    refine hlanded.trans (touches_accept (hp exports (result_of_settle hsettle)) (fun b hb => ?_) (haddressee hc))
    rcases Engine.mem_modifyCell hb with ⟨hb, -⟩ | ⟨d, hd, -, rfl⟩
    · exact hq b hb
    · exact hq d hd

lemma Move.touches (h : s.Move l t) (hdeclared : ∀ c ∈ s.engine.cells, ∀ x, c.content.output? = some x → p x)
    (hruns : ∀ a ∈ s.engine.arriving, ∀ exports, a.run.result = .ok exports → ∀ f ∈ exports, p f.1)
    (hq : ∀ b ∈ s.engine.cells, ∀ x ∈ b.writes.names, q x) : Touches p q s t := by
  cases h with
  | @start i id _ _ _ hid hrun =>
    have hwithdraw : Touches p q s (s.withdraw i) := .of_store rfl
    exact hwithdraw.trans (touches_turn (turn_of_runCell hrun) hdeclared hq)
  | @receive a rest hperm =>
    have hdeliver : Touches p q s (s.deliver rest) := .of_store rfl
    exact hdeliver.trans ((landing_receive _ a).touches (hruns a (hperm.mem_iff.mpr List.mem_cons_self)) hq)

end Stage

namespace Engine

variable {e : Engine} {p q : String → Prop}

/-- The start of a pass touches what cells count as writing. -/
lemma touches_beginPass (hq : ∀ b ∈ e.cells, ∀ x ∈ b.writes.names, q x) :
    Stage.Touches p q e.openPass e.beginPass := by
  have hblock : Stage.Touches p q e.openPass e.blockCycles := Stage.touches_foldl_block (s := e.openPass) _ hq
  exact hblock.trans (.of_store rfl)

end Engine

end ReactiveNotebook
