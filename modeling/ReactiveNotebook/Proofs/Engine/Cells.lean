import ReactiveNotebook.Proofs.Engine.Receive

/-!
# Which cells an operation touches

Ending the evaluation of a cell touches that cell only, and so does taking over the result of a script, apart
from the cells that turn out to lie on a cycle then.
-/
namespace ReactiveNotebook

namespace Stage

variable {s s' : Stage} {a : Arrival} {c d : Cell} {id : CellId}

lemma cells_foldl {α : Type} {f : Stage → α → Stage} (hf : ∀ s a, (f s a).engine.cells = s.engine.cells)
    (xs : List α) (s : Stage) : (xs.foldl f s).engine.cells = s.engine.cells :=
  foldl_keeps (·.engine.cells) hf xs s

lemma cells_commit {name : String} {slot : Slot} : (s.commit name slot).engine.cells = s.engine.cells := rfl

lemma cells_retract {name : String} : (retract id s name).engine.cells = s.engine.cells := by
  unfold retract
  split <;> rfl

lemma mem_modifyCell_of_ne {f : Cell → Cell} (hc : c ∈ s.engine.cells) (hne : c.id ≠ id) :
    c ∈ (s.modifyCell id f).engine.cells := by
  have hb : (c.id == id) = false := by simpa using hne
  have hmem := List.mem_map_of_mem (f := fun c : Cell => if c.id == id then f c else c) hc
  simpa [hb, modifyCell, Engine.modifyCell] using hmem

lemma mem_modifyCell {f : Cell → Cell} (hc : c ∈ s.engine.cells) :
    f c ∈ (s.modifyCell c.id f).engine.cells := by
  have hmem := List.mem_map_of_mem (f := fun d : Cell => if d.id == c.id then f d else d) hc
  simpa [modifyCell, Engine.modifyCell] using hmem

lemma mem_fail {fault : Fault} (hc : c ∈ s.engine.cells) (hid : c.id = d.id) :
    ∃ c' ∈ (s.fail d fault).engine.cells, c'.id = c.id ∧ c'.logs = c.logs ∧ c'.status = .failed fault := by
  simp only [fail, finish, mark]
  rw [cells_foldl fun _ _ => cells_commit, ← hid]
  exact ⟨_, mem_modifyCell hc, rfl, rfl, rfl⟩

lemma mem_block_of_ne (hc : c ∈ s.engine.cells) (hne : c.id ≠ id) : c ∈ (s.block id).engine.cells := by
  unfold block
  split
  · exact hc
  · next d hd =>
    have hdid := id_eq_of_cell? hd
    simp only [finish, mark]
    rw [cells_foldl fun _ _ => cells_commit]
    exact mem_modifyCell_of_ne hc (hdid ▸ hne)

lemma mem_foldl_block {ids : List CellId} (hc : c ∈ s.engine.cells) (hid : c.id ∉ ids) :
    c ∈ (ids.foldl block s).engine.cells := by
  induction ids generalizing s with
  | nil => exact hc
  | cons id ids ih =>
    simp only [List.mem_cons, not_or] at hid
    exact ih (mem_block_of_ne hc hid.1) hid.2

/-- Enlarging the pass marks no cell that neither waits nor is downstream of what has landed. -/
lemma mem_extend {source : CellId} {names : Names} (hc : c ∈ s.engine.cells)
    (hwait : c.id ∉ s.pass.remaining) (hsource : c.id = source) :
    c ∈ (s.extend source names).engine.cells := by
  rw [extend_eq]
  refine mem_foldl_block hc fun hmem => ?_
  have hpending := (List.mem_filter.mp hmem).1
  simp only [pending, downstream, Names.mem_toList, Names.mem_insertAll, Names.mem_ofList, List.mem_filter,
    bne_iff_ne, ne_eq] at hpending
  rcases hpending with hfresh | hold
  · exact hfresh.1.2 hsource
  · exact hwait hold

lemma mem_adopt (exports : Script.Fields) (hd : d ∈ s.engine.cells) (hid : d.id = c.id) :
    { d with writes := .confirmed (Names.ofList (exports.map (·.1))), status := .ok } ∈
      (s.adopt c exports).engine.cells := by
  unfold adopt
  simp only [succeed, finish]
  set t := (c.writes.names.toList.filter fun name =>
    !(Names.ofList (exports.map (·.1))).contains name).foldl (retract c.id)
      (exports.foldl (fun s x => s.commit x.1 (.value x.2)) s) with ht
  have hcells : t.engine.cells = s.engine.cells := by
    rw [ht, cells_foldl fun _ _ => cells_retract, cells_foldl fun _ _ => cells_commit]
  have hmem : d ∈ t.engine.cells := hcells ▸ hd
  rw [← hid]
  exact mem_modifyCell (f := fun c => { c with status := .ok })
    (mem_modifyCell (f := fun c => { c with writes := .confirmed (Names.ofList (exports.map (·.1))) }) hmem)

lemma mem_adopt_of_ne (exports : Script.Fields) (hd : d ∈ s.engine.cells) (hne : d.id ≠ c.id) :
    d ∈ (s.adopt c exports).engine.cells := by
  unfold adopt
  simp only [succeed, finish]
  refine mem_modifyCell_of_ne (mem_modifyCell_of_ne ?_ hne) hne
  rwa [cells_foldl fun _ _ => cells_retract, cells_foldl fun _ _ => cells_commit]

/-- The exports of a script show in its cell. -/
lemma mem_accept {exports : Script.Fields} (hd : d ∈ s.engine.cells) (hid : d.id = c.id)
    (hwait : c.id ∉ s.pass.remaining) :
    { d with writes := .confirmed (Names.ofList (exports.map (·.1))), status := .ok } ∈
      (s.accept c exports).engine.cells := by
  have hadopt := mem_adopt exports hd hid
  have hremaining : (s.adopt c exports).pass.remaining = s.pass.remaining :=
    congrArg (·.pass.remaining) (control_adopt s c exports)
  rw [accept_eq]
  split
  · refine mem_extend hadopt ?_ hid
    change d.id ∉ (s.adopt c exports).pass.remaining
    rw [hremaining, hid]
    exact hwait
  · exact hadopt

end Stage

end ReactiveNotebook
