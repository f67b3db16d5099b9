import ReactiveNotebook.Proofs.Engine.Step

/-!
# Versions of cells

Evaluation never touches the content or the version of a cell, and an edit that changes the content counts
the version up. So while a cell stays in the notebook its version tells whether it still holds the same
content. A cell that is added under the id of a removed one starts counting from zero again.
-/
namespace ReactiveNotebook

open Relation (ReflTransGen)

variable {l : Language}

/-- What only edits change of a cell. -/
def Cell.revision (c : Cell) : CellId × Content × ℕ × Names := (c.id, c.content, c.version, c.reads)

lemma Cell.exists_revision {cs ds : List Cell} {d : Cell} (h : ds.map Cell.revision = cs.map Cell.revision)
    (hd : d ∈ ds) : ∃ c ∈ cs, c.revision = d.revision := by
  have hmem : d.revision ∈ cs.map Cell.revision := h ▸ List.mem_map_of_mem hd
  exact List.mem_map.mp hmem

namespace Stage

variable {s s' t : Stage} {a : Arrival} {c : Cell} {id : CellId}

def revisions (s : Stage) : List (CellId × Content × ℕ × Names) := s.engine.cells.map Cell.revision

lemma revisions_of_control (h : s.control = t.control) : s.revisions = t.revisions := by
  have hb := congrArg (List.map Cell.revision) (cells_blank_of_control h)
  rw [List.map_map, List.map_map] at hb
  exact hb

lemma revisions_modifyCell {f : Cell → Cell} (hf : ∀ c, (f c).revision = c.revision) :
    (s.modifyCell id f).revisions = s.revisions := by
  simp only [revisions, modifyCell, Engine.modifyCell, List.map_map]
  refine List.map_congr_left fun c _ => ?_
  simp only [Function.comp_apply]
  split
  · exact hf c
  · rfl

lemma revisions_extend {names : Names} : (s.extend id names).revisions = s.revisions := by
  rw [extend_eq, revisions_of_control (control_foldl_block _ _)]
  rfl

lemma revisions_accept {exports : Script.Fields} : (s.accept c exports).revisions = s.revisions := by
  have hadopt : (s.adopt c exports).revisions = s.revisions :=
    (revisions_of_control (control_adopt s c exports)).trans (revisions_modifyCell fun _ => rfl)
  rw [accept_eq]
  split
  · rw [revisions_extend]
    exact hadopt
  · exact hadopt

lemma Landing.revisions_eq (h : Landing s a s') : s'.revisions = s.revisions := by
  cases h with
  | stale _ =>
    simp only [dismiss]
    split <;> rfl
  | again _ _ => rfl
  | failed _ _ _ =>
    exact (revisions_of_control control_fail).trans (revisions_modifyCell fun _ => rfl)
  | accepted _ _ _ => exact revisions_accept.trans (revisions_modifyCell fun _ => rfl)

lemma revisions_of_runCell {i : ℕ} (h : (s.withdraw i).runCell l id = .ok s') : s'.revisions = s.revisions := by
  rcases runCell_cases h with hcontrol | ⟨c, source, -, -, -, -, rfl⟩
  · exact revisions_of_control (t := (s.withdraw i).finish id .success) hcontrol
  · rfl

theorem Move.revisions_eq (h : s.Move l s') : s'.revisions = s.revisions := by
  cases h with
  | start _ _ _ hrun => exact revisions_of_runCell hrun
  | receive _ => exact (landing_receive _ _).revisions_eq

end Stage

namespace Engine

variable {e e' : Engine} {c : Cell} {id : CellId}

/-- What has become of a cell: it holds the content it held, or its version is higher. -/
def Descends (c c' : Cell) : Prop :=
  c'.id = c.id ∧ (c'.content = c.content ∧ c'.version = c.version ∨ c.version < c'.version)

lemma Descends.trans {c₁ c₂ c₃ : Cell} (h : Descends c₁ c₂) (h' : Descends c₂ c₃) : Descends c₁ c₃ := by
  obtain ⟨hid, hc⟩ := h
  obtain ⟨hid', hc'⟩ := h'
  refine ⟨hid'.trans hid, ?_⟩
  rcases hc with ⟨hcontent, hversion⟩ | hlt
  · rcases hc' with ⟨hcontent', hversion'⟩ | hlt'
    · exact .inl ⟨hcontent'.trans hcontent, hversion'.trans hversion⟩
    · exact .inr (hversion ▸ hlt')
  · rcases hc' with ⟨-, hversion'⟩ | hlt'
    · exact .inr (by omega)
    · exact .inr (by omega)

lemma exists_of_revisions (h : e'.cells.map Cell.revision = e.cells.map Cell.revision) (hc : c ∈ e.cells) :
    ∃ c' ∈ e'.cells, Descends c c' := by
  obtain ⟨c', hc', heq⟩ := Cell.exists_revision h.symm hc
  simp only [Cell.revision, Prod.mk.injEq] at heq
  exact ⟨c', hc', heq.1, .inl ⟨heq.2.1, heq.2.2.1⟩⟩

lemma exists_of_modifyCell {f : Cell → Cell} (hf : ∀ c, (f c).id = c.id ∧ (f c).version = c.version + 1)
    (hc : c ∈ e.cells) : ∃ c' ∈ (e.modifyCell id f).cells, Descends c c' := by
  refine ⟨if c.id == id then f c else c, List.mem_map_of_mem hc, ?_⟩
  split
  · exact ⟨(hf c).1, .inr (by rw [(hf c).2]; omega)⟩
  · exact ⟨rfl, .inl ⟨rfl, rfl⟩⟩

lemma cells_of_sameButSeeds (h : SameButSeeds e e') : e'.cells = e.cells := by
  obtain ⟨store, seeds, -, rfl⟩ := h
  rfl

/-- An edit keeps every cell that it does not remove, and an edit of its content counts its version up. -/
lemma Edit.descends (h : Edit e e') (hn : (e.cells.map (·.id)).Nodup) (hc : c ∈ e.cells)
    (hstay : c.id ∈ e'.cells.map (·.id)) : ∃ c' ∈ e'.cells, Descends c c' := by
  have hself : Descends c c := ⟨rfl, .inl ⟨rfl, rfl⟩⟩
  cases h with
  | add h =>
    obtain ⟨hi, -, -, rfl⟩ := addCell_ok h
    exact ⟨c, (List.mem_insertIdx hi).mpr (.inr hc), hself⟩
  | @remove id d e' h =>
    obtain ⟨b, -, -, rfl⟩ := removeCell_ok h
    have hcells := cells_of_sameButSeeds (sameButSeeds_foldl_vacate true id b.writes.names.toList (rebuild
      { e with cells := e.cells.filter (·.id != id), seeds := e.seeds.filter (· != id) }))
    rw [hcells] at hstay ⊢
    obtain ⟨b', hb', hid⟩ := List.mem_map.mp hstay
    have hne := (List.mem_filter.mp hb').2
    exact ⟨c, List.mem_filter.mpr ⟨hc, by simpa [hid] using hne⟩, hself⟩
  | content h =>
    obtain ⟨b, -, ⟨-, rfl⟩ | ⟨-, rfl⟩⟩ := setContent_ok h
    · exact ⟨c, hc, hself⟩
    · exact exists_of_modifyCell (fun _ => ⟨rfl, rfl⟩) hc
  | move h =>
    obtain ⟨old, b, ho, hb, hi, ⟨-, rfl⟩ | ⟨-, rfl⟩⟩ := moveCell_ok h
    · exact ⟨c, hc, hself⟩
    · exact ⟨c, (Edit.perm_insertIdx_eraseIdx (getElem?_of_index? hn ho hb) hi).mem_iff.mpr hc, hself⟩
  | @rename id name e' h =>
    obtain ⟨b, old, -, -, -, ⟨-, rfl⟩ | ⟨-, rfl⟩⟩ := renameVariable_ok h
    · exact ⟨c, hc, hself⟩
    · change ∃ c' ∈ (vacate false id ((e.withOutput id name).seed id) old).cells, Descends c c'
      rw [cells_of_sameButSeeds (sameButSeeds_vacate false id ((e.withOutput id name).seed id) old)]
      exact exists_of_modifyCell (fun _ => ⟨rfl, rfl⟩) hc

lemma Host.cells_eq (h : Host e e') : e'.cells = e.cells := by
  cases h <;> rfl

lemma revisions_beginPass (e : Engine) : e.beginPass.revisions = e.cells.map Cell.revision :=
  Stage.revisions_of_control (control_blockCycles e)

/-- Along a step a cell that stays in the notebook keeps its content or counts up its version. -/
theorem Step.descends (h : Step l e e') (hn : (e.cells.map (·.id)).Nodup) (hc : c ∈ e.cells)
    (hstay : c.id ∈ e'.cells.map (·.id)) : ∃ c' ∈ e'.cells, Descends c c' := by
  cases h with
  | edit h => exact h.descends hn hc hstay
  | host h => exact exists_of_revisions (by rw [h.cells_eq]) hc
  | collect _ => exact exists_of_revisions (by rw [cells_collect]) hc
  | begin _ => exact exists_of_revisions (revisions_beginPass e) hc
  | move _ hm => exact exists_of_revisions hm.revisions_eq hc
  | finish _ _ _ => exact exists_of_revisions rfl hc

end Engine

end ReactiveNotebook
