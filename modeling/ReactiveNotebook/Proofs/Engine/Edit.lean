import ReactiveNotebook.Engine.Edit
import ReactiveNotebook.Proofs.Engine.Control

/-!
# What edits do

An edit that is not refused yields an engine that is given by an equation. Every edit leaves the scheduler's
pass and the scripts in flight alone, keeps the ids of the cells distinct and leaves the graph of the cells.
-/
namespace ReactiveNotebook.Engine

variable {e e' : Engine} {d : Definition} {c : Cell} {id : CellId} {index : ℕ} {text name : String}

lemma hasCell_iff : e.hasCell id = true ↔ id ∈ e.cells.map (·.id) := by
  rw [Stage.hasCell_eq_contains]
  exact List.contains_iff_mem

lemma cell?_eq_some_iff (hn : (e.cells.map (·.id)).Nodup) :
    e.cell? id = some c ↔ c ∈ e.cells ∧ c.id = id := by
  constructor
  · intro h
    exact ⟨List.mem_of_find?_eq_some h, by simpa using List.find?_some h⟩
  · rintro ⟨hc, rfl⟩
    obtain ⟨b, hb⟩ := Option.isSome_iff_exists.mp
      (List.find?_isSome (p := (·.id == c.id)).mpr ⟨c, hc, by simp⟩)
    have hbm := List.mem_of_find?_eq_some hb
    have hbid : b.id = c.id := by simpa using List.find?_some hb
    rw [cell?, hb, List.inj_on_of_nodup_map hn hbm hc hbid]

theorem addCell_ok (h : e.addCell d index = .ok e') :
    index ≤ e.cells.length ∧ d.id ∉ e.cells.map (·.id) ∧ d.check = .ok () ∧
      e' = rebuild { (e.seed d.id) with cells := e.cells.insertIdx index (.ofDefinition d) } := by
  unfold addCell at h
  by_cases hi : e.cells.length < index
  · simp [hi, bind, Except.bind, throw, throwThe, MonadExceptOf.throw] at h
  · by_cases hc : e.hasCell d.id = true
    · simp [hi, hc, bind, Except.bind, throw, throwThe, MonadExceptOf.throw] at h
    · cases hd : d.check with
      | error err => simp [hi, hc, hd, bind, Except.bind] at h
      | ok =>
        simp only [hi, hc, hd, bind, Except.bind, pure, Except.pure, if_false] at h
        cases h
        exact ⟨Nat.le_of_not_lt hi, fun hm => hc (hasCell_iff.mpr hm), rfl, rfl⟩

/-- Clears a variable that a cell has given up, unless another cell writes it, and seeds its readers. -/
def vacate (drop : Bool) (id : CellId) (e : Engine) (name : String) : Engine :=
  if e.isWrittenElsewhere name id then e
  else ((e.seedAll (e.graph.readersOf name)).clearVariable name drop).1

theorem removeCell_ok (h : e.removeCell id = .ok (e', d)) :
    ∃ c, e.cell? id = some c ∧ d = c.definition ∧
      e' = c.writes.names.toList.foldl (vacate true id) (rebuild { e with
        cells := e.cells.filter (·.id != id)
        seeds := e.seeds.filter (· != id) }) := by
  unfold removeCell at h
  cases hc : e.cell? id with
  | none => simp [hc] at h
  | some c =>
    simp only [hc, Except.ok.injEq, Prod.mk.injEq] at h
    exact ⟨c, rfl, h.2.symm, h.1.symm⟩

def withText (e : Engine) (id : CellId) (text : String) : Engine :=
  e.modifyCell id fun c => Cell.reanalyze { c with content := c.content.withText text, version := c.version + 1 }

theorem setContent_ok (h : e.setContent id text = .ok e') :
    ∃ c, e.cell? id = some c ∧
      (c.content.text = text ∧ e' = e ∨
        c.content.text ≠ text ∧ e' = rebuild ((e.withText id text).seed id)) := by
  unfold setContent at h
  cases hc : e.cell? id with
  | none => simp [hc] at h
  | some c =>
    simp only [hc] at h
    refine ⟨c, rfl, ?_⟩
    split at h
    · next heq => exact .inl ⟨by simpa using heq, by cases h; rfl⟩
    · next hne => exact .inr ⟨by simpa using hne, by cases h; rfl⟩

theorem moveCell_ok (h : e.moveCell id index = .ok e') :
    ∃ old c, e.index? id = some old ∧ e.cell? id = some c ∧ index < e.cells.length ∧
      (old = index ∧ e' = e ∨
        old ≠ index ∧
          e' = rebuild { (e.seed id) with cells := (e.cells.eraseIdx old).insertIdx index c }) := by
  unfold moveCell at h
  cases ho : e.index? id with
  | none => simp [ho] at h
  | some old =>
    cases hc : e.cell? id with
    | none => simp [ho, hc] at h
    | some c =>
      simp only [ho, hc] at h
      split at h
      · cases h
      · next hi =>
        refine ⟨old, c, rfl, rfl, Nat.lt_of_not_le hi, ?_⟩
        split at h
        · next heq => exact .inl ⟨heq, by cases h; rfl⟩
        · next hne => exact .inr ⟨hne, by cases h; rfl⟩

def withOutput (e : Engine) (id : CellId) (name : String) : Engine :=
  e.modifyCell id fun c => Cell.reanalyze { c with content := c.content.withOutput name, version := c.version + 1 }

theorem renameVariable_ok (h : e.renameVariable id name = .ok e') :
    ∃ c old, e.cell? id = some c ∧ c.content.output? = some old ∧ Analysis.isVariableName name = true ∧
      (old = name ∧ e' = e ∨
        old ≠ name ∧ e' = rebuild (vacate false id ((e.withOutput id name).seed id) old)) := by
  unfold renameVariable at h
  cases hc : e.cell? id with
  | none => simp [hc] at h
  | some c =>
    simp only [hc] at h
    split at h
    · cases h
    · next hn =>
      cases ho : c.content.output? with
      | none => simp [ho] at h
      | some old =>
        simp only [ho] at h
        refine ⟨c, old, rfl, ho, by simpa using hn, ?_⟩
        split at h
        · next heq => exact .inl ⟨by simpa using heq, by cases h; rfl⟩
        · next hne => exact .inr ⟨by simpa using hne, by cases h; rfl⟩

/-- Two engines that differ in no more than the store and the seeds. -/
def SameButSeeds (e e' : Engine) : Prop :=
  ∃ store seeds, (∀ x ∈ e.seeds, x ∈ seeds) ∧ e' = { e with store, seeds }

namespace SameButSeeds

@[refl] lemma refl (e : Engine) : SameButSeeds e e := ⟨e.store, e.seeds, fun _ h => h, rfl⟩

lemma trans {e₁ e₂ e₃ : Engine} (h : SameButSeeds e₁ e₂) (h' : SameButSeeds e₂ e₃) : SameButSeeds e₁ e₃ := by
  obtain ⟨store, seeds, hs, rfl⟩ := h
  obtain ⟨store', seeds', hs', rfl⟩ := h'
  exact ⟨store', seeds', fun x hx => hs' x (hs x hx), rfl⟩

end SameButSeeds

lemma sameButSeeds_vacate (drop : Bool) (id : CellId) (e : Engine) (name : String) :
    SameButSeeds e (vacate drop id e name) := by
  unfold vacate
  split
  · rfl
  · exact ⟨_, _, fun x hx => Names.mem_insertAll.mpr (.inr hx), rfl⟩

lemma sameButSeeds_foldl_vacate (drop : Bool) (id : CellId) (names : List String) (e : Engine) :
    SameButSeeds e (names.foldl (vacate drop id) e) := by
  induction names generalizing e with
  | nil => rfl
  | cons name names ih => exact (sameButSeeds_vacate drop id e name).trans (ih _)

/-- An edit of the notebook that is not refused. -/
inductive Edit (e : Engine) : Engine → Prop
  | add {d : Definition} {index : ℕ} {e' : Engine} (h : e.addCell d index = .ok e') : Edit e e'
  | remove {id : CellId} {d : Definition} {e' : Engine} (h : e.removeCell id = .ok (e', d)) : Edit e e'
  | content {id : CellId} {text : String} {e' : Engine} (h : e.setContent id text = .ok e') : Edit e e'
  | move {id : CellId} {index : ℕ} {e' : Engine} (h : e.moveCell id index = .ok e') : Edit e e'
  | rename {id : CellId} {name : String} {e' : Engine} (h : e.renameVariable id name = .ok e') : Edit e e'

lemma ids_modifyCell {f : Cell → Cell} (hf : ∀ c, (f c).id = c.id) :
    (e.modifyCell id f).cells.map (·.id) = e.cells.map (·.id) := by
  simp only [modifyCell, List.map_map]
  refine List.map_congr_left fun c _ => ?_
  simp only [Function.comp_apply]
  split
  · exact hf c
  · rfl

@[simp] lemma ids_withText (e : Engine) (id : CellId) (text : String) :
    (e.withText id text).cells.map (·.id) = e.cells.map (·.id) :=
  ids_modifyCell fun _ => rfl

@[simp] lemma ids_withOutput (e : Engine) (id : CellId) (name : String) :
    (e.withOutput id name).cells.map (·.id) = e.cells.map (·.id) :=
  ids_modifyCell fun _ => rfl

lemma getElem?_of_index? {i : ℕ} (hn : (e.cells.map (·.id)).Nodup) (hi : e.index? id = some i)
    (hc : e.cell? id = some c) : e.cells[i]? = some c := by
  obtain ⟨hlt, hp, -⟩ := List.findIdx?_eq_some_iff_getElem.mp hi
  have hid : e.cells[i].id = id := by simpa using hp
  obtain ⟨hcm, hcid⟩ := (cell?_eq_some_iff hn).mp hc
  rw [List.getElem?_eq_getElem hlt,
    List.inj_on_of_nodup_map hn (List.getElem_mem hlt) hcm (hid.trans hcid.symm)]

namespace Edit

/-- An edit changes the cells, with them the graph, and the store and the seeds. -/
theorem shape (h : Edit e e') :
    e' = e ∨ ∃ cells store seeds, e' = { e with cells, store, seeds, graph := Graph.build cells } := by
  cases h with
  | add h =>
    obtain ⟨-, -, -, rfl⟩ := addCell_ok h
    exact .inr ⟨_, _, _, rfl⟩
  | remove h =>
    obtain ⟨c, -, -, rfl⟩ := removeCell_ok h
    obtain ⟨store, seeds, -, heq⟩ := sameButSeeds_foldl_vacate true _ c.writes.names.toList (rebuild _)
    exact .inr ⟨_, store, seeds, heq⟩
  | content h =>
    obtain ⟨c, -, ⟨-, rfl⟩ | ⟨-, rfl⟩⟩ := setContent_ok h
    · exact .inl rfl
    · exact .inr ⟨_, _, _, rfl⟩
  | move h =>
    obtain ⟨-, -, -, -, -, ⟨-, rfl⟩ | ⟨-, rfl⟩⟩ := moveCell_ok h
    · exact .inl rfl
    · exact .inr ⟨_, _, _, rfl⟩
  | rename h =>
    obtain ⟨c, old, -, -, -, ⟨-, rfl⟩ | ⟨-, rfl⟩⟩ := renameVariable_ok h
    · exact .inl rfl
    · obtain ⟨store, seeds, -, heq⟩ := sameButSeeds_vacate false _ ((e.withOutput _ _).seed _) old
      rw [heq]
      exact .inr ⟨_, _, _, rfl⟩

/-- The place of a cell in a list that is split there. -/
lemma perm_insertIdx_eraseIdx {cells : List Cell} {old index : ℕ} (ho : cells[old]? = some c)
    (hi : index < cells.length) : ((cells.eraseIdx old).insertIdx index c).Perm cells := by
  obtain ⟨hlt, hval⟩ := List.getElem?_eq_some_iff.mp ho
  have hlen : index ≤ (cells.eraseIdx old).length := by
    rw [List.length_eraseIdx]
    split <;> omega
  refine (List.perm_insertIdx c _ hlen).trans ?_
  rw [← hval]
  exact List.getElem_cons_eraseIdx_perm hlt

/-- An edit keeps the ids of the cells distinct. -/
theorem nodup_ids (h : Edit e e') (hn : (e.cells.map (·.id)).Nodup) : (e'.cells.map (·.id)).Nodup := by
  cases h with
  | @add d index e' h =>
    obtain ⟨hi, hd, -, rfl⟩ := addCell_ok h
    have hperm := (List.perm_insertIdx (Cell.ofDefinition d) e.cells hi).map (·.id)
    exact hperm.nodup_iff.mpr (List.nodup_cons.mpr ⟨hd, hn⟩)
  | @remove id d e' h =>
    obtain ⟨c, -, -, rfl⟩ := removeCell_ok h
    obtain ⟨store, seeds, -, heq⟩ := sameButSeeds_foldl_vacate true id c.writes.names.toList (rebuild
      { e with cells := e.cells.filter (·.id != id), seeds := e.seeds.filter (· != id) })
    rw [heq]
    exact hn.sublist ((List.filter_sublist ..).map _)
  | @content id text e' h =>
    obtain ⟨c, -, ⟨-, rfl⟩ | ⟨-, rfl⟩⟩ := setContent_ok h
    · exact hn
    · exact (ids_withText e id text).symm ▸ hn
  | move h =>
    obtain ⟨old, c, ho, hc, hi, ⟨-, rfl⟩ | ⟨-, rfl⟩⟩ := moveCell_ok h
    · exact hn
    · exact ((perm_insertIdx_eraseIdx (getElem?_of_index? hn ho hc) hi).map (·.id)).nodup_iff.mpr hn
  | @rename id name e' h =>
    obtain ⟨c, old, -, -, -, ⟨-, rfl⟩ | ⟨-, rfl⟩⟩ := renameVariable_ok h
    · exact hn
    · obtain ⟨store, seeds, -, heq⟩ := sameButSeeds_vacate false id ((e.withOutput id name).seed id) old
      rw [heq]
      exact (ids_withOutput e id name).symm ▸ hn

end Edit

end ReactiveNotebook.Engine
