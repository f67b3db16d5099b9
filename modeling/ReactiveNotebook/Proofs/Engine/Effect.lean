import ReactiveNotebook.Proofs.Engine.Edit
import ReactiveNotebook.Proofs.Graph.Edge
import ReactiveNotebook.Proofs.Store.Commit

/-!
# What edits do to cells and variables

After an edit every cell that is new, changed or moved is seeded, and so is every cell that came onto a cycle
or left one. The only thing that happens to variables is that some are cleared which no cell writes any more,
and then their readers are seeded.
-/
namespace ReactiveNotebook.Engine

variable {e e' : Engine} {c : Cell} {id : CellId} {name x : String} {drop : Bool}

lemma isWrittenElsewhere_eq_false_iff :
    e.isWrittenElsewhere name id = false ↔ ∀ c ∈ e.cells, c.id ≠ id → name ∉ c.writes.names := by
  simp [isWrittenElsewhere, WriteSet.contains]

/-- Variables that a cell has given up have been cleared, and their readers seeded, except those that other
cells write. -/
structure Vacates (names : List String) (id : CellId) (e e' : Engine) : Prop where
  cells : e'.cells = e.cells
  graph : e'.graph = e.graph
  seeds : ∀ x ∈ e.seeds, x ∈ e'.seeds
  value : ∀ x, e'.get x = e.get x ∨
    x ∈ names ∧ e'.get x = .undefined ∧ e.isWrittenElsewhere x id = false ∧
      ∀ r ∈ e.graph.readersOf x, r ∈ e'.seeds
  clears : ∀ x ∈ names, e.isWrittenElsewhere x id = false → e'.get x = .undefined
  silent : e.store.Silent e'.store

namespace Vacates

variable {names names' : List String} {e'' : Engine}

lemma isWrittenElsewhere_eq (h : Vacates names id e e') : e'.isWrittenElsewhere = e.isWrittenElsewhere := by
  funext x y
  rw [isWrittenElsewhere, h.cells, isWrittenElsewhere]

lemma trans (h : Vacates names id e e') (h' : Vacates names' id e' e'') : Vacates (names ++ names') id e e'' where
  cells := h'.cells.trans h.cells
  graph := h'.graph.trans h.graph
  seeds x hx := h'.seeds x (h.seeds x hx)
  value x := by
    rcases h'.value x with hsame | ⟨hx, hnone, hfree, hseeds⟩
    · rw [hsame]
      refine (h.value x).imp_right fun ⟨hx, hnone, hfree, hseeds⟩ => ⟨List.mem_append_left _ hx, hnone, hfree, ?_⟩
      exact fun r hr => h'.seeds r (hseeds r hr)
    · exact .inr ⟨List.mem_append_right _ hx, hnone, h.isWrittenElsewhere_eq ▸ hfree, h.graph ▸ hseeds⟩
  clears x hx hfree := by
    rcases h'.value x with hsame | ⟨-, hnone, -⟩
    · rcases List.mem_append.mp hx with hx | hx
      · rw [hsame]
        exact h.clears x hx hfree
      · exact h'.clears x hx (h.isWrittenElsewhere_eq ▸ hfree)
    · exact hnone
  silent := h.silent.trans h'.silent

end Vacates

lemma vacates_vacate : Vacates [name] id e (vacate drop id e name) := by
  unfold vacate
  split
  · next hw =>
    refine ⟨rfl, rfl, fun _ h => h, fun _ => .inl rfl, fun x hx hfree => ?_, .refl _⟩
    rw [List.mem_singleton.mp hx, hw] at hfree
    cases hfree
  · next hw =>
    have hfree : e.isWrittenElsewhere name id = false := by simpa using hw
    have hget : ∀ x, ((e.seedAll (e.graph.readersOf name)).clearVariable name drop).1.get x =
        if x = name then .undefined else e.get x := fun x => Store.get_clear
    refine ⟨rfl, rfl, fun x hx => Names.mem_insertAll.mpr (.inr hx), fun x => ?_, fun x hx _ => ?_,
      Store.silent_clear⟩
    · rw [hget]
      split
      · next hx =>
        subst hx
        exact .inr ⟨List.mem_cons_self, rfl, hfree, fun r hr => Names.mem_insertAll.mpr (.inl hr)⟩
      · exact .inl rfl
    · rw [hget, if_pos (List.mem_singleton.mp hx)]

lemma vacates_foldl (names : List String) : Vacates names id e (names.foldl (vacate drop id) e) := by
  induction names generalizing e with
  | nil =>
    exact ⟨rfl, rfl, fun _ h => h, fun _ => .inl rfl, (fun x hx => by cases hx), .refl _⟩
  | cons name names ih => exact vacates_vacate.trans ih

/-- The readers of a variable are seeded when a cell gives it up that no other cell writes. -/
lemma mem_seeds_foldl_vacate {names : List String} {r : CellId} (hname : name ∈ names)
    (hfree : e.isWrittenElsewhere name id = false) (hr : r ∈ e.graph.readersOf name) :
    r ∈ (names.foldl (vacate drop id) e).seeds := by
  induction names generalizing e with
  | nil => cases hname
  | cons first rest ih =>
    have hvacates : Vacates [first] id e (vacate drop id e first) := vacates_vacate
    rcases List.mem_cons.mp hname with rfl | hname
    · refine (vacates_foldl rest).seeds r ?_
      rw [vacate, if_neg (by simp [hfree])]
      exact Names.mem_insertAll.mpr (.inl hr)
    · exact ih hname (hvacates.isWrittenElsewhere_eq ▸ hfree) (hvacates.graph ▸ hr)

/-- The variable has been cleared because the cell that wrote or declared it gave it up, and all its readers
are seeded. -/
structure Cleared (x : String) (e e' : Engine) : Prop where
  undefined : e'.get x = .undefined
  before : ∃ c ∈ e.cells, x ∈ c.writes.names ∨ c.content.output? = some x
  free : ∀ c ∈ e'.cells, x ∉ c.writes.names
  readers : ∀ c ∈ e'.cells, x ∈ c.reads → c.id ∈ e'.seeds

/-- What an edit may do. -/
structure Effect (e e' : Engine) : Prop where
  /-- A cell that is new or changed is seeded. -/
  cells : ∀ c ∈ e'.cells, c ∈ e.cells ∨ c.id ∈ e'.seeds
  seeds : ∀ c ∈ e'.cells, c.id ∈ e.seeds → c.id ∈ e'.seeds
  /-- A cell whose mark is wrong is seeded. -/
  marks : ∀ c ∈ e'.cells, c.status.isCycle = (e'.graph.cycleOf? c.id).isSome ∨ c.id ∈ e'.seeds
  /-- A variable is cleared only if it was given up, and its readers are seeded. -/
  value : ∀ x, e'.get x = e.get x ∨ Cleared x e e'
  silent : e.store.Silent e'.store

lemma marks_rebuild (hc : c ∈ e.cells) :
    c.status.isCycle = (e.rebuild.graph.cycleOf? c.id).isSome ∨ c.id ∈ e.rebuild.seeds := by
  by_cases h : c.status.isCycle = (e.rebuild.graph.cycleOf? c.id).isSome
  · exact .inl h
  · have hmoved : (c.status.isCycle != (e.rebuild.graph.cycleOf? c.id).isSome) = true := bne_iff_ne.mpr h
    exact .inr (Names.mem_insertAll.mpr (.inl (List.mem_map_of_mem (List.mem_filter.mpr ⟨hc, hmoved⟩))))

lemma seeds_rebuild {y : CellId} (hy : y ∈ e.seeds) : y ∈ e.rebuild.seeds :=
  Names.mem_insertAll.mpr (.inr hy)

/-- Deriving the graph anew touches no cell and no variable. -/
lemma effect_rebuild {t : Engine} (hcells : ∀ c ∈ t.cells, c ∈ e.cells ∨ c.id ∈ t.seeds)
    (hseeds : ∀ c ∈ t.cells, c.id ∈ e.seeds → c.id ∈ t.seeds)
    (hvalue : ∀ x, t.get x = e.get x ∨ Cleared x e t)
    (hsilent : e.store.Silent t.store) : Effect e t.rebuild where
  cells c hc := (hcells c hc).imp_right seeds_rebuild
  seeds c hc hs := seeds_rebuild (hseeds c hc hs)
  marks _ hc := marks_rebuild hc
  value x := (hvalue x).imp_right fun ⟨hnone, hbefore, hfree, hreaders⟩ =>
    ⟨hnone, hbefore, hfree, fun c hc hx => seeds_rebuild (hreaders c hc hx)⟩
  silent := hsilent

lemma mem_modifyCell {f : Cell → Cell} (hc : c ∈ (e.modifyCell id f).cells) :
    c ∈ e.cells ∧ c.id ≠ id ∨ ∃ d ∈ e.cells, d.id = id ∧ c = f d := by
  obtain ⟨d, hd, rfl⟩ := List.mem_map.mp hc
  by_cases hid : d.id = id
  · exact .inr ⟨d, hd, hid, by simp [hid]⟩
  · exact .inl (by simpa [hid] using hd)

lemma mem_modifyCell_of_ne {f : Cell → Cell} (hc : c ∈ e.cells) (hne : c.id ≠ id) : c ∈ (e.modifyCell id f).cells :=
  List.mem_map.mpr ⟨c, hc, by simp [hne]⟩

/-- What is analyzed is written for sure, except that a script counts as writing what it was known to write, too. -/
lemma writes_reanalyze (c : Cell) : c.reanalyze.writes = c.content.analyze.writes ∨
    ∃ source, c.content = .script source ∧
      c.reanalyze.writes = .provisional ((Analysis.exportEstimate source).union c.writes.names) := by
  unfold Cell.reanalyze
  cases hcontent : c.content with
  | script source => exact .inr ⟨source, rfl, rfl⟩
  | _ => exact .inl rfl

/-- A script whose text is edited gives up none of its names, and another cell none that its text declares. -/
lemma mem_writes_withText {text : String} (hx : x ∈ c.writes.names)
    (h : c.content.isScript = true ∨ x ∈ c.content.analyze.writes.names) :
    x ∈ (Cell.reanalyze { c with content := c.content.withText text, version := c.version + 1 }).writes.names := by
  cases hcontent : c.content with
  | script source =>
    have hwrites : (Cell.reanalyze { c with content := c.content.withText text, version := c.version + 1 }).writes =
        .provisional ((Analysis.exportEstimate text).union c.writes.names) := by
      rw [hcontent]
      rfl
    rw [← hcontent, hwrites]
    exact Names.mem_union.mpr (.inl hx)
  | _ =>
    rw [hcontent] at h
    exact h.resolve_left Bool.false_ne_true

/-- The cells of a notebook after one of them has been moved are the same ones. -/
lemma mem_move_iff {old index : ℕ} {d : Cell} (hn : (e.cells.map (·.id)).Nodup) (ho : e.index? id = some old)
    (hc : e.cell? id = some c) (hi : index < e.cells.length) :
    d ∈ (e.cells.eraseIdx old).insertIdx index c ↔ d ∈ e.cells :=
  (Edit.perm_insertIdx_eraseIdx (getElem?_of_index? hn ho hc) hi).mem_iff

/-- A cell after an edit is one from before, or one whose text has been analyzed anew. -/
lemma Edit.mem_cells (h : Edit e e') (hn : (e.cells.map (·.id)).Nodup) (hc : c ∈ e'.cells) :
    c ∈ e.cells ∨ ∃ b : Cell, c = b.reanalyze ∧
      ∀ x ∈ b.writes.names, ∃ d ∈ e.cells, d.id = b.id ∧ x ∈ d.writes.names := by
  cases h with
  | @add d index e' h =>
    obtain ⟨hi, -, -, rfl⟩ := addCell_ok h
    rcases (List.mem_insertIdx hi).mp hc with rfl | hc
    · exact .inr ⟨_, rfl, fun x hx => absurd hx (Names.not_mem_empty x)⟩
    · exact .inl hc
  | @remove id d e' h =>
    obtain ⟨b, -, -, rfl⟩ := removeCell_ok h
    rw [(vacates_foldl _).cells] at hc
    exact .inl (List.mem_filter.mp hc).1
  | content h =>
    obtain ⟨b, -, ⟨-, rfl⟩ | ⟨-, rfl⟩⟩ := setContent_ok h
    · exact .inl hc
    · rcases mem_modifyCell hc with ⟨hc, -⟩ | ⟨d, hd, -, rfl⟩
      · exact .inl hc
      · exact .inr ⟨_, rfl, fun x hx => ⟨d, hd, rfl, hx⟩⟩
  | move h =>
    obtain ⟨old, b, ho, hb, hi, ⟨-, rfl⟩ | ⟨-, rfl⟩⟩ := moveCell_ok h
    · exact .inl hc
    · exact .inl ((mem_move_iff hn ho hb hi).mp hc)
  | @rename id name e' h =>
    obtain ⟨b, old, -, -, -, ⟨-, rfl⟩ | ⟨-, rfl⟩⟩ := renameVariable_ok h
    · exact .inl hc
    · change c ∈ (vacate false id ((e.withOutput id name).seed id) old).cells at hc
      rw [vacates_vacate.cells] at hc
      rcases mem_modifyCell hc with ⟨hc, -⟩ | ⟨d, hd, -, rfl⟩
      · exact .inl hc
      · exact .inr ⟨_, rfl, fun x hx => ⟨d, hd, rfl, hx⟩⟩

/-- An edit leaves the engine as it is, or has the effect of one. -/
theorem Edit.effect (h : Edit e e') (hn : (e.cells.map (·.id)).Nodup) (hg : e.graph = Graph.build e.cells) :
    e' = e ∨ Effect e e' := by
  cases h with
  | @add d index e' h =>
    obtain ⟨hi, -, -, rfl⟩ := addCell_ok h
    refine .inr (effect_rebuild (fun c hc => ?_) (fun c _ hs => Names.mem_insert.mpr (.inr hs))
      (fun x => .inl rfl) (.refl _))
    rcases (List.mem_insertIdx hi).mp hc with rfl | hc
    · exact .inr (Names.mem_insert.mpr (.inl rfl))
    · exact .inl hc
  | @remove id d e' h =>
    obtain ⟨c, hc, -, rfl⟩ := removeCell_ok h
    set u : Engine := { e with
      cells := e.cells.filter (·.id != id)
      seeds := e.seeds.filter (· != id) } with hu
    set t := u.rebuild with ht
    have hv : Vacates c.writes.names.toList id t (c.writes.names.toList.foldl (vacate true id) t) :=
      vacates_foldl _
    have hcells : ∀ d ∈ t.cells, d ∈ e.cells ∧ d.id ≠ id := fun d hd => by
      simpa using List.mem_filter.mp hd
    refine .inr ⟨fun d hd => ?_, fun d hd hs => ?_, fun d hd => ?_, fun x => ?_, hv.silent⟩
    · rw [hv.cells] at hd
      exact .inl (hcells d hd).1
    · rw [hv.cells] at hd
      refine hv.seeds _ (seeds_rebuild (Names.mem_filter.mpr ⟨hs, ?_⟩))
      simpa using (hcells d hd).2
    · rw [hv.cells] at hd
      rw [hv.graph]
      exact (marks_rebuild (e := u) hd).imp_right (hv.seeds _)
    · refine (hv.value x).imp_right fun ⟨hx, hnone, hfree, hreaders⟩ =>
        ⟨hnone, ⟨c, ((cell?_eq_some_iff hn).mp hc).1, .inl hx⟩, fun d hd => ?_, fun d hd hx => ?_⟩ <;>
        rw [hv.cells] at hd
      · exact isWrittenElsewhere_eq_false_iff.mp hfree d hd (hcells d hd).2
      · exact hreaders _ (Graph.mem_readersOf_build.mpr ⟨d, hd, rfl, hx⟩)
  | @content id text e' h =>
    obtain ⟨c, -, ⟨-, rfl⟩ | ⟨-, rfl⟩⟩ := setContent_ok h
    · exact .inl rfl
    · refine .inr (effect_rebuild (fun d hd => ?_) (fun d _ hs => Names.mem_insert.mpr (.inr hs))
        (fun x => .inl rfl) (.refl _))
      rcases mem_modifyCell hd with ⟨hd, -⟩ | ⟨b, -, hbid, rfl⟩
      · exact .inl hd
      · exact .inr (Names.mem_insert.mpr (.inl hbid))
  | @move id index e' h =>
    obtain ⟨old, c, ho, hc, hi, ⟨-, rfl⟩ | ⟨-, rfl⟩⟩ := moveCell_ok h
    · exact .inl rfl
    · exact .inr (effect_rebuild (fun d hd => .inl ((mem_move_iff hn ho hc hi).mp hd))
        (fun d _ hs => Names.mem_insert.mpr (.inr hs)) (fun x => .inl rfl) (.refl _))
  | @rename id name e' h =>
    obtain ⟨c, old, hc, ho, -, ⟨-, rfl⟩ | ⟨hne, rfl⟩⟩ := renameVariable_ok h
    · exact .inl rfl
    · set t := (e.withOutput id name).seed id with ht
      have hv : Vacates [old] id t (vacate false id t old) := vacates_vacate
      have hid : id ∈ t.seeds := Names.mem_insert.mpr (.inl rfl)
      have hcells : ∀ d ∈ t.cells, d ∈ e.cells ∧ d.id ≠ id ∨ d.id = id ∧ old ∉ d.writes.names := fun d hd => by
        rcases mem_modifyCell hd with hd | ⟨b, hb, hbid, rfl⟩
        · exact .inl hd
        · have hbc : b = c := by
            obtain ⟨hcm, hcid⟩ := (cell?_eq_some_iff hn).mp hc
            exact List.inj_on_of_nodup_map hn hb hcm (hbid.trans hcid.symm)
          refine .inr ⟨hbid, ?_⟩
          rw [hbc]
          cases hcontent : c.content <;> simp [hcontent, Content.output?] at ho <;>
            simp [Cell.reanalyze, Content.withOutput, Content.analyze, WriteSet.names, hne]
      refine .inr (effect_rebuild (fun d hd => ?_) (fun d _ hs => hv.seeds _ (Names.mem_insert.mpr (.inr hs)))
        (fun x => ?_) hv.silent)
      · rw [hv.cells] at hd
        rcases hcells d hd with hd | ⟨hdid, -⟩
        · exact .inl hd.1
        · exact .inr (hv.seeds _ (hdid ▸ hid))
      · refine (hv.value x).imp_right fun ⟨hx, hnone, hfree, hreaders⟩ =>
          ⟨hnone, ⟨c, ((cell?_eq_some_iff hn).mp hc).1, .inr (List.mem_singleton.mp hx ▸ ho)⟩, fun d hd => ?_,
            fun d hd hr => ?_⟩ <;>
          rw [hv.cells] at hd
        · rcases hcells d hd with ⟨-, hdid⟩ | ⟨-, hold⟩
          · exact isWrittenElsewhere_eq_false_iff.mp hfree d hd hdid
          · exact List.mem_singleton.mp hx ▸ hold
        · rcases hcells d hd with ⟨hde, -⟩ | ⟨hdid, -⟩
          · refine hreaders _ ?_
            change d.id ∈ e.graph.readersOf x
            rw [hg]
            exact Graph.mem_readersOf_build.mpr ⟨d, hde, rfl, hr⟩
          · exact hv.seeds _ (hdid ▸ hid)

end ReactiveNotebook.Engine
