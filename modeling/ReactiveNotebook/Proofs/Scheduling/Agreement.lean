import ReactiveNotebook.Proofs.Scheduling.Predictable

/-!
# Passes over predictable cells agree

Two passes that begin alike over predictable cells come to the same, in whatever order cells are started and
results arrive. Of the cells that one of them has done when the other is through, a first one on which they
differ would have to read a variable on which they differ, and such a variable is written by a cell that has
been done before. So a pass meets no evaluation that fails if another one has met none.
-/
namespace ReactiveNotebook

variable {l : Language}

namespace Stage

variable {b b' s t : Stage} {c d : Cell} {id : CellId} {i : ℕ} {fault : Fault} {v : String}

/-- Two stages with the same cells and the same values. -/
structure Matches (s t : Stage) : Prop where
  cells : s.engine.cells = t.engine.cells
  graph : s.engine.graph = t.engine.graph
  holds : ∀ v, s.holds v = t.holds v

namespace Matches

lemma mark (h : Matches s t) : Matches (s.mark c fault) (t.mark c fault) where
  cells := by rw [cells_mark, cells_mark, h.cells]
  graph := by
    have hgraph : ∀ u : Stage, (u.mark c fault).engine.graph = u.engine.graph := fun _ =>
      congrArg (·.engine.graph) control_mark
    rw [hgraph, hgraph, h.graph]
  holds v := by
    rw [mark_eq, mark_eq, holds_commitAll, holds_commitAll, holds_modifyCell, holds_modifyCell, h.holds]

lemma block (h : Matches s t) (id : CellId) : Matches (s.block id) (t.block id) := by
  have hcell : s.engine.cell? id = t.engine.cell? id := by rw [Engine.cell?, Engine.cell?, h.cells]
  unfold Stage.block
  rw [hcell, h.graph]
  cases t.engine.cell? id with
  | none => exact h
  | some c =>
    have hmark : Matches (s.mark c (.cycle id ((t.engine.graph.cycleOf? id).getD [])))
        (t.mark c (.cycle id ((t.engine.graph.cycleOf? id).getD []))) := h.mark
    exact ⟨hmark.cells, hmark.graph, hmark.holds⟩

lemma foldl_block (h : Matches s t) (ids : List CellId) : Matches (ids.foldl Stage.block s) (ids.foldl Stage.block t) := by
  induction ids generalizing s t with
  | nil => exact h
  | cons id ids ih => exact ih (h.block id)

end Matches

/-- Two passes begin alike. -/
structure Parallels (b b' : Stage) : Prop extends Matches b b' where
  members : b.pass.members = b'.pass.members
  roots : b.pass.seeds = b'.pass.seeds
  clock : b.engine.clock = b'.engine.clock
  queue : b.engine.store.queue = b'.engine.store.queue
  window : b.engine.config.settleWindow = b'.engine.config.settleWindow

/-- The cell is the same in both stages, and so are the variables it writes. -/
def Agrees (s t : Stage) (c : Cell) : Prop :=
  (∃ d ∈ s.engine.cells, d.id = c.id ∧ d ∈ t.engine.cells) ∧ ∀ v ∈ c.writes.names, s.holds v = t.holds v

lemma Untouched.agrees (h : Untouched b s c) (h' : Untouched b' t c) (hp : Parallels b b') : Agrees s t c :=
  ⟨⟨c, h.1, rfl, h'.1⟩, fun v hv => (h.2 v hv).trans ((hp.holds v).trans (h'.2 v hv).symm)⟩

/-- A cell comes to the same in both passes if the variables that it reads do. -/
lemma Concluded.agrees (h : Concluded l b s c) (h' : Concluded l b' t c) (hp : Parallels b b')
    (htrigger : s.isTriggered c = t.isTriggered c) (hreads : ∀ v ∈ c.reads, s.holds v = t.holds v) : Agrees s t c := by
  rcases h with ⟨hidle, hu⟩ | ⟨hdue, p, hout, hcell, hvalue⟩
  · rcases h' with ⟨-, hu'⟩ | ⟨hdue', -⟩
    · exact hu.agrees hu' hp
    · rw [htrigger, hdue'] at hidle
      cases hidle
  · rcases h' with ⟨hidle', -⟩ | ⟨-, p', hout', hcell', hvalue'⟩
    · rw [htrigger, hidle'] at hdue
      cases hdue
    · have hview : ∀ v ∈ c.reads, s.engine.get v = t.engine.get v := fun v hv => congrArg Prod.fst (hreads v hv)
      rw [Cell.outcome_congr hview, hout'] at hout
      cases hout
      exact ⟨⟨p.1, hcell, Cell.id_of_outcome hout', hcell'⟩, fun v hv => by
        rw [hvalue v hv, hvalue' v hv, hp.holds v]⟩

/-- A list of cells is another one if it has the same ids and no cell that the other one has not. -/
lemma cells_eq_of_ids {cells cells' : List Cell} (hn : (cells'.map (·.id)).Nodup)
    (hids : cells.map (·.id) = cells'.map (·.id)) (h : ∀ c ∈ cells, c ∈ cells') : cells = cells' := by
  have hlength : cells.length = cells'.length := by simpa using congrArg List.length hids
  refine List.ext_getElem hlength fun i hi hi' => ?_
  have hid : cells[i].id = cells'[i].id := by
    have hget := congrArg (·[i]?) hids
    simpa [List.getElem?_eq_getElem hi, List.getElem?_eq_getElem hi'] using hget
  exact List.inj_on_of_nodup_map hn (h _ (List.getElem_mem hi)) (List.getElem_mem hi') hid

namespace Follows

variable (h : Follows l b s) (h' : Follows l b' t) (hb : Begun l b) (hp : Parallels b b') (ht : t.IsDone)

include h in
/-- When a pass is through, all that takes part in it is done. -/
lemma completed_of_done (hs : s.IsDone) (hmember : c.id ∈ b.pass.members) : c.id ∈ s.pass.completed := by
  rcases h.steady.accounted.covered c.id (h.members ▸ hmember) with hw | hf | hd
  · rw [hs.1] at hw
    cases hw
  · rw [flying, hs.2] at hf
    cases hf
  · exact hd

include h' hp ht in
lemma concluded_of_done (hc : c ∈ b.engine.cells) (hmember : c.id ∈ b.pass.members) : Concluded l b' t c := by
  rw [hp.members] at hmember
  exact h'.concluded c (hp.cells ▸ hc) hmember (h'.completed_of_done ht hmember)

include h h' hb hp in
/-- A cell reads the same in both passes if the cells that it depends on agree. -/
lemma holds_eq_of_reads (hc : c ∈ b.engine.cells)
    (hall : ∀ d ∈ b.engine.cells, d.id ∈ b.pass.members → b.engine.graph.Edge d.id c.id → Agrees s t d)
    (hv : v ∈ c.reads) : s.holds v = t.holds v := by
  by_cases hw : ∃ d ∈ b.engine.cells, v ∈ d.writes.names
  · obtain ⟨d, hd, hw⟩ := hw
    have hne : d.id ≠ c.id := fun heq => by
      obtain rfl : d = c := List.inj_on_of_nodup_map hb.tidy.ids hd hc heq
      exact hb.predictable.foreign d hd v hw hv
    by_cases hmember : d.id ∈ b.pass.members
    · exact (hall d hd hmember (hb.tidy.edge_iff.mpr ⟨d, hd, c, hc, rfl, rfl, hne, v, hw, hv⟩)).2 v hw
    · have hu := h.idle d hd (.inl hmember)
      exact (hu.agrees (h'.idle d (hp.cells ▸ hd) (.inl (hp.members ▸ hmember))) hp).2 v hw
  · push Not at hw
    exact (h.free v hw).trans ((hp.holds v).trans (h'.free v (hp.cells ▸ hw)).symm)

include h h' hp in
lemma isTriggered_eq (hreads : ∀ v ∈ c.reads, s.holds v = t.holds v) : s.isTriggered c = t.isTriggered c :=
  isTriggered_congr (h.roots.trans (hp.roots.trans h'.roots.symm)) h.steady.synced h'.steady.synced hreads

include h h' hb hp ht in
/-- The cells that one pass has done when the other is through are the same in both. -/
theorem agrees_of_completed (hc : c ∈ b.engine.cells) (hmember : c.id ∈ b.pass.members)
    (hdone : c.id ∈ s.pass.completed) : Agrees s t c := by
  classical
  set left : Finset CellId := (b.engine.cells.map (·.id)).toFinset.filter fun x =>
    ∃ c ∈ b.engine.cells, c.id = x ∧ x ∈ b.pass.members ∧ x ∈ s.pass.completed ∧ ¬ Agrees s t c with hleft
  by_contra hdiffer
  have hnonempty : left.Nonempty := ⟨c.id, Finset.mem_filter.mpr
    ⟨List.mem_toFinset.mpr (List.mem_map_of_mem hc), c, hc, rfl, hmember, hdone, hdiffer⟩⟩
  -- a cell that differs has one that differs before it
  have hback : ∀ x ∈ left, ∃ y ∈ left, b.engine.graph.Edge y x := by
    intro x hx
    obtain ⟨-, c, hc, rfl, hmember, hdone, hdiffer⟩ := Finset.mem_filter.mp hx
    by_contra hnone
    push Not at hnone
    have hall : ∀ d ∈ b.engine.cells, d.id ∈ b.pass.members → b.engine.graph.Edge d.id c.id → Agrees s t d := by
      intro d hd hin hedge
      have hdid : d.id ∈ b.engine.cells.map (·.id) := List.mem_map_of_mem hd
      by_contra hno
      exact hnone d.id (Finset.mem_filter.mpr ⟨List.mem_toFinset.mpr hdid, d, hd, rfl, hin,
        h.ready c hc (.inr ⟨hmember, hdone⟩) d.id hin hedge, hno⟩) hedge
    have hreads : ∀ v ∈ c.reads, s.holds v = t.holds v := fun v hv => h.holds_eq_of_reads h' hb hp hc hall hv
    exact hdiffer ((h.concluded c hc hmember hdone).agrees (h'.concluded_of_done hp ht hc hmember) hp
      (h.isTriggered_eq h' hp hreads) hreads)
  obtain ⟨x, hx, hcycle⟩ := Graph.exists_onCycle hnonempty hback
  obtain ⟨-, c, -, rfl, hmember, -⟩ := Finset.mem_filter.mp hx
  exact hb.off c.id hmember hcycle

include h h' hb hp ht in
/-- No template overflows in a pass if none has in another one that begins alike and is through. -/
theorem not_panics : ¬ s.Panics l := by
  rintro ⟨i, id, cause, hi, hid, hrun⟩
  have hwaits : id ∈ s.pass.remaining := List.mem_of_getElem? hid
  obtain ⟨c, hc, rfl⟩ := h.exists_cell (h.tidy.mem_ids_iff.mp (h.steady.accounted.known id hwaits))
  have hmember := (h.active (.inl hwaits)).1
  have hcell : (s.withdraw i).engine.cell? c.id = some c := h.cell?_eq (h.idle c hc (.inr hwaits))
  have hreads : ∀ v ∈ c.reads, s.holds v = t.holds v := fun v hv => by
    refine h.holds_eq_of_reads h' hb hp hc (fun d hd hin hedge => ?_) hv
    exact h.agrees_of_completed h' hb hp ht hd hin (h.ready_of_next hi hid d.id hin hedge)
  have htrigger := h.isTriggered_eq h' hp hreads
  cases hdue : s.isTriggered c with
  | false =>
    have hidle : (s.withdraw i).isTriggered c = false := hdue
    simp [runCell, hcell, hidle] at hrun
  | true =>
    rcases h'.concluded_of_done hp ht hc hmember with ⟨hidle, -⟩ | ⟨-, p, hout, -⟩
    · rw [← htrigger, hdue] at hidle
      cases hidle
    · have hview : ∀ v ∈ c.reads, s.pass.slot v = t.engine.get v := fun v hv =>
        (h.steady.synced v).trans (congrArg Prod.fst (hreads v hv))
      rw [runCell_eq hcell hdue] at hrun
      rw [Cell.outcome, ← Cell.verdict_congr hview] at hout
      change (c.verdict l s.pass.slot).map _ = _ at hrun
      cases hverdict : c.verdict l s.pass.slot with
      | error cause => rw [hverdict] at hout; cases hout
      | ok verdict => rw [hverdict] at hrun; cases hrun

include h h' hb hp ht in
/-- Two passes that begin alike end with the same cells and values. -/
theorem matches_of_done (hs : s.IsDone) : Matches s t := by
  have hagrees : ∀ c ∈ b.engine.cells, Agrees s t c := fun c hc => by
    by_cases hmember : c.id ∈ b.pass.members
    · exact h.agrees_of_completed h' hb hp ht hc hmember (h.completed_of_done hs hmember)
    · exact (h.idle c hc (.inl hmember)).agrees (h'.idle c (hp.cells ▸ hc) (.inl (hp.members ▸ hmember))) hp
  refine ⟨?_, h.graph.trans (hp.graph.trans h'.graph.symm), fun v => ?_⟩
  · refine cells_eq_of_ids h'.tidy.ids (h.ids.trans (hp.cells ▸ h'.ids.symm)) fun c hc => ?_
    obtain ⟨d, hd, hid⟩ := h.exists_cell (List.mem_map_of_mem hc)
    obtain ⟨⟨c', hc', hid', hct⟩, -⟩ := hagrees d hd
    rw [List.inj_on_of_nodup_map h.tidy.ids hc hc' (hid.symm.trans hid'.symm)]
    exact hct
  · by_cases hw : ∃ d ∈ b.engine.cells, v ∈ d.writes.names
    · obtain ⟨d, hd, hw⟩ := hw
      exact (hagrees d hd).2 v hw
    · push Not at hw
      exact (h.free v hw).trans ((hp.holds v).trans (h'.free v (hp.cells ▸ hw)).symm)

end Follows

end Stage

end ReactiveNotebook
