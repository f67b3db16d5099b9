import ReactiveNotebook.Proofs.Scheduling.Acts
import ReactiveNotebook.Proofs.Scheduling.Chronicle
import ReactiveNotebook.Proofs.Scheduling.History

/-!
# What an engine keeps of its notebook

An engine keeps more than the texts of its cells: what each of them reads and writes, the cells to start the next
pass from, and the graph. After every operation all of it is what the present cells say, unless a cell comes back
under the id of one that was removed during the same pass.
-/
namespace ReactiveNotebook

variable {l : Language}

namespace Graph

variable {cells : List Cell} {g : Graph} {name : String} {x : CellId} {i : ℕ}

lemma readersOf_subset_ids (h : x ∈ g.readersOf name) : x ∈ g.ids := by
  obtain ⟨n, hn, rfl⟩ := List.mem_map.mp h
  exact List.mem_map_of_mem (List.mem_filter.mp hn).1

/-- The places of cells in the graph are their places in the notebook. -/
lemma position?_build_iff (hn : (cells.map (·.id)).Nodup) :
    (build cells).position? x = some i ↔ ∃ c, cells[i]? = some c ∧ c.id = x := by
  have hplace : (build cells).position? x = cells.findIdx? (·.id == x) := by
    rw [position?, nodes_build, List.findIdx?_map]
    rfl
  rw [hplace, List.findIdx?_eq_some_iff_getElem]
  constructor
  · rintro ⟨hi, hx, -⟩
    exact ⟨cells[i], List.getElem?_eq_getElem hi, by simpa using hx⟩
  · rintro ⟨c, hc, rfl⟩
    obtain ⟨hi, rfl⟩ := List.getElem?_eq_some_iff.mp hc
    refine ⟨hi, by simp, fun j hj hsame => ?_⟩
    have hids : (cells.map (·.id))[j]? = (cells.map (·.id))[i]? := by
      have hjl : j < cells.length := hj.trans hi
      simpa [hi, hjl] using hsame
    have heq := (List.getElem?_inj (by simpa using hj.trans hi) hn).mp hids
    exact absurd heq hj.ne

end Graph

namespace Engine

variable {e e' : Engine} {c d : Cell} {id x y : CellId} {name : String} {drop : Bool} {w : PendingWrite}
variable {σ : ℕ → Engine} {n k : ℕ}

/-- The graph and the seeds are about cells of the notebook. -/
structure Seeded (e : Engine) : Prop where
  graph : ∀ x ∈ e.graph.ids, x ∈ e.cells.map (·.id)
  seeds : ∀ x ∈ e.seeds, x ∈ e.cells.map (·.id)

namespace Seeded

lemma seedAll {ids : List CellId} (h : e.Seeded) (hids : ∀ x ∈ ids, x ∈ e.cells.map (·.id)) :
    (e.seedAll ids).Seeded where
  graph := h.graph
  seeds x hx := (Names.mem_insertAll.mp hx).elim (hids x) (h.seeds x)

lemma seedReaders (h : e.Seeded) (name : String) : (e.seedAll (e.graph.readersOf name)).Seeded :=
  h.seedAll fun x hx => h.graph x (Graph.readersOf_subset_ids hx)

/-- Whatever the graph was before, it is about the cells after it has been derived anew. -/
lemma rebuild (h : ∀ x ∈ e.seeds, x ∈ e.cells.map (·.id)) : e.rebuild.Seeded where
  graph x hx := by rwa [show e.rebuild.graph = Graph.build e.cells from rfl, Graph.ids_build] at hx
  seeds x hx := by
    rcases Names.mem_insertAll.mp hx with hx | hx
    · obtain ⟨c, hc, rfl⟩ := List.mem_map.mp hx
      exact List.mem_map_of_mem (List.mem_filter.mp hc).1
    · exact h x hx

lemma vacate (h : e.Seeded) (drop : Bool) (id : CellId) (name : String) : (vacate drop id e name).Seeded := by
  unfold Engine.vacate
  split
  · exact h
  · exact ⟨(h.seedReaders name).graph, (h.seedReaders name).seeds⟩

lemma foldl_vacate (h : e.Seeded) (drop : Bool) (id : CellId) (names : List String) :
    (names.foldl (Engine.vacate drop id) e).Seeded := by
  induction names generalizing e with
  | nil => exact h
  | cons name names ih => exact ih (h.vacate drop id name)

lemma edit (h : e.Seeded) (hedit : Edit e e') (hn : (e.cells.map (·.id)).Nodup) : e'.Seeded := by
  cases hedit with
  | @add d index e' hadd =>
    obtain ⟨hi, -, -, rfl⟩ := addCell_ok hadd
    have hperm := (List.perm_insertIdx (Cell.ofDefinition d) e.cells hi).map (·.id)
    refine rebuild fun x hx => hperm.mem_iff.mpr ?_
    rcases Names.mem_insert.mp hx with rfl | hx
    · exact List.mem_cons_self
    · exact List.mem_cons_of_mem _ (h.seeds x hx)
  | @remove id d e' hremove =>
    obtain ⟨c, -, -, rfl⟩ := removeCell_ok hremove
    refine foldl_vacate (rebuild fun x hx => ?_) true id _
    obtain ⟨hx, hne⟩ := Names.mem_filter.mp hx
    obtain ⟨d, hd, rfl⟩ := List.mem_map.mp (h.seeds x hx)
    exact List.mem_map_of_mem (List.mem_filter.mpr ⟨hd, hne⟩)
  | @content id text e' hcontent =>
    obtain ⟨c, hc, ⟨-, rfl⟩ | ⟨-, rfl⟩⟩ := setContent_ok hcontent
    · exact h
    · refine rebuild fun x hx => (ids_withText e id text).symm ▸ ?_
      rcases Names.mem_insert.mp hx with rfl | hx
      · exact hasCell_iff.mp (Option.isSome_iff_exists.mpr ⟨c, hc⟩)
      · exact h.seeds x hx
  | @move id index e' hmove =>
    obtain ⟨old, c, ho, hc, hi, ⟨-, rfl⟩ | ⟨-, rfl⟩⟩ := moveCell_ok hmove
    · exact h
    · have hperm := (Edit.perm_insertIdx_eraseIdx (getElem?_of_index? hn ho hc) hi).map (·.id)
      refine rebuild fun x hx => hperm.mem_iff.mpr ?_
      rcases Names.mem_insert.mp hx with rfl | hx
      · exact hasCell_iff.mp (Option.isSome_iff_exists.mpr ⟨c, hc⟩)
      · exact h.seeds x hx
  | @rename id name e' hrename =>
    obtain ⟨c, old, hc, -, -, ⟨-, rfl⟩ | ⟨-, rfl⟩⟩ := renameVariable_ok hrename
    · exact h
    · -- the readers of the old variable are looked up in the graph of the cells before, which have the same ids
      have hseeded : ((e.withOutput id name).seed id).Seeded := by
        refine ⟨fun x hx => (ids_withOutput e id name).symm ▸ h.graph x hx, fun x hx => ?_⟩
        refine (ids_withOutput e id name).symm ▸ ?_
        rcases Names.mem_insert.mp hx with rfl | hx
        · exact hasCell_iff.mp (Option.isSome_iff_exists.mpr ⟨c, hc⟩)
        · exact h.seeds x hx
      exact rebuild (hseeded.vacate false id old).seeds

lemma takeWrite (h : e.Seeded) (w : PendingWrite) : (e.takeWrite w).Seeded := by
  unfold Engine.takeWrite
  split
  next store changed _ =>
  simp only
  split
  · exact ⟨(h.seedReaders w.name).graph, (h.seedReaders w.name).seeds⟩
  · exact ⟨h.graph, h.seeds⟩

lemma foldl_takeWrite (h : e.Seeded) (ws : List PendingWrite) : (ws.foldl Engine.takeWrite e).Seeded := by
  induction ws generalizing e with
  | nil => exact h
  | cons w ws ih => exact ih (h.takeWrite w)

lemma collect (h : e.Seeded) : e.collect.Seeded := by
  unfold Engine.collect
  split
  · exact foldl_takeWrite (e := { e with
      phase := .collecting, store := { e.store with queue := e.store.queue.drained } }) ⟨h.graph, h.seeds⟩ _
  · exact h

lemma of_control {s t : Stage} (hcontrol : s.control = t.control) (h : t.engine.Seeded) : s.engine.Seeded := by
  have hgraph : s.engine.graph = t.engine.graph := congrArg (·.engine.graph) hcontrol
  have hseeds : s.engine.seeds = t.engine.seeds := congrArg (·.engine.seeds) hcontrol
  exact ⟨hgraph ▸ Stage.ids_of_control hcontrol ▸ h.graph, hseeds ▸ Stage.ids_of_control hcontrol ▸ h.seeds⟩

/-- Taking over exports seeds the cells that come onto a cycle or off one. -/
lemma accept {s : Stage} {exports : Script.Fields} (h : s.engine.Seeded) : (s.accept c exports).engine.Seeded := by
  have hadopt : (s.adopt c exports).engine.Seeded := by
    have hgraph : (s.adopt c exports).engine.graph = s.engine.graph :=
      congrArg (·.engine.graph) (Stage.control_adopt s c exports)
    exact ⟨hgraph ▸ Stage.ids_adopt (s := s) ▸ h.graph, Stage.seeds_adopt (s := s) ▸ Stage.ids_adopt (s := s) ▸ h.seeds⟩
  rcases Stage.accept_cases s c exports with ⟨-, heq⟩ | heq
  · exact heq ▸ hadopt
  · rw [heq]
    exact of_control (Stage.control_extend ..) (t := { (s.readopt c exports).enlarge c.id (Stage.novel c exports) with
      pass := _ }) (rebuild hadopt.seeds)

lemma move {s s' : Stage} (h : s.engine.Seeded) (hm : s.Move l s') : s'.engine.Seeded := by
  cases hm with
  | @start i id _ _ _ _ hrun =>
    rcases Stage.runCell_cases hrun with hcontrol | ⟨c, source, -, -, -, -, rfl⟩
    · exact of_control hcontrol (t := (s.withdraw i).finish id .success) ⟨h.graph, h.seeds⟩
    · exact ⟨h.graph, h.seeds⟩
  | @receive a rest hperm =>
    have hland : ((s.deliver rest).land a.cell).engine.Seeded := ⟨h.graph, h.seeds⟩
    have hlanded : ∀ logs, ((s.deliver rest).landed a logs).engine.Seeded := fun logs =>
      of_control Stage.control_keepLogs hland
    have hlanding := Stage.landing_receive (s.deliver rest) a
    generalize (s.deliver rest).receive a = t at hlanding
    cases hlanding with
    | stale _ =>
      unfold Stage.dismiss
      dsimp only
      split <;> exact hland
    | again _ _ => exact hland
    | @failed c message logs _ _ _ =>
      exact of_control (Stage.control_failed ..) (t := ((s.deliver rest).landed a logs).finish c.id .success)
        ⟨(hlanded logs).graph, (hlanded logs).seeds⟩
    | accepted _ _ _ => exact (hlanded _).accept

end Seeded

/-- An operation seeds only cells of the notebook. -/
lemma Operation.seeded (h : Operation l e e') (hn : (e.cells.map (·.id)).Nodup) (hs : e.Seeded) : e'.Seeded := by
  cases h with
  | edit h => exact hs.edit h hn
  | host h hseeds =>
    have hcells := h.cells_eq
    have hgraph : e'.graph = e.graph := by cases h <;> rfl
    exact ⟨hgraph ▸ hcells ▸ hs.graph, hseeds ▸ hcells ▸ hs.seeds⟩
  | seedAll => exact hs.seedAll fun _ hx => hx
  | schedule h =>
    cases h with
    | collect _ => exact hs.collect
    | begin _ =>
      have hopen : e.openPass.engine.Seeded := ⟨hs.graph, fun x hx => absurd hx (Names.not_mem_empty x)⟩
      have hblock := Seeded.of_control (control_blockCycles e) ⟨hopen.graph, hopen.seeds⟩
      exact ⟨hblock.graph, hblock.seeds⟩
    | @move p s hp hm =>
      have hresume : (e.resume p).engine.Seeded := ⟨hs.graph, hs.seeds⟩
      have hmoved := hresume.move hm
      exact ⟨hmoved.graph, hmoved.seeds⟩
    | finish _ _ _ => exact ⟨hs.graph, hs.seeds⟩

/-- What is kept of every cell is what its text says. -/
theorem IsChronicle.derived (h : IsChronicle l n σ) (hret : NoReturn n σ) (hk : k ≤ n) :
    ∀ c ∈ (σ k).cells, Derived c := by
  induction k with
  | zero =>
    obtain ⟨config, manual, hstart⟩ := h.start
    rw [hstart]
    intro c hc
    cases hc
  | succ k ih =>
    have ht := h.tidy (by omega : k ≤ n)
    have hderived := ih (by omega)
    rcases (h.step k hk).edit_or_ongoing with hedit | hongoing
    · exact hedit.derived ht.ids hderived
    · intro d hd
      obtain ⟨c, hc, hrevision, hwrites⟩ := hongoing.exists_mem hd
      simp only [Cell.revision, Prod.mk.injEq] at hrevision
      obtain ⟨hid, hcontent, -, hreads⟩ := hrevision
      have hc' := hderived c hc
      refine ⟨?_, fun hscript => ?_, ?_⟩
      · rw [hreads, hcontent]
        exact hc'.reads
      · rcases hwrites with hsame | ⟨names, ⟨a, exports, hlands, -, hcell, -⟩, -⟩
        · rw [hsame, hcontent]
          exact hc'.writes (hcontent ▸ hscript)
        · -- only a script has a result under way
          have hfly := flying_of_lands ht hlands
          have hscript' := (h.airborne hret (by omega) hfly).script c hc (hid.symm.trans hcell.symm)
          rw [hcontent, hscript'] at hscript
          cases hscript
      · rw [Cell.definition, hid, hcontent]
        exact hc'.check

lemma Derived.confirmed (h : Derived c) {name : String} (hout : c.content.output? = some name) :
    c.writes = .confirmed (Names.ofList [name]) ∧ Analysis.isVariableName name = true := by
  constructor
  · cases hcontent : c.content <;> simp only [hcontent, Content.output?, reduceCtorEq, Option.some.injEq] at hout <;>
      rw [h.writes (by rw [hcontent]; rfl), hcontent, Content.analyze, hout]
  · exact isVariableName_of_check h.check hout

/-- What the engine keeps of the notebook is what its cells say. -/
structure Faithful (e : Engine) : Prop where
  ids : (e.cells.map (·.id)).Nodup
  reads : ∀ c ∈ e.cells, c.reads = c.content.analyze.reads
  /-- A formula or an input writes the variable that it declares, which is a good one, and nothing else. -/
  declared : ∀ c ∈ e.cells, ∀ name, c.content.output? = some name →
    c.writes = .confirmed (Names.ofList [name]) ∧ Analysis.isVariableName name = true
  template : ∀ c ∈ e.cells, ∀ text, c.content = .markdown text → c.writes = .confirmed ∅
  seeds : ∀ x ∈ e.seeds, ∃ c ∈ e.cells, c.id = x
  graph : e.graph = Graph.build e.cells
  position : ∀ x i, e.graph.position? x = some i ↔ ∃ c, e.cells[i]? = some c ∧ c.id = x
  edge : ∀ x y, e.graph.Edge x y ↔ x ≠ y ∧ ∃ c ∈ e.cells, c.id = x ∧ ∃ d ∈ e.cells, d.id = y ∧
    ∃ name ∈ c.writes.names, name ∈ d.reads

lemma IsChronicle.seeded (h : IsChronicle l n σ) (hk : k ≤ n) : (σ k).Seeded := by
  induction k with
  | zero =>
    obtain ⟨config, manual, hstart⟩ := h.start
    rw [hstart]
    exact ⟨(fun x hx => by cases hx), fun x hx => absurd hx (Names.not_mem_empty x)⟩
  | succ k ih => exact (h.step k hk).seeded (h.tidy (by omega)).ids (ih (by omega))

/-- After every operation an engine is faithful to its notebook. -/
theorem faithful_of_noReturn (h : IsChronicle l n σ) (hret : NoReturn n σ) (hk : k ≤ n) : (σ k).Faithful := by
  have ht := h.tidy hk
  have hderived := h.derived hret hk
  exact
    { ids := ht.ids
      reads := fun c hc => (hderived c hc).reads
      declared := fun c hc name => (hderived c hc).confirmed
      template := fun c hc text hcontent => by
        rw [(hderived c hc).writes (by rw [hcontent]; rfl), hcontent]
        rfl
      seeds := fun x hx => List.mem_map.mp ((h.seeded hk).seeds x hx)
      graph := ht.graph
      position := fun x i => by
        rw [ht.graph]
        exact Graph.position?_build_iff ht.ids
      edge := fun x y => by
        rw [ht.graph, Graph.edge_build_iff ht.ids]
        constructor
        · rintro ⟨c, hc, d, hd, rfl, rfl, hne, name, hwrite, hread⟩
          exact ⟨hne, c, hc, rfl, d, hd, rfl, name, hwrite, hread⟩
        · rintro ⟨hne, c, hc, rfl, d, hd, rfl, name, hwrite, hread⟩
          exact ⟨c, hc, d, hd, rfl, rfl, hne, name, hwrite, hread⟩ }

/-- A script is removed while its result is under way. The pass ends, and an input is added under the same id. -/
def replacing : List Deed :=
  [.act (.push ⟨"s", .script "exports.x = 1;"⟩), .act .begin, .act (.move none), .remove "s", .act (.move (some 0)),
    .act .finish, .act (.push ⟨"s", .input "5" "y"⟩)]

def returning : ℕ → Engine := along (deed? (.ofConfig .standard)) (new .standard true) replacing

/-- How the chronicle goes, as far as it can be computed. -/
lemma returning_trace :
    leads (deed? (.ofConfig .standard)) (new .standard true) replacing = true ∧
    (∀ k < 7, (returning k).pass.isNone = true ∨
      ((returning (k + 1)).cells.all fun c => (returning k).hasCell c.id) = true) ∧
    ((returning 7).cells.map fun c => (c.id, c.writes)) = [("s", .confirmed (Names.ofList ["y"]))] := by
  decide +kernel

/-- The input that came back under the id of a script writes what it declares. -/
theorem returned_input_faithful : NoReturn 7 returning ∧ (returning 7).Faithful ∧
    ((returning 7).cells.map fun c => (c.id, c.writes)) = [("s", .confirmed (Names.ofList ["y"]))] := by
  obtain ⟨hleads, hidle, hcells⟩ := returning_trace
  have hret : NoReturn 7 returning := noReturn_of_idle hidle
  exact ⟨hret, faithful_of_noReturn (isChronicle_along hleads) hret (le_refl 7), hcells⟩

end Engine

end ReactiveNotebook
