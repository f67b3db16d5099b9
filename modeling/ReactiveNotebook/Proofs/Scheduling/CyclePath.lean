import ReactiveNotebook.Proofs.Scheduling.Acts
import ReactiveNotebook.Proofs.Scheduling.CycleMark

/-!
# The walks that marked cells show

A cell on a cycle shows the closed walk that the graph had recorded for it when a pass marked it. The walk is
out of date if one of its edges goes while the reader of that edge is not seeded, and the cell lies on another
cycle. Then no pass comes to the cell. An edge goes in this way when a cell gives up a name that another cell
writes too, or when a script is found to export a name no more.
-/
namespace ReactiveNotebook

open Relation (TransGen ReflTransGen)
open ReactiveNotebook.Graph (Circuit ClosedWalk)

variable {l : Language}

namespace Engine

variable {e e' : Engine} {d : Cell} {x : CellId}

/-- The cell shows no cycle, or what a cell with its id has shown before, or it lies on a cycle and has been
marked. -/
def Shown (e e' : Engine) (d : Cell) : Prop :=
  d.status.isCycle = false ∨ (∃ c ∈ e.cells, c.id = d.id ∧ c.status = d.status) ∨
    e'.graph.OnCycle d.id ∧ d.status = e'.graph.mark d.id

/-- What a step does to the marks and the seeds, unless it is the start of a pass. -/
structure Heeds (e e' : Engine) : Prop where
  shown : ∀ d ∈ e'.cells, e.Shown e' d
  /-- Seeds stay, and new cells are seeded. -/
  seeds : ∀ v ∈ e'.graph.ids, v ∈ e.seeds ∨ v ∉ e.graph.ids → v ∈ e'.seeds
  /-- A new cycle has a seed on it. -/
  cycles : ∀ x, e'.OnUnseededCycle x → e.OnUnseededCycle x

lemma heeds_of_graph (hshown : ∀ d ∈ e'.cells, e.Shown e' d) (hgraph : e'.graph = e.graph)
    (hseeds : ∀ x ∈ e.seeds, x ∈ e'.seeds) : Heeds e e' where
  shown := hshown
  seeds v hv h := hseeds v (h.resolve_right fun hout => hout (hgraph ▸ hv))
  cycles _ h := h.of_seeds hgraph hseeds

lemma heeds_of_cells (hcells : e'.cells = e.cells) (hgraph : e'.graph = e.graph)
    (hseeds : ∀ x ∈ e.seeds, x ∈ e'.seeds) : Heeds e e' :=
  heeds_of_graph (fun d hd => .inr (.inl ⟨d, hcells ▸ hd, rfl, rfl⟩)) hgraph hseeds

lemma Edit.exists_status (h : Edit e e') (hn : (e.cells.map (·.id)).Nodup) (hd : d ∈ e'.cells) :
    d.status = .pending ∨ ∃ c ∈ e.cells, c.id = d.id ∧ c.status = d.status := by
  cases h with
  | add h =>
    obtain ⟨hi, -, -, rfl⟩ := addCell_ok h
    rcases (List.mem_insertIdx hi).mp hd with rfl | hd
    · exact .inl rfl
    · exact .inr ⟨d, hd, rfl, rfl⟩
  | remove h =>
    obtain ⟨b, -, -, rfl⟩ := removeCell_ok h
    rw [(vacates_foldl _).cells] at hd
    exact .inr ⟨d, (List.mem_filter.mp hd).1, rfl, rfl⟩
  | content h =>
    obtain ⟨b, -, ⟨-, rfl⟩ | ⟨-, rfl⟩⟩ := setContent_ok h
    · exact .inr ⟨d, hd, rfl, rfl⟩
    · rcases mem_modifyCell hd with ⟨hd, -⟩ | ⟨c, hc, -, rfl⟩
      · exact .inr ⟨d, hd, rfl, rfl⟩
      · exact .inr ⟨c, hc, rfl, rfl⟩
  | move h =>
    obtain ⟨old, b, ho, hb, hi, ⟨-, rfl⟩ | ⟨-, rfl⟩⟩ := moveCell_ok h
    · exact .inr ⟨d, hd, rfl, rfl⟩
    · exact .inr ⟨d, (mem_move_iff hn ho hb hi).mp hd, rfl, rfl⟩
  | @rename id name e' h =>
    obtain ⟨b, old, -, -, -, ⟨-, rfl⟩ | ⟨-, rfl⟩⟩ := renameVariable_ok h
    · exact .inr ⟨d, hd, rfl, rfl⟩
    · change d ∈ (vacate false id ((e.withOutput id name).seed id) old).cells at hd
      rw [vacates_vacate.cells] at hd
      rcases mem_modifyCell hd with ⟨hd, -⟩ | ⟨c, hc, -, rfl⟩
      · exact .inr ⟨d, hd, rfl, rfl⟩
      · exact .inr ⟨c, hc, rfl, rfl⟩

lemma Edit.heeds (h : Edit e e') (ht : e.Tidy) : Heeds e e' := by
  have ht' := h.tidy ht
  rcases h.effect ht.ids ht.graph with rfl | heffect
  · exact heeds_of_cells rfl rfl fun _ hx => hx
  · refine ⟨fun d hd => ?_, fun v hv hcase => ?_, fun x => onUnseededCycle_of_effect ht ht' heffect⟩
    · rcases h.exists_status ht.ids hd with hpending | hkept
      · exact .inl (hpending ▸ rfl)
      · exact .inr (.inl hkept)
    · obtain ⟨c, hc, rfl⟩ := List.mem_map.mp ((mem_ids_iff ht').mp hv)
      rcases hcase with hseed | hnew
      · exact heffect.seeds c hc hseed
      · exact (heffect.cells c hc).resolve_left fun hold =>
          hnew ((mem_ids_iff ht).mpr (List.mem_map_of_mem hold))

lemma Host.heeds (h : Host e e') : Heeds e e' := by
  cases h with
  | seed ids => exact heeds_of_cells rfl rfl fun x hx => Names.mem_insertAll.mpr (.inr hx)
  | _ => exact heeds_of_cells rfl rfl fun _ hx => hx

end Engine

namespace Stage

open Engine (Heeds heeds_of_graph heeds_of_cells)

variable {s s' t : Stage} {a : Arrival} {c d : Cell} {id x : CellId} {i : ℕ} {logs : List String}
variable {exports : Script.Fields} {rest : List Arrival}

lemma shown_start (hs : s.Tidy) (hid : s.pass.remaining[i]? = some id)
    (hrun : (s.withdraw i).runCell l id = .ok s') (hd : d ∈ s'.engine.cells) : s.engine.Shown s'.engine d := by
  by_cases hdid : d.id = id
  · rcases mem_cells_start hs hrun hd hdid with ⟨hd, -⟩ | ⟨c, -, v, hv, hscript, rfl⟩
    · exact .inr (.inl ⟨d, hd, rfl, rfl⟩)
    · rcases isCycle_withVerdict hv with ⟨source, inputs, rfl⟩ | hmark
      · exact absurd rfl (hscript source inputs)
      · exact .inl hmark
  · exact .inr (.inl ⟨d, (starts_of_runCell hs hid hrun).cells d hd hdid, rfl, rfl⟩)

lemma exists_status_landed (hd : d ∈ (s.landed a logs).engine.cells) :
    ∃ c ∈ s.engine.cells, c.id = d.id ∧ c.status = d.status := by
  rcases Engine.mem_modifyCell hd with ⟨hd, -⟩ | ⟨c, hc, -, rfl⟩
  · exact ⟨d, hd, rfl, rfl⟩
  · exact ⟨c, hc, rfl, rfl⟩

lemma shown_adopt (hd : d ∈ (s.adopt c exports).engine.cells) :
    d.status.isCycle = false ∨ d ∈ s.engine.cells := by
  rcases mem_cells_adopt hd with ⟨hd, -⟩ | ⟨b, -, -, rfl⟩
  · exact .inr hd
  · exact .inl rfl

lemma shown_accept (hs : s.Tidy) (hd : d ∈ (s.accept c exports).engine.cells) :
    s.engine.Shown (s.accept c exports).engine d := by
  have hkept : ∀ {t : Engine}, d ∈ (s.adopt c exports).engine.cells → s.engine.Shown t d := fun hd =>
    (shown_adopt hd).imp_right fun hd => .inl ⟨d, hd, rfl, rfl⟩
  rcases accept_cases s c exports with ⟨-, heq⟩ | heq
  · exact hkept (heq ▸ hd)
  · rw [heq] at hd ⊢
    have ht : (s.readopt c exports).Tidy := hs.rebuild_adopt
    rcases mem_or_marked_extend ht hd with hd | hmarked
    · exact hkept hd
    · refine .inr (.inr ?_)
      rw [graph_extend]
      exact hmarked

lemma heeds_accept (hs : s.Tidy) (hd : d ∈ s.engine.cells) (hid : d.id = c.id) :
    Heeds s.engine (s.accept c exports).engine := by
  have hshown : ∀ d ∈ (s.accept c exports).engine.cells, s.engine.Shown (s.accept c exports).engine d :=
    fun _ => shown_accept hs
  rcases accept_cases s c exports with ⟨-, heq⟩ | heq
  · rw [heq] at hshown ⊢
    have hcontrol := control_adopt s c exports
    refine heeds_of_graph hshown (congrArg (·.engine.graph) hcontrol) fun x hx => ?_
    rwa [seeds_adopt]
  · rw [heq] at hshown ⊢
    have ht : (s.readopt c exports).Tidy := hs.rebuild_adopt
    refine ⟨hshown, fun v hv hcase => ?_, fun x hx => ?_⟩
    · rw [graph_extend, ht.mem_ids_iff] at hv
      have hold : v ∈ s.engine.graph.ids := hs.mem_ids_iff.mpr (ids_adopt (s := s) ▸ hv)
      rw [seeds_extend]
      exact Engine.seeds_rebuild (seeds_adopt (s := s) ▸ hcase.resolve_right fun hout => hout hold)
    · have hold : (s.readopt c exports).engine.OnUnseededCycle x :=
        hx.of_seeds (graph_extend ..) fun y hy => by rwa [seeds_extend]
      exact onUnseededCycle_of_readopt hs hd hid hold

lemma heeds_receive (hs : s.Tidy) (hperm : s.engine.arriving.Perm (a :: rest)) :
    Heeds s.engine ((s.deliver rest).receive a).engine := by
  have hland := hs.land hperm
  have hlanding := landing_receive (s.deliver rest) a
  generalize (s.deliver rest).receive a = t at hlanding
  cases hlanding with
  | stale _ =>
    obtain ⟨completed, results, heq⟩ := dismiss_shape ((s.deliver rest).land a.cell) a.cell
    rw [heq]
    exact heeds_of_cells rfl rfl fun _ hx => hx
  | again _ _ => exact heeds_of_cells rfl rfl fun _ hx => hx
  | @failed c message logs _ _ _ =>
    have hcontrol := control_failed (s.deliver rest) a c logs message
    have hseeds : _ = s.engine.seeds := congrArg (·.engine.seeds) hcontrol
    refine heeds_of_graph (fun d hd => ?_) (congrArg (·.engine.graph) hcontrol) fun x hx => hseeds ▸ hx
    rw [cells_fail] at hd
    rcases mem_conclusion.mp hd with ⟨hd, -⟩ | ⟨b, -, -, rfl⟩
    · exact .inr (.inl (exists_status_landed hd))
    · exact .inl rfl
  | @accepted c exports logs hc _ _ =>
    obtain ⟨hcm, hcid, -⟩ := flight_of_addressee? hs hperm hc
    have hkept : { c with logs } ∈ ((s.deliver rest).landed a logs).engine.cells := mem_landed hcm hcid
    have haccept : Heeds ((s.deliver rest).landed a logs).engine
        (((s.deliver rest).landed a logs).accept c exports).engine :=
      heeds_accept (hland.keepLogs a.cell logs) hkept rfl
    refine ⟨fun d hd => ?_, haccept.seeds, haccept.cycles⟩
    rcases haccept.shown d hd with hmark | ⟨b, hb, hid, hstatus⟩ | hmarked
    · exact .inl hmark
    · obtain ⟨b', hb', hid', hstatus'⟩ := exists_status_landed hb
      exact .inr (.inl ⟨b', hb', hid'.trans hid, hstatus'.trans hstatus⟩)
    · exact .inr (.inr hmarked)

lemma heeds_move (hs : s.Tidy) (hm : s.Move l s') : Heeds s.engine s'.engine := by
  cases hm with
  | start _ _ hid hrun =>
    have hstarts := starts_of_runCell hs hid hrun
    exact heeds_of_graph (fun _ => shown_start hs hid hrun) hstarts.graph fun x hx => hstarts.seeds ▸ hx
  | receive hperm => exact heeds_receive hs hperm

end Stage

namespace Engine

variable {e e' : Engine} {c d : Cell} {u v x y : CellId} {walk : List CellId} {name : String}
variable {σ τ : ℕ → Engine} {k n : ℕ} {reports : List Report}

lemma Step.heeds_or_begin (h : Step l e e') (ht : e.Tidy) : Heeds e e' ∨ e' = e.beginPass.suspend := by
  cases h with
  | edit h => exact .inl (h.heeds ht)
  | host h => exact .inl h.heeds
  | collect _ =>
    obtain ⟨store, seeds, phase, hseeds, heq⟩ := collect_shape e
    rw [heq]
    exact .inl (heeds_of_cells rfl rfl hseeds)
  | begin _ => exact .inr rfl
  | @move p s hp hm =>
    have hmove := Stage.heeds_move (ht.pass p hp) hm
    exact .inl ⟨hmove.shown, hmove.seeds, hmove.cycles⟩
  | finish _ _ _ => exact .inl (heeds_of_cells rfl rfl fun _ hx => hx)

/-- The edge goes and its reader stays, without a seed. -/
structure Slips (e e' : Engine) (u v : CellId) : Prop where
  edge : e.graph.Edge u v
  gone : ¬ e'.graph.Edge u v
  stays : v ∈ e'.graph.ids
  unseeded : v ∉ e'.seeds

/-- The second cell reads from the first one, or the next pass comes to it, or it is gone. -/
def Warrants (e : Engine) (u v : CellId) : Prop := e.graph.Edge u v ∨ v ∈ e.seeds ∨ v ∉ e.graph.ids

lemma Heeds.warrants_or_slips (h : Heeds e e') (hf : e.Warrants u v) : e'.Warrants u v ∨ Slips e e' u v := by
  by_cases hknown : v ∈ e'.graph.ids
  · by_cases hseed : v ∈ e'.seeds
    · exact .inl (.inr (.inl hseed))
    · have hedge : e.graph.Edge u v := hf.resolve_right fun hor => hseed (h.seeds v hknown hor)
      by_cases hkept : e'.graph.Edge u v
      · exact .inl (.inl hkept)
      · exact .inr ⟨hedge, hkept, hknown, hseed⟩
  · exact .inl (.inr (.inr hknown))

/-- The step makes a cell write a variable no more. If it is an edit, another cell writes the variable too, or the
cell is no script and had the variable from the run of one. Otherwise it is a result of the script of the cell. -/
inductive Drops (e e' : Engine) (u : CellId) (name : String) : Prop
  | shared (hedit : Edit e e') (h : ∃ b ∈ e'.cells, b.id ≠ u ∧ name ∈ b.writes.names)
  | foreign (hedit : Edit e e')
      (h : ∃ c ∈ e.cells, c.id = u ∧ c.content.isScript = false ∧ name ∉ c.content.analyze.writes.names)
  | result {names : Names} (h : Exports e e' u names) (hname : name ∉ names)

lemma Ongoing.ids_eq (h : Ongoing l e e') : e'.cells.map (·.id) = e.cells.map (·.id) := by
  have hids : ∀ {cells cells' : List Cell}, cells'.map Cell.revision = cells.map Cell.revision →
      cells'.map (·.id) = cells.map (·.id) := fun hrev => by
    simpa [Cell.revision, Function.comp_def] using congrArg (List.map Prod.fst) hrev
  cases h with
  | host h => rw [h.cells_eq]
  | collect _ => rw [cells_collect]
  | begin _ => exact hids (revisions_beginPass e)
  | move _ hm => exact hids hm.revisions_eq
  | finish _ _ _ => rfl

lemma Ongoing.drops (h : Ongoing l e e') (ht : e.Tidy) (hc : c ∈ e.cells) (hname : name ∈ c.writes.names)
    (hlost : ∀ c' ∈ e'.cells, c'.id = c.id → name ∉ c'.writes.names) : Drops e e' c.id name := by
  have hid : c.id ∈ e'.cells.map (·.id) := h.ids_eq ▸ List.mem_map_of_mem hc
  obtain ⟨c', hc', hid⟩ := List.mem_map.mp hid
  obtain ⟨b, hb, hrevision, hwrites⟩ := h.exists_mem hc'
  obtain rfl : b = c := List.inj_on_of_nodup_map ht.ids hb hc ((congrArg (·.1) hrevision).symm.trans hid)
  have hno := hlost c' hc' hid
  rcases hwrites with heq | ⟨names, hexports, heq⟩
  · exact absurd (heq ▸ hname) hno
  · rw [heq] at hno
    exact .result (hid ▸ hexports) hno

lemma analyze_of_output? {content : Content} (h : content.output? = some name) :
    content.isScript = false ∧ content.analyze.writes = .confirmed (Names.ofList [name]) := by
  cases content <;> cases h <;> exact ⟨rfl, rfl⟩

lemma Edit.mem_of_unseeded (h : Edit e e') (ht : e.Tidy) (hd : d ∈ e'.cells) (hunseeded : d.id ∉ e'.seeds) :
    d ∈ e.cells := by
  rcases h.effect ht.ids ht.graph with rfl | heffect
  · exact hd
  · exact (heffect.cells d hd).resolve_right hunseeded

/-- Giving up a variable seeds its readers, unless another cell writes it too. -/
lemma exists_writer_of_unseeded {drop : Bool} {id : CellId} {names : List String} (hname : name ∈ names)
    (hreader : x ∈ e.graph.readersOf name) (hunseeded : x ∉ (names.foldl (vacate drop id) e).seeds) :
    ∃ b ∈ e.cells, b.id ≠ id ∧ name ∈ b.writes.names := by
  by_contra hno
  push Not at hno
  exact hunseeded (mem_seeds_foldl_vacate hname (isWrittenElsewhere_eq_false_iff.mpr hno) hreader)

lemma Edit.drops (h : Edit e e') (ht : e.Tidy) (hc : c ∈ e.cells) (hd : d ∈ e'.cells)
    (hname : name ∈ c.writes.names) (hread : name ∈ d.reads) (hunseeded : d.id ∉ e'.seeds)
    (hlost : ∀ c' ∈ e'.cells, c'.id = c.id → name ∉ c'.writes.names) : Drops e e' c.id name := by
  have hgone : c ∉ e'.cells := fun hc' => hlost c hc' rfl hname
  have hkept : d ∈ e.cells := h.mem_of_unseeded ht hd hunseeded
  have hedit := h
  cases h with
  | add h =>
    obtain ⟨hi, -, -, rfl⟩ := addCell_ok h
    exact absurd ((List.mem_insertIdx hi).mpr (.inr hc)) hgone
  | @remove id _ _ h =>
    obtain ⟨b, hcell, -, rfl⟩ := removeCell_ok h
    obtain ⟨hb, rfl⟩ := (cell?_eq_some_iff ht.ids).mp hcell
    rw [(vacates_foldl _).cells] at hd hgone
    have hid : c.id = b.id := by
      by_contra hne
      exact hgone (List.mem_filter.mpr ⟨hc, bne_iff_ne.mpr hne⟩)
    obtain rfl : c = b := List.inj_on_of_nodup_map ht.ids hc hb hid
    refine .shared hedit ?_
    rw [(vacates_foldl _).cells]
    exact exists_writer_of_unseeded (Names.mem_toList.mpr hname)
      (Graph.mem_readersOf_build.mpr ⟨d, hd, rfl, hread⟩) hunseeded
  | @content id text _ h =>
    obtain ⟨b, -, ⟨-, rfl⟩ | ⟨-, rfl⟩⟩ := setContent_ok h
    · exact absurd hc hgone
    · by_cases hid : c.id = id
      · by_contra hno
        have hdeclared : c.content.isScript = true ∨ name ∈ c.content.analyze.writes.names := by
          by_contra hor
          rw [not_or, Bool.not_eq_true] at hor
          exact hno (.foreign hedit ⟨c, hc, rfl, hor⟩)
        exact hlost _ (List.mem_map.mpr ⟨c, hc, if_pos (beq_iff_eq.mpr hid)⟩) rfl
          (mem_writes_withText hname hdeclared)
      · exact absurd (mem_modifyCell_of_ne hc hid) hgone
  | move h =>
    obtain ⟨old, b, ho, hb, hi, ⟨-, rfl⟩ | ⟨-, rfl⟩⟩ := moveCell_ok h
    · exact absurd hc hgone
    · exact absurd ((mem_move_iff ht.ids ho hb hi).mpr hc) hgone
  | @rename id new _ h =>
    obtain ⟨b, old, hcell, ho, -, ⟨-, rfl⟩ | ⟨-, rfl⟩⟩ := renameVariable_ok h
    · exact absurd hc hgone
    · obtain ⟨hb, hbid⟩ := (cell?_eq_some_iff ht.ids).mp hcell
      have hcells : (vacate false id ((e.withOutput id new).seed id) old).rebuild.cells =
          (e.withOutput id new).cells := vacates_vacate.cells
      have hid : c.id = id := by
        by_contra hne
        exact hgone (hcells ▸ mem_modifyCell_of_ne hc hne)
      obtain rfl : c = b := List.inj_on_of_nodup_map ht.ids hc hb (hid.trans hbid.symm)
      by_cases hold : name = old
      · subst hold
        have hreader : d.id ∈ ((e.withOutput id new).seed id).graph.readersOf name :=
          ht.graph ▸ Graph.mem_readersOf_build.mpr ⟨d, hkept, rfl, hread⟩
        have hshared := exists_writer_of_unseeded (List.mem_singleton.mpr rfl) hreader
          fun hseed => hunseeded (seeds_rebuild hseed)
        exact .shared hedit (hcells ▸ hid ▸ hshared)
      · obtain ⟨hkind, hdeclared⟩ := analyze_of_output? ho
        refine .foreign hedit ⟨c, hc, rfl, hkind, ?_⟩
        rw [hdeclared]
        exact fun hmem => hold (List.mem_singleton.mp (Names.mem_ofList.mp hmem))

/-- An edge goes without notice only if its source gives up a variable that the reader reads. -/
lemma Slips.exists_drops (h : Slips e e' u v) (hop : Operation l e e') (ht : e.Tidy) :
    ∃ name, (∃ c ∈ e.cells, c.id = u ∧ name ∈ c.writes.names) ∧ (∃ d ∈ e'.cells, d.id = v ∧ name ∈ d.reads) ∧
      Drops e e' u name := by
  have ht' := hop.step.tidy ht
  obtain ⟨hedge, hgone, hstays, hunseeded⟩ := h
  rw [ht.graph, Graph.edge_build_iff ht.ids] at hedge
  rw [ht'.graph, Graph.edge_build_iff ht'.ids] at hgone
  obtain ⟨c, hc, b, hb, rfl, rfl, hne, name, hname, hread⟩ := hedge
  obtain ⟨d, hd, hid⟩ := List.mem_map.mp ((mem_ids_iff ht').mp hstays)
  have hreads : d.reads = b.reads := by
    rcases hop.edit_or_ongoing with hedit | hongoing
    · have hd' : d ∈ e.cells := hedit.mem_of_unseeded ht hd (hid ▸ hunseeded)
      rw [List.inj_on_of_nodup_map ht.ids hd' hb hid]
    · obtain ⟨b', hb', hrevision, -⟩ := hongoing.exists_mem hd
      simp only [Cell.revision, Prod.mk.injEq] at hrevision
      rw [hrevision.2.2.2, List.inj_on_of_nodup_map ht.ids hb' hb (hrevision.1.symm.trans hid)]
  have hlost : ∀ c' ∈ e'.cells, c'.id = c.id → name ∉ c'.writes.names := fun c' hc' hcid hname' =>
    hgone ⟨c', hc', d, hd, hcid, hid, by rwa [hcid, hid], name, hname', hreads ▸ hread⟩
  refine ⟨name, ⟨c, hc, rfl, hname⟩, ⟨d, hd, hid, hreads ▸ hread⟩, ?_⟩
  rcases hop.edit_or_ongoing with hedit | hongoing
  · exact hedit.drops ht hc hd hname (hreads ▸ hread) (hid ▸ hunseeded) hlost
  · exact hongoing.drops ht hc hname hlost

/-- The cell shows the walk as its cycle. -/
def ShowsWalk (e : Engine) (x : CellId) (walk : List CellId) : Prop :=
  ∃ c ∈ e.cells, c.id = x ∧ c.status = .failed (.cycle x walk)

instance : Decidable (e.ShowsWalk x walk) :=
  inferInstanceAs (Decidable (∃ c ∈ e.cells, c.id = x ∧ c.status = .failed (.cycle x walk)))

/-- The walk is one of the graph, as far as the next pass does not come to its cells, or the next pass comes to the
cell that shows it. -/
def Upholds (e : Engine) (x : CellId) (walk : List CellId) : Prop :=
  ClosedWalk e.Warrants walk ∨ ¬ e.OnUnseededCycle x

lemma Heeds.upholds_or_slips (h : Heeds e e') (hupheld : e.Upholds x walk) :
    e'.Upholds x walk ∨ ∃ u v, [u, v] <:+: walk ∧ Slips e e' u v := by
  rcases hupheld with hwalk | hno
  · exact (hwalk.imp_or fun _ _ => h.warrants_or_slips).imp_left .inl
  · exact .inl (.inr fun hfree => hno (h.cycles x hfree))

/-- A walk is one of the graph if seeds lead to nothing on it. -/
lemma closedWalk_of_warrants {p : CellId → Prop} (h : ClosedWalk e.Warrants walk)
    (hseeds : ∀ v ∈ e.graph.ids, v ∈ e.seeds → p v) (hp : ∀ u v, e.graph.Edge u v → p u → p v) (hx : x ∈ walk)
    (hid : x ∈ e.graph.ids) (hout : ¬ p x) : ClosedWalk e.graph.Edge walk := by
  have hor : ClosedWalk (fun u v => e.graph.Edge u v ∨ v ∉ e.graph.ids ∨ p v) walk := by
    refine h.mono fun u v huv => huv.imp_right fun hnext => ?_
    by_cases hv : v ∈ e.graph.ids
    · exact .inr (hseeds v hv (hnext.resolve_right (not_not.mpr hv)))
    · exact .inl hv
  refine hor.of_or (fun u v huv => ?_) hx (by simp [hid, hout])
  rintro (hu | hu)
  · exact absurd huv.known_source hu
  · exact .inr (hp u v huv hu)

/-- The start of a pass upholds what it does not mark anew. -/
lemma Upholds.begin (h : e.Upholds x walk) (ht : e.Tidy) (hx : x ∈ walk) (hid : x ∈ e.graph.ids)
    (hout : ¬ (x ∈ e.reached ∧ e.graph.OnCycle x)) : e.beginPass.suspend.Upholds x walk := by
  have hgraph : e.beginPass.suspend.graph = e.graph := graph_beginPass e
  by_cases hcycle : e.graph.OnCycle x
  · have hunreached : x ∉ e.reached := fun hreached => hout ⟨hreached, hcycle⟩
    have hwalk := h.resolve_right fun hno => hunreached (reached_of_onCycle ht hcycle hno)
    have hedges := closedWalk_of_warrants (p := (· ∈ e.reached)) hwalk
      (fun v hv hseed => reached_of_seed ht hseed ((mem_ids_iff ht).mp hv))
      (fun u v huv hu => reached_of_edge ht hu huv) hx hid hunreached
    exact .inl (hedges.mono fun u v huv => .inl (hgraph ▸ huv))
  · exact .inr fun hfree => hcycle (hgraph ▸ hfree.onCycle)

/-- With nothing left to do an upheld walk is one of the graph. -/
lemma Upholds.closedWalk (h : e.Upholds x walk) (hx : x ∈ walk) (hid : x ∈ e.graph.ids) (hseeds : ∀ v, v ∉ e.seeds)
    (hcycle : e.graph.OnCycle x) : ClosedWalk e.graph.Edge walk := by
  have hfree : e.OnUnseededCycle x := TransGen.mono (fun a b hab => ⟨hab, hseeds a, hseeds b⟩) _ _ hcycle
  exact closedWalk_of_warrants (p := fun _ => False) (h.resolve_right fun hno => hno hfree)
    (fun v _ hv => hseeds v hv) (fun _ _ _ hu => hu) hx hid id

/-- At the moment `m` the cell was marked with a circuit of the graph, and it shows that walk ever since. -/
structure MarkedSince (σ : ℕ → Engine) (k m : ℕ) (x : CellId) (walk : List CellId) : Prop where
  before : m ≤ k
  circuit : Circuit (σ m).graph.Edge walk
  mem : x ∈ walk
  shown : ∀ i, m ≤ i → i ≤ k → (σ i).ShowsWalk x walk

lemma MarkedSince.succ {m : ℕ} (h : MarkedSince σ k m x walk) (hshows : (σ (k + 1)).ShowsWalk x walk) :
    MarkedSince σ (k + 1) m x walk where
  before := h.before.trans k.le_succ
  circuit := h.circuit
  mem := h.mem
  shown i hi hik := by
    rcases Nat.le_succ_iff.mp hik with hik | rfl
    · exact h.shown i hi hik
    · exact hshows

/-- Since the moment `m` an edge of the walk has gone without notice. -/
def SlippedSince (σ : ℕ → Engine) (k m : ℕ) (walk : List CellId) : Prop :=
  ∃ j u v, m ≤ j ∧ j < k ∧ [u, v] <:+: walk ∧ Slips (σ j) (σ (j + 1)) u v

lemma circuit_of_mark (ht : e.Tidy) (hcycle : e.graph.OnCycle x)
    (hmark : .failed (.cycle y walk) = e.graph.mark x) : y = x ∧ Circuit e.graph.Edge walk ∧ x ∈ walk := by
  obtain ⟨path, hpath⟩ := Option.isSome_iff_exists.mp ((cycleOf?_isSome_iff ht).mpr hcycle)
  simp only [Graph.mark, hpath, Option.getD_some, Status.failed.injEq, Fault.cycle.injEq] at hmark
  obtain ⟨rfl, rfl⟩ := hmark
  refine ⟨rfl, Graph.circuit_of_cycleOf? (fun entry hentry => ?_) hpath⟩
  rw [ht.graph] at hentry ⊢
  exact Graph.circuit_of_mem_findCycles hentry

/-- The cell was marked with the walk, which is upheld unless an edge of it has gone without notice since. -/
def Explained (σ : ℕ → Engine) (k : ℕ) (x : CellId) (walk : List CellId) : Prop :=
  ∃ m, MarkedSince σ k m x walk ∧ ((σ k).Upholds x walk ∨ SlippedSince σ k m walk)

lemma explained_of_mark (ht : (σ k).Tidy) (hc : c ∈ (σ k).cells) (hstatus : c.status = .failed (.cycle y walk))
    (hcycle : (σ k).graph.OnCycle c.id) (hmark : c.status = (σ k).graph.mark c.id) :
    y = c.id ∧ Explained σ k c.id walk := by
  obtain ⟨rfl, hcircuit, hmem⟩ := circuit_of_mark ht hcycle (hstatus ▸ hmark)
  have hmarked : MarkedSince σ k k c.id walk := by
    refine ⟨le_rfl, hcircuit, hmem, fun i hki hik => ?_⟩
    rw [Nat.le_antisymm hik hki]
    exact ⟨c, hc, rfl, hstatus⟩
  exact ⟨rfl, k, hmarked, .inl (.inl (hcircuit.toClosedWalk.mono fun _ _ => .inl))⟩

lemma Explained.succ (h : Explained σ k x walk) (hshows : (σ (k + 1)).ShowsWalk x walk)
    (hupheld : x ∈ walk → (σ k).Upholds x walk →
      (σ (k + 1)).Upholds x walk ∨ ∃ u v, [u, v] <:+: walk ∧ Slips (σ k) (σ (k + 1)) u v) :
    Explained σ (k + 1) x walk := by
  obtain ⟨m, hmarked, hcase⟩ := h
  refine ⟨m, hmarked.succ hshows, ?_⟩
  rcases hcase with hold | ⟨j, u, v, hj, hlt, hslip⟩
  · refine (hupheld hmarked.mem hold).imp_right fun ⟨u, v, hpair, hslips⟩ => ?_
    exact ⟨k, u, v, hmarked.before, k.lt_succ_self, hpair, hslips⟩
  · exact .inr ⟨j, u, v, hj, hlt.trans k.lt_succ_self, hslip⟩

/-- A cell that shows a cycle shows it as its own, and has been marked with it. -/
theorem IsChronicle.explained (h : IsChronicle l n σ) (hk : k ≤ n) (hc : c ∈ (σ k).cells)
    (hstatus : c.status = .failed (.cycle y walk)) : y = c.id ∧ Explained σ k c.id walk := by
  induction k generalizing c with
  | zero =>
    obtain ⟨config, manual, hstart⟩ := h.start
    rw [hstart] at hc
    cases hc
  | succ k ih =>
    have ht := h.tidy (k := k) (by omega)
    rcases (h.step k hk).step.heeds_or_begin ht with hheeds | hbegin
    · rcases hheeds.shown c hc with hmark | ⟨b, hb, hid, hsame⟩ | ⟨hcycle, hmark⟩
      · rw [hstatus] at hmark
        cases hmark
      · obtain ⟨rfl, hold⟩ := ih (by omega) hb (hsame.trans hstatus)
        rw [hid] at hold hstatus
        exact ⟨hid, hold.succ ⟨c, hc, rfl, hstatus⟩ fun _ => hheeds.upholds_or_slips⟩
      · exact explained_of_mark (h.tidy hk) hc hstatus hcycle hmark
    · have hc' : c ∈ (σ k).beginPass.engine.cells := by
        rw [hbegin] at hc
        exact hc
      rcases mem_or_marked_beginPass ht hc' with ⟨hb, hout⟩ | ⟨⟨-, hcycle⟩, hmark⟩
      · obtain ⟨rfl, hold⟩ := ih (by omega) hb hstatus
        have hid : c.id ∈ (σ k).graph.ids := (mem_ids_iff ht).mpr (List.mem_map_of_mem hb)
        refine ⟨rfl, hold.succ ⟨c, hc, rfl, hstatus⟩ fun hx hupheld => .inl ?_⟩
        rw [hbegin]
        exact hupheld.begin ht hx hid hout
      · have hgraph : (σ (k + 1)).graph = (σ k).graph := by
          rw [hbegin]
          exact graph_beginPass _
        exact explained_of_mark (h.tidy hk) hc hstatus (hgraph ▸ hcycle) (hgraph ▸ hmark)

/-- A chronicle can be continued. -/
lemma IsChronicle.extend (h : IsChronicle l n σ) (hops : ReflTransGen (Operation l) (σ n) e') :
    ∃ m τ, n ≤ m ∧ IsChronicle l m τ ∧ (∀ j ≤ n, τ j = σ j) ∧ τ m = e' := by
  induction hops with
  | refl => exact ⟨n, σ, le_rfl, h, fun _ _ => rfl, rfl⟩
  | @tail f g _ hop ih =>
    obtain ⟨m, τ, hm, hτ, hsame, hend⟩ := ih
    have hlater : ∀ j ≤ m, Function.update τ (m + 1) g j = τ j := fun j hj =>
      Function.update_of_ne (by omega) ..
    refine ⟨m + 1, Function.update τ (m + 1) g, by omega, ⟨?_, fun j hj => ?_⟩, fun j hj => ?_,
      Function.update_self ..⟩
    · obtain ⟨config, manual, hstart⟩ := hτ.start
      exact ⟨config, manual, (hlater 0 (by omega)).trans hstart⟩
    · rw [hlater j (by omega)]
      rcases Nat.lt_succ_iff_lt_or_eq.mp hj with hlt | rfl
      · rw [hlater (j + 1) (by omega)]
        exact hτ.step j hlt
      · rw [Function.update_self, hend]
        exact hop
    · exact (hlater j (by omega)).trans (hsame j hj)

/-- Whenever a run ends, each cell that shows a cycle lies on the walk that it shows, and that walk is a circuit of
the graph, unless an edge of it has gone without notice since the cell was marked: the reader of a variable
stayed in the notebook without a seed, and the source of the edge came to write the variable no more. -/
theorem shown_cycle_current_or_slipped (h : IsChronicle l k σ) (hrun : (σ k).runUntilIdle l = .ok (e', reports)) :
    ∃ n τ, k ≤ n ∧ IsChronicle l n τ ∧ (∀ j ≤ k, τ j = σ j) ∧ τ n = e' ∧
      ∀ c ∈ e'.cells, ∀ y walk, c.status = .failed (.cycle y walk) →
        y = c.id ∧ ∃ m, MarkedSince τ n m c.id walk ∧ (Circuit (Graph.build e'.cells).Edge walk ∨
          ∃ j u v name, m ≤ j ∧ j < n ∧ [u, v] <:+: walk ∧ Slips (τ j) (τ (j + 1)) u v ∧
            (∃ b ∈ (τ j).cells, b.id = u ∧ name ∈ b.writes.names) ∧
            (∃ d ∈ (τ (j + 1)).cells, d.id = v ∧ name ∈ d.reads) ∧ Drops (τ j) (τ (j + 1)) u name) := by
  have ht := h.tidy le_rfl
  obtain ⟨n, τ, hkn, hτ, hsame, rfl⟩ := h.extend (operations_runUntilIdle ht hrun)
  have ht' := hτ.tidy le_rfl
  obtain ⟨hpass, hseeds, -⟩ := atRest_of_runUntilIdle ht hrun
  have hno : ∀ v, v ∉ (τ n).seeds := fun v hv => by
    have hv' : v ∈ (τ n).seeds.toList := hv
    rw [hseeds] at hv'
    cases hv'
  refine ⟨n, τ, hkn, hτ, hsame, rfl, fun c hc y walk hstatus => ?_⟩
  obtain ⟨rfl, m, hmarked, hcase⟩ := hτ.explained le_rfl hc hstatus
  refine ⟨rfl, m, hmarked, ?_⟩
  rcases hcase with hupheld | ⟨j, u, v, hj, hlt, hpair, hslips⟩
  · have hcycle : (τ n).graph.OnCycle c.id := by
      rcases (hτ.isRun.reachable_of_le le_rfl).marked.resting hpass c hc with hmark | hseed | ⟨hcycle, -⟩
      · exact hmark.mp (by rw [hstatus]; rfl)
      · exact absurd hseed (hno c.id)
      · exact hcycle
    have hid : c.id ∈ (τ n).graph.ids := (mem_ids_iff ht').mpr (List.mem_map_of_mem hc)
    have hwalk := hupheld.closedWalk hmarked.mem hid hno hcycle
    exact .inl (ht'.graph ▸ ⟨hwalk, hmarked.circuit.simple⟩)
  · obtain ⟨name, hdrops⟩ := hslips.exists_drops (hτ.step j hlt) (hτ.tidy hlt.le)
    exact .inr ⟨j, u, v, name, hj, hlt, hpair, hslips, hdrops⟩

/-- Three formulas on two cycles through `x`, and an input that writes what `a` writes. After a pass `a` is
removed. -/
def figureEight : List Deed :=
  [.act (.push ⟨"x", .formula "p + q" "x"⟩), .act (.push ⟨"a", .formula "x" "p"⟩),
    .act (.push ⟨"b", .formula "x" "q"⟩), .act (.push ⟨"o", .input "1" "p"⟩), .act .begin, .act (.move none),
    .act .finish, .remove "a"]

/-- The engine along these deeds. -/
def figureEightRun : ℕ → Engine := along (deed? (.ofConfig .standard)) (new .standard true) figureEight

/-- How the chronicle goes, as far as it can be computed. -/
lemma figureEightRun_trace :
    leads (deed? (.ofConfig .standard)) (new .standard true) figureEight = true ∧
    (((figureEightRun 8).runUntilIdle (.ofConfig .standard)).toOption.any fun r =>
      r.1.cells.map (·.id) == ["x", "b", "o"] && decide (r.1.ShowsWalk "x" ["x", "a", "x"])) = true := by
  decide +kernel

/-- The next run ends with `x` showing the walk over the removed cell. -/
lemma exists_shown_figureEightRun : ∃ e' reports,
    (figureEightRun 8).runUntilIdle (.ofConfig .standard) = .ok (e', reports) ∧
      (∃ c ∈ e'.cells, c.status = .failed (.cycle "x" ["x", "a", "x"])) ∧
        ¬ (Graph.build e'.cells).Edge "x" "a" := by
  obtain ⟨-, hrun⟩ := figureEightRun_trace
  cases hresult : (figureEightRun 8).runUntilIdle (.ofConfig .standard) with
  | error _ => rw [hresult] at hrun; cases hrun
  | ok r =>
    rw [hresult, Except.toOption, Option.any_some, Bool.and_eq_true, beq_iff_eq, decide_eq_true_eq] at hrun
    obtain ⟨hids, c, hc, -, hstatus⟩ := hrun
    have hcoherent : (Graph.build r.1.cells).Coherent := Graph.coherent_build (hids ▸ by decide)
    refine ⟨r.1, r.2, rfl, ⟨c, hc, hstatus⟩, fun hedge => ?_⟩
    have hknown := hcoherent.known _ _ hedge
    rw [Graph.ids_build, hids] at hknown
    revert hknown
    decide

/-- The removal takes the edge from `a` to `x`, and nobody seeds `x`, for there is another writer of `p`. -/
theorem edge_of_removed_cell_slips : IsChronicle (.ofConfig .standard) 8 figureEightRun ∧
    ∃ e' reports, (figureEightRun 8).runUntilIdle (.ofConfig .standard) = .ok (e', reports) ∧
      ∃ n τ, 8 ≤ n ∧ IsChronicle (.ofConfig .standard) n τ ∧ τ n = e' ∧
        ∃ j u v, j < n ∧ [u, v] <:+: ["x", "a", "x"] ∧ Slips (τ j) (τ (j + 1)) u v := by
  have hchronicle : IsChronicle (.ofConfig .standard) 8 figureEightRun := isChronicle_along figureEightRun_trace.1
  obtain ⟨e', reports, hrun, ⟨c, hc, hstatus⟩, hgone⟩ := exists_shown_figureEightRun
  obtain ⟨n, τ, hn, hτ, -, hend, hcells⟩ := shown_cycle_current_or_slipped hchronicle hrun
  refine ⟨hchronicle, e', reports, hrun, n, τ, hn, hτ, hend, ?_⟩
  obtain ⟨-, m, -, hcurrent | ⟨j, u, v, -, -, hj, hpair, hslips, -⟩⟩ := hcells c hc _ _ hstatus
  · exact absurd (List.isChain_cons_cons.mp hcurrent.steps).1 hgone
  · exact ⟨j, u, v, hj, hpair, hslips⟩

/-- After a run that has nothing to do `x` shows a walk over a cell that has been removed. -/
theorem shown_cycle_outlives_cell : IsChronicle (.ofConfig .standard) 8 figureEightRun ∧
    ∃ e' reports, (figureEightRun 8).runUntilIdle (.ofConfig .standard) = .ok (e', reports) ∧
      (∃ c ∈ e'.cells, c.status = .failed (.cycle "x" ["x", "a", "x"])) ∧
        ¬ (Graph.build e'.cells).Edge "x" "a" :=
  ⟨isChronicle_along figureEightRun_trace.1, exists_shown_figureEightRun⟩

end Engine

end ReactiveNotebook
