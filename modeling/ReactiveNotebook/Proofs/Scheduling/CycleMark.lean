import ReactiveNotebook.Proofs.Engine.Arrival
import ReactiveNotebook.Proofs.Engine.Begin
import ReactiveNotebook.Proofs.Engine.Start
import ReactiveNotebook.Proofs.Engine.Tick
import ReactiveNotebook.Proofs.Scheduling.Oscillation

/-!
# The marks of cells on cycles

When a notebook is at rest, exactly the cells on cycles are marked. Between two steps a mark may be wrong, but
then the next pass reaches the cell: the cell is seeded, or it lies on a cycle and every such cycle has a seed
on it. Otherwise the present pass is going to evaluate the cell. A cell that waits or is in flight may come onto
a cycle meanwhile, and be evaluated there; then the cycle has a seed on it too.
-/
namespace ReactiveNotebook

open Relation (TransGen ReflTransGen)

variable {l : Language}

namespace Engine

variable {e e' : Engine} {c d : Cell} {x : CellId}

/-- The cell lies on a cycle that no seed lies on. -/
def OnUnseededCycle (e : Engine) (x : CellId) : Prop :=
  TransGen (fun a b => e.graph.Edge a b ∧ a ∉ e.seeds ∧ b ∉ e.seeds) x x

lemma OnUnseededCycle.onCycle (h : e.OnUnseededCycle x) : e.graph.OnCycle x :=
  TransGen.mono (fun _ _ hab => hab.1) _ _ h

/-- Fewer edges and more seeds leave fewer cycles without seeds. -/
lemma OnUnseededCycle.of_edges (h : e'.OnUnseededCycle x)
    (hedge : ∀ a b, e'.graph.Edge a b → a ∉ e'.seeds → b ∉ e'.seeds → e.graph.Edge a b)
    (hseeds : ∀ a ∈ e'.graph.ids, a ∈ e.seeds → a ∈ e'.seeds) (hg : e'.graph.Coherent) :
    e.OnUnseededCycle x := by
  refine TransGen.mono (fun a b hab => ?_) _ _ h
  obtain ⟨hab, ha, hb⟩ := hab
  exact ⟨hedge a b hab ha hb, fun hs => ha (hseeds a hab.known_source hs),
    fun hs => hb (hseeds b (hg.known a b hab) hs)⟩

lemma OnUnseededCycle.of_seeds (h : e'.OnUnseededCycle x) (hgraph : e'.graph = e.graph)
    (hseeds : ∀ x ∈ e.seeds, x ∈ e'.seeds) : e.OnUnseededCycle x := by
  refine TransGen.mono (fun a b hab => ?_) _ _ h
  rw [hgraph] at hab
  exact ⟨hab.1, fun ha => hab.2.1 (hseeds a ha), fun hb => hab.2.2 (hseeds b hb)⟩

/-- The mark of the cell is right, or the next pass reaches the cell. -/
def Minds (e : Engine) (c : Cell) : Prop :=
  (c.status.isCycle = true ↔ e.graph.OnCycle c.id) ∨ c.id ∈ e.seeds ∨
    e.graph.OnCycle c.id ∧ ¬ e.OnUnseededCycle c.id

lemma minds_rebuild (hn : (e.cells.map (·.id)).Nodup) (hc : c ∈ e.cells) : e.rebuild.Minds c := by
  rcases marks_rebuild hc with hmark | hseed
  · refine .inl ?_
    rw [hmark]
    exact Graph.cycleOf?_isSome_iff hn
  · exact .inr (.inl hseed)

lemma Minds.mono (h : e.Minds c) (hid : d.id = c.id) (hmark : d.status.isCycle = c.status.isCycle)
    (hgraph : e'.graph = e.graph) (hseeds : ∀ x ∈ e.seeds, x ∈ e'.seeds) : e'.Minds d := by
  unfold Minds
  rw [hid, hmark, hgraph]
  exact h.imp_right (Or.imp (hseeds _) fun ⟨hcycle, hno⟩ =>
    ⟨hcycle, fun hfree => hno (hfree.of_seeds hgraph hseeds)⟩)

/-- The evaluation of a cell unmarks it, which is right unless the cell lies on cycles with seeds. -/
lemma minds_of_evaluated (hmark : c.status.isCycle = false) (hbarred : ¬ e.OnUnseededCycle c.id) : e.Minds c := by
  by_cases hcycle : e.graph.OnCycle c.id
  · exact .inr (.inr ⟨hcycle, hbarred⟩)
  · exact .inl (by simp [hmark, hcycle])

/-- A cell on a cycle without seeds is marked. -/
lemma Minds.marked (h : e.Minds c) (hc : e.OnUnseededCycle c.id) : c.status.isCycle = true := by
  rcases h with hmark | hseed | ⟨-, hno⟩
  · exact hmark.mpr hc.onCycle
  · obtain ⟨y, ⟨-, hout, -⟩, -⟩ := TransGen.head'_iff.mp hc
    exact absurd hseed hout
  · exact absurd hc hno

end Engine

namespace Stage

variable {s s' t : Stage} {a : Arrival} {c d : Cell} {id source x : CellId} {names : Names} {i : ℕ}
variable {exports : Script.Fields}

/-- The pass is going to evaluate a cell that has left its cycle. -/
structure Frees (s : Stage) (c : Cell) : Prop where
  off : ¬ s.engine.graph.OnCycle c.id
  /-- No cell is noted for another run, for that takes a new graph, and with it all wrong marks are seeded. -/
  calm : s.pass.rerun = ∅
  comes : c.id ∈ s.pass.remaining ∧ c.id ∈ s.pass.seeds ∨ (c.id, c.version) ∈ s.engine.inFlight

/-- The marks during a pass. -/
structure Marked (s : Stage) : Prop where
  /-- A cell that waits or is in flight is on no cycle, or on cycles with seeds only. -/
  barred : ∀ x, x ∈ s.pass.remaining ∨ x ∈ s.flying → ¬ s.engine.OnUnseededCycle x
  marks : ∀ c ∈ s.engine.cells, s.engine.Minds c ∨ s.Frees c

lemma Marked.barred_mono (h : s.Marked) (hgraph : s'.engine.graph = s.engine.graph)
    (hseeds : ∀ x ∈ s.engine.seeds, x ∈ s'.engine.seeds)
    (hplaces : ∀ x, x ∈ s'.pass.remaining ∨ x ∈ s'.flying → x ∈ s.pass.remaining ∨ x ∈ s.flying) :
    ∀ x, x ∈ s'.pass.remaining ∨ x ∈ s'.flying → ¬ s'.engine.OnUnseededCycle x := fun x hx hfree =>
  h.barred x (hplaces x hx) (hfree.of_seeds hgraph hseeds)

lemma isCycle_withVerdict {view : String → Slot} {v : Verdict} (hv : c.verdict l view = .ok v) :
    (∃ source inputs, v = .script source inputs) ∨ (c.withVerdict v).status.isCycle = false := by
  cases v with
  | fault f => exact .inr (Cell.isCycle_of_verdict hv)
  | value output value => exact .inr rfl
  | text text => exact .inr rfl
  | script source inputs => exact .inl ⟨source, inputs, rfl⟩

/-- Marks stay right when a cell is started. -/
lemma Marked.start (h : s.Marked) (hs : s.Tidy) (hid : s.pass.remaining[i]? = some id)
    (hrun : (s.withdraw i).runCell l id = .ok s') : s'.Marked := by
  have hstarts := starts_of_runCell hs hid hrun
  have hwaits : id ∈ s.pass.remaining := List.mem_of_getElem? hid
  have hbarred := h.barred_mono hstarts.graph (fun x hx => hstarts.seeds ▸ hx) fun x hx => by
    rcases hx with hx | hx
    · exact .inl ((hstarts.waiting x).mp hx).1
    · rcases hstarts.mem_flying hx with hx | rfl
      · exact .inr hx
      · exact .inl hwaits
  have hflight : ∀ p ∈ s.engine.inFlight, p ∈ s'.engine.inFlight := fun p hp => by
    rcases hstarts.fate with ⟨-, hfly⟩ | ⟨-, c, -, -, -, hfly⟩ <;> rw [hfly]
    · exact hp
    · exact List.mem_cons_of_mem _ hp
  have hminds : ∀ d, s.engine.Minds d → s'.engine.Minds d := fun d hd =>
    hd.mono rfl rfl hstarts.graph fun x hx => hstarts.seeds ▸ hx
  refine ⟨hbarred, fun d hd => ?_⟩
  by_cases hdid : d.id = id
  · have hbar : ¬ s'.engine.OnUnseededCycle d.id := fun hfree => by
      rw [hdid] at hfree
      refine h.barred id (.inl hwaits) (TransGen.mono (fun a b hab => ?_) _ _ hfree)
      rwa [hstarts.graph, hstarts.seeds] at hab
    rcases mem_cells_start hs hrun hd hdid with ⟨hd, hroot | hfly⟩ | ⟨c, -, v, hv, hscript, rfl⟩
    · rcases h.marks d hd with hm | hf
      · exact .inl (hminds d hm)
      · rcases hf.comes with hw | hfly
        · exact absurd (hdid ▸ hw.2) hroot
        · exact absurd (List.mem_map_of_mem (f := (·.1)) hfly) (hdid ▸ hs.grounded id hwaits)
    · rcases h.marks d hd with hm | hf
      · exact .inl (hminds d hm)
      · exact .inr ⟨hstarts.graph ▸ hf.off, hstarts.rerun ▸ hf.calm, .inr (hdid ▸ hfly)⟩
    · rcases isCycle_withVerdict hv with ⟨source, inputs, rfl⟩ | hmark
      · exact absurd rfl (hscript source inputs)
      · exact .inl (Engine.minds_of_evaluated hmark hbar)
  · rcases h.marks d (hstarts.cells d hd hdid) with hm | hf
    · exact .inl (hminds d hm)
    · refine .inr ⟨hstarts.graph ▸ hf.off, hstarts.rerun ▸ hf.calm, hf.comes.imp (fun hw => ?_) (hflight _)⟩
      exact ⟨(hstarts.waiting d.id).mpr ⟨hw.1, hdid⟩, hstarts.roots ▸ hw.2⟩

/-- Where a script lands without touching the graph, only the mark of its cell has to be looked at. -/
lemma Marked.land (h : s.Marked) (hgraph : t.engine.graph = s.engine.graph)
    (hseeds : t.engine.seeds = s.engine.seeds) (hroots : t.pass.seeds = s.pass.seeds)
    (hrerun : t.pass.rerun = s.pass.rerun.filter (· != id)) (hremaining : t.pass.remaining = s.pass.remaining)
    (hflight : t.engine.inFlight = s.engine.inFlight.filter (·.1 != id))
    (hcells : ∀ d ∈ t.engine.cells, d ∈ s.engine.cells ∧ d.id ≠ id ∨ s.engine.Minds d) : t.Marked where
  barred := h.barred_mono hgraph (fun x hx => hseeds ▸ hx) fun x hx => by
    refine hx.imp (fun hx => hremaining ▸ hx) fun hx => ?_
    rw [flying, hflight] at hx
    exact ((List.filter_sublist ..).map _).subset hx
  marks d hd := by
    have hminds : s.engine.Minds d → t.engine.Minds d := fun hm => hm.mono rfl rfl hgraph fun x hx => hseeds ▸ hx
    rcases hcells d hd with ⟨hd, hne⟩ | hm
    · rcases h.marks d hd with hm | hf
      · exact .inl (hminds hm)
      · refine .inr ⟨hgraph ▸ hf.off, ?_, hf.comes.imp (fun hw => ⟨hremaining ▸ hw.1, hroots ▸ hw.2⟩) fun hfly => ?_⟩
        · rw [hrerun, hf.calm]
          rfl
        · rw [hflight]
          exact List.mem_filter.mpr ⟨hfly, by simpa using hne⟩
    · exact .inl (hminds hm)

/-- A cycle without seeds is an old one: the script whose exports are taken over is not marked, so it would be
seeded if it lay on the cycle. -/
lemma onUnseededCycle_of_readopt (hs : s.Tidy) (hd : d ∈ s.engine.cells) (hid : d.id = c.id)
    (h : (s.readopt c exports).engine.OnUnseededCycle x) : s.engine.OnUnseededCycle x := by
  have ht : (s.readopt c exports).Tidy := hs.rebuild_adopt
  refine TransGen.mono (fun a b hab => ?_) _ _ (transGen_inside h)
  obtain ⟨⟨hedge, ha, hb⟩, ⟨hxa, hax⟩, -⟩ := hab
  have hne : a ≠ c.id := by
    rintro rfl
    have hadopted := mem_adopt exports hd hid
    have hminds : (s.readopt c exports).engine.Minds _ :=
      Engine.minds_rebuild (ids_adopt (s := s) ▸ hs.ids) hadopted
    have hmark := hminds.marked (hid ▸ hax.trans hxa)
    cases hmark
  have hseeds : ∀ y ∈ s.engine.seeds, y ∈ (s.readopt c exports).engine.seeds := fun y hy =>
    Engine.seeds_rebuild (seeds_adopt (s := s) ▸ hy)
  exact ⟨(edge_readopt_iff hs hne).mp hedge, fun hs => ha (hseeds a hs), fun hs => hb (hseeds b hs)⟩

/-- Marks are right after the pass has been enlarged. -/
lemma marked_extend (hs : s.Tidy) (hminds : ∀ d ∈ s.engine.cells, s.engine.Minds d)
    (hbarred : ∀ x ∈ s.flying, ¬ s.engine.OnUnseededCycle x) : (s.extend source names).Marked where
  barred x hx := by
    unfold Engine.OnUnseededCycle
    rw [graph_extend, seeds_extend]
    rw [flying_extend, mem_remaining_extend hs] at hx
    rcases hx with ⟨-, -, hno⟩ | hx
    · exact fun hfree => hno (Engine.OnUnseededCycle.onCycle (e := s.engine) hfree)
    · exact hbarred x hx
  marks d hd := by
    rcases mem_cells_extend hs hd with ⟨hd, -⟩ | ⟨-, hcycle, hmark⟩
    · refine .inl ((hminds d hd).mono rfl rfl (graph_extend ..) fun x hx => ?_)
      rwa [seeds_extend]
    · refine .inl (.inl ?_)
      rw [graph_extend]
      exact iff_of_true hmark hcycle

/-- Marks stay right when a result arrives. -/
lemma Marked.receive (h : s.Marked) (hs : s.Tidy) {rest : List Arrival}
    (hperm : s.engine.arriving.Perm (a :: rest)) : ((s.deliver rest).receive a).Marked := by
  have hland := hs.land hperm
  have hfly : a.cell ∈ s.flying := flying_of_arriving hs hperm
  have hlanding := landing_receive (s.deliver rest) a
  have hflight := hlanding.inFlight
  -- a result that is not put back ends the evaluation of its cell
  have hunmarked : ∀ d : Cell, d.id = a.cell → d.status.isCycle = false → s.engine.Minds d := fun d hid hmark =>
    Engine.minds_of_evaluated hmark (hid ▸ h.barred a.cell (.inr hfly))
  generalize (s.deliver rest).receive a = t at hlanding hflight
  cases hlanding with
  | stale hnone =>
    obtain ⟨completed, results, heq⟩ := dismiss_shape ((s.deliver rest).land a.cell) a.cell
    rw [heq]
    refine h.land rfl rfl rfl rfl rfl rfl fun d hd => ?_
    by_cases hid : d.id = a.cell
    · refine .inr ((h.marks d hd).resolve_right fun hf => ?_)
      rcases hf.comes with hw | hflight
      · exact hs.grounded d.id hw.1 (hid ▸ hfly)
      · cases hnone.symm.trans (addressee?_of_inFlight hs hperm hd hid hflight)
    · exact .inl ⟨hd, hid⟩
  | @again c hc hr =>
    refine ⟨h.barred_mono rfl (fun x hx => hx) fun x hx => ?_, fun d hd => ?_⟩
    · rcases hx with hx | hx
      · have hmem := (Graph.mem_order hx).1
        rw [Names.mem_insert, Names.mem_ofList] at hmem
        rcases hmem with rfl | hmem
        · exact .inr hfly
        · exact .inl hmem
      · exact .inr (mem_flying_land (s := s.deliver rest).mp hx).1
    · rcases h.marks d hd with hm | hf
      · exact .inl hm
      · have hrerun : a.cell ∈ s.pass.rerun := hr
        rw [hf.calm] at hrerun
        exact absurd hrerun (Names.not_mem_empty _)
  | @failed c message logs hc hr hsettle =>
    have hcid : c.id = a.cell := id_of_addressee? hc
    have hcontrol := control_failed (s.deliver rest) a c logs message
    refine h.land (congrArg (·.engine.graph) hcontrol) (congrArg (·.engine.seeds) hcontrol)
      (congrArg (·.pass.seeds) hcontrol) (congrArg (·.pass.rerun) hcontrol) (congrArg (·.pass.remaining) hcontrol)
      hflight fun d hd => ?_
    rw [cells_fail] at hd
    rcases mem_conclusion.mp hd with ⟨hd, hne⟩ | ⟨b, -, hb, rfl⟩
    · exact .inl ⟨mem_cells_landed hd (hcid ▸ hne), hcid ▸ hne⟩
    · exact .inr (hunmarked _ (hb.trans hcid) rfl)
  | @accepted c exports logs hc hr hsettle =>
    have hcid : c.id = a.cell := id_of_addressee? hc
    have hcontrol := control_adopt ((s.deliver rest).landed a logs) c exports
    have hadopt : (((s.deliver rest).landed a logs).adopt c exports).Marked := by
      refine h.land (congrArg (·.engine.graph) hcontrol) (congrArg (·.engine.seeds) hcontrol)
        (congrArg (·.pass.seeds) hcontrol) (congrArg (·.pass.rerun) hcontrol) (congrArg (·.pass.remaining) hcontrol)
        inFlight_adopt fun d hd => ?_
      rcases mem_cells_adopt hd with ⟨hd, hne⟩ | ⟨b, -, hb, rfl⟩
      · exact .inl ⟨mem_cells_landed hd (hcid ▸ hne), hcid ▸ hne⟩
      · exact .inr (hunmarked _ (hb.trans hcid) rfl)
    rcases accept_cases ((s.deliver rest).landed a logs) c exports with ⟨-, heq⟩ | heq
    · rw [heq]
      exact hadopt
    · rw [heq]
      have hkept := hland.keepLogs a.cell logs
      have ht : (((s.deliver rest).landed a logs).readopt c exports).Tidy := hkept.rebuild_adopt
      obtain ⟨hcm, -, -⟩ := flight_of_addressee? hs hperm hc
      have hcm' : { c with logs } ∈ ((s.deliver rest).landed a logs).engine.cells := mem_landed hcm hcid
      refine marked_extend ht (fun d hd => Engine.minds_rebuild ?_ hd) fun x hx hfree => ?_
      · rw [ids_adopt]
        exact hkept.ids
      · have hold := onUnseededCycle_of_readopt hkept hcm' rfl hfree
        have hfly' : x ∈ ((s.deliver rest).landed a logs).flying := by
          change x ∈ (((s.deliver rest).landed a logs).adopt c exports).flying at hx
          rwa [flying, inFlight_adopt] at hx
        exact h.barred x (.inr (mem_flying_land (s := s.deliver rest).mp hfly').1) hold

theorem Marked.move (h : s.Marked) (hs : s.Tidy) (hm : s.Move l s') : s'.Marked := by
  cases hm with
  | start _ _ hid hrun => exact h.start hs hid hrun
  | receive hperm => exact h.receive hs hperm

end Stage

namespace Engine

variable {e e' : Engine} {s : Stage} {c : Cell} {x : CellId} {p : Pass} {report : Option Report}
variable {reports reports' : List Report} {fuel : ℕ}

/-- The marks between two steps. -/
structure Marked (e : Engine) : Prop where
  resting : e.pass = none → ∀ c ∈ e.cells, e.Minds c
  running : ∀ p, e.pass = some p → (e.resume p).Marked

lemma marked_suspend (h : s.Marked) (hp : s.engine.pass = none) : s.suspend.Marked where
  resting hn := by cases hn
  running p hp' := by
    obtain rfl : s.pass = p := Option.some.inj hp'
    rw [resume_suspend hp]
    exact h

lemma edge_of_effect (ht : e.Tidy) (ht' : e'.Tidy) (h : Effect e e') {a b : CellId} (hedge : e'.graph.Edge a b)
    (ha : a ∉ e'.seeds) (hb : b ∉ e'.seeds) : e.graph.Edge a b := by
  rw [ht'.graph, Graph.edge_build_iff ht'.ids] at hedge
  obtain ⟨c, hc, d, hd, rfl, rfl, hfeeds⟩ := hedge
  rw [ht.graph, Graph.edge_build_iff ht.ids]
  exact ⟨c, (h.cells c hc).resolve_right ha, d, (h.cells d hd).resolve_right hb, rfl, rfl, hfeeds⟩

/-- A new cycle has the edited cell on it, which is seeded. -/
lemma onUnseededCycle_of_effect (ht : e.Tidy) (ht' : e'.Tidy) (h : Effect e e') (hx : e'.OnUnseededCycle x) :
    e.OnUnseededCycle x := by
  refine hx.of_edges (fun a b => edge_of_effect ht ht' h) (fun a ha hs => ?_)
    (ht'.graph ▸ Graph.coherent_build ht'.ids)
  obtain ⟨c, hc, rfl⟩ := List.mem_map.mp ((mem_ids_iff ht').mp ha)
  exact h.seeds c hc hs

/-- After an edit every cell whose mark is wrong is seeded, and every new cycle has a seed on it. -/
lemma Marked.edit (h : e.Marked) (ht : e.Tidy) (hedit : Edit e e') : e'.Marked := by
  have ht' := hedit.tidy ht
  rcases hedit.effect ht.ids ht.graph with rfl | heffect
  · exact h
  have hminds : ∀ c ∈ e'.cells, e'.Minds c := fun c hc => by
    rcases heffect.marks c hc with hmark | hseed
    · exact .inl (hmark ▸ cycleOf?_isSome_iff ht')
    · exact .inr (.inl hseed)
  refine ⟨fun _ => hminds, fun p hp => ⟨fun x hx hcycle => ?_, fun c hc => .inl (hminds c hc)⟩⟩
  rcases hedit.shape with rfl | ⟨cells, store, seeds, rfl⟩
  · exact (h.running p hp).barred x hx hcycle
  · have hold : e.OnUnseededCycle x := onUnseededCycle_of_effect ht ht' heffect hcycle
    exact (h.running p hp).barred x hx hold

/-- What is neither the graph nor a cell has no part in the marks, and more seeds do no harm. -/
lemma Marked.of_seeds (h : e.Marked) (hcells : e'.cells = e.cells) (hgraph : e'.graph = e.graph)
    (hpass : e'.pass = e.pass) (hflight : e'.inFlight = e.inFlight) (hseeds : ∀ x ∈ e.seeds, x ∈ e'.seeds) :
    e'.Marked where
  resting hn c hc := (h.resting (hpass ▸ hn) c (hcells ▸ hc)).mono rfl rfl hgraph hseeds
  running p hp := by
    have hp' := h.running p (hpass ▸ hp)
    refine ⟨hp'.barred_mono hgraph hseeds fun x hx => hx.imp_right fun hx => ?_, fun c hc => ?_⟩
    · change x ∈ e'.inFlight.map (·.1) at hx
      rwa [hflight] at hx
    · refine (hp'.marks c (hcells ▸ hc)).imp (fun hm => hm.mono rfl rfl hgraph hseeds) fun hf => ?_
      refine ⟨hgraph ▸ hf.off, hf.calm, hf.comes.imp_right fun hfly => ?_⟩
      change _ ∈ e'.inFlight
      rw [hflight]
      exact hfly

lemma Marked.host (h : e.Marked) (hh : Host e e') : e'.Marked := by
  cases hh with
  | seed ids => exact h.of_seeds rfl rfl rfl rfl fun x hx => Names.mem_insertAll.mpr (.inr hx)
  | _ => exact h.of_seeds rfl rfl rfl rfl fun x hx => hx

lemma Marked.collect (h : e.Marked) : e.collect.Marked := by
  obtain ⟨store, seeds, phase, hseeds, heq⟩ := collect_shape e
  rw [heq]
  exact h.of_seeds rfl rfl rfl rfl hseeds

/-- A cell on a cycle is reached by a new pass if every such cycle has a seed on it. -/
lemma reached_of_onCycle (ht : e.Tidy) (hcycle : e.graph.OnCycle x) (hno : ¬ e.OnUnseededCycle x) :
    x ∈ e.reached := by
  by_contra hout
  have hseed : ∀ y ∈ e.graph.ids, TransGen e.graph.Edge y x → y ∉ e.seeds := fun y hk hy hs => by
    have hreached := reached_of_seed ht hs ((mem_ids_iff ht).mp hk)
    refine hout (TransGen.trans_induction_on (motive := fun {a b} _ => a ∈ e.reached → b ∈ e.reached) hy
      (fun hab ha => reached_of_edge ht ha hab) (fun _ _ h₁ h₂ ha => h₂ (h₁ ha)) hreached)
  refine hno (TransGen.mono (fun a b hab => ?_) _ _ (transGen_inside hcycle))
  have hg : e.graph.Coherent := ht.graph ▸ Graph.coherent_build ht.ids
  exact ⟨hab.1, hseed a hab.1.known_source hab.2.1.2, hseed b (hg.known a b hab.1) hab.2.2.2⟩

/-- A new pass marks the cells on cycles that it reaches, and is going to evaluate the seeds that have left
theirs. -/
lemma Marked.begin (h : e.Marked) (ht : e.Tidy) (hp : e.pass = none) : e.beginPass.Marked := by
  have hcontrol := control_blockCycles e
  have hfly := flying_beginPass ht hp
  refine ⟨fun x hx hfree => ?_, fun c hc => ?_⟩
  · have hcycle := hfree.onCycle
    rw [graph_beginPass] at hcycle
    rw [hfly] at hx
    exact ((mem_remaining_beginPass ht).mp (hx.resolve_right List.not_mem_nil)).2 hcycle
  · rcases mem_cells_beginPass ht hc with ⟨hc, hout⟩ | ⟨⟨-, hcycle⟩, hmark⟩
    · have hid : c.id ∈ e.cells.map (·.id) := List.mem_map_of_mem hc
      rcases h.resting hp c hc with hm | hseed | ⟨hcycle, hno⟩
      · exact .inl (.inl (by rwa [graph_beginPass]))
      · have hreached := reached_of_seed ht hseed hid
        have hoff : ¬ e.graph.OnCycle c.id := fun hcycle => hout ⟨hreached, hcycle⟩
        refine .inr ⟨graph_beginPass e ▸ hoff, congrArg (·.pass.rerun) hcontrol, .inl ⟨?_, mem_roots ht hseed hid⟩⟩
        exact (mem_remaining_beginPass ht).mpr ⟨hreached, hoff⟩
      · exact absurd ⟨reached_of_onCycle ht hcycle hno, hcycle⟩ hout
    · refine .inl (.inl ?_)
      rw [graph_beginPass]
      exact iff_of_true hmark hcycle

/-- When a pass ends all that is wrong is left to the next one. -/
lemma Marked.finish (h : e.Marked) (hp : e.pass = some p) (hr : p.remaining = []) (hf : e.inFlight = []) :
    (endPass (e.resume p)).1.Marked where
  resting _ c hc := by
    refine ((h.running p hp).marks c hc).resolve_right fun hfrees => ?_
    rcases hfrees.comes with ⟨hw, -⟩ | hfly
    · change c.id ∈ p.remaining at hw
      rw [hr] at hw
      cases hw
    · change _ ∈ e.inFlight at hfly
      rw [hf] at hfly
      cases hfly
  running p hp := by cases hp

theorem Step.marked (hstep : Step l e e') (ht : e.Tidy) (h : e.Marked) : e'.Marked := by
  cases hstep with
  | edit hedit => exact h.edit ht hedit
  | host hh => exact h.host hh
  | collect _ => exact h.collect
  | begin hp => exact marked_suspend (h.begin ht hp) (engine_pass_beginPass.trans hp)
  | move hp hm => exact marked_suspend ((h.running _ hp).move (ht.pass _ hp) hm) hm.engine_pass
  | finish hp hr hf => exact h.finish hp hr hf

theorem Reachable.marked (h : Reachable l e) : e.Marked := by
  obtain ⟨config, manual, hsteps⟩ := h
  have hnew : (new config manual).Marked := ⟨fun _ c hc => (by cases hc), fun p hp => by cases hp⟩
  have hboth : e.Tidy ∧ e.Marked := by
    induction hsteps with
    | refl => exact ⟨new_tidy config manual, hnew⟩
    | tail _ hs ih => exact ⟨hs.tidy ih.1, hs.marked ih.1 ih.2⟩
  exact hboth.2

/-- Whenever a run ends, exactly the cells on cycles are marked, whatever edits, host writes and results of
scripts came in whatever order before. -/
theorem marked_iff_onCycle (he : Reachable l e) (h : e.runUntilIdle l = .ok (e', reports)) (hc : c ∈ e'.cells) :
    c.status.isCycle = true ↔ (Graph.build e'.cells).OnCycle c.id := by
  obtain ⟨config, manual, hsteps⟩ := he
  have ht := steps_tidy hsteps (new_tidy ..)
  have he' : Reachable l e' := ⟨config, manual, hsteps.trans (steps_runUntilIdle ht h)⟩
  obtain ⟨hpass, hseeds, -⟩ := atRest_of_runUntilIdle ht h
  have hno : ∀ x, x ∉ e'.seeds := fun x hx => by
    have hx' : x ∈ e'.seeds.toList := hx
    rw [hseeds] at hx'
    cases hx'
  rw [← he'.tidy.graph]
  rcases he'.marked.resting hpass c hc with hmark | hseed | ⟨hcycle, hfree⟩
  · exact hmark
  · exact absurd hseed (hno c.id)
  · exact absurd (TransGen.mono (fun a b hab => ⟨hab, hno a, hno b⟩) _ _ hcycle) hfree

/-- A script that turns out to export `b`. -/
def exporter : Engine := (new .standard true).grow ⟨"s", .script "let q = a; #\x7b b: 1 \x7d"⟩

/-- A formula that closes a cycle is added while the script is in flight. -/
def closedInFlight (l : Language) : Engine :=
  (((exporter.tick l).toOption.map (·.1)).getD exporter).grow ⟨"f", .formula "b" "a"⟩

lemma reachable_closedInFlight : Reachable l (closedInFlight l) := by
  have hgrow : ReflTransGen (Step l) (new .standard true) exporter := steps_grow _ _
  have htick : ReflTransGen (Step l) exporter (((exporter.tick l).toOption.map (·.1)).getD exporter) := by
    cases h : exporter.tick l with
    | error _ => exact .refl
    | ok p => exact steps_tick (steps_tidy hgrow (new_tidy ..)) h
  exact ⟨.standard, true, (hgrow.trans htick).trans (steps_grow _ _)⟩

/-- After the run the script is marked, and it lies on a cycle. -/
theorem script_closed_in_flight_marked : ∃ e reports,
    (closedInFlight (.ofConfig .standard)).runUntilIdle (.ofConfig .standard) = .ok (e, reports) ∧
      ∃ c ∈ e.cells, c.id = "s" ∧ c.status.isCycle = true ∧ (Graph.build e.cells).OnCycle c.id := by
  have hmarks : ((closedInFlight (.ofConfig .standard)).runUntilIdle (.ofConfig .standard)).toOption.any (fun r =>
      r.1.cells.any fun c => c.id == "s" && c.status.isCycle) = true := by decide +kernel
  cases hrun : (closedInFlight (.ofConfig .standard)).runUntilIdle (.ofConfig .standard) with
  | error _ => rw [hrun] at hmarks; cases hmarks
  | ok r =>
    rw [hrun] at hmarks
    obtain ⟨c, hc, hmark⟩ := List.any_eq_true.mp hmarks
    rw [Bool.and_eq_true, beq_iff_eq] at hmark
    exact ⟨r.1, r.2, rfl, c, hc, hmark.1, hmark.2,
      (marked_iff_onCycle reachable_closedInFlight hrun hc).mp hmark.2⟩

end Engine

end ReactiveNotebook
