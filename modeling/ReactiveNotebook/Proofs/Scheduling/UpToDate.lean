import ReactiveNotebook.Proofs.Engine.Begin
import ReactiveNotebook.Proofs.Engine.Verdict
import ReactiveNotebook.Proofs.Graph.Cycle

/-!
# Passes bring cells up to date

In a notebook without scripts, in which every variable has one writer, a cell is up to date if it shows what
its evaluation on the present variables comes to, or the fault of its cycle. During a pass every cell is up
to date or waits with a reason to be evaluated, and a cell is started only when nothing that waits feeds it.
So all cells are up to date when the pass has nothing left to do.
-/
namespace ReactiveNotebook

open Relation (TransGen)

variable {l : Language}

/-- Cells that are evaluated at once, each of which alone writes its variables and does not read them. -/
structure Tame (cells : List Cell) : Prop where
  atOnce : ∀ c ∈ cells, c.content.isScript = false
  reads : ∀ c ∈ cells, c.reads = c.content.analyze.reads
  writes : ∀ c ∈ cells, c.writes = c.content.analyze.writes
  single : ∀ c ∈ cells, ∀ d ∈ cells, ∀ x ∈ c.writes.names, x ∈ d.writes.names → c.id = d.id
  foreign : ∀ c ∈ cells, ∀ x ∈ c.writes.names, x ∉ c.reads

namespace Cell

variable {c d : Cell} {v : Verdict} {g g' : Graph} {view view' : String → Slot} {x output : String}

/-- The cell and the variables it writes show a verdict. -/
def Shows (view : String → Slot) (c : Cell) : Verdict → Prop
  | .fault fault =>
    c.status = .failed fault ∧ (∀ template, c.content = .markdown template → c.rendered = none) ∧
      ∀ x ∈ c.writes.names, view x = .error fault
  | .value _ value => c.status = .ok ∧ ∀ x ∈ c.writes.names, view x = .value value
  | .text text => c.status = .ok ∧ c.rendered = some text
  | .script _ _ => False

/-- The cell shows what its evaluation comes to, or that it lies on a cycle. -/
def UpToDate (l : Language) (g : Graph) (view : String → Slot) (c : Cell) : Prop :=
  g.OnCycle c.id ∧ (∃ path, c.Shows view (.fault (.cycle c.id path))) ∨
    ¬ g.OnCycle c.id ∧ ∃ v, c.verdict l view = .ok v ∧ c.Shows view v

lemma Shows.congr (h : c.Shows view v) (hw : ∀ x ∈ c.writes.names, view' x = view x) : c.Shows view' v := by
  cases v with
  | fault f => exact ⟨h.1, h.2.1, fun x hx => (hw x hx).trans (h.2.2 x hx)⟩
  | value output v => exact ⟨h.1, fun x hx => (hw x hx).trans (h.2 x hx)⟩
  | text t => exact h
  | script source inputs => exact h

/-- Off the cycles a cell stays up to date as long as what it reads and writes stays. -/
lemma UpToDate.congr (h : c.UpToDate l g view) (hg : g'.OnCycle c.id ↔ g.OnCycle c.id)
    (hw : ∀ x ∈ c.writes.names, view' x = view x)
    (hr : ¬ g.OnCycle c.id → ∀ x ∈ c.reads, view' x = view x) : c.UpToDate l g' view' := by
  rcases h with ⟨hc, path, hs⟩ | ⟨hc, v, hv, hs⟩
  · exact .inl ⟨hg.mpr hc, path, hs.congr hw⟩
  · refine .inr ⟨mt hg.mp hc, v, ?_, hs.congr hw⟩
    rw [verdict_congr (hr hc), hv]

/-- Whether a cell that is up to date is marked as lying on a cycle says whether it does. -/
lemma UpToDate.isCycle_iff (h : c.UpToDate l g view) : c.status.isCycle = true ↔ g.OnCycle c.id := by
  rcases h with ⟨hc, path, hs⟩ | ⟨hc, v, hv, hs⟩
  · refine iff_of_true ?_ hc
    rw [hs.1]
    rfl
  · refine iff_of_false ?_ hc
    cases v with
    | fault f =>
      rw [hs.1]
      simpa [Status.isCycle] using isCycle_of_verdict hv
    | value output value =>
      rw [hs.1]
      simp [Status.isCycle]
    | text t =>
      rw [hs.1]
      simp [Status.isCycle]
    | script source inputs => exact hs.elim

end Cell

namespace Tame

variable {cells : List Cell} {c d : Cell} {x : String}

/-- A cell writes the variable it declares, if it does. -/
lemma mem_writes_iff (h : Tame cells) (hc : c ∈ cells) :
    x ∈ c.writes.names ↔ c.content.output? = some x := by
  have hscript := h.atOnce c hc
  rw [h.writes c hc]
  cases hcontent : c.content with
  | script source => simp [hcontent, Content.isScript] at hscript
  | formula expression output => simp [Content.analyze, WriteSet.names, Content.output?, eq_comm]
  | input literal output => simp [Content.analyze, WriteSet.names, Content.output?, eq_comm]
  | markdown template => simp [Content.analyze, WriteSet.names, Content.output?]

/-- A cell that writes what another one reads is connected to it. -/
lemma edge (h : Tame cells) (hn : (cells.map (·.id)).Nodup) (hc : c ∈ cells) (hd : d ∈ cells)
    (hw : x ∈ c.writes.names) (hr : x ∈ d.reads) : (Graph.build cells).Edge c.id d.id := by
  refine (Graph.edge_build_iff hn).mpr ⟨c, hc, d, hd, rfl, rfl, fun hid => ?_, x, hw, hr⟩
  have hcd : c = d := List.inj_on_of_nodup_map hn hc hd hid
  exact h.foreign c hc x hw (hcd ▸ hr)

/-- A verdict on a cell leaves the cells tame. -/
lemma conclusion (h : Tame cells) {id : CellId} {v : Verdict} : Tame (conclusion id v cells) := by
  have hsame : ∀ d ∈ ReactiveNotebook.conclusion id v cells,
      ∃ c ∈ cells, c.id = d.id ∧ c.content = d.content ∧ c.reads = d.reads ∧ c.writes = d.writes := by
    intro d hd
    rcases mem_conclusion.mp hd with ⟨hd, -⟩ | ⟨c, hc, -, rfl⟩
    · exact ⟨d, hd, rfl, rfl, rfl, rfl⟩
    · exact ⟨c, hc, by simp, by simp, by simp, by simp⟩
  constructor
  · intro d hd
    obtain ⟨c, hc, -, hcontent, -, -⟩ := hsame d hd
    exact hcontent ▸ h.atOnce c hc
  · intro d hd
    obtain ⟨c, hc, -, hcontent, hreads, -⟩ := hsame d hd
    exact hreads ▸ hcontent ▸ h.reads c hc
  · intro d hd
    obtain ⟨c, hc, -, hcontent, -, hwrites⟩ := hsame d hd
    exact hwrites ▸ hcontent ▸ h.writes c hc
  · intro d hd d' hd' x hx hx'
    obtain ⟨c, hc, hid, -, -, hwrites⟩ := hsame d hd
    obtain ⟨c', hc', hid', -, -, hwrites'⟩ := hsame d' hd'
    exact hid ▸ hid' ▸ h.single c hc c' hc' x (hwrites ▸ hx) (hwrites' ▸ hx')
  · intro d hd x hx
    obtain ⟨c, hc, -, -, hreads, hwrites⟩ := hsame d hd
    exact hreads ▸ h.foreign c hc x (hwrites ▸ hx)

end Tame

namespace Stage

variable {s s' : Stage} {c : Cell} {id : CellId} {v : Verdict} {i : ℕ}

/-- A cell shows the verdict on it. -/
lemma shows_conclude (h : Tame s.engine.cells) (hc : c ∈ s.engine.cells) {view : String → Slot}
    (hv : c.verdict l view = .ok v) : (c.withVerdict v).Shows (s.conclude l c v).engine.get v := by
  cases v with
  | fault f =>
    refine ⟨rfl, fun template ht => ?_, fun x hx => ?_⟩
    · have ht : c.content = .markdown template := by simpa using ht
      simp [Cell.withVerdict, ht]
    · change (s.mark c f).engine.get x = _
      rw [get_mark, if_pos (by simpa using hx)]
  | value output value =>
    refine ⟨rfl, fun x hx => ?_⟩
    have hx : x ∈ c.writes.names := by simpa using hx
    have hout := Cell.output_of_verdict hv
    rw [(h.mem_writes_iff hc).mp hx] at hout
    have hxo : x = output := Option.some.inj hout
    change (s.commit output (.value value)).engine.get x = _
    rw [get_commit, if_pos hxo]
  | text text => exact ⟨rfl, rfl⟩
  | script source inputs =>
    have hscript := Cell.isScript_of_verdict hv
    rw [h.atOnce c hc] at hscript
    cases hscript

/-- The cell waits and will be evaluated when its turn comes. -/
def Awaits (s : Stage) (c : Cell) : Prop :=
  c.id ∈ s.pass.remaining ∧ (c.id ∈ s.pass.seeds ∨ ∃ x ∈ c.reads, x ∈ s.pass.changed)

/-- A pass that is going to bring every cell up to date. -/
structure Sound (l : Language) (s : Stage) : Prop where
  tidy : s.Tidy
  alone : s.engine.inFlight = []
  tame : Tame s.engine.cells
  synced : ∀ x, s.pass.slot x = s.engine.get x
  current : ∀ c ∈ s.engine.cells, c.UpToDate l s.engine.graph s.engine.get ∨ s.Awaits c
  closed : ∀ a ∈ s.pass.remaining, ∀ b, s.engine.graph.Edge a b →
    s.engine.graph.OnCycle b ∨ b ∈ s.pass.remaining
  sorted : s.pass.remaining.Pairwise fun a b => ¬ s.engine.graph.Edge b a
  acyclic : ∀ a ∈ s.pass.remaining, ¬ s.engine.graph.OnCycle a
  members : ∀ a ∈ s.pass.remaining, a ∈ s.pass.members ∧ a ∉ s.pass.completed

namespace Sound

/-- The cell to start next reads from no cell that waits. -/
lemma not_edge_next (h : s.Sound l) (hnext : s.next? = some i) (hid : s.pass.remaining[i]? = some id)
    {a : CellId} (ha : a ∈ s.pass.remaining) : ¬ s.engine.graph.Edge a id := by
  intro hedge
  rcases ready_or_first_of_next hnext hid with hready | ⟨-, -, others, hcons⟩
  · have hdep := (h.tidy.coherent.edge_iff a id).mp hedge
    obtain ⟨hmember, hwaits⟩ := h.members a ha
    exact hwaits (isReady_iff.mp hready a hdep hmember)
  · -- nothing is ready: the first cell is started, and the order puts no dependency after it
    have hsorted := h.sorted
    rw [hcons] at ha hsorted
    rcases List.mem_cons.mp ha with rfl | ha
    · exact h.acyclic a (by rw [hcons]; exact List.mem_cons_self) (.single hedge)
    · exact (List.pairwise_cons.mp hsorted).1 a ha hedge

lemma graph_eq (h : s.Sound l) : s.engine.graph = Graph.build s.engine.cells := h.tidy.graph

/-- Without scripts no result is under way. -/
lemma arriving_eq (h : s.Sound l) : s.engine.arriving = [] := by
  have hperm := h.tidy.flights
  rw [h.alone] at hperm
  simpa using hperm.eq_nil

lemma drain_eq (h : s.Sound l) : s.drain = s := by
  rw [Stage.drain, h.arriving_eq]
  rfl

/-- What the turn of a cell leaves is sound if the cells are up to date or wait. -/
lemma of_turn (h : s.Sound l) (hs' : s'.Tidy) (hnext : s.next? = some i)
    (hid : s.pass.remaining[i]? = some id)
    (hcontrol : s'.control = ((s.withdraw i).finish id .success).control) (htame : Tame s'.engine.cells)
    (hsynced : ∀ x, s'.pass.slot x = s'.engine.get x)
    (hcurrent : ∀ c ∈ s'.engine.cells, c.UpToDate l s'.engine.graph s'.engine.get ∨ s'.Awaits c) :
    s'.Sound l := by
  have hgraph : s'.engine.graph = s.engine.graph := congrArg (·.engine.graph) hcontrol
  have hremaining : s'.pass.remaining = (s.withdraw i).pass.remaining :=
    congrArg (·.pass.remaining) hcontrol
  have hmem : ∀ a, a ∈ s'.pass.remaining ↔ a ∈ s.pass.remaining ∧ a ≠ id := fun a => by
    rw [hremaining, mem_withdraw h.tidy.waiting hid]
  have hmembers : s'.pass.members = s.pass.members := congrArg (·.pass.members) hcontrol
  have hcompleted : s'.pass.completed = s.pass.completed.insert id :=
    congrArg (·.pass.completed) hcontrol
  exact
    { tidy := hs'
      alone := (congrArg (·.engine.inFlight) hcontrol).trans h.alone
      tame := htame
      synced := hsynced
      current := hcurrent
      closed := fun a ha b hedge => by
        rw [hgraph] at hedge ⊢
        obtain ⟨ha, -⟩ := (hmem a).mp ha
        refine (h.closed a ha b hedge).imp_right fun hb => (hmem b).mpr ⟨hb, ?_⟩
        rintro rfl
        exact h.not_edge_next hnext hid ha hedge
      sorted := by
        rw [hremaining, hgraph]
        exact h.sorted.sublist (List.eraseIdx_sublist ..)
      acyclic := fun a ha => by
        rw [hgraph]
        exact h.acyclic a ((hmem a).mp ha).1
      members := fun a ha => by
        obtain ⟨ha, hne⟩ := (hmem a).mp ha
        obtain ⟨hm, hc⟩ := h.members a ha
        rw [hmembers, hcompleted]
        refine ⟨hm, fun hins => ?_⟩
        rcases Names.mem_insert.mp hins with hins | hins
        · exact hne hins
        · exact hc hins }

/-- The turn of a cell leaves every cell up to date or waiting with a reason. -/
theorem start (h : s.Sound l) (hnext : s.next? = some i) (hid : s.pass.remaining[i]? = some id)
    (hrun : (s.withdraw i).runCell l id = .ok s') : s'.Sound l := by
  have hmove : s.Move l s' := .start (.inr h.alone) hnext hid hrun
  have hn := h.tidy.ids
  have hcell : ∀ c, s.engine.cell? id = some c → c ∈ s.engine.cells ∧ c.id = id := fun c hc =>
    (Engine.cell?_eq_some_iff hn).mp hc
  have hcontrol : s'.control = ((s.withdraw i).finish id .success).control := by
    refine (runCell_cases hrun).resolve_right ?_
    rintro ⟨c, source, hc, hcontent, -⟩
    have hscript := h.tame.atOnce c (hcell c hc).1
    rw [hcontent] at hscript
    cases hscript
  have hkeep : ∀ {a}, a ∈ s.pass.remaining → a ≠ id → a ∈ (s.withdraw i).pass.remaining := fun ha hne =>
    (mem_withdraw h.tidy.waiting hid).mpr ⟨ha, hne⟩
  have hgraph : s'.engine.graph = s.engine.graph := congrArg (·.engine.graph) hcontrol
  cases turn_of_runCell hrun with
  | gone hc =>
    refine h.of_turn (h.tidy.move hmove) hnext hid hcontrol h.tame h.synced fun c hc' => ?_
    refine (h.current c hc').imp_right fun hw => ⟨hkeep hw.1 fun heq => ?_, hw.2⟩
    have hhas : s.engine.hasCell id = true := Engine.hasCell_iff.mpr (heq ▸ List.mem_map_of_mem hc')
    have hnone : s.engine.cell? id = none := hc
    rw [Engine.hasCell, hnone] at hhas
    cases hhas
  | @unchanged c hc ht =>
    refine h.of_turn (h.tidy.move hmove) hnext hid hcontrol h.tame h.synced fun d hd => ?_
    rcases h.current d hd with hd' | hw
    · exact .inl hd'
    · by_cases hdid : d.id = id
      · -- the cell had no reason to be evaluated
        have hcd : c = d := List.inj_on_of_nodup_map hn (hcell c hc).1 hd ((hcell c hc).2.trans hdid.symm)
        subst hcd
        simp only [isTriggered, Bool.or_eq_false_iff, List.any_eq_false, Names.contains_eq_false_iff] at ht
        rcases hw.2 with hseed | ⟨x, hx, hchanged⟩
        · exact absurd hseed ht.1
        · have hnone := ht.2 x hx
          simp only [Bool.not_eq_true, Bool.or_eq_false_iff, Names.contains_eq_false_iff] at hnone
          exact absurd hchanged hnone.1
      · exact .inr ⟨hkeep hw.1 hdid, hw.2⟩
  | @evaluated c v hc ht hv =>
    obtain ⟨hcm, hcid⟩ := hcell c hc
    have hcells : ((s.withdraw i).conclude l c v).engine.cells = conclusion c.id v s.engine.cells :=
      cells_conclude
    have hreplaces : Replaces (· ∈ c.writes.names) (s.withdraw i) ((s.withdraw i).conclude l c v) :=
      replaces_conclude fun output value hval => by
        rw [hval] at hv
        exact (h.tame.mem_writes_iff hcm).mpr (Cell.output_of_verdict hv)
    have hseeds : ((s.withdraw i).conclude l c v).pass.seeds = s.pass.seeds :=
      congrArg (·.pass.seeds) hcontrol
    have hremaining : ((s.withdraw i).conclude l c v).pass.remaining = (s.withdraw i).pass.remaining :=
      congrArg (·.pass.remaining) hcontrol
    have hget : ∀ x ∉ c.writes.names, ((s.withdraw i).conclude l c v).engine.get x = s.engine.get x :=
      fun x hx => hreplaces.get_eq hx
    refine h.of_turn (h.tidy.move hmove) hnext hid hcontrol (hcells ▸ h.tame.conclusion)
      (fun x => hreplaces.synced (h.synced x)) fun d hd => ?_
    rw [hcells] at hd
    rcases mem_conclusion.mp hd with ⟨hd, hne⟩ | ⟨b, hb, hbid, rfl⟩
    · have hwrites : ∀ x ∈ d.writes.names, x ∉ c.writes.names := fun x hx hxc =>
        hne (h.tame.single d hd c hcm x hx hxc)
      rcases h.current d hd with hup | hw
      · by_cases hreads : ∀ x ∈ d.reads, x ∉ c.writes.names
        · exact .inl (hup.congr (by rw [hgraph]) (fun x hx => hget x (hwrites x hx))
            fun _ x hx => hget x (hreads x hx))
        · push Not at hreads
          obtain ⟨x, hx, hxc⟩ := hreads
          have hedge : s.engine.graph.Edge id d.id := by
            rw [h.graph_eq, ← hcid]
            exact h.tame.edge hn hcm hd hxc hx
          rcases h.closed id (List.mem_of_getElem? hid) d.id hedge with hcycle | hwait
          · refine .inl (hup.congr (by rw [hgraph]) (fun x hx => hget x (hwrites x hx)) fun hno => ?_)
            exact absurd hcycle hno
          · by_cases hsame : ∀ y ∈ d.reads,
              ((s.withdraw i).conclude l c v).engine.get y = s.engine.get y
            · exact .inl (hup.congr (by rw [hgraph]) (fun x hx => hget x (hwrites x hx)) fun _ => hsame)
            · push Not at hsame
              obtain ⟨y, hy, hchanged⟩ := hsame
              refine .inr ⟨hremaining ▸ hkeep hwait (hcid ▸ hne), .inr ⟨y, hy, ?_⟩⟩
              exact hreplaces.changed y hchanged
      · refine .inr ⟨hremaining ▸ hkeep hw.1 (hcid ▸ hne), ?_⟩
        rw [hseeds]
        exact hw.2.imp_right (Exists.imp fun x => And.imp_right (hreplaces.keeps x))
    · have hbc : b = c := List.inj_on_of_nodup_map hn hb hcm hbid
      subst hbc
      refine .inl (.inr ⟨?_, v, ?_, shows_conclude (s := s.withdraw i) h.tame hb hv⟩)
      · rw [hgraph, Cell.id_withVerdict, hcid]
        exact h.acyclic id (List.mem_of_getElem? hid)
      · rw [Cell.verdict_withVerdict, ← hv]
        refine Cell.verdict_congr fun x hx => ?_
        rw [hget x fun hxw => h.tame.foreign b hb x hxw hx]
        exact (h.synced x).symm

end Sound

/-- Between the stages cells have been evaluated or marked, and the variables they write replaced. -/
structure Evaluates (s t : Stage) : Prop where
  cells : t.engine.cells.map Cell.blank = s.engine.cells.map Cell.blank
  get : ∀ x, (∀ c ∈ s.engine.cells, x ∉ c.writes.names) → t.engine.get x = s.engine.get x
  silent : s.engine.store.Silent t.engine.store
  seeds : t.engine.seeds = s.engine.seeds

namespace Evaluates

variable {t u : Stage}

@[refl] lemma refl (s : Stage) : s.Evaluates s := ⟨rfl, fun _ _ => rfl, .refl _, rfl⟩

lemma exists_cell (h : s.Evaluates t) (hc : c ∈ t.engine.cells) :
    ∃ d ∈ s.engine.cells, d.id = c.id ∧ d.content = c.content ∧ d.reads = c.reads ∧ d.writes = c.writes := by
  have hblank : c.blank ∈ s.engine.cells.map Cell.blank := h.cells ▸ List.mem_map_of_mem hc
  obtain ⟨d, hd, hdc⟩ := List.mem_map.mp hblank
  have hid : d.id = c.id := show d.blank.id = c.blank.id from congrArg _ hdc
  have hcontent : d.content = c.content := show d.blank.content = c.blank.content from congrArg _ hdc
  have hreads : d.reads = c.reads := show d.blank.reads = c.blank.reads from congrArg _ hdc
  have hwrites : d.writes = c.writes := show d.blank.writes = c.blank.writes from congrArg _ hdc
  exact ⟨d, hd, hid, hcontent, hreads, hwrites⟩

lemma trans (h : s.Evaluates t) (h' : t.Evaluates u) : s.Evaluates u where
  cells := h'.cells.trans h.cells
  get x hx := by
    refine (h'.get x fun c hc => ?_).trans (h.get x hx)
    obtain ⟨d, hd, -, -, -, hwrites⟩ := h.exists_cell hc
    exact hwrites ▸ hx d hd
  silent := h.silent.trans h'.silent
  seeds := h'.seeds.trans h.seeds

end Evaluates

namespace Sound

lemma evaluates_runCell (h : s.Sound l) (hrun : (s.withdraw i).runCell l id = .ok s') : s.Evaluates s' := by
  have hcell : ∀ c, s.engine.cell? id = some c → c ∈ s.engine.cells := fun c hc => List.mem_of_find?_eq_some hc
  have hcontrol : s'.control = ((s.withdraw i).finish id .success).control := by
    refine (runCell_cases hrun).resolve_right ?_
    rintro ⟨c, source, hc, hcontent, -⟩
    have hscript := h.tame.atOnce c (hcell c hc)
    rw [hcontent] at hscript
    cases hscript
  have hturn := turn_of_runCell hrun
  refine ⟨congrArg (·.engine.cells) hcontrol, fun x hx => ?_, silent_of_turn (s := s.withdraw i) hturn,
    congrArg (·.engine.seeds) hcontrol⟩
  cases hturn with
  | gone hc => rfl
  | unchanged hc ht => rfl
  | @evaluated c v hc ht hv =>
    have hreplaces : Replaces (· ∈ c.writes.names) (s.withdraw i) ((s.withdraw i).conclude l c v) :=
      replaces_conclude fun output value hval => by
        rw [hval] at hv
        exact (h.tame.mem_writes_iff (hcell c hc)).mpr (Cell.output_of_verdict hv)
    exact hreplaces.get_eq (hx c (hcell c hc))

/-- When nothing waits any more, every cell is up to date. -/
theorem upToDate_of_remaining_nil (h : s.Sound l) (hr : s.pass.remaining = []) (hc : c ∈ s.engine.cells) :
    c.UpToDate l s.engine.graph s.engine.get :=
  (h.current c hc).resolve_right fun hw => by
    have hmem := hw.1
    rw [hr] at hmem
    cases hmem

/-- Starting cells as long as there are any ends with nothing waiting. -/
theorem runReadyFor {fuel : ℕ} (h : s.Sound l) (hfuel : s.pass.remaining.length ≤ fuel)
    (hrun : s.runReadyFor l fuel = .ok s') :
    s'.Sound l ∧ s'.pass.remaining = [] ∧ s.Evaluates s' := by
  induction fuel generalizing s with
  | zero =>
    cases hrun
    exact ⟨h, List.eq_nil_of_length_eq_zero (by omega), .refl _⟩
  | succ fuel ih =>
    rw [Stage.runReadyFor, h.alone] at hrun
    simp only [List.isEmpty_nil, Bool.not_true, Bool.and_false, Bool.false_eq_true, if_false] at hrun
    by_cases hr : s.pass.remaining = []
    · simp only [next?_eq_none hr, Option.bind_none] at hrun
      cases hrun
      exact ⟨h, hr, .refl _⟩
    · obtain ⟨i, id, hnext, hid⟩ := exists_next h.alone hr
      simp only [hnext, Option.bind_some, hid, Option.map_some] at hrun
      change ((s.withdraw i).runCell l id).bind _ = _ at hrun
      cases hturn : (s.withdraw i).runCell l id with
      | error cause => simp [hturn, Except.bind] at hrun
      | ok t =>
        simp only [hturn, Except.bind] at hrun
        have ht := h.start hnext hid hturn
        have heval := h.evaluates_runCell hturn
        have hlen : t.pass.remaining.length ≤ fuel := by
          obtain ⟨hi, -⟩ := List.getElem?_eq_some_iff.mp hid
          rw [remaining_of_runCell hturn, withdraw, List.length_eraseIdx_of_lt hi]
          omega
        obtain ⟨hs', hnil, heval'⟩ := ih ht hlen hrun
        exact ⟨hs', hnil, heval.trans heval'⟩

end Sound

/-- Between the stages the given cells have been marked as lying on cycles. -/
structure Marks (ids : List CellId) (s t : Stage) : Prop where
  evaluates : s.Evaluates t
  replaces : Replaces (fun x => ∃ c ∈ s.engine.cells, c.id ∈ ids ∧ x ∈ c.writes.names) s t
  tame : Tame t.engine.cells
  marked : ∀ d ∈ t.engine.cells, d ∈ s.engine.cells ∧ d.id ∉ ids ∨
    d.id ∈ ids ∧ ∃ path, d.Shows t.engine.get (.fault (.cycle d.id path))

lemma marks_block (htame : Tame s.engine.cells) (hn : (s.engine.cells.map (·.id)).Nodup) :
    Marks [id] s (s.block id) where
  evaluates :=
    { cells := by
        have hcontrol : (s.block id).control.engine.cells = s.control.engine.cells := by
          rw [control_block]
          split <;> rfl
        exact hcontrol
      get := fun x hx => by
        have hreplaces : Replaces (∃ c ∈ s.engine.cells, · ∈ c.writes.names) s (s.block id) :=
          replaces_block fun c hc _ y hy => ⟨c, hc, hy⟩
        refine hreplaces.get_eq ?_
        rintro ⟨c, hc, hxc⟩
        exact hx c hc hxc
      silent := silent_block
      seeds := by
        have hcontrol : (s.block id).control.engine.seeds = s.control.engine.seeds := by
          rw [control_block]
          split <;> rfl
        exact hcontrol }
  replaces := replaces_block fun c hc hid y hy => ⟨c, hc, List.mem_singleton.mpr hid, hy⟩
  tame := by
    rw [cells_block]
    exact htame.conclusion
  marked := fun d hd => by
    rw [cells_block] at hd
    rcases mem_conclusion.mp hd with ⟨hd, hne⟩ | ⟨c, hc, rfl, rfl⟩
    · exact .inl ⟨hd, by simpa using hne⟩
    · have hcell : s.engine.cell? c.id = some c := (Engine.cell?_eq_some_iff hn).mpr ⟨hc, rfl⟩
      refine .inr ⟨by simp, (s.engine.graph.cycleOf? c.id).getD [], rfl, fun template ht => ?_, fun x hx => ?_⟩
      · have ht : c.content = .markdown template := by simpa using ht
        simp [Cell.withVerdict, ht]
      · unfold block
        rw [hcell]
        exact get_mark.trans (if_pos (by simpa using hx))

lemma Marks.trans {ids ids' : List CellId} {t u : Stage} (h : Marks ids s t) (h' : Marks ids' t u) :
    Marks (ids ++ ids') s u where
  evaluates := h.evaluates.trans h'.evaluates
  replaces := by
    have hleft : Replaces (fun x => ∃ c ∈ s.engine.cells, c.id ∈ ids ++ ids' ∧ x ∈ c.writes.names) s t :=
      h.replaces.mono fun x ⟨c, hc, hid, hx⟩ => ⟨c, hc, List.mem_append_left _ hid, hx⟩
    refine hleft.trans (h'.replaces.mono fun x ⟨c, hc, hid, hx⟩ => ?_)
    obtain ⟨d, hd, hdid, -, -, hwrites⟩ := h.evaluates.exists_cell hc
    exact ⟨d, hd, List.mem_append_right _ (hdid ▸ hid), hwrites ▸ hx⟩
  tame := h'.tame
  marked d hd := by
    rcases h'.marked d hd with ⟨hdt, hid'⟩ | ⟨hid', hshows⟩
    · rcases h.marked d hdt with ⟨hds, hid⟩ | ⟨hid, path, hshows⟩
      · exact .inl ⟨hds, by simp [hid, hid']⟩
      · refine .inr ⟨List.mem_append_left _ hid, path, hshows.congr fun x hx => ?_⟩
        refine h'.replaces.get_eq ?_
        rintro ⟨c, hc, hcid, hxc⟩
        exact hid' (h.tame.single c hc d hdt x hxc hx ▸ hcid)
    · exact .inr ⟨List.mem_append_right _ hid', hshows⟩

lemma marks_foldl_block (htame : Tame s.engine.cells) (hn : (s.engine.cells.map (·.id)).Nodup)
    (ids : List CellId) : Marks ids s (ids.foldl block s) := by
  induction ids generalizing s with
  | nil => exact ⟨.refl s, .refl s, htame, fun d hd => .inl ⟨hd, List.not_mem_nil⟩⟩
  | cons id ids ih =>
    have hmark : Marks [id] s (s.block id) := marks_block htame hn
    have hids : (s.block id).engine.cells.map (·.id) = s.engine.cells.map (·.id) := by
      have h := congrArg (List.map (·.id)) hmark.evaluates.cells
      rwa [List.map_map, List.map_map] at h
    exact hmark.trans (ih hmark.tame (hids ▸ hn))

end Stage

namespace Engine

variable {e e' : Engine} {c : Cell} {x : CellId}

/-- A notebook whose cells are up to date or wait for the next pass. -/
structure Sound (l : Language) (e : Engine) : Prop where
  tidy : e.Tidy
  rest : e.pass = none
  tame : Tame e.cells
  current : ∀ c ∈ e.cells, c.UpToDate l e.graph e.get ∨ c.id ∈ e.seeds

lemma marks_blockCycles (h : e.Sound l) : Stage.Marks e.blocked e.openPass e.blockCycles :=
  Stage.marks_foldl_block (s := e.openPass) h.tame h.tidy.ids e.blocked

/-- A pass starts soundly: whatever is not up to date waits. -/
theorem Sound.beginPass (h : e.Sound l) : e.beginPass.Sound l := by
  have ht := h.tidy
  have hmarks := marks_blockCycles h
  have hremaining := fun x => mem_remaining_beginPass (x := x) ht
  have hcontrol := control_blockCycles e
  have hgraph := graph_beginPass e
  exact
    { tidy := beginPass_tidy ht h.rest
      alone := (congrArg (·.engine.inFlight) hcontrol).trans (ht.idle h.rest).1
      tame := hmarks.tame
      synced := fun x => hmarks.replaces.synced Pass.slot_start
      current := fun d hd => by
        rw [hgraph]
        rcases hmarks.marked d hd with ⟨hde, hout⟩ | ⟨hin, hshows⟩
        · have hwrites : ∀ x ∈ d.writes.names, e.beginPass.engine.get x = e.get x := fun x hx => by
            refine hmarks.replaces.get_eq ?_
            rintro ⟨c, hc, hcid, hxc⟩
            exact hout (h.tame.single c hc d hde x hxc hx ▸ hcid)
          rcases h.current d hde with hup | hseed
          · by_cases hsame : ∀ x ∈ d.reads, e.beginPass.engine.get x = e.get x
            · exact .inl (hup.congr Iff.rfl hwrites fun _ => hsame)
            · push Not at hsame
              obtain ⟨x, hx, hne⟩ := hsame
              by_cases hcycle : e.graph.OnCycle d.id
              · exact .inl (hup.congr Iff.rfl hwrites fun hno => absurd hcycle hno)
              · -- a variable of a marked cell has changed, so the pass has reached its reader
                have hnames : ∃ c ∈ e.cells, c.id ∈ e.blocked ∧ x ∈ c.writes.names := by
                  by_contra hno
                  exact hne (hmarks.replaces.get_eq hno)
                obtain ⟨c, hc, hcid, hxc⟩ := hnames
                have hedge : e.graph.Edge c.id d.id := by
                  rw [ht.graph]
                  exact h.tame.edge ht.ids hc hde hxc hx
                have hreached := reached_of_edge ht ((mem_blocked_iff ht).mp hcid).1 hedge
                exact .inr ⟨(hremaining _).mpr ⟨hreached, hcycle⟩, .inr ⟨x, hx, hmarks.replaces.changed x hne⟩⟩
          · have hknown : d.id ∈ e.cells.map (·.id) := List.mem_map_of_mem hde
            have hreached := reached_of_seed ht hseed hknown
            by_cases hcycle : e.graph.OnCycle d.id
            · exact absurd ((mem_blocked_iff ht).mpr ⟨hreached, hcycle⟩) hout
            · exact .inr ⟨(hremaining _).mpr ⟨hreached, hcycle⟩, .inl (mem_roots ht hseed hknown)⟩
        · exact .inl (.inl ⟨((mem_blocked_iff ht).mp hin).2, hshows⟩)
      closed := fun a ha b hedge => by
        rw [hgraph] at hedge ⊢
        have hreached := reached_of_edge ht ((hremaining a).mp ha).1 hedge
        by_cases hcycle : e.graph.OnCycle b
        · exact .inl hcycle
        · exact .inr ((hremaining b).mpr ⟨hreached, hcycle⟩)
      sorted := by
        rw [hgraph]
        exact sorted_beginPass ht
      acyclic := fun a ha => by
        rw [hgraph]
        exact ((hremaining a).mp ha).2
      members := fun a ha => active_beginPass ha }

lemma evaluates_beginPass (h : e.Sound l) : e.openPass.Evaluates e.beginPass :=
  let hmarks := marks_blockCycles h
  ⟨hmarks.evaluates.cells, hmarks.evaluates.get, hmarks.evaluates.silent, hmarks.evaluates.seeds⟩

end Engine

end ReactiveNotebook
