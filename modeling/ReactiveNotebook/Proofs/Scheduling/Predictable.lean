import ReactiveNotebook.Proofs.Engine.Outcome
import ReactiveNotebook.Proofs.Scheduling.Due

/-!
# Passes over predictable cells

The scripts of a notebook are predictable if what they come to depends on their inputs only, and if they export
exactly what their texts let expect. If also no variable is written by two cells and no cell reads what it
writes, the graph stays as it is during a pass, and every cell is evaluated once at most, after all it depends
on. So whatever the order of events, a cell that is done shows what the final values of the variables it reads
determine.
-/
namespace ReactiveNotebook

open Script (Fields)

variable {l : Language}

/-- The cells of a notebook in which the outcome of each evaluation follows from what the cell reads. -/
structure Predictable (l : Language) (cells : List Cell) : Prop where
  /-- Each variable is written by one cell at most. -/
  single : ∀ c ∈ cells, ∀ d ∈ cells, ∀ v, v ∈ c.writes.names → v ∈ d.writes.names → c.id = d.id
  /-- No cell reads what it writes. -/
  foreign : ∀ c ∈ cells, ∀ v ∈ c.writes.names, v ∉ c.reads
  declared : ∀ c ∈ cells, ∀ v, c.content.output? = some v → v ∈ c.writes.names
  /-- What a script comes to does not depend on the storage area. -/
  pure : ∀ c ∈ cells, ∀ source, c.content = .script source → ∀ inputs storage storage',
    Stage.settle (l.run source inputs storage) = Stage.settle (l.run source inputs storage')
  /-- A script that succeeds exports what it is known to write. -/
  exact : ∀ c ∈ cells, ∀ source, c.content = .script source → ∀ inputs storage exports,
    (l.run source inputs storage).result = .ok exports → Names.ofList (exports.map (·.1)) = c.writes.names

namespace Predictable

variable {cells cells' : List Cell} {c d : Cell} {view : String → Slot} {p : Cell × List (String × Slot)}
variable {source : String} {inputs : Inputs} {storage exports : Fields} {logs : List String}

lemma mem_faults {fault : Fault} {q : String × Slot} (hq : q ∈ c.faults fault) : q.1 ∈ c.writes.names := by
  obtain ⟨name, hname, rfl⟩ := List.mem_map.mp hq
  exact hname

/-- Only what edits change and the names that are written matter. -/
lemma congr (h : Predictable l cells)
    (hsame : ∀ d ∈ cells', ∃ c ∈ cells, d.revision = c.revision ∧ d.writes.names = c.writes.names) :
    Predictable l cells' where
  single d hd d' hd' v hv hv' := by
    obtain ⟨c, hc, hrev, hw⟩ := hsame d hd
    obtain ⟨c', hc', hrev', hw'⟩ := hsame d' hd'
    have hid : d.id = c.id := congrArg Prod.fst hrev
    have hid' : d'.id = c'.id := congrArg Prod.fst hrev'
    rw [hid, hid']
    exact h.single c hc c' hc' v (hw ▸ hv) (hw' ▸ hv')
  foreign d hd v hv := by
    obtain ⟨c, hc, hrev, hw⟩ := hsame d hd
    have hreads : d.reads = c.reads := congrArg (·.2.2.2) hrev
    rw [hreads]
    exact h.foreign c hc v (hw ▸ hv)
  declared d hd v hv := by
    obtain ⟨c, hc, hrev, hw⟩ := hsame d hd
    have hcontent : d.content = c.content := congrArg (·.2.1) hrev
    rw [hw]
    exact h.declared c hc v (hcontent ▸ hv)
  pure d hd source hsource := by
    obtain ⟨c, hc, hrev, -⟩ := hsame d hd
    have hcontent : d.content = c.content := congrArg (·.2.1) hrev
    exact h.pure c hc source (hcontent ▸ hsource)
  exact d hd source hsource inputs storage exports hrun := by
    obtain ⟨c, hc, hrev, hw⟩ := hsame d hd
    have hcontent : d.content = c.content := congrArg (·.2.1) hrev
    rw [hw]
    exact h.exact c hc source (hcontent ▸ hsource) inputs storage exports hrun

/-- What an outcome is like. -/
structure Sober (c : Cell) (p : Cell × List (String × Slot)) : Prop where
  revision : p.1.revision = c.revision
  writes : p.1.writes.names = c.writes.names
  mark : p.1.status.isCycle = false
  commits : ∀ q ∈ p.2, q.1 ∈ c.writes.names

lemma sober_withRun (h : Predictable l cells) (hc : c ∈ cells) (hsource : c.content = .script source) :
    Sober c (c.withRun (Stage.settle (l.run source inputs storage))) := by
  rcases hr : Stage.settle (l.run source inputs storage) with ⟨message | exports, logs⟩
  · exact ⟨rfl, rfl, rfl, fun q hq => mem_faults hq⟩
  · have hexact := h.exact c hc source hsource inputs storage exports (Stage.result_of_settle hr)
    refine ⟨rfl, hexact, rfl, fun q hq => ?_⟩
    obtain ⟨field, hfield, rfl⟩ := List.mem_map.mp hq
    rw [← hexact, Names.mem_ofList]
    exact List.mem_map_of_mem hfield

lemma sober_of_outcome (h : Predictable l cells) (hc : c ∈ cells) (hp : c.outcome l view = .ok p) : Sober c p := by
  unfold Cell.outcome at hp
  cases hv : c.verdict l view with
  | error cause => rw [hv] at hp; cases hp
  | ok verdict =>
    rw [hv] at hp
    cases hp
    cases verdict with
    | fault fault => exact ⟨rfl, rfl, Cell.isCycle_of_verdict hv, fun q hq => mem_faults hq⟩
    | value output value =>
      refine ⟨rfl, rfl, rfl, fun q hq => ?_⟩
      rw [List.mem_singleton.mp hq]
      exact h.declared c hc output (Cell.output_of_verdict hv)
    | text text => exact ⟨rfl, rfl, rfl, fun q hq => by cases hq⟩
    | script source inputs => exact h.sober_withRun hc (Cell.content_of_verdict hv)

end Predictable

namespace Stage

variable {b s s' t : Stage} {c d : Cell} {id x : CellId} {names : Names} {v : String} {i : ℕ}

/-- The cell is as it was when the pass began, and so are the variables it writes. -/
def Untouched (b s : Stage) (c : Cell) : Prop :=
  c ∈ s.engine.cells ∧ ∀ v ∈ c.writes.names, s.holds v = b.holds v

/-- The script of the cell has been started on what the variables that it reads hold. -/
def Launched (l : Language) (b s : Stage) (c : Cell) : Prop :=
  Untouched b s c ∧ s.isTriggered c = true ∧ ∃ source inputs, c.verdict l s.engine.get = .ok (.script source inputs) ∧
    ∃ a ∈ s.engine.arriving, a.cell = c.id ∧ settle a.run = settle (l.run source inputs [])

/-- The cell shows what follows from what the variables hold that it reads. -/
def Concluded (l : Language) (b s : Stage) (c : Cell) : Prop :=
  s.isTriggered c = false ∧ Untouched b s c ∨ s.isTriggered c = true ∧ ∃ p, c.outcome l s.engine.get = .ok p ∧
    p.1 ∈ s.engine.cells ∧ ∀ v ∈ c.writes.names, s.holds v = replay p.2 v (b.holds v)

/-- What stays the same during a pass over predictable cells. -/
structure Keeps (s s' : Stage) : Prop where
  graph : s'.engine.graph = s.engine.graph
  seeds : s'.engine.seeds = s.engine.seeds
  clock : s'.engine.clock = s.engine.clock
  config : s'.engine.config = s.engine.config
  ids : s'.engine.cells.map (·.id) = s.engine.cells.map (·.id)
  members : s'.pass.members = s.pass.members
  roots : s'.pass.seeds = s.pass.seeds
  silent : s.engine.store.Silent s'.engine.store

namespace Keeps

@[refl] lemma refl (s : Stage) : Keeps s s := ⟨rfl, rfl, rfl, rfl, rfl, rfl, rfl, .refl _⟩

lemma trans (h : Keeps s s') (h' : Keeps s' t) : Keeps s t :=
  ⟨h'.graph.trans h.graph, h'.seeds.trans h.seeds, h'.clock.trans h.clock, h'.config.trans h.config,
    h'.ids.trans h.ids, h'.members.trans h.members, h'.roots.trans h.roots, h.silent.trans h'.silent⟩

/-- What agrees in all but values keeps the same, except for the host writes. -/
lemma of_control (h : s'.control = s.control) (hsilent : s.engine.store.Silent s'.engine.store) : Keeps s s' where
  graph := congrArg (·.engine.graph) h
  seeds := congrArg (·.engine.seeds) h
  clock := congrArg (·.engine.clock) h
  config := congrArg (·.engine.config) h
  ids := ids_of_control h
  members := congrArg (·.pass.members) h
  roots := congrArg (·.pass.seeds) h
  silent := hsilent

end Keeps

/-- A step that concerns one cell, which then does not wait. -/
structure Concerns (c : Cell) (s s' : Stage) : Prop extends Keeps s s' where
  cells : ∀ d ∈ s.engine.cells, d.id ≠ c.id → d ∈ s'.engine.cells
  holds : ∀ v, v ∉ c.writes.names → s'.holds v = s.holds v
  arriving : ∀ a ∈ s.engine.arriving, a.cell ≠ c.id → a ∈ s'.engine.arriving
  waiting : ∀ x, x ∈ s'.pass.remaining ↔ x ∈ s.pass.remaining ∧ x ≠ c.id
  flying : ∀ x, x ≠ c.id → (x ∈ s'.flying ↔ x ∈ s.flying)
  completed : ∀ x, x ≠ c.id → (x ∈ s'.pass.completed ↔ x ∈ s.pass.completed)

/-- What is left to do: every waiting cell is to be started, and the result of every script is to arrive. -/
def load (s : Stage) : ℕ := 2 * s.pass.remaining.toFinset.card + s.flying.toFinset.card

lemma isTriggered_congr (hroots : s'.pass.seeds = t.pass.seeds) (hs : ∀ v, s'.pass.slot v = s'.engine.get v)
    (ht : ∀ v, t.pass.slot v = t.engine.get v) (h : ∀ v ∈ c.reads, s'.holds v = t.holds v) :
    s'.isTriggered c = t.isTriggered c := by
  have hany : (c.reads.toList.any fun name => s'.pass.changed.contains name || (s'.pass.slot name).isError) =
      c.reads.toList.any fun name => t.pass.changed.contains name || (t.pass.slot name).isError := by
    rw [Bool.eq_iff_iff, List.any_eq_true, List.any_eq_true]
    refine exists_congr fun v => and_congr_right fun hv => ?_
    have hget : s'.engine.get v = t.engine.get v := congrArg Prod.fst (h v hv)
    have hchanged : s'.pass.changed.contains v = t.pass.changed.contains v := congrArg Prod.snd (h v hv)
    rw [hs, ht, hget, hchanged]
  rw [isTriggered, isTriggered, hroots, hany]

namespace Concerns

lemma untouched (h : Concerns d s s') (hc : Untouched b s c) (hne : c.id ≠ d.id)
    (hw : ∀ v ∈ c.writes.names, v ∉ d.writes.names) : Untouched b s' c :=
  ⟨h.cells c hc.1 hne, fun v hv => (h.holds v (hw v hv)).trans (hc.2 v hv)⟩

lemma launched (h : Concerns d s s') (hs : ∀ v, s.pass.slot v = s.engine.get v)
    (hs' : ∀ v, s'.pass.slot v = s'.engine.get v) (hc : Launched l b s c) (hne : c.id ≠ d.id)
    (hw : ∀ v ∈ c.writes.names, v ∉ d.writes.names) (hr : ∀ v ∈ c.reads, v ∉ d.writes.names) : Launched l b s' c := by
  obtain ⟨huntouched, htrigger, source, inputs, hverdict, a, ha, hac, hrun⟩ := hc
  have hreads : ∀ v ∈ c.reads, s'.holds v = s.holds v := fun v hv => h.holds v (hr v hv)
  have hview : ∀ v ∈ c.reads, s'.engine.get v = s.engine.get v := fun v hv => congrArg Prod.fst (hreads v hv)
  refine ⟨h.untouched huntouched hne hw, ?_, source, inputs, ?_, a, h.arriving a ha (hac ▸ hne), hac, hrun⟩
  · rw [isTriggered_congr h.roots hs' hs hreads]
    exact htrigger
  · rw [Cell.verdict_congr hview]
    exact hverdict

lemma concluded (h : Concerns d s s') (hs : ∀ v, s.pass.slot v = s.engine.get v)
    (hs' : ∀ v, s'.pass.slot v = s'.engine.get v) (hc : Concluded l b s c) (hne : c.id ≠ d.id)
    (hw : ∀ v ∈ c.writes.names, v ∉ d.writes.names) (hr : ∀ v ∈ c.reads, v ∉ d.writes.names) : Concluded l b s' c := by
  have hreads : ∀ v ∈ c.reads, s'.holds v = s.holds v := fun v hv => h.holds v (hr v hv)
  have hview : ∀ v ∈ c.reads, s'.engine.get v = s.engine.get v := fun v hv => congrArg Prod.fst (hreads v hv)
  have htrigger := isTriggered_congr h.roots hs' hs hreads
  refine hc.imp (fun ⟨hidle, huntouched⟩ => ⟨htrigger ▸ hidle, h.untouched huntouched hne hw⟩)
    fun ⟨hdue, p, hp, hcell, hvalue⟩ => ⟨htrigger ▸ hdue, p, ?_, h.cells p.1 hcell ?_, fun v hv => ?_⟩
  · rw [Cell.outcome_congr hview]
    exact hp
  · rw [Cell.id_of_outcome hp]
    exact hne
  · exact (h.holds v (hw v hv)).trans (hvalue v hv)

/-- What is left to do becomes less when a cell is started, and when its result arrives. -/
lemma load_lt (h : Concerns c s s') (hplace : c.id ∈ s.pass.remaining ∨ c.id ∈ s.flying ∧ c.id ∉ s'.flying) :
    s'.load < s.load := by
  have hwaiting : s'.pass.remaining.toFinset = s.pass.remaining.toFinset.erase c.id := by
    ext x
    rw [Finset.mem_erase, List.mem_toFinset, List.mem_toFinset, h.waiting, and_comm]
  unfold load
  rw [hwaiting]
  rcases hplace with hw | ⟨hf, hgone⟩
  · have hflying : s'.flying.toFinset.card ≤ s.flying.toFinset.card + 1 := by
      refine (Finset.card_le_card fun x hx => ?_).trans (Finset.card_insert_le c.id _)
      rw [Finset.mem_insert, List.mem_toFinset]
      rw [List.mem_toFinset] at hx
      by_cases hne : x = c.id
      · exact .inl hne
      · exact .inr ((h.flying x hne).mp hx)
    have hless := Finset.card_erase_add_one (List.mem_toFinset.mpr hw)
    omega
  · have hflying : s'.flying.toFinset.card < s.flying.toFinset.card := by
      refine Finset.card_lt_card ⟨fun x hx => ?_, fun hsub => ?_⟩
      · rw [List.mem_toFinset] at hx ⊢
        exact (h.flying x fun heq => hgone (heq ▸ hx)).mp hx
      · exact hgone (List.mem_toFinset.mp (hsub (List.mem_toFinset.mpr hf)))
    have hle : (s.pass.remaining.toFinset.erase c.id).card ≤ s.pass.remaining.toFinset.card := Finset.card_erase_le
    omega

end Concerns

/-- A pass over predictable cells as it begins. -/
structure Begun (l : Language) (b : Stage) : Prop where
  predictable : Predictable l b.engine.cells
  tidy : b.Tidy
  quiet : b.engine.store.Quiet
  unseeded : b.engine.seeds = ∅
  off : ∀ x ∈ b.pass.members, ¬ b.engine.graph.OnCycle x
  /-- The cells on cycles are marked. -/
  marks : ∀ c ∈ b.engine.cells, c.status.isCycle = true ↔ b.engine.graph.OnCycle c.id

/-- How the cells stand after some moves of a pass over predictable cells. -/
structure Follows (l : Language) (b s : Stage) : Prop extends Keeps b s where
  tidy : s.Tidy
  steady : s.Steady
  /-- No script is to run again. -/
  calm : ∀ x, x ∉ s.pass.rerun
  free : ∀ v, (∀ c ∈ b.engine.cells, v ∉ c.writes.names) → s.holds v = b.holds v
  idle : ∀ c ∈ b.engine.cells, c.id ∉ b.pass.members ∨ c.id ∈ s.pass.remaining → Untouched b s c
  launched : ∀ c ∈ b.engine.cells, c.id ∈ s.flying → Launched l b s c
  concluded : ∀ c ∈ b.engine.cells, c.id ∈ b.pass.members → c.id ∈ s.pass.completed → Concluded l b s c
  /-- What a cell depends on has been done before it was started. -/
  ready : ∀ c ∈ b.engine.cells, c.id ∈ s.flying ∨ c.id ∈ b.pass.members ∧ c.id ∈ s.pass.completed →
    ∀ x ∈ b.pass.members, b.engine.graph.Edge x c.id → x ∈ s.pass.completed

namespace Follows

lemma active (h : Follows l b s) (hx : x ∈ s.pass.remaining ∨ x ∈ s.flying) :
    x ∈ b.pass.members ∧ x ∉ s.pass.completed :=
  h.members ▸ h.steady.accounted.active x hx

/-- A cell of which something is known already reads nothing that another cell still writes. -/
lemma not_mem_writes (h : Follows l b s) (hb : Begun l b) (hc : c ∈ b.engine.cells) (hd : d ∈ b.engine.cells)
    (hplace : d.id ∈ s.pass.remaining ∨ d.id ∈ s.flying) (hne : c.id ≠ d.id)
    (hdone : c.id ∈ s.flying ∨ c.id ∈ b.pass.members ∧ c.id ∈ s.pass.completed) (hv : v ∈ c.reads) :
    v ∉ d.writes.names := fun hw => by
  obtain ⟨hmember, hopen⟩ := h.active hplace
  have hedge := hb.tidy.edge_iff.mpr ⟨d, hd, c, hc, rfl, rfl, hne.symm, v, hw, hv⟩
  exact hopen (h.ready c hc hdone d.id hmember hedge)

/-- A step that concerns a cell that waits or is in flight. -/
lemma advance (h : Follows l b s) (hb : Begun l b) (hd : d ∈ b.engine.cells) (hs : Concerns d s s')
    (hplace : d.id ∈ s.pass.remaining ∨ d.id ∈ s.flying) (htidy : s'.Tidy) (hsteady : s'.Steady)
    (hcalm : ∀ x, x ∉ s'.pass.rerun)
    (hready : ∀ x ∈ b.pass.members, b.engine.graph.Edge x d.id → x ∈ s.pass.completed)
    (hlaunched : d.id ∈ s'.flying → Launched l b s' d) (hconcluded : d.id ∈ s'.pass.completed → Concluded l b s' d) :
    Follows l b s' := by
  have hsync := h.steady.synced
  have hsync' := hsteady.synced
  obtain ⟨hmember, hopen⟩ := h.active hplace
  have hwrites : ∀ c ∈ b.engine.cells, c.id ≠ d.id → ∀ v ∈ c.writes.names, v ∉ d.writes.names :=
    fun c hc hne v hv hw => hne (hb.predictable.single c hc d hd v hv hw)
  have hsame : ∀ c ∈ b.engine.cells, c.id = d.id → c = d := fun c hc heq =>
    List.inj_on_of_nodup_map hb.tidy.ids hc hd heq
  have hgrows : ∀ x ∈ s.pass.completed, x ∈ s'.pass.completed := fun x hx =>
    (hs.completed x fun heq => hopen (heq ▸ hx)).mpr hx
  exact
    { h.toKeeps.trans hs.toKeeps with
      tidy := htidy
      steady := hsteady
      calm := hcalm
      free := fun v hv => (hs.holds v (hv d hd)).trans (h.free v hv)
      idle := fun c hc hidle => by
        have hne : c.id ≠ d.id := fun heq => by
          rcases hidle with hout | hwaits
          · exact hout (heq ▸ hmember)
          · exact ((hs.waiting c.id).mp hwaits).2 heq
        refine hs.untouched (h.idle c hc (hidle.imp_right fun hwaits => ?_)) hne (hwrites c hc hne)
        exact ((hs.waiting c.id).mp hwaits).1
      launched := fun c hc hfly => by
        by_cases hne : c.id = d.id
        · obtain rfl := hsame c hc hne
          exact hlaunched hfly
        · have hold := (hs.flying c.id hne).mp hfly
          exact hs.launched hsync hsync' (h.launched c hc hold) hne (hwrites c hc hne) fun v hv =>
            h.not_mem_writes hb hc hd hplace hne (.inl hold) hv
      concluded := fun c hc hin hdone => by
        by_cases hne : c.id = d.id
        · obtain rfl := hsame c hc hne
          exact hconcluded hdone
        · have hold := (hs.completed c.id hne).mp hdone
          exact hs.concluded hsync hsync' (h.concluded c hc hin hold) hne (hwrites c hc hne) fun v hv =>
            h.not_mem_writes hb hc hd hplace hne (.inr ⟨hin, hold⟩) hv
      ready := fun c hc hdone x hx hedge => by
        by_cases hne : c.id = d.id
        · exact hgrows x (hready x hx (hne ▸ hedge))
        · refine hgrows x (h.ready c hc (hdone.imp (hs.flying c.id hne).mp fun hdone => ?_) x hx hedge)
          exact ⟨hdone.1, (hs.completed c.id hne).mp hdone.2⟩ }

/-- The cell of an id that takes part. -/
lemma exists_cell (h : Follows l b s) (hx : x ∈ s.engine.cells.map (·.id)) : ∃ c ∈ b.engine.cells, c.id = x :=
  List.mem_map.mp (h.ids ▸ hx)

lemma cell?_eq (h : Follows l b s) (hc : Untouched b s c) : s.engine.cell? c.id = some c :=
  (Engine.cell?_eq_some_iff h.tidy.ids).mpr ⟨hc.1, rfl⟩

/-- What the outcome of a cell is when it is evaluated. -/
lemma outcome_eq (h : Follows l b s) {verdict : Verdict} (hv : c.verdict l s.pass.slot = .ok verdict) :
    c.outcome l s.engine.get = .ok (c.afterVerdict l verdict) := by
  rw [Cell.outcome, ← Cell.verdict_congr fun v _ => h.steady.synced v, hv]
  rfl

lemma concerns_of_turn (h : Follows l b s) (hb : Begun l b) (hc : c ∈ b.engine.cells) (huntouched : Untouched b s c)
    (hid : s.pass.remaining[i]? = some c.id) (hrun : (s.withdraw i).runCell l c.id = .ok s') : Concerns c s s' := by
  have hstarts := starts_of_runCell h.tidy hid hrun
  have hfly : c.id ∉ s.flying := h.tidy.grounded c.id (List.mem_of_getElem? hid)
  have hturn := turn_of_runCell hrun
  have hcell : (s.withdraw i).engine.cell? c.id = some c := h.cell?_eq huntouched
  have hkeeps : Keeps s s' ∧ ∀ a ∈ s.engine.arriving, a ∈ s'.engine.arriving := by
    have hsilent : s.engine.store.Silent s'.engine.store := silent_of_turn (s := s.withdraw i) hturn
    rcases runCell_cases hrun with hcontrol | ⟨d, source, -, -, -, -, rfl⟩
    · have hfinish : Keeps s ((s.withdraw i).finish c.id .success) := ⟨rfl, rfl, rfl, rfl, rfl, rfl, rfl, .refl _⟩
      have harriving : s'.engine.arriving = s.engine.arriving := congrArg (·.engine.arriving) hcontrol
      exact ⟨hfinish.trans (.of_control hcontrol hsilent), fun a ha => harriving ▸ ha⟩
    · exact ⟨⟨rfl, rfl, rfl, rfl, rfl, rfl, rfl, .refl _⟩, fun a ha => List.mem_append_left _ ha⟩
  have hvalues : (∀ d ∈ s.engine.cells, d.id ≠ c.id → d ∈ s'.engine.cells) ∧
      ∀ v, v ∉ c.writes.names → s'.holds v = s.holds v := by
    cases hturn with
    | gone hnone => rw [hcell] at hnone; cases hnone
    | unchanged _ _ => exact ⟨fun d hd _ => hd, fun _ _ => rfl⟩
    | @evaluated d verdict hd _ hverdict =>
      obtain rfl : c = d := Option.some.inj (hcell.symm.trans hd)
      refine ⟨fun d hd hne => ?_, fun v hv => ?_⟩
      · rw [cells_conclude]
        exact mem_conclusion.mpr (.inl ⟨hd, hne⟩)
      · by_cases hscript : ∃ source inputs, verdict = .script source inputs
        · obtain ⟨source, inputs, rfl⟩ := hscript
          rfl
        · rw [holds_conclude fun source inputs heq => hscript ⟨source, inputs, heq⟩]
          have hsober := hb.predictable.sober_of_outcome hc (h.outcome_eq hverdict)
          exact replay_of_not_mem fun q hq heq => hv (heq ▸ hsober.commits q hq)
  exact
    { hkeeps.1 with
      cells := hvalues.1
      holds := hvalues.2
      arriving := fun a ha _ => hkeeps.2 a ha
      waiting := hstarts.waiting
      flying := fun x hne => ⟨fun hx => (hstarts.mem_flying hx).resolve_right hne, hstarts.flying_subset⟩
      completed := fun x hne => by
        rcases hstarts.fate with ⟨hdone, -⟩ | ⟨hdone, -⟩
        · rw [hdone, Names.mem_insert]
          exact or_iff_right hne
        · rw [hdone] }

/-- A cell reads the same before and after a step that concerns it. -/
lemma holds_of_reads (hb : Begun l b) (hc : c ∈ b.engine.cells) (hs : Concerns c s s') (hv : v ∈ c.reads) :
    s'.holds v = s.holds v :=
  hs.holds v fun hw => hb.predictable.foreign c hc v hw hv

/-- What the turn of a cell makes of it. -/
lemma own_of_turn (h : Follows l b s) (hb : Begun l b) (hc : c ∈ b.engine.cells) (huntouched : Untouched b s c)
    (hs : Concerns c s s') (hsync : ∀ v, s'.pass.slot v = s'.engine.get v) (hfly : c.id ∉ s.flying)
    (hopen : c.id ∉ s.pass.completed) (hturn : Turn l (s.withdraw i) c.id s') :
    (c.id ∈ s'.flying → Launched l b s' c) ∧ (c.id ∈ s'.pass.completed → Concluded l b s' c) := by
  have hcell : (s.withdraw i).engine.cell? c.id = some c := h.cell?_eq huntouched
  have hreads : ∀ v ∈ c.reads, s'.holds v = s.holds v := fun v hv => holds_of_reads hb hc hs hv
  have htrigger : s'.isTriggered c = s.isTriggered c := isTriggered_congr hs.roots hsync h.steady.synced hreads
  have hview : ∀ v ∈ c.reads, s'.engine.get v = s.engine.get v := fun v hv => congrArg Prod.fst (hreads v hv)
  cases hturn with
  | gone hnone => rw [hcell] at hnone; cases hnone
  | @unchanged d hd hidle =>
    obtain rfl : c = d := Option.some.inj (hcell.symm.trans hd)
    exact ⟨fun hf => absurd hf hfly, fun _ => .inl ⟨hidle, huntouched⟩⟩
  | @evaluated d verdict hd hdue hverdict =>
    obtain rfl : c = d := Option.some.inj (hcell.symm.trans hd)
    have houtcome := h.outcome_eq hverdict
    have hdue : s.isTriggered c = true := hdue
    rw [← Cell.outcome_congr hview] at houtcome
    by_cases hscript : ∃ source inputs, verdict = .script source inputs
    · obtain ⟨source, inputs, rfl⟩ := hscript
      refine ⟨fun _ => ⟨huntouched, htrigger.trans hdue, source, inputs, ?_, _, List.mem_append_right _ List.mem_cons_self, rfl,
        hb.predictable.pure c hc source (Cell.content_of_verdict hverdict) inputs _ _⟩, fun hd => absurd hd hopen⟩
      rw [Cell.verdict_congr hview, ← Cell.verdict_congr fun v _ => h.steady.synced v]
      exact hverdict
    · have hnot : ∀ source inputs, verdict ≠ .script source inputs := fun source inputs heq => hscript ⟨source, inputs, heq⟩
      refine ⟨fun hf => absurd hf ?_, fun _ => .inr ⟨htrigger.trans hdue, _, houtcome, ?_, fun v hv => ?_⟩⟩
      · rw [flying, inFlight_conclude hnot]
        exact hfly
      · rw [cells_conclude]
        refine mem_conclusion.mpr (.inr ⟨c, huntouched.1, rfl, ?_⟩)
        cases verdict with
        | script source inputs => exact absurd rfl (hnot source inputs)
        | _ => rfl
      · rw [holds_conclude hnot]
        exact congrArg _ (huntouched.2 v hv)

/-- What a cell depends on that is started next has been done. -/
lemma ready_of_next (h : Follows l b s) (hi : s.next? = some i) (hid : s.pass.remaining[i]? = some id) :
    ∀ x ∈ b.pass.members, b.engine.graph.Edge x id → x ∈ s.pass.completed := fun x hx hedge => by
  rw [← h.members] at hx
  rw [← h.graph] at hedge
  rcases h.steady.accounted.covered x hx with hw | hf | hd
  · exact absurd hedge (h.steady.not_edge_of_next h.tidy hi hid (.inl hw))
  · exact absurd hedge (h.steady.not_edge_of_next h.tidy hi hid (.inr hf))
  · exact hd

theorem start (h : Follows l b s) (hb : Begun l b) (hm : s.Move l s') (hi : s.next? = some i)
    (hid : s.pass.remaining[i]? = some id) (hrun : (s.withdraw i).runCell l id = .ok s') :
    Follows l b s' ∧ ∃ c, Concerns c s s' ∧ c.id ∈ s.pass.remaining := by
  have hwaits : id ∈ s.pass.remaining := List.mem_of_getElem? hid
  obtain ⟨c, hc, rfl⟩ := h.exists_cell (h.tidy.mem_ids_iff.mp (h.steady.accounted.known id hwaits))
  have huntouched := h.idle c hc (.inr hwaits)
  have hconcerns := h.concerns_of_turn hb hc huntouched hid hrun
  have hsteady := h.steady.start h.tidy hi hid hrun
  have hstarts := starts_of_runCell h.tidy hid hrun
  obtain ⟨hlaunched, hconcluded⟩ := h.own_of_turn hb hc huntouched hconcerns hsteady.synced
    (h.tidy.grounded c.id hwaits) (h.active (.inl hwaits)).2 (turn_of_runCell hrun)
  exact ⟨h.advance hb hc hconcerns (.inl hwaits) (h.tidy.move hm) hsteady (fun x hx => h.calm x (hstarts.rerun ▸ hx))
    (h.ready_of_next hi hid) hlaunched hconcluded, c, hconcerns, hwaits⟩

/-- Where a cell comes from, and what it may have become. -/
lemma exists_origin (h : Follows l b s) (hb : Begun l b) (hd : d ∈ s.engine.cells) :
    ∃ c ∈ b.engine.cells, d.revision = c.revision ∧ d.writes.names = c.writes.names ∧
      (d = c ∨ c.id ∈ b.pass.members ∧ d.status.isCycle = false) := by
  obtain ⟨c, hc, hid⟩ := h.exists_cell (List.mem_map_of_mem hd)
  have hsame : ∀ c', c' ∈ s.engine.cells → c'.id = c.id → d = c' := fun c' hc' hid' =>
    List.inj_on_of_nodup_map h.tidy.ids hd hc' (hid.symm.trans hid'.symm)
  have huntouched : Untouched b s c → ∃ c ∈ b.engine.cells, d.revision = c.revision ∧
      d.writes.names = c.writes.names ∧ (d = c ∨ c.id ∈ b.pass.members ∧ d.status.isCycle = false) := fun hu => by
    obtain rfl := hsame c hu.1 rfl
    exact ⟨d, hc, rfl, rfl, .inl rfl⟩
  by_cases hmember : c.id ∈ b.pass.members
  · rcases h.steady.accounted.covered c.id (h.members ▸ hmember) with hw | hf | hdone
    · exact huntouched (h.idle c hc (.inr hw))
    · exact huntouched (h.launched c hc hf).1
    · rcases h.concluded c hc hmember hdone with ⟨-, hu⟩ | ⟨-, p, hp, hcell, -⟩
      · exact huntouched hu
      · have hsober := hb.predictable.sober_of_outcome hc hp
        obtain rfl := hsame p.1 hcell (Cell.id_of_outcome hp)
        exact ⟨c, hc, hsober.revision, hsober.writes, .inr ⟨hmember, hsober.mark⟩⟩
  · exact huntouched (h.idle c hc (.inl hmember))

/-- The cells on cycles are marked all the time. -/
lemma marks (h : Follows l b s) (hb : Begun l b) (hd : d ∈ s.engine.cells) :
    d.status.isCycle = true ↔ s.engine.graph.OnCycle d.id := by
  rw [h.graph]
  obtain ⟨c, hc, hrev, -, rfl | ⟨hmember, hmark⟩⟩ := h.exists_origin hb hd
  · exact hb.marks d hc
  · have hid : d.id = c.id := congrArg Prod.fst hrev
    exact iff_of_false (by simp [hmark]) (hid ▸ hb.off c.id hmember)

/-- The result that arrives is what the script in flight has come to. -/
lemma arrival (h : Follows l b s) {a : Arrival} {rest : List Arrival}
    (hperm : s.engine.arriving.Perm (a :: rest)) : ∃ c ∈ b.engine.cells, c.id = a.cell ∧ c.id ∈ s.flying ∧
      (s.deliver rest).addressee? a = some c ∧ Launched l b s c ∧ ∃ source inputs, c.content = .script source ∧
        c.outcome l s.engine.get = .ok (c.withRun (settle a.run)) ∧ settle a.run = settle (l.run source inputs []) := by
  have hfly := flying_of_arriving h.tidy hperm
  obtain ⟨d, hd, hdid, -, -, -, haddressee⟩ := h.steady.exists_addressee h.tidy hperm
  have hmem : d.id ∈ s.engine.cells.map (·.id) := List.mem_map_of_mem hd
  obtain ⟨c, hc, hid⟩ := h.exists_cell (hdid ▸ hmem)
  have hcfly : c.id ∈ s.flying := hid ▸ hfly
  have hlaunched := h.launched c hc hcfly
  have hdc : d = c := List.inj_on_of_nodup_map h.tidy.ids hd hlaunched.1.1 (hdid.trans hid.symm)
  subst hdc
  obtain ⟨-, -, source, inputs, hverdict, a', ha', hac', hrun⟩ := hlaunched
  have haa : a' = a := List.inj_on_of_nodup_map h.tidy.nodup_arriving ha'
    (hperm.mem_iff.mpr List.mem_cons_self) (hac'.trans hid)
  subst haa
  refine ⟨d, hc, hid, hcfly, haddressee, h.launched d hc hcfly, source, inputs, Cell.content_of_verdict hverdict, ?_, hrun⟩
  rw [Cell.outcome, hverdict, hrun]
  rfl

end Follows

section Landing

variable {a : Arrival} {rest : List Arrival} {logs : List String} {exports : Fields} {fault : Fault}

lemma keeps_landed : Keeps s ((s.deliver rest).landed a logs) :=
  ⟨rfl, rfl, rfl, rfl, ids_modifyCell fun _ => rfl, rfl, rfl, .refl _⟩

/-- What happens when a result arrives concerns its cell only, as long as nothing is enlarged. -/
lemma concerns_of_landed (hs : s.Tidy) (hperm : s.engine.arriving.Perm (a :: rest)) (hca : c.id = a.cell)
    (hfly : c.id ∈ s.flying) (hkeeps : Keeps ((s.deliver rest).landed a logs) t)
    (hcells : ∀ d ∈ ((s.deliver rest).landed a logs).engine.cells, d.id ≠ c.id → d ∈ t.engine.cells)
    (hholds : ∀ v, v ∉ c.writes.names → t.holds v = s.holds v) (harriving : t.engine.arriving = rest)
    (hremaining : t.pass.remaining = s.pass.remaining)
    (hflight : t.engine.inFlight = s.engine.inFlight.filter (·.1 != a.cell))
    (hcompleted : t.pass.completed = s.pass.completed.insert c.id) : Concerns c s t :=
  { keeps_landed.trans hkeeps with
    cells := fun d hd hne => hcells d (mem_modifyCell_of_ne hd (hca ▸ hne)) hne
    holds := hholds
    arriving := fun b hb hne => by
      rw [harriving]
      rcases List.mem_cons.mp (hperm.mem_iff.mp hb) with rfl | hrest
      · exact absurd hca.symm hne
      · exact hrest
    waiting := fun x => by
      rw [hremaining]
      exact ⟨fun hx => ⟨hx, fun heq => hs.grounded x hx (heq ▸ hfly)⟩, fun hx => hx.1⟩
    flying := fun x hne => by
      rw [flying, hflight]
      exact mem_flying_land.trans ⟨fun hx => hx.1, fun hx => ⟨hx, hca ▸ hne⟩⟩
    completed := fun x hne => by
      rw [hcompleted, Names.mem_insert]
      exact or_iff_right hne }

lemma keeps_fail : Keeps s (s.fail c fault) := by
  have hfinish : Keeps s (s.finish c.id .success) := ⟨rfl, rfl, rfl, rfl, rfl, rfl, rfl, .refl _⟩
  exact hfinish.trans (.of_control control_fail (silent_mark (s := s)))

lemma keeps_adopt (h : c.writes.names = Names.ofList (exports.map (·.1))) : Keeps s (s.adopt c exports) := by
  have hconfirm : Keeps s ((s.confirm c.id (Names.ofList (exports.map (·.1)))).finish c.id .success) :=
    ⟨rfl, rfl, rfl, rfl, ids_modifyCell fun _ => rfl, rfl, rfl, .refl _⟩
  refine hconfirm.trans (.of_control (control_adopt s c exports) ?_)
  rw [adopt_eq h]
  exact silent_commitAll _ s

lemma keeps_enlarge (hn : names.toList = []) : Keeps s (s.enlarge id names) where
  graph := rfl
  seeds := rfl
  clock := rfl
  config := rfl
  ids := rfl
  members := by
    unfold enlarge
    rw [downstream_eq_nil hn]
    rfl
  roots := rfl
  silent := .refl _

/-- A failed run concerns its cell only. -/
lemma concerns_failed (hs : s.Tidy) (hperm : s.engine.arriving.Perm (a :: rest)) (hca : c.id = a.cell)
    (hfly : c.id ∈ s.flying) : Concerns c s (((s.deliver rest).landed a logs).fail c fault) := by
  have hcontrol : (((s.deliver rest).landed a logs).fail c fault).control =
      (((s.deliver rest).landed a logs).finish c.id .success).control := control_fail
  refine concerns_of_landed hs hperm hca hfly keeps_fail (fun d hd hne => ?_) (fun v hv => ?_)
    (congrArg (·.engine.arriving) hcontrol) (congrArg (·.pass.remaining) hcontrol)
    (congrArg (·.engine.inFlight) hcontrol) (congrArg (·.pass.completed) hcontrol)
  · rw [cells_fail]
    exact mem_conclusion.mpr (.inl ⟨hd, hne⟩)
  · rw [holds_fail]
    exact replay_of_not_mem fun q hq heq => hv (heq ▸ Predictable.mem_faults hq)

lemma holds_adopt (h : c.writes.names = Names.ofList (exports.map (·.1))) {v : String} :
    (s.adopt c exports).holds v = replay (exports.map fun p => (p.1, .value p.2)) v (s.holds v) := by
  rw [adopt_eq h, holds_succeed, holds_modifyCell, holds_commitAll]

/-- Taking over exports that were expected concerns the cell of the script only. -/
lemma concerns_adopt (hs : s.Tidy) (hperm : s.engine.arriving.Perm (a :: rest)) (hca : c.id = a.cell)
    (hfly : c.id ∈ s.flying) (h : c.writes.names = Names.ofList (exports.map (·.1))) :
    Concerns c s (((s.deliver rest).landed a logs).adopt c exports) := by
  have hcontrol := control_adopt ((s.deliver rest).landed a logs) c exports
  refine concerns_of_landed hs hperm hca hfly (keeps_adopt h) (fun d hd hne => mem_adopt_of_ne exports hd hne)
    (fun v hv => ?_) (congrArg (·.engine.arriving) hcontrol) (congrArg (·.pass.remaining) hcontrol) inFlight_adopt
    (congrArg (·.pass.completed) hcontrol)
  rw [holds_adopt h]
  refine replay_of_not_mem fun q hq heq => hv ?_
  obtain ⟨field, hfield, rfl⟩ := List.mem_map.mp hq
  rw [h, Names.mem_ofList, ← heq]
  exact List.mem_map_of_mem hfield

/-- Nothing changes for any cell when the pass is enlarged by no names. -/
lemma Concerns.enlarge (h : Concerns c s t) (ht : t.Tidy) (hn : names.toList = [])
    (hknown : ∀ x ∈ t.pass.remaining, x ∈ t.engine.graph.ids ∧ ¬ t.engine.graph.OnCycle x) :
    Concerns c s (t.enlarge id names) :=
  { h.toKeeps.trans (keeps_enlarge hn) with
    cells := h.cells
    holds := h.holds
    arriving := h.arriving
    waiting := fun x => by
      rw [← h.waiting, ← extend_eq_enlarge ht (fun y hy => (hknown y hy).2) hn, mem_remaining_extend ht, mem_pending,
        downstream_eq_nil hn]
      exact ⟨fun hx => hx.1.resolve_right fun hx => List.not_mem_nil hx.1, fun hx => ⟨.inl hx, hknown x hx⟩⟩
    flying := h.flying
    completed := fun x hne => by
      rw [← h.completed x hne]
      change x ∈ t.pass.completed.filter _ ↔ _
      rw [downstream_eq_nil hn, Names.mem_filter]
      exact and_iff_left rfl }

end Landing

namespace Follows

variable {a : Arrival} {rest : List Arrival} {logs : List String} {exports : Fields}

/-- Exports that were expected leave the graph as it is and enlarge nothing. -/
lemma accept_cases (h : Follows l b s) (hb : Begun l b) (hperm : s.engine.arriving.Perm (a :: rest))
    (hc : c ∈ b.engine.cells) (hca : c.id = a.cell) (hfly : c.id ∈ s.flying)
    (hnames : c.writes.names = Names.ofList (exports.map (·.1))) (logs : List String) :
    ((s.deliver rest).landed a logs).accept c exports = ((s.deliver rest).landed a logs).adopt c exports ∨
      ((s.deliver rest).landed a logs).accept c exports =
          (((s.deliver rest).landed a logs).adopt c exports).enlarge c.id (novel c exports) ∧
        Concerns c s ((((s.deliver rest).landed a logs).adopt c exports).enlarge c.id (novel c exports)) := by
  rcases Stage.accept_cases ((s.deliver rest).landed a logs) c exports with ⟨-, heq⟩ | heq
  · exact .inl heq
  have hcs : c ∈ s.engine.cells := (h.launched c hc hfly).1.1
  have hadopted : Concerns c s (((s.deliver rest).landed a logs).adopt c exports) :=
    concerns_adopt h.tidy hperm hca hfly hnames
  have hcontrol := control_adopt ((s.deliver rest).landed a logs) c exports
  have ht : (((s.deliver rest).landed a logs).adopt c exports).Tidy := by
    refine ((h.tidy.land hperm).keepLogs a.cell logs).adopt fun d hd hid => ?_
    rcases Engine.mem_modifyCell hd with ⟨-, hne⟩ | ⟨d', hd', hdid, rfl⟩
    · exact absurd (hid.trans hca) hne
    · rw [List.inj_on_of_nodup_map h.tidy.ids hd' hcs (hdid.trans hca.symm)]
      exact hnames
  have hgraph : (((s.deliver rest).landed a logs).adopt c exports).engine.graph = s.engine.graph :=
    congrArg (·.engine.graph) hcontrol
  have hknown : ∀ x ∈ (((s.deliver rest).landed a logs).adopt c exports).pass.remaining,
      x ∈ (((s.deliver rest).landed a logs).adopt c exports).engine.graph.ids ∧
        ¬ (((s.deliver rest).landed a logs).adopt c exports).engine.graph.OnCycle x := fun x hx => by
    have hwaits := ((hadopted.waiting x).mp hx).1
    rw [hgraph]
    exact ⟨h.steady.accounted.known x hwaits, h.steady.acyclic x hwaits⟩
  have hmarks : ∀ d ∈ (((s.deliver rest).landed a logs).adopt c exports).engine.cells, d.status.isCycle =
      ((((s.deliver rest).landed a logs).adopt c exports).engine.graph.cycleOf? d.id).isSome := fun d hd => by
    rw [Bool.eq_iff_iff, ht.cycleOf?_isSome_iff, hgraph]
    rcases mem_cells_adopt hd with ⟨hd, hne⟩ | ⟨d', -, hid, rfl⟩
    · exact h.marks hb (mem_cells_landed hd (hca ▸ hne))
    · refine iff_of_false (by simp [Status.isCycle]) ?_
      change ¬ s.engine.graph.OnCycle d'.id
      rw [hid, h.graph]
      exact hb.off c.id (h.active (.inr hfly)).1
  have hsame : ((s.deliver rest).landed a logs).readopt c exports = ((s.deliver rest).landed a logs).adopt c exports := by
    rw [readopt, Engine.rebuild_eq ht.graph.symm hmarks]
  rw [hsame, extend_eq_enlarge ht (fun x hx => (hknown x hx).2) (toList_novel hnames)] at heq
  exact .inr ⟨heq, hadopted.enlarge ht (toList_novel hnames) hknown⟩

/-- What a result that arrives makes of its cell. -/
lemma landed (h : Follows l b s) (hb : Begun l b) (hperm : s.engine.arriving.Perm (a :: rest)) :
    ∃ c ∈ b.engine.cells, c.id = a.cell ∧ c.id ∈ s.flying ∧ Launched l b s c ∧
      Concerns c s ((s.deliver rest).receive a) ∧ (∀ x, x ∉ ((s.deliver rest).receive a).pass.rerun) ∧
      ∃ p, c.outcome l s.engine.get = .ok p ∧ p.1 ∈ ((s.deliver rest).receive a).engine.cells ∧
        ∀ v, ((s.deliver rest).receive a).holds v = replay p.2 v (s.holds v) := by
  obtain ⟨c, hc, hca, hfly, haddressee, hlaunched, source, inputs, hcontent, houtcome, hrun⟩ := h.arrival hperm
  refine ⟨c, hc, hca, hfly, hlaunched, ?_⟩
  have hcs : { c with logs := (settle a.run).2 } ∈ ((s.deliver rest).landed a (settle a.run).2).engine.cells := by
    rw [Stage.landed, ← hca]
    exact mem_modifyCell hlaunched.1.1
  have hcalm : ∀ x, x ∉ s.pass.rerun.filter (· != a.cell) := fun x hx => h.calm x (Names.mem_filter.mp hx).1
  have hlanding := landing_receive (s.deliver rest) a
  generalize (s.deliver rest).receive a = t at hlanding
  cases hlanding with
  | stale hnone => rw [haddressee] at hnone; cases hnone
  | again _ hr => exact absurd hr (h.calm a.cell)
  | @failed d message logs hd hr hsettle =>
    obtain rfl : c = d := Option.some.inj (haddressee.symm.trans hd)
    have hrerun : _ = s.pass.rerun.filter (· != a.cell) :=
      congrArg (·.pass.rerun) (control_failed (s.deliver rest) a c logs message)
    rw [hsettle] at houtcome hcs
    refine ⟨concerns_failed h.tidy hperm hca hfly, fun x => hrerun ▸ hcalm x, _, houtcome, ?_, fun v => ?_⟩
    · rw [cells_fail]
      exact mem_conclusion.mpr (.inr ⟨_, hcs, rfl, by rw [← hca]; rfl⟩)
    · rw [holds_fail, ← hca]
      rfl
  | @accepted d exports logs hd hr hsettle =>
    obtain rfl : c = d := Option.some.inj (haddressee.symm.trans hd)
    have hrerun : (((s.deliver rest).landed a logs).adopt c exports).pass.rerun = s.pass.rerun.filter (· != a.cell) :=
      congrArg (·.pass.rerun) (control_adopt ((s.deliver rest).landed a logs) c exports)
    have hnames : c.writes.names = Names.ofList (exports.map (·.1)) :=
      (hb.predictable.exact c hc source hcontent inputs [] exports
        (Stage.result_of_settle (hrun.symm.trans hsettle))).symm
    rw [hsettle] at houtcome hcs
    have hcell := mem_adopt exports hcs rfl
    rcases h.accept_cases hb hperm hc hca hfly hnames logs with heq | ⟨heq, hconcerns⟩
    · rw [heq]
      exact ⟨concerns_adopt h.tidy hperm hca hfly hnames, fun x => hrerun ▸ hcalm x, _, houtcome, hcell,
        fun v => holds_adopt hnames⟩
    · rw [heq]
      refine ⟨hconcerns, fun x hx => ?_, _, houtcome, hcell, fun v => holds_adopt hnames⟩
      rcases Names.mem_insertAll.mp hx with hx | hx
      · rw [downstream_eq_nil (toList_novel hnames)] at hx
        cases hx
      · exact hcalm x (hrerun ▸ hx)

theorem receive (h : Follows l b s) (hb : Begun l b) (hperm : s.engine.arriving.Perm (a :: rest)) :
    Follows l b ((s.deliver rest).receive a) ∧ ∃ c, Concerns c s ((s.deliver rest).receive a) ∧ c.id ∈ s.flying ∧
      c.id ∉ ((s.deliver rest).receive a).flying := by
  obtain ⟨c, hc, hca, hfly, hlaunched, hconcerns, hcalm, p, hp, hcell, hholds⟩ := h.landed hb hperm
  have hsteady := (h.steady.receive h.tidy hperm fun ⟨_, _, _, hr, _⟩ => absurd hr (h.calm a.cell)).1
  have hgone : c.id ∉ ((s.deliver rest).receive a).flying := fun hf =>
    ((landing_receive (s.deliver rest) a).mem_flying.mp hf).2 hca
  have htidy := h.tidy.move (l := l) (.receive hperm)
  generalize (s.deliver rest).receive a = t at *
  have hreads : ∀ v ∈ c.reads, t.holds v = s.holds v := fun v hv => holds_of_reads hb hc hconcerns hv
  have hview : ∀ v ∈ c.reads, t.engine.get v = s.engine.get v := fun v hv => congrArg Prod.fst (hreads v hv)
  refine ⟨h.advance hb hc hconcerns (.inr hfly) htidy hsteady hcalm (h.ready c hc (.inl hfly))
    (fun hf => absurd hf hgone) fun _ => .inr ⟨?_, p, ?_, hcell, fun v hv => ?_⟩, c, hconcerns, hfly, hgone⟩
  · rw [isTriggered_congr hconcerns.roots hsteady.synced h.steady.synced hreads]
    exact hlaunched.2.1
  · rw [Cell.outcome_congr hview]
    exact hp
  · rw [hholds, hlaunched.1.2 v hv]

/-- A pass over predictable cells goes on as such, and less is left to do after each move. -/
theorem move (h : Follows l b s) (hb : Begun l b) (hm : s.Move l s') : Follows l b s' ∧ s'.load < s.load := by
  cases hm with
  | start hfree hi hid hrun =>
    obtain ⟨hfollows, c, hconcerns, hwaits⟩ := h.start hb (.start hfree hi hid hrun) hi hid hrun
    exact ⟨hfollows, hconcerns.load_lt (.inl hwaits)⟩
  | receive hperm =>
    obtain ⟨hfollows, c, hconcerns, hfly, hgone⟩ := h.receive hb hperm
    exact ⟨hfollows, hconcerns.load_lt (.inr ⟨hfly, hgone⟩)⟩

end Follows

end Stage

end ReactiveNotebook
