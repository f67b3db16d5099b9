import ReactiveNotebook.Proofs.Scheduling.Bookkeeping

/-!
# Cells that are due

A cell is due if it waits, is to run again, or lies on a cycle. In a pass of a notebook that is not edited
everything that reads from a cell which waits or is in flight is due. A script whose result is taken over is
due no longer, so it lies on no cycle, and the cycles of other cells do not come apart when its exports change.
-/
namespace ReactiveNotebook

open Relation (TransGen)

variable {l : Language}

namespace Engine

/-- What a host does leaves all committed values as they are. -/
lemma Host.get_eq {e e' : Engine} (h : Host e e') (v : String) : e'.get v = e.get v := by
  cases h with
  | subscribe name forward => exact Store.get_subscribe
  | unsubscribe h => exact Store.get_unsubscribe
  | _ => rfl

/-- Every cell that declares a variable writes it. -/
def Declared (e : Engine) : Prop :=
  ∀ c ∈ e.cells, ∀ name, c.content.output? = some name → name ∈ c.writes.names

end Engine

namespace Stage

variable {s s' t : Stage} {a : Arrival} {c d : Cell} {id source x y : CellId} {names : Names} {i : ℕ}
variable {exports : Script.Fields} {rest : List Arrival}

/-- The cell waits, is to run again, or lies on a cycle. -/
def Due (s : Stage) (x : CellId) : Prop :=
  s.engine.graph.OnCycle x ∨ x ∈ s.pass.remaining ∨ x ∈ s.pass.rerun

/-- Cells that are affected by what is not done are due. -/
structure Watched (s : Stage) : Prop where
  /-- A script in flight that has come onto a cycle is to run again. -/
  barred : ∀ x ∈ s.flying, s.engine.graph.OnCycle x → x ∈ s.pass.rerun
  /-- What reads from a cell that is not done is due. -/
  closed : ∀ x y, x ∈ s.pass.remaining ∨ x ∈ s.flying → s.engine.graph.Edge x y → s.Due y
  /-- Only scripts are in flight, with the versions that their cells have. -/
  flights : ∀ p ∈ s.engine.inFlight, ∃ c ∈ s.engine.cells, c.id = p.1 ∧ c.version = p.2 ∧ c.content.isScript = true
  /-- The pass sees of every variable what is committed. -/
  synced : ∀ v, s.pass.slot v = s.engine.get v

/-- A pass of a notebook that is not edited. -/
structure Steady (s : Stage) : Prop extends Watched s where
  accounted : s.Accounted
  acyclic : s.Acyclic
  declared : s.engine.Declared

lemma declared_of_control (h : s.control = t.control) (ht : t.engine.Declared) : s.engine.Declared := by
  intro c hc name hname
  have hmem : c.blank ∈ t.engine.cells.map Cell.blank := cells_blank_of_control h ▸ List.mem_map_of_mem hc
  obtain ⟨d, hd, heq⟩ := List.mem_map.mp hmem
  have hcontent : d.content = c.content := congrArg (·.content) heq
  have hwrites : d.writes = c.writes := congrArg (·.writes) heq
  exact hwrites ▸ ht d hd name (hcontent ▸ hname)

lemma flights_of_revisions (hrev : t.revisions = s.revisions) (h : ∀ p ∈ t.engine.inFlight,
      ∃ c ∈ s.engine.cells, c.id = p.1 ∧ c.version = p.2 ∧ c.content.isScript = true) :
    ∀ p ∈ t.engine.inFlight, ∃ c ∈ t.engine.cells, c.id = p.1 ∧ c.version = p.2 ∧ c.content.isScript = true := by
  intro p hp
  obtain ⟨c, hc, hid, hversion, hscript⟩ := h p hp
  obtain ⟨d, hd, heq⟩ := Cell.exists_revision hrev.symm hc
  simp only [Cell.revision, Prod.mk.injEq] at heq
  exact ⟨d, hd, heq.1.trans hid, heq.2.2.1.trans hversion, heq.2.1 ▸ hscript⟩

lemma Due.start (h : s.Due x) (hstarts : Starts id s s') (hx : x ≠ id) : s'.Due x := by
  unfold Due
  rw [hstarts.graph, hstarts.rerun, hstarts.waiting]
  exact h.imp_right (Or.imp_left fun hw => ⟨hw, hx⟩)

/-- Nothing that is not done feeds a cell that is started. -/
lemma Steady.not_edge_of_next (h : s.Steady) (hs : s.Tidy) (hi : s.next? = some i)
    (hid : s.pass.remaining[i]? = some id) (hx : x ∈ s.pass.remaining ∨ x ∈ s.flying) :
    ¬ s.engine.graph.Edge x id := fun hedge => by
  obtain ⟨hmember, hdone⟩ := h.accounted.active x hx
  exact hdone ((h.accounted.booked hs h.acyclic).ready i id hi hid x ((hs.coherent.edge_iff x id).mp hedge) hmember)

lemma Steady.start (h : s.Steady) (hs : s.Tidy) (hi : s.next? = some i) (hid : s.pass.remaining[i]? = some id)
    (hrun : (s.withdraw i).runCell l id = .ok s') : s'.Steady := by
  have hstarts := starts_of_runCell hs hid hrun
  have hwaits : id ∈ s.pass.remaining := List.mem_of_getElem? hid
  have hturn : Replaces (fun _ => True) (s.withdraw i) s' := replaces_turn (turn_of_runCell hrun)
  have hrev := revisions_of_runCell hrun
  have hactive : ∀ x, x ∈ s'.pass.remaining ∨ x ∈ s'.flying → x ∈ s.pass.remaining ∨ x ∈ s.flying := fun x hx => by
    rcases hx with hx | hx
    · exact .inl ((hstarts.waiting x).mp hx).1
    · rcases hstarts.mem_flying hx with hx | rfl
      · exact .inr hx
      · exact .inl hwaits
  refine
    { barred := fun x hx hcycle => ?_
      closed := fun x y hx hedge => ?_
      flights := flights_of_revisions hrev fun p hp => ?_
      synced := fun v => hturn.synced (h.synced v)
      accounted := h.accounted.start hs hwaits hstarts
      acyclic := fun x hx => ?_
      declared := ?_ }
  · rw [hstarts.graph] at hcycle
    rw [hstarts.rerun]
    rcases hstarts.mem_flying hx with hx | rfl
    · exact h.barred x hx hcycle
    · exact absurd hcycle (h.acyclic x hwaits)
  · rw [hstarts.graph] at hedge
    refine (h.closed x y (hactive x hx) hedge).start hstarts fun heq => ?_
    exact h.not_edge_of_next hs hi hid (hactive x hx) (heq ▸ hedge)
  · rcases hstarts.fate with ⟨-, hfly⟩ | ⟨-, c, hc, hcid, hscript, hfly⟩
    · exact h.flights p (hfly ▸ hp)
    · rw [hfly, List.mem_cons] at hp
      rcases hp with rfl | hp
      · exact ⟨c, hc, hcid, rfl, hscript⟩
      · exact h.flights p hp
  · rw [hstarts.graph]
    exact h.acyclic x ((hstarts.waiting x).mp hx).1
  · rcases runCell_cases hrun with hcontrol | ⟨c, source, -, -, -, -, rfl⟩
    · exact declared_of_control (t := (s.withdraw i).finish id .success) hcontrol h.declared
    · exact h.declared

/-- No result is stale, for the cell of the script has the version that was dispatched. -/
lemma Steady.exists_addressee (h : s.Steady) (hs : s.Tidy) (hperm : s.engine.arriving.Perm (a :: rest)) :
    ∃ c ∈ s.engine.cells, c.id = a.cell ∧ c.version = a.version ∧ c.content.isScript = true ∧
      s.engine.cell? a.cell = some c ∧ (s.deliver rest).addressee? a = some c := by
  have hflight := flight_of_arriving hs hperm
  obtain ⟨c, hc, hid, hversion, hscript⟩ := h.flights _ hflight
  have hfly : (c.id, c.version) ∈ s.engine.inFlight := hid ▸ hversion ▸ hflight
  exact ⟨c, hc, hid, hversion, hscript, (Engine.cell?_eq_some_iff hs.ids).mpr ⟨hc, hid⟩,
    addressee?_of_inFlight hs hperm hc hid hfly⟩

/-- A script in flight that is not to run again is not due. -/
lemma Watched.not_due (h : s.Watched) (hs : s.Tidy) (hx : x ∈ s.flying) (hr : x ∉ s.pass.rerun) : ¬ s.Due x :=
  fun hdue => by
    rcases hdue with hcycle | hw | hrerun
    · exact hr (h.barred x hx hcycle)
    · exact hs.grounded x hw hx
    · exact hr hrerun

/-- Where a script lands without touching the graph, all that is due stays so. -/
lemma Due.land (h : s.Due x) (hx : x ≠ id) (hgraph : t.engine.graph = s.engine.graph)
    (hremaining : t.pass.remaining = s.pass.remaining) (hrerun : t.pass.rerun = s.pass.rerun.filter (· != id)) :
    t.Due x := by
  unfold Due
  rw [hgraph, hremaining, hrerun, Names.mem_filter, bne_iff_ne]
  exact h.imp_right (Or.imp_right fun hr => ⟨hr, hx⟩)

lemma Watched.land (h : s.Watched) (hs : s.Tidy) (hid : id ∈ s.flying) (hr : id ∉ s.pass.rerun)
    (hgraph : t.engine.graph = s.engine.graph) (hremaining : t.pass.remaining = s.pass.remaining)
    (hrerun : t.pass.rerun = s.pass.rerun.filter (· != id))
    (hflight : t.engine.inFlight = s.engine.inFlight.filter (·.1 != id)) (hrev : t.revisions = s.revisions)
    (hsynced : ∀ v, t.pass.slot v = t.engine.get v) : t.Watched := by
  have hflying : ∀ x, x ∈ t.flying ↔ x ∈ s.flying ∧ x ≠ id := fun x => by
    rw [flying, hflight]
    exact mem_flying_land
  refine
    { barred := fun x hx hcycle => ?_
      closed := fun x y hx hedge => ?_
      flights := flights_of_revisions hrev fun p hp => h.flights p (List.mem_of_mem_filter (hflight ▸ hp))
      synced := hsynced }
  · obtain ⟨hx, hne⟩ := (hflying x).mp hx
    rw [hgraph] at hcycle
    rw [hrerun, Names.mem_filter, bne_iff_ne]
    exact ⟨h.barred x hx hcycle, hne⟩
  · rw [hgraph] at hedge
    rw [hremaining, hflying] at hx
    have hdue := h.closed x y (hx.imp_right (·.1)) hedge
    have hne : y ≠ id := fun heq => h.not_due hs hid hr (heq ▸ hdue)
    exact hdue.land hne hgraph hremaining hrerun

/-- What is due stays so when the pass is enlarged. -/
lemma Due.extend (h : s.Due x) (hs : s.Tidy) (hk : x ∈ s.pass.remaining → x ∈ s.engine.graph.ids) :
    (s.extend source names).Due x := by
  by_cases hcycle : s.engine.graph.OnCycle x
  · exact .inl ((graph_extend s source names).symm ▸ hcycle)
  · rcases h.resolve_left hcycle with hw | hr
    · exact .inr (.inl ((mem_remaining_extend hs).mpr ⟨mem_pending.mpr (.inl hw), hk hw, hcycle⟩))
    · exact .inr (.inr (mem_rerun_extend.mpr (.inr hr)))

/-- All that is downstream of new exports is due. -/
lemma due_of_downstream (hs : s.Tidy) (hx : x ∈ s.downstream source names) : (s.extend source names).Due x := by
  by_cases hfly : x ∈ s.flying
  · exact .inr (.inr (mem_rerun_extend.mpr (.inl ⟨hx, hfly⟩)))
  · by_cases hcycle : s.engine.graph.OnCycle x
    · exact .inl ((graph_extend s source names).symm ▸ hcycle)
    · have hk : x ∈ s.engine.graph.ids := Graph.closure_known hs.coherent (List.mem_filter.mp hx).1
      exact .inr (.inl ((mem_remaining_extend hs).mpr ⟨mem_pending.mpr (.inr ⟨hx, hfly⟩), hk, hcycle⟩))

/-- Cycles that a script does not lie on do not come apart when its exports change. -/
lemma onCycle_readopt (hs : s.Tidy) (hout : ¬ s.engine.graph.OnCycle c.id) (h : s.engine.graph.OnCycle x) :
    (s.readopt c exports).engine.graph.OnCycle x := by
  refine TransGen.mono (fun a b hab => ?_) _ _ (transGen_inside h)
  obtain ⟨hedge, ⟨hxa, hax⟩, -⟩ := hab
  have hne : a ≠ c.id := fun heq => hout (heq ▸ hax.trans hxa)
  exact (edge_readopt_iff hs hne).mpr hedge

/-- An edge that appears with new exports leads from the script to a reader of them. -/
lemma edge_or_downstream_of_readopt (hs : s.Tidy) (hd : d ∈ s.engine.cells) (hid : d.id = c.id)
    (hwrites : d.writes = c.writes) (hedge : (s.readopt c exports).engine.graph.Edge x y) :
    s.engine.graph.Edge x y ∨ y ∈ (s.readopt c exports).downstream c.id (novel c exports) := by
  have ht : (s.readopt c exports).Tidy := hs.rebuild_adopt
  by_cases hx : x = c.id
  · subst hx
    obtain ⟨b, hb, e, he, hbid, rfl, hne, name, hw, hr⟩ := ht.edge_iff.mp hedge
    have hname : name ∈ Names.ofList (exports.map (·.1)) := by
      rcases mem_cells_adopt hb with ⟨-, hbne⟩ | ⟨b', -, -, rfl⟩
      · exact absurd hbid hbne
      · exact hw
    by_cases hold : name ∈ c.writes.names
    · refine .inl (hs.edge_iff.mpr ?_)
      rcases mem_cells_adopt he with ⟨he, -⟩ | ⟨e', he', heid, rfl⟩
      · exact ⟨d, hd, e, he, hid, rfl, hid ▸ hbid ▸ hne, name, hwrites ▸ hold, hr⟩
      · exact absurd (hbid.trans heid.symm) hne
    · exact .inr (mem_downstream_of_reads ht he (hbid ▸ hne.symm) (mem_novel.mpr ⟨hname, hold⟩) hr)
  · exact .inl ((edge_readopt_iff hs hx).mp hedge)

/-- A cell that comes onto a cycle is downstream of the new exports. -/
lemma mem_downstream_of_onCycle (hs : s.Tidy) (hd : d ∈ s.engine.cells) (hid : d.id = c.id)
    (hwrites : d.writes = c.writes) (hx : x ≠ c.id) (hnew : (s.readopt c exports).engine.graph.OnCycle x)
    (hold : ¬ s.engine.graph.OnCycle x) : x ∈ (s.readopt c exports).downstream c.id (novel c exports) := by
  have ht : (s.readopt c exports).Tidy := hs.rebuild_adopt
  -- along a walk there are old edges only until a reader of new exports is met
  have hwalk : ∀ y, TransGen (s.readopt c exports).engine.graph.Edge x y → TransGen s.engine.graph.Edge x y ∨
      y ∈ (s.readopt c exports).engine.graph.closure (((novel c exports).toList.flatMap
        (s.readopt c exports).engine.graph.readersOf).filter (· != c.id)) := by
    intro y hy
    induction hy with
    | single hxy =>
      rcases edge_or_downstream_of_readopt hs hd hid hwrites hxy with hxy | hdown
      · exact .inl (.single hxy)
      · exact .inr (Names.mem_toList.mp (List.mem_filter.mp hdown).1)
    | tail _ hyz ih =>
      rcases ih with hxy | hdown
      · rcases edge_or_downstream_of_readopt hs hd hid hwrites hyz with hyz | hdown
        · exact .inl (hxy.tail hyz)
        · exact .inr (Names.mem_toList.mp (List.mem_filter.mp hdown).1)
      · exact .inr (Graph.closure_closed ht.coherent hdown hyz)
  rcases hwalk x hnew with hcycle | hdown
  · exact absurd hcycle hold
  · exact List.mem_filter.mpr ⟨Names.mem_toList.mpr hdown, by simpa using hx⟩

/-- Deriving the graph anew with new exports leaves everything due that is. -/
lemma Due.readopt (h : s.Due x) (hs : s.Tidy) (hout : ¬ s.engine.graph.OnCycle c.id) :
    (s.readopt c exports).Due x := by
  have hcontrol := control_adopt s c exports
  have hremaining : (s.readopt c exports).pass.remaining = s.pass.remaining := congrArg (·.pass.remaining) hcontrol
  have hrerun : (s.readopt c exports).pass.rerun = s.pass.rerun := congrArg (·.pass.rerun) hcontrol
  unfold Due
  rw [hremaining, hrerun]
  exact h.imp_left (onCycle_readopt hs hout)

lemma known_readopt (hs : s.Tidy) (hk : ∀ x ∈ s.pass.remaining, x ∈ s.engine.graph.ids) :
    ∀ x ∈ (s.readopt c exports).pass.remaining, x ∈ (s.readopt c exports).engine.graph.ids := fun x hx => by
  have ht : (s.readopt c exports).Tidy := hs.rebuild_adopt
  have hremaining : (s.readopt c exports).pass.remaining = s.pass.remaining :=
    congrArg (·.pass.remaining) (control_adopt s c exports)
  rw [ht.mem_ids_iff]
  change x ∈ (s.adopt c exports).engine.cells.map (·.id)
  rw [ids_adopt, ← hs.mem_ids_iff]
  exact hk x (hremaining ▸ hx)

/-- A pass stays watched when it is enlarged after new exports of a script that is not due. -/
lemma Watched.extend_readopt (h : s.Watched) (hs : s.Tidy) (hd : d ∈ s.engine.cells) (hid : d.id = c.id)
    (hwrites : d.writes = c.writes) (hfly : c.id ∉ s.flying) (hout : ¬ s.Due c.id)
    (hknown : ∀ x ∈ s.pass.remaining, x ∈ s.engine.graph.ids) :
    ((s.readopt c exports).extend c.id (novel c exports)).Watched := by
  have ht : (s.readopt c exports).Tidy := hs.rebuild_adopt
  have hcontrol := control_adopt s c exports
  have hremaining : (s.readopt c exports).pass.remaining = s.pass.remaining := congrArg (·.pass.remaining) hcontrol
  have hrerun : (s.readopt c exports).pass.rerun = s.pass.rerun := congrArg (·.pass.rerun) hcontrol
  have hoff : ¬ s.engine.graph.OnCycle c.id := fun hcycle => hout (.inl hcycle)
  refine
    { barred := fun x hx hcycle => ?_
      closed := fun x y hx hedge => ?_
      flights := ?_
      synced := fun v => ?_ }
  · rw [flying_extend, flying_readopt] at hx
    rw [graph_extend] at hcycle
    by_cases hold : s.engine.graph.OnCycle x
    · exact mem_rerun_extend.mpr (.inr (hrerun ▸ h.barred x hx hold))
    · have hne : x ≠ c.id := fun heq => hfly (heq ▸ hx)
      refine mem_rerun_extend.mpr (.inl ⟨mem_downstream_of_onCycle hs hd hid hwrites hne hcycle hold, ?_⟩)
      rwa [flying_readopt]
  · rw [graph_extend] at hedge
    -- a cell that came in is downstream of the script; what did not, was not done before
    have hplace : (x ∈ s.pass.remaining ∨ x ∈ s.flying) ∨
        x ∈ (s.readopt c exports).downstream c.id (novel c exports) := by
      rw [flying_extend, flying_readopt] at hx
      rcases hx with hx | hx
      · rcases mem_pending.mp ((mem_remaining_extend ht).mp hx).1 with hw | ⟨hdown, -⟩
        · exact .inl (.inl (hremaining ▸ hw))
        · exact .inr hdown
      · exact .inl (.inr hx)
    rcases hplace with hold | hdown
    · have hne : x ≠ c.id := fun heq => hold.elim (fun hw => hout (.inr (.inl (heq ▸ hw)))) fun hf => hfly (heq ▸ hf)
      have hdue := h.closed x y hold ((edge_readopt_iff hs hne).mp hedge)
      exact (hdue.readopt hs hoff).extend ht (known_readopt hs hknown y)
    · by_cases hy : y = c.id
      · subst hy
        have hadopted := mem_adopt exports hd hid
        have hreach := transGen_of_mem_downstream ht hadopted hid
          (fun name hname => (mem_novel.mp hname).1) hdown
        exact .inl ((graph_extend ..).symm ▸ hreach.tail hedge)
      · exact due_of_downstream ht (mem_downstream_of_edge ht hdown hedge hy)
  · have hrev : ((s.readopt c exports).extend c.id (novel c exports)).revisions = s.revisions := by
      rw [revisions_extend]
      exact (revisions_of_control hcontrol).trans (revisions_modifyCell fun _ => rfl)
    refine flights_of_revisions hrev fun p hp => h.flights p ?_
    rw [inFlight_extend] at hp
    change p ∈ (s.adopt c exports).engine.inFlight at hp
    rwa [inFlight_adopt] at hp
  · exact (replaces_extend ht).synced (replaces_readopt.synced (h.synced v))

/-- A script that writes what it was known to write, or whose exports change, keeps all declared variables
written, for it declares none. -/
lemma declared_adopt (h : s.engine.Declared) (hscript : ∀ d ∈ s.engine.cells, d.id = c.id → d.content.isScript = true) :
    (s.adopt c exports).engine.Declared := by
  intro d hd name hname
  rcases mem_cells_adopt hd with ⟨hd, -⟩ | ⟨b, hb, hbid, rfl⟩
  · exact h d hd name hname
  · have hs := hscript b hb hbid
    cases hcontent : b.content <;> simp [hcontent, Content.isScript, Content.output?] at hs hname

/-- The pass stays steady when a result arrives, and all that is due stays so, unless a script is put back that
lies on a cycle. -/
theorem Steady.receive (h : s.Steady) (hs : s.Tidy) (hperm : s.engine.arriving.Perm (a :: rest))
    (hno : PutsBack s ((s.deliver rest).receive a) a → ¬ s.engine.graph.OnCycle a.cell) :
    ((s.deliver rest).receive a).Steady ∧ ∀ x, s.Due x → ((s.deliver rest).receive a).Due x := by
  have hid := flying_of_arriving hs hperm
  have hland := hs.land hperm
  obtain ⟨hacc, hacyclic⟩ := h.accounted.receive hs h.acyclic hperm hno
  obtain ⟨c, hc, hcid, hversion, hscript, hcell, haddressee⟩ := h.exists_addressee hs hperm
  have hput : a.cell ∈ s.pass.rerun → ¬ s.engine.graph.OnCycle a.cell := fun hr =>
    hno ⟨rest, hperm, rfl, hr, c, hcell, hversion⟩
  have hother : a.cell ∉ s.pass.rerun → ∀ x, s.Due x → x ≠ a.cell := fun hr x hx heq =>
    h.not_due hs hid hr (heq ▸ hx)
  have hkept : ∀ logs, ((s.deliver rest).landed a logs).engine.Declared := fun logs =>
    declared_of_control (t := (s.deliver rest).land a.cell) control_keepLogs h.declared
  have hlanding := landing_receive (s.deliver rest) a
  have hrev := hlanding.revisions_eq
  have hflight := hlanding.inFlight
  have hsynced : ∀ v, ((s.deliver rest).receive a).pass.slot v = ((s.deliver rest).receive a).engine.get v :=
    fun v => (hlanding.replaces hland).synced (h.synced v)
  generalize (s.deliver rest).receive a = t at hlanding hacc hacyclic hrev hflight hsynced
  cases hlanding with
  | stale hnone => rw [haddressee] at hnone; cases hnone
  | @again b hb hr =>
    have hfree := hput hr
    have hk : ∀ x, x = a.cell ∨ x ∈ s.pass.remaining → x ∈ s.engine.graph.ids := fun x hx => by
      rcases hx with rfl | hx
      · exact hs.mem_ids_iff.mpr (hcid ▸ List.mem_map_of_mem hc)
      · exact h.accounted.known x hx
    have hwaits : ∀ x, x = a.cell ∨ x ∈ s.pass.remaining →
        x ∈ (((s.deliver rest).land a.cell).requeue a.cell).pass.remaining := fun x hx => by
      refine (mem_remaining_requeue hland (fun y hy => ?_) (hk x hx)).mpr hx
      rcases hy with rfl | hy
      · exact hfree
      · exact h.acyclic y hy
    have hrerun : ∀ x ∈ s.pass.rerun, x ≠ a.cell →
        x ∈ (((s.deliver rest).land a.cell).requeue a.cell).pass.rerun := fun x hx hne =>
      Names.mem_filter.mpr ⟨hx, bne_iff_ne.mpr hne⟩
    have hdue : ∀ x, s.Due x → (((s.deliver rest).land a.cell).requeue a.cell).Due x := fun x hx => by
      by_cases hne : x = a.cell
      · exact .inr (.inl (hwaits x (.inl hne)))
      · exact hx.imp_right (Or.imp (fun hw => hwaits x (.inr hw)) fun hr => hrerun x hr hne)
    refine ⟨{
      barred := fun x hx hcycle => ?_
      closed := fun x y hx hedge => hdue y (h.closed x y ?_ hedge)
      flights := flights_of_revisions hrev fun p hp => h.flights p (List.mem_of_mem_filter (hflight ▸ hp))
      synced := hsynced
      accounted := hacc
      acyclic := hacyclic
      declared := h.declared }, hdue⟩
    · obtain ⟨hfly, hne⟩ := mem_flying_land (s := s.deliver rest).mp hx
      exact hrerun x (h.barred x hfly hcycle) hne
    · rcases hx with hx | hx
      · have hmem := (Graph.mem_order hx).1
        rw [Names.mem_insert, Names.mem_ofList] at hmem
        rcases hmem with rfl | hmem
        · exact .inr hid
        · exact .inl hmem
      · exact .inr (mem_flying_land (s := s.deliver rest).mp hx).1
  | @failed b message logs hb hr hsettle =>
    have hcontrol := control_failed (s.deliver rest) a b logs message
    have hgraph : (((s.deliver rest).landed a logs).fail b (.execution a.cell message)).engine.graph =
        s.engine.graph := congrArg (·.engine.graph) hcontrol
    have hremaining : (((s.deliver rest).landed a logs).fail b (.execution a.cell message)).pass.remaining =
        s.pass.remaining := congrArg (·.pass.remaining) hcontrol
    have hrerun : (((s.deliver rest).landed a logs).fail b (.execution a.cell message)).pass.rerun =
        s.pass.rerun.filter (· != a.cell) := congrArg (·.pass.rerun) hcontrol
    have hwatched := h.toWatched.land hs hid hr hgraph hremaining hrerun hflight hrev hsynced
    have hdeclared := declared_of_control (t := ((s.deliver rest).landed a logs).finish b.id .success) hcontrol
      (hkept logs)
    exact ⟨⟨hwatched, hacc, hacyclic, hdeclared⟩, fun x hx =>
      hx.land (hother hr x hx) hgraph hremaining hrerun⟩
  | @accepted b exports logs hb hr hsettle =>
    obtain rfl : c = b := Option.some.inj (haddressee.symm.trans hb)
    have hcontrol := control_adopt ((s.deliver rest).landed a logs) c exports
    have hout : ¬ s.Due a.cell := h.not_due hs hid hr
    have hdeclared : (((s.deliver rest).landed a logs).adopt c exports).engine.Declared := by
      refine declared_adopt (hkept logs) fun d hd hdid => ?_
      rcases Engine.mem_modifyCell hd with ⟨-, hne⟩ | ⟨b, hb, hbid, rfl⟩
      · exact absurd (hdid.trans hcid) hne
      · rw [List.inj_on_of_nodup_map hs.ids hb hc (hbid.trans hcid.symm)]
        exact hscript
    rcases accept_cases ((s.deliver rest).landed a logs) c exports with ⟨-, heq⟩ | heq
    · rw [heq] at hrev hflight hsynced hacc hacyclic ⊢
      have hgraph : (((s.deliver rest).landed a logs).adopt c exports).engine.graph = s.engine.graph :=
        congrArg (·.engine.graph) hcontrol
      have hremaining : (((s.deliver rest).landed a logs).adopt c exports).pass.remaining = s.pass.remaining :=
        congrArg (·.pass.remaining) hcontrol
      have hrerun : (((s.deliver rest).landed a logs).adopt c exports).pass.rerun =
          s.pass.rerun.filter (· != a.cell) := congrArg (·.pass.rerun) hcontrol
      have hwatched := h.toWatched.land hs hid hr hgraph hremaining hrerun hflight hrev hsynced
      exact ⟨⟨hwatched, hacc, hacyclic, hdeclared⟩, fun x hx =>
        hx.land (hother hr x hx) hgraph hremaining hrerun⟩
    · rw [heq] at hacc hacyclic ⊢
      have hlanded : ((s.deliver rest).landed a logs).Watched :=
        h.toWatched.land hs hid hr rfl rfl rfl rfl (revisions_modifyCell fun _ => rfl) h.synced
      have htidy := hland.keepLogs a.cell logs
      have hdue : ∀ x, s.Due x → ((s.deliver rest).landed a logs).Due x := fun x hx =>
        hx.land (hother hr x hx) rfl rfl rfl
      have hkeptcell : { c with logs } ∈ ((s.deliver rest).landed a logs).engine.cells := mem_landed hc hcid
      have hgone : c.id ∉ ((s.deliver rest).landed a logs).flying := fun hf =>
        (mem_flying_land (s := s.deliver rest).mp hf).2 hcid
      have hfree : ¬ ((s.deliver rest).landed a logs).Due c.id := fun hdue => by
        have hdue : s.Due c.id := hdue.imp_right (Or.imp_right fun hr => (Names.mem_filter.mp hr).1)
        exact hout (hcid ▸ hdue)
      have ht : (((s.deliver rest).landed a logs).readopt c exports).Tidy := htidy.rebuild_adopt
      have hwatched : ((((s.deliver rest).landed a logs).readopt c exports).extend c.id
          (novel c exports)).Watched :=
        hlanded.extend_readopt htidy hkeptcell rfl rfl hgone hfree h.accounted.known
      refine ⟨⟨hwatched, hacc, hacyclic, declared_of_control (control_extend ..) hdeclared⟩, fun x hx => ?_⟩
      exact ((hdue x hx).readopt htidy fun hcycle => hfree (.inl hcycle)).extend ht
        (known_readopt htidy h.accounted.known x)

theorem Goes.steady (hgoes : s.Goes l s') (h : s.Steady) (hs : s.Tidy)
    (hno : ∀ a, PutsBack s s' a → ¬ s.engine.graph.OnCycle a.cell) : s'.Steady := by
  cases hgoes with
  | move hm =>
    cases hm with
    | start _ hi hid hrun => exact h.start hs hi hid hrun
    | receive hperm => exact (h.receive hs hperm (hno _)).1
  | host hh =>
    have hget := hh.get_eq
    cases hh <;> exact
      { barred := h.barred
        closed := h.closed
        flights := h.flights
        synced := fun v => (h.synced v).trans (hget v).symm
        accounted := ⟨h.accounted.active, h.accounted.covered, h.accounted.known⟩
        acyclic := h.acyclic
        declared := h.declared }

/-- A variable that changes when a cell is started is one that the cell writes. -/
lemma mem_writes_of_turn (h : s.engine.Declared) (hs : s.Tidy) (hturn : Turn l (s.withdraw i) id s') {v : String}
    (hv : s'.engine.get v ≠ s.engine.get v) :
    ∃ c w, s.engine.cell? id = some c ∧ s.isTriggered c = true ∧ c.verdict l s.pass.slot = .ok w ∧
      s' = (s.withdraw i).conclude l c w ∧ v ∈ c.writes.names := by
  cases hturn with
  | gone hc => exact absurd rfl hv
  | unchanged hc ht => exact absurd rfl hv
  | @evaluated c w hc ht hw =>
    refine ⟨c, w, hc, ht, hw, rfl, ?_⟩
    have hreplaces : Replaces (· ∈ c.writes.names) (s.withdraw i) ((s.withdraw i).conclude l c w) := by
      refine replaces_conclude fun output value heq => ?_
      subst heq
      exact h c ((Engine.cell?_eq_some_iff hs.ids).mp hc).1 output (Cell.output_of_verdict hw)
    by_contra hout
    exact hv (hreplaces.get_eq hout)

/-- The readers of a variable that a cell writes which is not done are due. -/
lemma Watched.due_of_reads (h : s.Watched) (hs : s.Tidy) (hc : c ∈ s.engine.cells) (hd : d ∈ s.engine.cells)
    (hplace : c.id ∈ s.pass.remaining ∨ c.id ∈ s.flying) (hne : c.id ≠ d.id) {v : String}
    (hw : v ∈ c.writes.names) (hr : v ∈ d.reads) : s.Due d.id :=
  h.closed c.id d.id hplace (hs.edge_iff.mpr ⟨c, hc, d, hd, rfl, rfl, hne, v, hw, hr⟩)

/-- The other readers of a variable that changes when a cell is started are due. -/
lemma Steady.due_of_start (h : s.Steady) (hs : s.Tidy) (hid : s.pass.remaining[i]? = some id)
    (hrun : (s.withdraw i).runCell l id = .ok s') (hd : d ∈ s.engine.cells) (hne : d.id ≠ id) {v : String}
    (hr : v ∈ d.reads) (hv : s'.engine.get v ≠ s.engine.get v) : s'.Due d.id := by
  obtain ⟨c, -, hc, -, -, -, hw⟩ := mem_writes_of_turn h.declared hs (turn_of_runCell hrun) hv
  obtain ⟨hcm, rfl⟩ := (Engine.cell?_eq_some_iff hs.ids).mp hc
  have hdue := h.due_of_reads hs hcm hd (.inl (List.mem_of_getElem? hid)) hne.symm hw hr
  exact hdue.start (starts_of_runCell hs hid hrun) hne

/-- What changes when exports are taken over is exported, has been exported before, or is written by a waiting
cell or one downstream that lies on a cycle. -/
lemma changed_extend_readopt (hs : s.Tidy) {v : String}
    (hv : ((s.readopt c exports).extend c.id (novel c exports)).engine.get v ≠ s.engine.get v) :
    (v ∈ Names.ofList (exports.map (·.1)) ∨ v ∈ c.writes.names) ∨
      ∃ b ∈ (s.readopt c exports).engine.cells, b.id ∈ (s.readopt c exports).pending c.id (novel c exports) ∧
        (s.readopt c exports).engine.graph.OnCycle b.id ∧ v ∈ b.writes.names := by
  have ht : (s.readopt c exports).Tidy := hs.rebuild_adopt
  by_contra hout
  rw [not_or] at hout
  refine hv (((replaces_extend ht).get_eq hout.2).trans (replaces_readopt.get_eq hout.1))

/-- The readers of a variable that changes when exports are taken over are due afterwards, except the script
itself. -/
lemma due_of_changed_extend (hs : s.Tidy) {e : Cell} (he : e ∈ s.engine.cells) (hid : e.id = c.id)
    (hwrites : e.writes = c.writes) (hwait : c.id ∉ s.pass.remaining)
    (hlast : ∀ x, s.Due x → ((s.readopt c exports).extend c.id (novel c exports)).Due x)
    (hclosed : ∀ b ∈ s.engine.cells, b.id = c.id ∨ b.id ∈ s.pass.remaining → ∀ d ∈ s.engine.cells, b.id ≠ d.id →
      ∀ v ∈ b.writes.names, v ∈ d.reads → s.Due d.id)
    (hd : d ∈ s.engine.cells) {v : String} (hr : v ∈ d.reads)
    (hv : ((s.readopt c exports).extend c.id (novel c exports)).engine.get v ≠ s.engine.get v) :
    ((s.readopt c exports).extend c.id (novel c exports)).Due d.id ∨
      d.id = c.id ∧ (v ∈ c.writes.names ∨ v ∈ Names.ofList (exports.map (·.1))) := by
  have ht : (s.readopt c exports).Tidy := hs.rebuild_adopt
  have hold : v ∈ c.writes.names → d.id ≠ c.id →
      ((s.readopt c exports).extend c.id (novel c exports)).Due d.id := fun hw hne =>
    hlast d.id (hclosed e he (.inl hid) d hd (hid ▸ hne.symm) v (hwrites ▸ hw) hr)
  rcases changed_extend_readopt hs hv with hown | ⟨b, hb, hp, hcycle, hw⟩
  · by_cases hdc : d.id = c.id
    · exact .inr ⟨hdc, hown.symm⟩
    · by_cases hw : v ∈ c.writes.names
      · exact .inl (hold hw hdc)
      · have hnovel : v ∈ novel c exports := mem_novel.mpr ⟨hown.resolve_right hw, hw⟩
        exact .inl (due_of_downstream ht (mem_downstream_of_reads ht (mem_adopt_of_ne exports hd hdc) hdc hnovel hr))
  · refine .inl ?_
    by_cases hbd : b.id = d.id
    · exact .inl ((graph_extend ..).symm ▸ hbd ▸ hcycle)
    rcases mem_pending.mp hp with hwaits | ⟨hdown, -⟩
    · have hremaining : (s.readopt c exports).pass.remaining = s.pass.remaining :=
        congrArg (·.pass.remaining) (control_adopt s c exports)
      rw [hremaining] at hwaits
      have hbs : b ∈ s.engine.cells := by
        rcases mem_cells_adopt hb with ⟨hb, -⟩ | ⟨b', -, hb', rfl⟩
        · exact hb
        · exact absurd (hb' ▸ hwaits) hwait
      exact hlast d.id (hclosed b hbs (.inr hwaits) d hd hbd v hw hr)
    · have hedge : (s.readopt c exports).engine.graph.Edge b.id d.id := by
        by_cases hdc : d.id = c.id
        · exact ht.edge_iff.mpr ⟨b, hb, _, mem_adopt exports hd hdc, rfl, rfl, hbd, v, hw, hr⟩
        · exact ht.edge_iff.mpr ⟨b, hb, d, mem_adopt_of_ne exports hd hdc, rfl, rfl, hbd, v, hw, hr⟩
      by_cases hdc : d.id = c.id
      · have hreach := transGen_of_mem_downstream ht (mem_adopt exports he hid) hid
          (fun name hname => (mem_novel.mp hname).1) hdown
        exact .inl ((graph_extend ..).symm ▸ hdc ▸ hreach.tail (hdc ▸ hedge))
      · exact due_of_downstream ht (mem_downstream_of_edge ht hdown hedge hdc)

lemma exists_source (h : s.control = t.control) (hd : d ∈ s.engine.cells) :
    ∃ b ∈ t.engine.cells, Graph.Source.ofCell b = Graph.Source.ofCell d :=
  List.mem_map.mp (map_ofCell_of_control h ▸ List.mem_map_of_mem hd)

/-- The names that a script exports are those it is known to write afterwards. -/
lemma exists_writes_extend (exports : Script.Fields) (hd : d ∈ s.engine.cells) (hid : d.id = c.id) :
    ∃ b ∈ ((s.readopt c exports).extend c.id (novel c exports)).engine.cells,
      b.id = c.id ∧ b.writes.names = Names.ofList (exports.map (·.1)) := by
  have hadopted := mem_adopt exports hd hid
  have hcontrol := cells_blank_of_control (control_extend (s.readopt c exports) c.id (novel c exports))
  have hblank : ((s.readopt c exports).extend c.id (novel c exports)).engine.cells.map Cell.blank =
      (s.adopt c exports).engine.cells.map Cell.blank := hcontrol
  have hmem := List.mem_map_of_mem (f := Cell.blank) hadopted
  rw [← hblank] at hmem
  obtain ⟨b, hb, heq⟩ := List.mem_map.mp hmem
  have hbid : b.blank.id = d.id := congrArg (·.id) heq
  have hwrites : b.blank.writes.names = Names.ofList (exports.map (·.1)) := congrArg (·.writes.names) heq
  exact ⟨b, hb, hbid.trans hid, hwrites⟩

/-- The readers of a variable that changes when a result arrives are due afterwards, except the script itself,
which writes the variable then or has written it before. -/
theorem Steady.due_of_changed (h : s.Steady) (hs : s.Tidy) (hperm : s.engine.arriving.Perm (a :: rest))
    (hno : PutsBack s ((s.deliver rest).receive a) a → ¬ s.engine.graph.OnCycle a.cell)
    (hd : d ∈ s.engine.cells) {v : String} (hread : v ∈ d.reads)
    (hv : ((s.deliver rest).receive a).engine.get v ≠ s.engine.get v) :
    ((s.deliver rest).receive a).Due d.id ∨ d.id = a.cell ∧ ∃ b,
      (b ∈ s.engine.cells ∨ b ∈ ((s.deliver rest).receive a).engine.cells) ∧ b.id = a.cell ∧ v ∈ b.writes.names := by
  have hid := flying_of_arriving hs hperm
  obtain ⟨c, hc, hcid, -, -, -, haddressee⟩ := h.exists_addressee hs hperm
  obtain ⟨-, hdue⟩ := h.receive hs hperm hno
  -- the script of the result has been watched while it was in flight
  have hown : v ∈ c.writes.names → s.Due d.id ∨ d.id = a.cell := fun hw => by
    by_cases hne : c.id = d.id
    · exact .inr (hne.symm.trans hcid)
    · exact .inl (h.due_of_reads hs hc hd (.inr (hcid ▸ hid)) hne hw hread)
  have hlanding := landing_receive (s.deliver rest) a
  generalize (s.deliver rest).receive a = t at hlanding hdue hv
  cases hlanding with
  | stale hnone => rw [haddressee] at hnone; cases hnone
  | again hb hr => exact absurd rfl hv
  | @failed b message logs hb hr hsettle =>
    obtain rfl : c = b := Option.some.inj (haddressee.symm.trans hb)
    have hw : v ∈ c.writes.names := by
      by_contra hout
      exact hv (replaces_fail.get_eq hout)
    exact (hown hw).imp (hdue d.id) fun heq => ⟨heq, c, .inl hc, hcid, hw⟩
  | @accepted b exports logs hb hr' hsettle =>
    obtain rfl : c = b := Option.some.inj (haddressee.symm.trans hb)
    rcases accept_cases ((s.deliver rest).landed a logs) c exports with ⟨hsame, heq⟩ | heq
    · rw [heq] at hv hdue ⊢
      have hw : v ∈ c.writes.names := by
        by_contra hout
        exact hv (replaces_adopt.get_eq fun hx => hx.elim (hsame ▸ hout) hout)
      exact (hown hw).imp (hdue d.id) fun heq => ⟨heq, c, .inl hc, hcid, hw⟩
    · rw [heq] at hv hdue ⊢
      have hkept : { c with logs } ∈ ((s.deliver rest).landed a logs).engine.cells := mem_landed hc hcid
      have hback : ∀ x, ((s.deliver rest).landed a logs).Due x → s.Due x := fun x hx =>
        hx.imp_right (Or.imp_right fun hr => (Names.mem_filter.mp hr).1)
      have hclosed : ∀ b ∈ ((s.deliver rest).landed a logs).engine.cells,
          b.id = c.id ∨ b.id ∈ s.pass.remaining → ∀ d ∈ ((s.deliver rest).landed a logs).engine.cells, b.id ≠ d.id →
            ∀ v ∈ b.writes.names, v ∈ d.reads → ((s.deliver rest).landed a logs).Due d.id := by
        intro b hb hplace d hd hne v hw hr
        obtain ⟨b', hb', hbsame⟩ := exists_source (t := s.deliver rest) control_keepLogs hb
        obtain ⟨d', hd', hdsame⟩ := exists_source (t := s.deliver rest) control_keepLogs hd
        simp only [Graph.Source.ofCell, Graph.Source.mk.injEq] at hbsame hdsame
        have hplace : b'.id ∈ s.pass.remaining ∨ b'.id ∈ s.flying := by
          rw [hbsame.1]
          refine hplace.symm.imp_right fun heq => ?_
          rw [heq, hcid]
          exact hid
        have hdue := h.due_of_reads hs hb' hd' hplace (hbsame.1 ▸ hdsame.1 ▸ hne) (hbsame.2.2 ▸ hw) (hdsame.2.1 ▸ hr)
        rw [hdsame.1] at hdue
        have hother : d.id ≠ a.cell := fun heq => h.not_due hs hid hr' (by rwa [heq] at hdue)
        exact hdue.land hother rfl rfl rfl
      obtain ⟨d', hd', hdsame⟩ := exists_source (s := (s.deliver rest).land a.cell)
        (t := (s.deliver rest).landed a logs) control_keepLogs.symm hd
      simp only [Graph.Source.ofCell, Graph.Source.mk.injEq] at hdsame
      have hwait : c.id ∉ s.pass.remaining := fun hw => hs.grounded c.id hw (hcid ▸ hid)
      have hresult := due_of_changed_extend (s := (s.deliver rest).landed a logs) ((hs.land hperm).keepLogs a.cell logs)
        hkept rfl rfl hwait (fun x hx => hdue x (hback x hx)) hclosed hd' (hdsame.2.1 ▸ hread) hv
      rw [hdsame.1] at hresult
      refine hresult.imp_right fun hwriter => ⟨hwriter.1.trans hcid, ?_⟩
      rcases hwriter.2 with hw | hw
      · exact ⟨c, .inl hc, hcid, hw⟩
      · obtain ⟨b, hb, hbid, hwrites⟩ := exists_writes_extend (c := c) exports hkept rfl
        exact ⟨b, .inr hb, hbid.trans hcid, hwrites ▸ hw⟩

end Stage

namespace Engine

variable {e : Engine} {c : Cell} {v : String}

open Stage

/-- A pass is steady when it begins. -/
lemma steady_beginPass (ht : e.Tidy) (hp : e.pass = none) (hdeclared : e.Declared) : e.beginPass.Steady := by
  obtain ⟨hacc, hacyclic⟩ := accounted_beginPass ht hp
  have hflights : e.beginPass.engine.inFlight = [] := (inFlight_beginPass e).trans (ht.idle hp).1
  have hfly : e.beginPass.flying = [] := by rw [flying, hflights]; rfl
  refine
    { barred := fun x hx => by rw [hfly] at hx; cases hx
      closed := fun x y hx hedge => ?_
      flights := fun p hp => by rw [hflights] at hp; cases hp
      synced := fun v => (replaces_beginPass ht).synced Pass.slot_start
      accounted := hacc
      acyclic := hacyclic
      declared := declared_of_control (s := e.blockCycles) (control_blockCycles e) hdeclared }
  have hwaits : x ∈ e.beginPass.pass.remaining := hx.resolve_right (by rw [hfly]; exact List.not_mem_nil)
  have hreached := ((mem_remaining_beginPass ht).mp hwaits).1
  rw [graph_beginPass] at hedge
  by_cases hcycle : e.graph.OnCycle y
  · exact .inl (graph_beginPass e ▸ hcycle)
  · exact .inr (.inl ((mem_remaining_beginPass ht).mpr ⟨reached_of_edge ht hreached hedge, hcycle⟩))

/-- The readers of a variable that changes when a pass begins are due. -/
lemma due_of_changed_beginPass (ht : e.Tidy) (hp : e.pass = none) (hc : c ∈ e.beginPass.engine.cells)
    (hread : v ∈ c.reads) (hv : e.beginPass.engine.get v ≠ e.get v) : e.beginPass.Due c.id := by
  have hs := beginPass_tidy ht hp
  obtain ⟨b, hb, hreached, hcycle, hw⟩ : ∃ b ∈ e.cells, b.id ∈ e.reached ∧ e.graph.OnCycle b.id ∧
      v ∈ b.writes.names := by
    by_contra hout
    exact hv ((replaces_beginPass ht).get_eq hout)
  by_cases hbc : b.id = c.id
  · exact .inl (graph_beginPass e ▸ hbc ▸ hcycle)
  have hsource : Graph.Source.ofCell b ∈ e.blockCycles.engine.cells.map Graph.Source.ofCell :=
    map_ofCell_of_control (control_blockCycles e) ▸ List.mem_map_of_mem hb
  obtain ⟨b', hb', hsame⟩ := List.mem_map.mp hsource
  simp only [Graph.Source.ofCell, Graph.Source.mk.injEq] at hsame
  have hedge : e.beginPass.engine.graph.Edge b.id c.id :=
    hs.edge_iff.mpr ⟨b', hb', c, hc, hsame.1, rfl, hsame.1 ▸ hbc, v, hsame.2.2 ▸ hw, hread⟩
  rw [graph_beginPass] at hedge
  have hreached := reached_of_edge ht hreached hedge
  by_cases hcycle : e.graph.OnCycle c.id
  · exact .inl (graph_beginPass e ▸ hcycle)
  · exact .inr (.inl ((mem_remaining_beginPass ht).mpr ⟨hreached, hcycle⟩))

end Engine

end ReactiveNotebook
