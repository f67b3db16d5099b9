import ReactiveNotebook.Proofs.Engine.Receive
import ReactiveNotebook.Proofs.Graph.Order

/-!
# The moves of a pass

A pass in progress moves on by starting a waiting cell or by taking over the result of a script. Results may
arrive in any order, so whatever holds along all moves does not depend on how long scripts take.

Between two moves the bookkeeping of the scheduler is tidy: every script in flight has one result under way,
and a cell that waits is not in flight.
-/
namespace ReactiveNotebook.Stage

open Script (Fields)

variable {l : Language} {s s' t : Stage} {a : Arrival} {c : Cell} {id : CellId} {names : Names}

/-- The stage after a waiting cell has been taken from its place. -/
def withdraw (s : Stage) (i : ℕ) : Stage :=
  { s with pass := { s.pass with remaining := s.pass.remaining.eraseIdx i } }

/-- The stage with other results under way. -/
def deliver (s : Stage) (rest : List Arrival) : Stage :=
  { s with engine := { s.engine with arriving := rest } }

/-- One move of a pass in progress. -/
inductive Move (l : Language) (s : Stage) : Stage → Prop
  /-- A waiting cell is started; beside a script in flight only with parallel scripts. -/
  | start {i : ℕ} {id : CellId} {s' : Stage}
      (hfree : s.engine.config.parallelScripts = true ∨ s.engine.inFlight = [])
      (hi : s.next? = some i) (hid : s.pass.remaining[i]? = some id)
      (h : (s.withdraw i).runCell l id = .ok s') : Move l s s'
  /-- Any one of the results under way arrives. -/
  | receive {a : Arrival} {rest : List Arrival} (h : s.engine.arriving.Perm (a :: rest)) :
      Move l s ((s.deliver rest).receive a)

lemma isReady_iff : s.isReady id = true ↔
    ∀ d ∈ s.engine.graph.dependencies id, d ∈ s.pass.members → d ∈ s.pass.completed := by
  simp only [isReady, List.all_eq_true, Bool.or_eq_true, Bool.not_eq_true', Names.contains_eq_false_iff,
    Names.contains_iff, imp_iff_not_or]

/-- Without scripts in flight there is a cell to start as long as one waits. -/
lemma exists_next (hf : s.engine.inFlight = []) (hr : s.pass.remaining ≠ []) :
    ∃ i id, s.next? = some i ∧ s.pass.remaining[i]? = some id := by
  unfold next?
  split
  · next i hi =>
    obtain ⟨hlt, -⟩ := List.findIdx?_eq_some_iff_getElem.mp hi
    exact ⟨i, _, rfl, List.getElem?_eq_getElem hlt⟩
  · obtain ⟨id, rest, hcons⟩ := List.exists_cons_of_ne_nil hr
    refine ⟨0, id, ?_, by rw [hcons]; rfl⟩
    simp [hf, hr]

lemma next?_eq_none (hr : s.pass.remaining = []) : s.next? = none := by
  unfold next?
  simp [hr]

/-- A cell that is started is ready, or no waiting cell is and it is the first of them. -/
lemma ready_or_first_of_next {i : ℕ} (hi : s.next? = some i) (hid : s.pass.remaining[i]? = some id) :
    s.isReady id = true ∨ s.engine.inFlight = [] ∧ (∀ x ∈ s.pass.remaining, s.isReady x = false) ∧
      ∃ others, s.pass.remaining = id :: others := by
  unfold next? at hi
  split at hi
  · next hfind =>
    cases hi
    obtain ⟨_, hready, -⟩ := List.findIdx?_eq_some_iff_getElem.mp hfind
    obtain ⟨_, rfl⟩ := List.getElem?_eq_some_iff.mp hid
    exact .inl hready
  · next hfind =>
    split at hi
    · next hstuck =>
      cases hi
      rw [Bool.and_eq_true, List.isEmpty_iff] at hstuck
      have hfirst : s.pass.remaining.head? = some id := List.head?_eq_getElem? ▸ hid
      exact .inr ⟨hstuck.1, List.findIdx?_eq_none_iff.mp hfind, List.head?_eq_some_iff.mp hfirst⟩
    · cases hi

lemma mem_withdraw {i : ℕ} {x : CellId} (h : s.pass.remaining.Nodup) (hid : s.pass.remaining[i]? = some id) :
    x ∈ (s.withdraw i).pass.remaining ↔ x ∈ s.pass.remaining ∧ x ≠ id := by
  obtain ⟨hi, hval⟩ := List.getElem?_eq_some_iff.mp hid
  have herase : s.pass.remaining.eraseIdx i = s.pass.remaining.erase id := by
    rw [← hval, h.erase_getElem]
  change x ∈ s.pass.remaining.eraseIdx i ↔ _
  rw [herase, h.mem_erase_iff]
  exact and_comm

/-- The cells whose scripts are in flight. -/
def flying (s : Stage) : List CellId := s.engine.inFlight.map (·.1)

lemma isFlying_iff : s.isFlying id = true ↔ id ∈ s.flying := by
  simp [isFlying, flying]

/-- The bookkeeping of the scheduler between two moves. -/
structure Tidy (s : Stage) : Prop where
  ids : (s.engine.cells.map (·.id)).Nodup
  graph : s.engine.graph = Graph.build s.engine.cells
  /-- Every script in flight has exactly one result under way, of the version that was dispatched. -/
  flights : (s.engine.arriving.map fun a => (a.cell, a.version)).Perm s.engine.inFlight
  single : s.flying.Nodup
  waiting : s.pass.remaining.Nodup
  /-- No waiting cell is in flight. -/
  grounded : ∀ id ∈ s.pass.remaining, id ∉ s.flying
  /-- Only scripts in flight are noted for another run. -/
  rerun : ∀ id ∈ s.pass.rerun, id ∈ s.flying

namespace Tidy

lemma coherent (h : s.Tidy) : s.engine.graph.Coherent := by
  rw [h.graph]
  exact Graph.coherent_build h.ids

/-- Values have no part in it. -/
lemma congr (h : s.control = t.control) (ht : t.Tidy) : s.Tidy where
  ids := by rw [ids_of_control h]; exact ht.ids
  graph := by
    have hg : s.engine.graph = t.engine.graph := congrArg (·.engine.graph) h
    rw [hg, ht.graph]
    exact (Graph.build_congr (map_ofCell_of_control h)).symm
  flights := by
    have ha : s.engine.arriving = t.engine.arriving := congrArg (·.engine.arriving) h
    have hf : s.engine.inFlight = t.engine.inFlight := congrArg (·.engine.inFlight) h
    rw [ha, hf]
    exact ht.flights
  single := by
    have hf : s.flying = t.flying := congrArg (·.flying) h
    rw [hf]
    exact ht.single
  waiting := by
    have hr : s.pass.remaining = t.pass.remaining := congrArg (·.pass.remaining) h
    rw [hr]
    exact ht.waiting
  grounded := by
    have hr : s.pass.remaining = t.pass.remaining := congrArg (·.pass.remaining) h
    have hf : s.flying = t.flying := congrArg (·.flying) h
    rw [hr, hf]
    exact ht.grounded
  rerun := by
    have hr : s.pass.rerun = t.pass.rerun := congrArg (·.pass.rerun) h
    have hf : s.flying = t.flying := congrArg (·.flying) h
    rw [hr, hf]
    exact ht.rerun

lemma withdraw (h : s.Tidy) (i : ℕ) : (s.withdraw i).Tidy :=
  { h with
    waiting := h.waiting.sublist (List.eraseIdx_sublist ..)
    grounded := fun id hid => h.grounded id (List.mem_of_mem_eraseIdx hid) }

lemma finish (h : s.Tidy) (id : CellId) (outcome : Outcome) : (s.finish id outcome).Tidy :=
  { h with }

/-- A result under way is of the only flight of its cell. -/
lemma find?_inFlight (h : s.Tidy) (ha : a ∈ s.engine.arriving) :
    s.engine.inFlight.find? (·.1 == a.cell) = some (a.cell, a.version) := by
  have hmem : (a.cell, a.version) ∈ s.engine.inFlight :=
    h.flights.mem_iff.mp (List.mem_map_of_mem (f := fun a : Arrival => (a.cell, a.version)) ha)
  obtain ⟨p, hp⟩ := Option.isSome_iff_exists.mp
    (List.find?_isSome (p := (·.1 == a.cell)).mpr ⟨_, hmem, by simp⟩)
  have hpm := List.mem_of_find?_eq_some hp
  have hpc : p.1 = a.cell := by simpa using List.find?_some hp
  rw [hp, List.inj_on_of_nodup_map h.single hpm hmem hpc]

/-- While no script of a cell is in flight, launching one keeps the stage tidy. -/
lemma launch (h : s.Tidy) {source : String} {inputs : Inputs} (hf : c.id ∉ s.flying)
    (hr : c.id ∉ s.pass.remaining) : (s.launch l c source inputs).Tidy where
  ids := h.ids
  graph := h.graph
  flights := by
    have hkeep : s.engine.inFlight.filter (·.1 != c.id) = s.engine.inFlight := by
      rw [List.filter_eq_self]
      intro p hp
      have hne : p.1 ≠ c.id := fun he => hf (he ▸ List.mem_map_of_mem hp)
      simpa using hne
    simp only [Stage.launch, List.map_append, List.map_cons, List.map_nil, hkeep]
    exact (List.perm_append_singleton _ _).trans (h.flights.cons _)
  single := by
    have hsub : ((s.engine.inFlight.filter (·.1 != c.id)).map (·.1)).Nodup :=
      h.single.sublist ((List.filter_sublist ..).map _)
    simp only [flying, Stage.launch, List.map_cons, List.nodup_cons]
    refine ⟨fun hmem => ?_, hsub⟩
    obtain ⟨p, hp, hpc⟩ := List.mem_map.mp hmem
    simpa [hpc] using (List.mem_filter.mp hp).2
  waiting := h.waiting
  grounded := fun id hid hfly => by
    simp only [flying, Stage.launch, List.map_cons, List.mem_cons, List.mem_map, List.mem_filter] at hfly
    rcases hfly with rfl | ⟨p, ⟨hp, -⟩, rfl⟩
    · exact hr hid
    · exact h.grounded _ hid (List.mem_map_of_mem hp)
  rerun := fun id hid => by
    have hfly := h.rerun id hid
    have hne : id ≠ c.id := fun he => hf (he ▸ hfly)
    obtain ⟨p, hp, rfl⟩ := List.mem_map.mp hfly
    simp only [flying, Stage.launch, List.map_cons, List.mem_cons, List.mem_map, List.mem_filter]
    exact .inr ⟨p, ⟨hp, by simpa using hne⟩, rfl⟩

lemma id_not_mem_withdraw (h : s.Tidy) {i : ℕ} (hid : s.pass.remaining[i]? = some id) :
    id ∉ (s.withdraw i).pass.remaining := fun hmem => ((mem_withdraw h.waiting hid).mp hmem).2 rfl

/-- Landing a result takes its script out of the flights. -/
lemma land (h : s.Tidy) {rest : List Arrival} (hp : s.engine.arriving.Perm (a :: rest)) :
    ((s.deliver rest).land a.cell).Tidy where
  ids := h.ids
  graph := h.graph
  flights := by
    have hflights : ((a.cell, a.version) :: rest.map fun a => (a.cell, a.version)).Perm s.engine.inFlight :=
      (hp.map fun a : Arrival => (a.cell, a.version)).symm.trans h.flights
    have hnodup : (a.cell :: rest.map (·.cell)).Nodup := by
      have hn := (hflights.map Prod.fst).nodup_iff.mpr h.single
      simpa [Function.comp_def] using hn
    have hfilter := hflights.filter (·.1 != a.cell)
    have hrest : (rest.map fun a => (a.cell, a.version)).filter (·.1 != a.cell) =
        rest.map fun a => (a.cell, a.version) := by
      rw [List.filter_eq_self]
      intro p hpm
      obtain ⟨b, hb, rfl⟩ := List.mem_map.mp hpm
      have hne : b.cell ≠ a.cell := fun he =>
        (List.nodup_cons.mp hnodup).1 (he ▸ List.mem_map_of_mem hb)
      simpa using hne
    rw [List.filter_cons_of_neg (by simp), hrest] at hfilter
    exact hfilter
  single := h.single.sublist ((List.filter_sublist ..).map _)
  waiting := h.waiting
  grounded := fun id hid hmem =>
    h.grounded id hid (((List.filter_sublist ..).map _).subset hmem)
  rerun := fun id hid => by
    obtain ⟨hr, hne⟩ := Names.mem_filter.mp hid
    obtain ⟨p, hpm, rfl⟩ := List.mem_map.mp (h.rerun id hr)
    exact List.mem_map_of_mem (List.mem_filter.mpr ⟨hpm, hne⟩)

lemma not_mem_flying_land : id ∉ (s.land id).flying := by
  simp [flying, Stage.land]

/-- An order of known cells of which none is in flight may wait. -/
lemma requeue (h : s.Tidy) (hf : id ∉ s.flying) : (s.requeue id).Tidy :=
  { h with
    waiting := Graph.nodup_order h.coherent
    grounded := fun x hx => by
      have hm := (Graph.mem_order hx).1
      simp only [Names.mem_insert, Names.mem_ofList] at hm
      rcases hm with rfl | hm
      · exact hf
      · exact h.grounded x hm }

/-- Building the graph anew after what a script writes has been recorded. -/
lemma rebuild (hi : (s.engine.cells.map (·.id)).Nodup) (h : t.Tidy) (hf : s.engine.inFlight = t.engine.inFlight)
    (ha : s.engine.arriving = t.engine.arriving) (hp : s.pass.remaining = t.pass.remaining)
    (hr : s.pass.rerun = t.pass.rerun) : ({ s with engine := s.engine.rebuild } : Stage).Tidy where
  ids := hi
  graph := rfl
  flights := by
    change (s.engine.arriving.map _).Perm s.engine.inFlight
    rw [ha, hf]
    exact h.flights
  single := by
    change (s.engine.inFlight.map _).Nodup
    rw [hf]
    exact h.single
  waiting := by
    change s.pass.remaining.Nodup
    rw [hp]
    exact h.waiting
  grounded := by
    change ∀ id ∈ s.pass.remaining, id ∉ s.engine.inFlight.map _
    rw [hp, hf]
    exact h.grounded
  rerun := by
    change ∀ id ∈ s.pass.rerun, id ∈ s.engine.inFlight.map _
    rw [hr, hf]
    exact h.rerun

lemma enlarge (h : s.Tidy) {source : CellId} : (s.enlarge source names).Tidy :=
  { h with
    waiting := Graph.nodup_order h.coherent
    grounded := fun x hx => by
      have hm := (Graph.mem_order hx).1
      simp only [Names.mem_filter, pending, Names.mem_insertAll, Names.mem_ofList, List.mem_filter] at hm
      rcases hm.1 with hfresh | hold
      · intro hfly
        have : s.isFlying x = true := isFlying_iff.mpr hfly
        simp [this] at hfresh
      · exact h.grounded x hold
    rerun := fun x hx => by
      rcases Names.mem_insertAll.mp hx with hx | hx
      · exact isFlying_iff.mp (List.mem_filter.mp hx).2
      · exact h.rerun x hx }

lemma extend (h : s.Tidy) {source : CellId} : (s.extend source names).Tidy := by
  rw [extend_eq]
  refine congr (control_foldl_block _ _) ?_
  exact { h.enlarge with }

lemma dismiss (h : s.Tidy) (id : CellId) : (s.dismiss id).Tidy := by
  simp only [Stage.dismiss]
  split
  · exact { h with }
  · exact { h with }

lemma keepLogs (h : s.Tidy) (id : CellId) (logs : List String) : (s.keepLogs id logs).Tidy :=
  congr control_keepLogs h

/-- Recording that a script wrote what it was known to write leaves the graph as it is. -/
lemma confirm (h : s.Tidy) (hn : ∀ d ∈ s.engine.cells, d.id = id → d.writes.names = names) :
    (s.confirm id names).Tidy := by
  have hids : (s.confirm id names).engine.cells.map (·.id) = s.engine.cells.map (·.id) :=
    ids_modifyCell fun _ => rfl
  have hsources : (s.confirm id names).engine.cells.map Graph.Source.ofCell =
      s.engine.cells.map Graph.Source.ofCell := by
    simp only [Stage.confirm, modifyCell, Engine.modifyCell, List.map_map]
    refine List.map_congr_left fun d hd => ?_
    simp only [Function.comp_apply]
    by_cases hid : d.id = id
    · simp [hid, Graph.Source.ofCell, WriteSet.names, ← hn d hd hid]
    · simp [hid]
  exact
    { h with
      ids := hids ▸ h.ids
      graph := h.graph.trans (Graph.build_congr hsources.symm) }

lemma adopt (h : s.Tidy) {exports : Fields}
    (hn : ∀ d ∈ s.engine.cells, d.id = c.id → d.writes.names = Names.ofList (exports.map (·.1))) :
    (s.adopt c exports).Tidy :=
  congr (control_adopt s c exports) ((h.confirm hn).finish c.id .success)

lemma rebuild_adopt (h : s.Tidy) {exports : Fields} :
    ({ s.adopt c exports with engine := (s.adopt c exports).engine.rebuild } : Stage).Tidy := by
  have hcontrol := control_adopt s c exports
  have hids : (s.adopt c exports).engine.cells.map (·.id) = s.engine.cells.map (·.id) := by
    rw [ids_of_control hcontrol]
    exact ids_modifyCell fun _ => rfl
  refine rebuild (t := s) (hids ▸ h.ids) h ?_ ?_ ?_ ?_
  · exact congrArg (·.engine.inFlight) hcontrol
  · exact congrArg (·.engine.arriving) hcontrol
  · exact congrArg (·.pass.remaining) hcontrol
  · exact congrArg (·.pass.rerun) hcontrol

lemma accept (h : s.Tidy) {exports : Fields}
    (hc : ∀ d ∈ s.engine.cells, d.id = c.id → d.writes = c.writes) : (s.accept c exports).Tidy := by
  rw [accept_eq]
  split
  · exact h.rebuild_adopt.extend
  · next hsame =>
    refine h.adopt fun d hd hid => ?_
    simp only [Bool.or_eq_true, bne_iff_ne, ne_eq, not_or, not_not] at hsame
    rw [hc d hd hid, hsame.1]

/-- A tidy stage is tidy after every move. -/
theorem move (h : s.Tidy) (hm : s.Move l s') : s'.Tidy := by
  cases hm with
  | start _ _ hid hrun =>
    rcases runCell_cases hrun with hcontrol | ⟨c, source, hc, -, -, -, rfl⟩
    · exact congr hcontrol ((h.withdraw _).finish _ _)
    · have hcid := id_eq_of_cell? hc
      have hwaits := List.mem_of_getElem? hid
      exact (h.withdraw _).launch (hcid ▸ h.grounded _ hwaits) (hcid ▸ h.id_not_mem_withdraw hid)
  | @receive a rest hp =>
    have hland := h.land hp
    have hlanding := landing_receive (s.deliver rest) a
    generalize (s.deliver rest).receive a = t at hlanding
    cases hlanding with
    | stale _ => exact hland.dismiss _
    | again _ _ => exact hland.requeue not_mem_flying_land
    | failed _ _ _ => exact congr control_fail ((hland.keepLogs _ _).finish _ _)
    | @accepted c exports logs hc _ _ =>
      refine (hland.keepLogs a.cell logs).accept fun d hd hid => ?_
      obtain ⟨b, hb, rfl⟩ := List.mem_map.mp hd
      have hcell := cell?_of_addressee? hc
      have hmem : c ∈ s.engine.cells := List.mem_of_find?_eq_some hcell
      have hbid : b.id = c.id := by
        rw [← hid]
        split <;> rfl
      rw [← List.inj_on_of_nodup_map h.ids hb hmem hbid]
      split <;> rfl

end Tidy

end ReactiveNotebook.Stage
