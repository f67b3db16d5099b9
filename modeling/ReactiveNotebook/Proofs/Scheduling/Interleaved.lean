import ReactiveNotebook.Proofs.Scheduling.Chronicle
import ReactiveNotebook.Proofs.Scheduling.Owed

/-!
# Edits during a pass

A notebook may be edited while a pass is in progress, so the graph changes under the cells that wait and the scripts
in flight. What reads from a cell that is not done is expected all the same: it is owed an evaluation, waits, or is to
run again. A script whose cell has been edited since the dispatch does not count, for its result is stale. The cells
that an edit adds or changes are seeded, so the only thing to ask of an edit is that it gives no waiting cell another
reader without seeding it.
-/
namespace ReactiveNotebook

variable {l : Language}

namespace Stage

variable {s s' t : Stage} {a : Arrival} {c d : Cell} {id source x y : CellId} {names : Names} {i : ℕ}
variable {exports : Script.Fields} {rest : List Arrival} {logs : List String} {v : String} {reason reason' : Prop}

/-- The cell is owed an evaluation, is to run again, or waits and has a reason to be evaluated. -/
def Expects (s : Stage) (reason : Prop) (x : CellId) : Prop :=
  s.Owes x ∨ x ∈ s.pass.rerun ∨ x ∈ s.pass.remaining ∧ reason

/-- The cell waits, or its script is in flight with the version that it has. -/
def Unsettled (s : Stage) (x : CellId) : Prop :=
  x ∈ s.pass.remaining ∨ ∃ c ∈ s.engine.cells, c.id = x ∧ (c.id, c.version) ∈ s.engine.inFlight

/-- A pass in progress of a notebook that may be edited meanwhile. -/
structure Heedful (s : Stage) : Prop where
  engaged : s.Engaged
  /-- A cell waits behind those that it reads from, unless it is seeded. -/
  sorted : s.pass.remaining.Pairwise fun x y => s.engine.graph.Edge y x → x ∈ s.engine.seeds
  /-- What reads from a cell that is not done is expected. -/
  closed : ∀ x y, s.Unsettled x → s.engine.graph.Edge x y → s.Expects True y
  /-- A cell that has been edited since its script was dispatched is seeded. -/
  flights : ∀ c ∈ s.engine.cells, ∀ version, (c.id, version) ∈ s.engine.inFlight →
    version = c.version ∨ version < c.version ∧ c.id ∈ s.engine.seeds
  /-- The pass sees of a variable what is committed, or all its readers are seeded. -/
  synced : ∀ v, s.pass.slot v = s.engine.get v ∨ ∀ c ∈ s.engine.cells, v ∈ c.reads → c.id ∈ s.engine.seeds

lemma Expects.mono (h : s.Expects reason x) (hr : reason → reason') : s.Expects reason' x :=
  h.imp_right (Or.imp_right fun ⟨hw, hreason⟩ => ⟨hw, hr hreason⟩)

lemma Expects.start_of_ne (h : s.Expects reason x) (hstarts : Starts id s s') (hx : x ≠ id) : s'.Expects reason x := by
  rcases h with howes | hrerun | ⟨hw, hreason⟩
  · exact .inl (howes.start_of_ne hstarts hx)
  · exact .inr (.inl (hstarts.rerun ▸ hrerun))
  · exact .inr (.inr ⟨(hstarts.waiting x).mpr ⟨hw, hx⟩, hreason⟩)

lemma expects_of_seed (h : x ∈ s.engine.seeds) : s.Expects reason x := .inl (.inl h)

lemma Unsettled.isActive (h : s.Unsettled x) : s.IsActive x :=
  h.imp_right fun ⟨_, _, hid, hfly⟩ => hid ▸ List.mem_map_of_mem hfly

lemma exists_mem_of_revisions (h : t.revisions = s.revisions) (hd : d ∈ t.engine.cells) :
    ∃ c ∈ s.engine.cells, c.id = d.id ∧ c.version = d.version ∧ c.reads = d.reads := by
  obtain ⟨c, hc, heq⟩ := Cell.exists_revision h hd
  simp only [Cell.revision, Prod.mk.injEq] at heq
  exact ⟨c, hc, heq.1, heq.2.2.1, heq.2.2.2⟩

/-- Scripts that are in flight after a step of the pass were so before, with the versions that their cells have. -/
lemma unsettled_of_flight (hrev : t.revisions = s.revisions) (hflight : ∀ p ∈ t.engine.inFlight, p ∈ s.engine.inFlight)
    (hd : d ∈ t.engine.cells) (hfly : (d.id, d.version) ∈ t.engine.inFlight) : s.Unsettled d.id := by
  obtain ⟨c, hc, hid, hversion, -⟩ := exists_mem_of_revisions hrev hd
  exact .inr ⟨c, hc, hid, hid.symm ▸ hversion.symm ▸ hflight _ hfly⟩

namespace Heedful

lemma synced_of_replaces (h : s.Heedful) (hreplaces : Replaces (fun _ => True) s t) (hrev : t.revisions = s.revisions)
    (hseeds : ∀ x ∈ s.engine.seeds, x ∈ t.engine.seeds) (v : String) :
    t.pass.slot v = t.engine.get v ∨ ∀ c ∈ t.engine.cells, v ∈ c.reads → c.id ∈ t.engine.seeds := by
  refine (h.synced v).imp hreplaces.synced fun hall d hd hread => ?_
  obtain ⟨c, hc, hid, -, hreads⟩ := exists_mem_of_revisions hrev hd
  exact hid ▸ hseeds _ (hall c hc (hreads ▸ hread))

/-- A cell that is started reads from no cell that is not done, unless it is seeded. -/
lemma mem_seeds_of_next (h : s.Heedful) (hs : s.Tidy) (hi : s.next? = some i) (hid : s.pass.remaining[i]? = some id)
    (hx : s.Unsettled x) (hedge : s.engine.graph.Edge x id) : id ∈ s.engine.seeds := by
  rcases ready_or_first_of_next hi hid with hready | ⟨hnone, -, others, hcons⟩
  · -- a ready cell reads only from cells that are done, as far as they take part
    obtain ⟨hmember, hdone⟩ := h.engaged x hx.isActive
    exact absurd (isReady_iff.mp hready x ((hs.coherent.edge_iff x _).mp hedge) hmember) hdone
  · -- without scripts in flight the first of the waiting cells is started
    have hw : x ∈ s.pass.remaining := hx.resolve_right fun ⟨_, _, _, hfly⟩ => by
      rw [hnone] at hfly
      cases hfly
    obtain ⟨b, -, d, -, hb, hd, hne, -⟩ := hs.edge_iff.mp hedge
    have hsorted := h.sorted
    rw [hcons] at hw hsorted
    rcases List.mem_cons.mp hw with rfl | hw
    · exact absurd (hb.trans hd.symm) hne
    · exact (List.pairwise_cons.mp hsorted).1 x hw hedge

lemma start (h : s.Heedful) (hs : s.Tidy) (hi : s.next? = some i) (hid : s.pass.remaining[i]? = some id)
    (hrun : (s.withdraw i).runCell l id = .ok s') : s'.Heedful := by
  have hstarts := starts_of_runCell hs hid hrun
  have hwaits : id ∈ s.pass.remaining := List.mem_of_getElem? hid
  have hrev : s'.revisions = s.revisions := revisions_of_runCell hrun
  have hturn : Replaces (fun _ => True) (s.withdraw i) s' := replaces_turn (turn_of_runCell hrun)
  have hreplaces : Replaces (fun _ => True) s s' := ⟨hturn.value, hturn.changed, hturn.keeps⟩
  have hflight : ∀ d ∈ s'.engine.cells, ∀ version, (d.id, version) ∈ s'.engine.inFlight →
      (d.id, version) ∈ s.engine.inFlight ∨ d.id = id ∧ version = d.version := fun d hd version hfly => by
    rcases hstarts.fate with ⟨-, heq⟩ | ⟨-, c, hc, hcid, -, heq⟩ <;> rw [heq] at hfly
    · exact .inl hfly
    · rcases List.mem_cons.mp hfly with hfly | hfly
      · obtain ⟨b, hb, hbid, hversion, -⟩ := exists_mem_of_revisions hrev hd
        simp only [Prod.mk.injEq] at hfly
        obtain rfl : b = c := List.inj_on_of_nodup_map hs.ids hb hc (hbid.trans (hfly.1.trans hcid.symm))
        exact .inr ⟨hfly.1, hfly.2.trans hversion⟩
      · exact .inl hfly
  have hunsettled : ∀ x, s'.Unsettled x → s.Unsettled x := fun x hx => by
    rcases hx with hw | ⟨d, hd, rfl, hfly⟩
    · exact .inl ((hstarts.waiting x).mp hw).1
    · rcases hflight d hd _ hfly with hfly | ⟨hdid, -⟩
      · obtain ⟨b, hb, hbid, hversion, -⟩ := exists_mem_of_revisions hrev hd
        exact .inr ⟨b, hb, hbid, hbid.symm ▸ hversion.symm ▸ hfly⟩
      · exact .inl (hdid ▸ hwaits)
  refine
    { engaged := h.engaged.start hs hwaits hstarts
      sorted := ?_
      closed := fun x y hx hedge => ?_
      flights := fun d hd version hfly => ?_
      synced := h.synced_of_replaces hreplaces hrev fun x hx => hstarts.seeds ▸ hx }
  · rw [hstarts.graph, hstarts.seeds]
    exact h.sorted.sublist (sublist_of_runCell hrun)
  · rw [hstarts.graph] at hedge
    by_cases hy : y = id
    · subst hy
      exact expects_of_seed (hstarts.seeds ▸ h.mem_seeds_of_next hs hi hid (hunsettled x hx) hedge)
    · exact (h.closed x y (hunsettled x hx) hedge).start_of_ne hstarts hy
  · rw [hstarts.seeds]
    rcases hflight d hd version hfly with hfly | ⟨-, hversion⟩
    · obtain ⟨b, hb, hbid, hversion, -⟩ := exists_mem_of_revisions hrev hd
      rw [← hbid, ← hversion]
      exact h.flights b hb version (hbid.symm ▸ hfly)
    · exact .inl hversion

end Heedful

/-- Scripts that are to run again stay noted until they land. -/
lemma mem_rerun_of_landing (h : Landing s a t) (hx : x ∈ s.pass.rerun) (hne : x ≠ a.cell) : x ∈ t.pass.rerun := by
  have hkept : x ∈ s.pass.rerun.filter (· != a.cell) := Names.mem_filter.mpr ⟨hx, bne_iff_ne.mpr hne⟩
  cases h with
  | stale _ =>
    obtain ⟨completed, results, heq⟩ := dismiss_shape (s.land a.cell) a.cell
    rw [heq]
    exact hkept
  | again _ _ => exact hkept
  | @failed c message logs _ _ _ =>
    have hrerun : _ = s.pass.rerun.filter (· != a.cell) :=
      congrArg (·.pass.rerun) (control_failed s a c logs message)
    exact hrerun ▸ hkept
  | @accepted c exports logs _ _ _ =>
    have hrerun : ((s.landed a logs).adopt c exports).pass.rerun = s.pass.rerun.filter (· != a.cell) :=
      congrArg (·.pass.rerun) (control_adopt (s.landed a logs) c exports)
    rcases accept_cases (s.landed a logs) c exports with ⟨-, heq⟩ | heq
    · rw [heq, hrerun]
      exact hkept
    · rw [heq]
      exact mem_rerun_extend.mpr (.inr (hrerun ▸ hkept))

/-- Cells that come onto a cycle when the pass is enlarged are marked. -/
lemma owes_extend_of_onCycle (hs : s.Tidy) (hp : x ∈ s.pending source names) (hcycle : s.engine.graph.OnCycle x) :
    (s.extend source names).Owes x := by
  refine .inr (.inr ⟨fun hfly => ?_, fun c hc hcid => ?_⟩)
  · rw [flying_extend] at hfly
    rcases mem_pending.mp hp with hw | ⟨-, hout⟩
    · exact hs.grounded x hw hfly
    · exact hout hfly
  · rcases mem_cells_extend hs hc with ⟨-, hfree⟩ | ⟨-, -, hmark⟩
    · exact absurd (hcid ▸ ⟨hp, hcycle⟩) hfree
    · exact hmark

/-- A waiting cell of the notebook waits when the pass has been enlarged, or it has been marked. -/
lemma waits_or_owes_extend (hs : s.Tidy) (hp : x ∈ s.pending source names) (hk : x ∈ s.engine.graph.ids) :
    x ∈ (s.extend source names).pass.remaining ∨ (s.extend source names).Owes x := by
  by_cases hcycle : s.engine.graph.OnCycle x
  · exact .inr (owes_extend_of_onCycle hs hp hcycle)
  · exact .inl ((mem_remaining_extend hs).mpr ⟨hp, hk, hcycle⟩)

/-- All that is downstream of new exports is expected. -/
lemma expects_of_downstream (hs : s.Tidy) (hx : x ∈ s.downstream source names) :
    (s.extend source names).Expects True x := by
  by_cases hfly : x ∈ s.flying
  · exact .inr (.inl (mem_rerun_extend.mpr (.inl ⟨hx, hfly⟩)))
  · have hk : x ∈ s.engine.graph.ids := Graph.closure_known hs.coherent (List.mem_filter.mp hx).1
    rcases waits_or_owes_extend hs (mem_pending.mpr (.inr ⟨hx, hfly⟩)) hk with hw | howes
    · exact .inr (.inr ⟨hw, trivial⟩)
    · exact .inl howes

/-- A waiting cell of the notebook waits after a result has arrived, or it has been marked. -/
lemma waits_or_owes_of_landing (hs : s.Tidy) (hperm : s.engine.arriving.Perm (a :: rest))
    (hno : PutsBack s ((s.deliver rest).receive a) a → s.Unlooped) (hx : x ∈ s.pass.remaining)
    (hk : x ∈ s.engine.cells.map (·.id)) :
    x ∈ ((s.deliver rest).receive a).pass.remaining ∨ ((s.deliver rest).receive a).Owes x := by
  have hid : a.cell ∈ s.flying := flying_of_arriving hs hperm
  have hlanding := landing_receive (s.deliver rest) a
  have hput : ∀ c, s.engine.cell? a.cell = some c → c.version = a.version → a.cell ∈ s.pass.rerun → s.Unlooped :=
    fun c hc hv hr => hno ⟨rest, hperm, rfl, hr, c, hc, hv⟩
  generalize (s.deliver rest).receive a = t at hlanding
  cases hlanding with
  | stale _ =>
    obtain ⟨completed, results, heq⟩ := dismiss_shape ((s.deliver rest).land a.cell) a.cell
    rw [heq]
    exact .inl hx
  | again hc hr =>
    have hfree := hput _ (cell?_of_addressee? hc) (version_of_addressee? hc) hr
    exact .inl (hfree.mem_requeue hs hid (.inr hx) hk)
  | @failed c message logs _ _ _ =>
    have hremaining : _ = s.pass.remaining :=
      congrArg (·.pass.remaining) (control_failed (s.deliver rest) a c logs message)
    exact .inl (hremaining ▸ hx)
  | @accepted c exports logs _ _ _ =>
    have hremaining : (((s.deliver rest).landed a logs).adopt c exports).pass.remaining = s.pass.remaining :=
      congrArg (·.pass.remaining) (control_adopt ((s.deliver rest).landed a logs) c exports)
    rcases accept_cases ((s.deliver rest).landed a logs) c exports with ⟨-, heq⟩ | heq
    · rw [heq, hremaining]
      exact .inl hx
    · have hkept : ((s.deliver rest).landed a logs).Tidy := (hs.land hperm).keepLogs a.cell logs
      have ht : (((s.deliver rest).landed a logs).readopt c exports).Tidy := hkept.rebuild_adopt
      rw [heq]
      refine waits_or_owes_extend ht (mem_pending.mpr (.inl ?_)) (ht.mem_ids_iff.mpr ?_)
      · exact hremaining.symm ▸ hx
      · change x ∈ (((s.deliver rest).landed a logs).adopt c exports).engine.cells.map (·.id)
        rw [ids_adopt, ids_of_control control_keepLogs]
        exact hk

/-- What is expected is expected still when a result has arrived. -/
lemma Expects.receive (h : s.Expects reason x) (hs : s.Tidy) (hheedful : s.Heedful) (hk : x ∈ s.engine.cells.map (·.id))
    (hperm : s.engine.arriving.Perm (a :: rest)) (hno : PutsBack s ((s.deliver rest).receive a) a → s.Unlooped) :
    ((s.deliver rest).receive a).Expects reason x := by
  rcases h with howes | hrerun | ⟨hw, hreason⟩
  · exact .inl (howes.receive hs hperm hno)
  · have hlanding := landing_receive (s.deliver rest) a
    by_cases hx : x = a.cell
    · subst hx
      obtain ⟨c, hc, hcid⟩ := List.mem_map.mp hk
      have hfly : (c.id, a.version) ∈ s.engine.inFlight := hcid.symm ▸ flight_of_arriving hs hperm
      by_cases hversion : a.version = c.version
      · -- the script is put back, as a seed of the pass
        have hcell := addressee?_of_inFlight hs hperm hc hcid (hversion ▸ hfly)
        have hput : PutsBack s ((s.deliver rest).receive a) a :=
          ⟨rest, hperm, rfl, hrerun, c, cell?_of_addressee? hcell, version_of_addressee? hcell⟩
        have hback : a.cell ∈ (((s.deliver rest).land a.cell).requeue a.cell).pass.remaining :=
          (hno hput).mem_requeue hs (flying_of_arriving hs hperm) (.inl rfl) hk
        rw [receive_again hcell hrerun]
        exact .inl (.inr (.inl ⟨hback, Names.mem_insert.mpr (.inl rfl)⟩))
      · -- the cell has been edited since the dispatch
        obtain ⟨-, hseed⟩ := (hheedful.flights c hc _ hfly).resolve_left hversion
        exact expects_of_seed (hlanding.seeds (hcid ▸ hseed))
    · exact .inr (.inl (mem_rerun_of_landing hlanding hrerun hx))
  · rcases waits_or_owes_of_landing hs hperm hno hw hk with hw | howes
    · exact .inr (.inr ⟨hw, hreason⟩)
    · exact .inl howes

/-- A reader that is expected on account of a change is evaluated, or it is expected still. -/
theorem Expects.move (h : s.Expects (v ∈ s.pass.changed) c.id) (hs : s.Tidy) (hheedful : s.Heedful)
    (hc : c ∈ s.engine.cells) (hread : v ∈ c.reads) (hm : s.Move l s') (hno : ∀ a, PutsBack s s' a → s.Unlooped)
    (hspares : s.Spares l s' c.id) : s'.Expects (v ∈ s'.pass.changed) c.id := by
  have hreplaces := (Goes.move hm).replaces hs
  cases hm with
  | @start i id s' _ hi hid hrun =>
    by_cases hx : c.id = id
    · subst hx
      have hidle := ((judges_or hi hid hrun).resolve_left fun ⟨d, hdid, hjudges⟩ => hspares d hdid hjudges).1
      rcases h with howes | hrerun | ⟨-, hchanged⟩
      · exact .inl (howes.start hs hi hid hrun hspares)
      · exact .inr (.inl ((starts_of_runCell hs hid hrun).rerun ▸ hrerun))
      · have htrigger := hidle c ((Engine.cell?_eq_some_iff hs.ids).mpr ⟨hc, rfl⟩)
        have htrue : s.isTriggered c = true := by
          simp only [isTriggered, Bool.or_eq_true, List.any_eq_true]
          exact .inr ⟨v, Names.mem_toList.mpr hread, .inl (Names.contains_iff.mpr hchanged)⟩
        cases htrigger.symm.trans htrue
    · exact (h.start_of_ne (starts_of_runCell hs hid hrun) hx).mono (hreplaces.keeps v)
  | receive hperm =>
    exact (h.receive hs hheedful (List.mem_map_of_mem hc) hperm (hno _)).mono (hreplaces.keeps v)

/-- A script that comes onto a cycle by new exports is seeded, for it is not marked. -/
lemma mem_seeds_readopt (hs : s.Tidy) (hd : d ∈ s.engine.cells) (hid : d.id = c.id)
    (hcycle : (s.readopt c exports).engine.graph.OnCycle c.id) : c.id ∈ (s.readopt c exports).engine.seeds := by
  have ht : (s.readopt c exports).Tidy := hs.rebuild_adopt
  rw [← hid] at hcycle ⊢
  refine (Engine.marks_rebuild (mem_adopt exports hd hid)).resolve_left fun hmark => ?_
  have hsome : ((s.readopt c exports).engine.graph.cycleOf? d.id).isSome = true := ht.cycleOf?_isSome_iff.mpr hcycle
  have hnone : ((s.readopt c exports).engine.graph.cycleOf? d.id).isSome = false := hmark.symm
  rw [hnone] at hsome
  cases hsome

/-- What reads from a cell that waits when the pass is enlarged is expected afterwards, as far as it was before. -/
lemma expects_of_pending (hs : s.Tidy) (hd : d ∈ s.engine.cells) (hid : d.id = c.id) (hwait : c.id ∉ s.pass.remaining)
    (hold : ∀ x ∈ s.pass.remaining, s.engine.graph.Edge x y →
      ((s.readopt c exports).extend c.id (novel c exports)).Expects True y)
    (hx : x ∈ (s.readopt c exports).pending c.id (novel c exports))
    (hedge : (s.readopt c exports).engine.graph.Edge x y) :
    ((s.readopt c exports).extend c.id (novel c exports)).Expects True y := by
  have ht : (s.readopt c exports).Tidy := hs.rebuild_adopt
  have hremaining : (s.readopt c exports).pass.remaining = s.pass.remaining :=
    congrArg (·.pass.remaining) (control_adopt s c exports)
  rcases mem_pending.mp hx with hw | ⟨hdown, -⟩
  · rw [hremaining] at hw
    exact hold x hw ((edge_readopt_iff hs fun heq => hwait (heq ▸ hw)).mp hedge)
  · by_cases hy : y = c.id
    · subst hy
      have hreach := transGen_of_mem_downstream ht (mem_adopt exports hd hid) hid
        (fun name hname => (mem_novel.mp hname).1) hdown
      exact expects_of_seed (seeds_extend.symm ▸ mem_seeds_readopt hs hd hid (hreach.tail hedge))
    · exact expects_of_downstream ht (mem_downstream_of_edge ht hdown hedge hy)

/-- What reads from a cell that is not done when the pass has been enlarged is expected, as far as it was before. -/
lemma expects_of_edge_extend (hs : s.Tidy) (hd : d ∈ s.engine.cells) (hid : d.id = c.id)
    (hwait : c.id ∉ s.pass.remaining) (hfly : c.id ∉ s.flying)
    (hold : ∀ x, s.Unsettled x → s.engine.graph.Edge x y →
      ((s.readopt c exports).extend c.id (novel c exports)).Expects True y)
    (hx : ((s.readopt c exports).extend c.id (novel c exports)).Unsettled x)
    (hedge : ((s.readopt c exports).extend c.id (novel c exports)).engine.graph.Edge x y) :
    ((s.readopt c exports).extend c.id (novel c exports)).Expects True y := by
  have ht : (s.readopt c exports).Tidy := hs.rebuild_adopt
  rw [graph_extend] at hedge
  rcases hx with hw | ⟨b, hb, rfl, hflight⟩
  · exact expects_of_pending hs hd hid hwait (fun x hx => hold x (.inl hx)) ((mem_remaining_extend ht).mp hw).1 hedge
  · have hrev : ((s.readopt c exports).extend c.id (novel c exports)).revisions = s.revisions := by
      rw [revisions_extend]
      exact (revisions_of_control (control_adopt s c exports)).trans (revisions_modifyCell fun _ => rfl)
    have hsame : ((s.readopt c exports).extend c.id (novel c exports)).engine.inFlight = s.engine.inFlight := by
      rw [inFlight_extend]
      exact inFlight_adopt
    have hunsettled := unsettled_of_flight hrev (fun p hp => hsame ▸ hp) hb hflight
    have hne : b.id ≠ c.id := fun heq => hfly (heq ▸ List.mem_map_of_mem (f := (·.1)) (hsame ▸ hflight))
    exact hold b.id hunsettled ((edge_readopt_iff hs hne).mp hedge)

/-- The cells that wait after a result has arrived are those from before, or they are in order. -/
lemma remaining_or_order_of_landing (h : Landing s a t) :
    t.pass.remaining = s.pass.remaining ∧ t.engine.graph = s.engine.graph ∨
      ∃ members, t.pass.remaining = t.engine.graph.order members := by
  cases h with
  | stale _ =>
    obtain ⟨completed, results, heq⟩ := dismiss_shape (s.land a.cell) a.cell
    rw [heq]
    exact .inl ⟨rfl, rfl⟩
  | again _ _ => exact .inr ⟨_, rfl⟩
  | @failed c message logs _ _ _ =>
    have hcontrol := control_failed s a c logs message
    exact .inl ⟨congrArg (·.pass.remaining) hcontrol, congrArg (·.engine.graph) hcontrol⟩
  | @accepted c exports logs _ _ _ =>
    have hcontrol := control_adopt (s.landed a logs) c exports
    rcases accept_cases (s.landed a logs) c exports with ⟨-, heq⟩ | heq
    · rw [heq]
      exact .inl ⟨congrArg (·.pass.remaining) hcontrol, congrArg (·.engine.graph) hcontrol⟩
    · rw [heq, graph_extend, remaining_extend]
      exact .inr ⟨_, rfl⟩

/-- A result leaves the graph and what is not done, or exports are taken over and the pass is enlarged. -/
lemma unsettled_or_enlarged (hs : s.Tidy) (hperm : s.engine.arriving.Perm (a :: rest)) :
    ((s.deliver rest).receive a).engine.graph = s.engine.graph ∧
        (∀ x, ((s.deliver rest).receive a).Unsettled x → s.Unsettled x) ∨
      ∃ c exports logs, (s.deliver rest).addressee? a = some c ∧ (s.deliver rest).receive a =
        (((s.deliver rest).landed a logs).readopt c exports).extend c.id (novel c exports) := by
  have hlanding := landing_receive (s.deliver rest) a
  -- scripts in flight have been so before, so only the cells that wait have to be looked at
  have hsame : (∀ x ∈ ((s.deliver rest).receive a).pass.remaining, s.Unsettled x) →
      ∀ x, ((s.deliver rest).receive a).Unsettled x → s.Unsettled x := fun hremaining x hx => by
    rcases hx with hw | ⟨d, hd, rfl, hfly⟩
    · exact hremaining x hw
    · refine unsettled_of_flight hlanding.revisions_eq (fun p hp => ?_) hd hfly
      exact List.mem_of_mem_filter (hlanding.inFlight ▸ hp)
  generalize (s.deliver rest).receive a = t at *
  cases hlanding with
  | stale _ =>
    obtain ⟨completed, results, heq⟩ := dismiss_shape ((s.deliver rest).land a.cell) a.cell
    exact .inl ⟨by rw [heq]; rfl, hsame fun x hx => .inl (by rwa [heq] at hx)⟩
  | @again c hc hr =>
    refine .inl ⟨rfl, hsame fun x hx => ?_⟩
    have hmem := (Graph.mem_order hx).1
    rw [Names.mem_insert, Names.mem_ofList] at hmem
    rcases hmem with rfl | hmem
    · obtain ⟨hcm, hcid, hfly⟩ := flight_of_addressee? hs hperm hc
      exact .inr ⟨c, hcm, hcid, hfly⟩
    · exact .inl hmem
  | @failed c message logs _ _ _ =>
    have hcontrol := control_failed (s.deliver rest) a c logs message
    have hremaining : _ = s.pass.remaining := congrArg (·.pass.remaining) hcontrol
    exact .inl ⟨congrArg (·.engine.graph) hcontrol, hsame fun x hx => .inl (hremaining ▸ hx)⟩
  | @accepted c exports logs hc _ _ =>
    have hcontrol := control_adopt ((s.deliver rest).landed a logs) c exports
    rcases accept_cases ((s.deliver rest).landed a logs) c exports with ⟨-, heq⟩ | heq
    · have hremaining : _ = s.pass.remaining := congrArg (·.pass.remaining) hcontrol
      rw [heq] at hsame ⊢
      exact .inl ⟨congrArg (·.engine.graph) hcontrol, hsame fun x hx => .inl (hremaining ▸ hx)⟩
    · exact .inr ⟨c, exports, logs, hc, heq⟩

/-- What reads from a cell that was not done before is expected after a result has arrived. -/
lemma Heedful.expects_of_edge (h : s.Heedful) (hs : s.Tidy) (hperm : s.engine.arriving.Perm (a :: rest))
    (hno : PutsBack s ((s.deliver rest).receive a) a → s.Unlooped) (hx : s.Unsettled x)
    (hedge : s.engine.graph.Edge x y) : ((s.deliver rest).receive a).Expects True y :=
  (h.closed x y hx hedge).receive hs h (hs.mem_ids_iff.mp (hs.coherent.known x y hedge)) hperm hno

/-- What reads from a cell that is not done is expected after a result has arrived. -/
lemma Heedful.closed_receive (h : s.Heedful) (hs : s.Tidy) (hperm : s.engine.arriving.Perm (a :: rest))
    (hno : PutsBack s ((s.deliver rest).receive a) a → s.Unlooped) (hx : ((s.deliver rest).receive a).Unsettled x)
    (hedge : ((s.deliver rest).receive a).engine.graph.Edge x y) : ((s.deliver rest).receive a).Expects True y := by
  rcases unsettled_or_enlarged hs hperm with ⟨hgraph, hkept⟩ | ⟨c, exports, logs, hc, heq⟩
  · exact h.expects_of_edge hs hperm hno (hkept x hx) (hgraph ▸ hedge)
  · obtain ⟨hcm, hcid, -⟩ := flight_of_addressee? hs hperm hc
    have hid : a.cell ∈ s.flying := flying_of_arriving hs hperm
    have hold : ∀ x, s.Unsettled x → s.engine.graph.Edge x y → ((s.deliver rest).receive a).Expects True y :=
      fun x => h.expects_of_edge hs hperm hno
    rw [heq] at hx hedge hold ⊢
    refine expects_of_edge_extend ((hs.land hperm).keepLogs a.cell logs) (mem_landed hcm hcid) rfl (fun hw => ?_)
      (fun hf => ?_) (fun x hx => hold x ?_) hx hedge
    · exact hs.grounded c.id hw (hcid ▸ hid)
    · exact (mem_flying_land (s := s.deliver rest).mp hf).2 hcid
    · have hkept : ((s.deliver rest).landed a logs).revisions = s.revisions := revisions_modifyCell fun _ => rfl
      rcases hx with hw | ⟨d, hd, rfl, hfly⟩
      · exact .inl hw
      · exact unsettled_of_flight hkept (fun p hp => List.mem_of_mem_filter hp) hd hfly

/-- A pass of a notebook that may be edited goes on when a result has arrived. -/
lemma Heedful.receive (h : s.Heedful) (hs : s.Tidy) (ht : ((s.deliver rest).receive a).Tidy)
    (hperm : s.engine.arriving.Perm (a :: rest)) (hno : PutsBack s ((s.deliver rest).receive a) a → s.Unlooped) :
    ((s.deliver rest).receive a).Heedful := by
  have hlanding := landing_receive (s.deliver rest) a
  have hrev : ((s.deliver rest).receive a).revisions = s.revisions := hlanding.revisions_eq
  have hseeds : ∀ x ∈ s.engine.seeds, x ∈ ((s.deliver rest).receive a).engine.seeds := fun x => hlanding.seeds
  have hreplaces := hlanding.replaces (hs.land hperm)
  refine
    { engaged := h.engaged.receive hs hperm
      sorted := ?_
      closed := fun x y hx hedge => h.closed_receive hs hperm hno hx hedge
      flights := fun d hd version hfly => ?_
      synced := h.synced_of_replaces ⟨hreplaces.value, hreplaces.changed, hreplaces.keeps⟩ hrev hseeds }
  · rcases remaining_or_order_of_landing hlanding with ⟨hremaining, hgraph⟩ | ⟨members, horder⟩
    · rw [hremaining, hgraph]
      exact h.sorted.imp fun hxy hedge => hseeds _ (hxy hedge)
    · rw [horder]
      exact (Graph.pairwise_order ht.coherent).imp fun hno hedge => absurd hedge hno
  · obtain ⟨c, hc, hcid, hversion, -⟩ := exists_mem_of_revisions hrev hd
    have hold := h.flights c hc version (hcid.symm ▸ List.mem_of_mem_filter (hlanding.inFlight ▸ hfly))
    rw [hcid, hversion] at hold
    exact hold.imp_right fun ⟨hlt, hseed⟩ => ⟨hlt, hseeds _ hseed⟩

theorem Heedful.move (h : s.Heedful) (hs : s.Tidy) (hm : s.Move l s') (hno : ∀ a, PutsBack s s' a → s.Unlooped) :
    s'.Heedful := by
  have ht := hs.move hm
  cases hm with
  | start _ hi hid hrun => exact h.start hs hi hid hrun
  | receive hperm => exact h.receive hs ht hperm (hno _)

/-- What changes when exports are taken over is expected by its readers, except by the script itself. -/
lemma expects_of_changed_extend (hs : s.Tidy) (hd : d ∈ s.engine.cells) (hid : d.id = c.id)
    (hwait : c.id ∉ s.pass.remaining)
    (hold : ∀ x ∈ s.pass.remaining, ∀ y, s.engine.graph.Edge x y →
      ((s.readopt c exports).extend c.id (novel c exports)).Expects True y)
    {r : Cell} (hr : r ∈ s.engine.cells) (hread : v ∈ r.reads)
    (hown : v ∈ c.writes.names → r.id ≠ c.id → ((s.readopt c exports).extend c.id (novel c exports)).Expects True r.id)
    (hv : ((s.readopt c exports).extend c.id (novel c exports)).engine.get v ≠ s.engine.get v) :
    ((s.readopt c exports).extend c.id (novel c exports)).Expects True r.id ∨
      r.id = c.id ∧ (v ∈ c.writes.names ∨ v ∈ Names.ofList (exports.map (·.1))) := by
  have ht : (s.readopt c exports).Tidy := hs.rebuild_adopt
  obtain ⟨r', hr', hrid, hreads⟩ : ∃ r' ∈ (s.readopt c exports).engine.cells, r'.id = r.id ∧ r'.reads = r.reads := by
    by_cases hrc : r.id = c.id
    · exact ⟨_, mem_adopt exports hr hrc, rfl, rfl⟩
    · exact ⟨r, mem_adopt_of_ne exports hr hrc, rfl, rfl⟩
  rcases changed_extend_readopt hs hv with hexported | ⟨b, hb, hp, hcycle, hw⟩
  · by_cases hrc : r.id = c.id
    · exact .inr ⟨hrc, hexported.symm⟩
    · refine .inl ?_
      by_cases hw : v ∈ c.writes.names
      · exact hown hw hrc
      · have hnovel : v ∈ novel c exports := mem_novel.mpr ⟨hexported.resolve_right hw, hw⟩
        exact expects_of_downstream ht (mem_downstream_of_reads ht (mem_adopt_of_ne exports hr hrc) hrc hnovel hread)
  · refine .inl ?_
    by_cases hbr : b.id = r.id
    · exact .inl (hbr ▸ owes_extend_of_onCycle ht hp hcycle)
    · have hedge : (s.readopt c exports).engine.graph.Edge b.id r.id :=
        ht.edge_iff.mpr ⟨b, hb, r', hr', rfl, hrid, hrid ▸ hbr, v, hw, hreads ▸ hread⟩
      exact expects_of_pending hs hd hid hwait (fun x hx => hold x hx _) hp hedge

namespace Heedful

/-- The other readers of a variable that changes when a cell is started are expected afterwards. -/
lemma expects_of_start (h : s.Heedful) (hs : s.Tidy) (hdeclared : s.engine.Declared)
    (hid : s.pass.remaining[i]? = some id) (hrun : (s.withdraw i).runCell l id = .ok s') (hd : d ∈ s.engine.cells)
    (hne : d.id ≠ id) (hread : v ∈ d.reads) (hv : s'.engine.get v ≠ s.engine.get v) :
    s'.Expects (v ∈ s'.pass.changed) d.id := by
  obtain ⟨c, -, hc, -, -, -, hw⟩ := mem_writes_of_turn hdeclared hs (turn_of_runCell hrun) hv
  obtain ⟨hcm, rfl⟩ := (Engine.cell?_eq_some_iff hs.ids).mp hc
  have hedge : s.engine.graph.Edge c.id d.id := hs.edge_iff.mpr ⟨c, hcm, d, hd, rfl, rfl, hne.symm, v, hw, hread⟩
  have hexpects := h.closed c.id d.id (.inl (List.mem_of_getElem? hid)) hedge
  refine (hexpects.start_of_ne (starts_of_runCell hs hid hrun) hne).mono fun _ => ?_
  exact (replaces_turn (turn_of_runCell hrun)).changed v hv

/-- What changes when a result arrives is written by its script, or exports are taken over and the pass is enlarged. -/
lemma mem_writes_or_enlarged (hv : ((s.deliver rest).receive a).engine.get v ≠ s.engine.get v) :
    (∃ c, (s.deliver rest).addressee? a = some c ∧ v ∈ c.writes.names) ∨
      ∃ c exports logs, (s.deliver rest).addressee? a = some c ∧ (s.deliver rest).receive a =
        (((s.deliver rest).landed a logs).readopt c exports).extend c.id (novel c exports) := by
  have hlanding := landing_receive (s.deliver rest) a
  generalize (s.deliver rest).receive a = t at *
  cases hlanding with
  | stale _ =>
    refine absurd ?_ hv
    obtain ⟨completed, results, heq⟩ := dismiss_shape ((s.deliver rest).land a.cell) a.cell
    rw [heq]
    rfl
  | again _ _ => exact absurd rfl hv
  | @failed c message logs hc _ _ =>
    refine .inl ⟨c, hc, ?_⟩
    by_contra hout
    exact hv (replaces_fail.get_eq hout)
  | @accepted c exports logs hc _ _ =>
    rcases accept_cases ((s.deliver rest).landed a logs) c exports with ⟨hsame, heq⟩ | heq
    · refine .inl ⟨c, hc, ?_⟩
      rw [heq] at hv
      by_contra hout
      exact hv (replaces_adopt.get_eq fun hx => hx.elim (hsame ▸ hout) hout)
    · exact .inr ⟨c, exports, logs, hc, heq⟩

/-- The readers of a variable that changes when a result arrives are expected afterwards, except the script
itself, which writes the variable then or has written it before. -/
lemma expects_of_receive (h : s.Heedful) (hs : s.Tidy) (hperm : s.engine.arriving.Perm (a :: rest))
    (hno : PutsBack s ((s.deliver rest).receive a) a → s.Unlooped) (hd : d ∈ s.engine.cells) (hread : v ∈ d.reads)
    (hv : ((s.deliver rest).receive a).engine.get v ≠ s.engine.get v) :
    ((s.deliver rest).receive a).Expects (v ∈ ((s.deliver rest).receive a).pass.changed) d.id ∨ d.id = a.cell ∧ ∃ b,
      (b ∈ s.engine.cells ∨ b ∈ ((s.deliver rest).receive a).engine.cells) ∧ b.id = a.cell ∧ v ∈ b.writes.names := by
  suffices hsuffices : ((s.deliver rest).receive a).Expects True d.id ∨ d.id = a.cell ∧ ∃ b,
      (b ∈ s.engine.cells ∨ b ∈ ((s.deliver rest).receive a).engine.cells) ∧ b.id = a.cell ∧ v ∈ b.writes.names from
    hsuffices.imp_left (·.mono fun _ => ((landing_receive _ a).replaces (hs.land hperm)).changed v hv)
  have hold : ∀ x y, s.Unsettled x → s.engine.graph.Edge x y → ((s.deliver rest).receive a).Expects True y :=
    fun x y => h.expects_of_edge hs hperm hno
  -- the script of the result has been in flight with the version that its cell has
  have hown : ∀ c, (s.deliver rest).addressee? a = some c → v ∈ c.writes.names →
      d.id ≠ a.cell → ((s.deliver rest).receive a).Expects True d.id := fun c hc hw hne => by
    obtain ⟨hcm, hcid, hfly⟩ := flight_of_addressee? hs hperm hc
    exact hold c.id d.id (.inr ⟨c, hcm, rfl, hfly⟩)
      (hs.edge_iff.mpr ⟨c, hcm, d, hd, rfl, rfl, hcid ▸ hne.symm, v, hw, hread⟩)
  rcases mem_writes_or_enlarged hv with ⟨c, hc, hw⟩ | ⟨c, exports, logs, hc, heq⟩
  · obtain ⟨hcm, hcid, -⟩ := flight_of_addressee? hs hperm hc
    by_cases hne : d.id = a.cell
    · exact .inr ⟨hne, c, .inl hcm, hcid, hw⟩
    · exact .inl (hown c hc hw hne)
  · obtain ⟨hcm, hcid, -⟩ := flight_of_addressee? hs hperm hc
    have hlanded : { c with logs } ∈ ((s.deliver rest).landed a logs).engine.cells := mem_landed hcm hcid
    have hwait : c.id ∉ s.pass.remaining := fun hw => hs.grounded c.id hw (hcid ▸ flying_of_arriving hs hperm)
    obtain ⟨r, hr, hsource⟩ := exists_source (s := (s.deliver rest).land a.cell)
      (t := (s.deliver rest).landed a logs) control_keepLogs.symm hd
    simp only [Graph.Source.ofCell, Graph.Source.mk.injEq] at hsource
    have hresult := expects_of_changed_extend (s := (s.deliver rest).landed a logs) (v := v)
      ((hs.land hperm).keepLogs a.cell logs) hlanded rfl hwait (fun x hx y hedge => heq ▸ hold x y (.inl hx) hedge)
      hr (hsource.2.1 ▸ hread) (fun hw hne => ?_) (heq ▸ hv)
    · rw [hsource.1] at hresult
      rw [heq]
      refine hresult.imp_right fun hwriter => ⟨hwriter.1.trans hcid, ?_⟩
      rcases hwriter.2 with hw | hw
      · exact ⟨c, .inl hcm, hcid, hw⟩
      · obtain ⟨b, hb, hbid, hwrites⟩ := exists_writes_extend (c := c) exports hlanded rfl
        exact ⟨b, .inr hb, hbid.trans hcid, hwrites ▸ hw⟩
    · rw [hsource.1] at hne ⊢
      exact heq ▸ hown c hc hw (hcid ▸ hne)

end Heedful

/-- What is neither the graph nor a cell has no part in it, and more seeds do no harm. -/
lemma Expects.of_seeds (h : s.Expects reason x) (hpass : t.pass = s.pass) (hcells : t.engine.cells = s.engine.cells)
    (hflight : t.engine.inFlight = s.engine.inFlight) (hseeds : ∀ x ∈ s.engine.seeds, x ∈ t.engine.seeds) :
    t.Expects reason x := by
  unfold Expects Owes flying at h ⊢
  rw [hpass, hcells, hflight]
  exact h.imp_left (Or.imp_left (hseeds x))

lemma Heedful.of_seeds (h : s.Heedful) (hpass : t.pass = s.pass) (hcells : t.engine.cells = s.engine.cells)
    (hgraph : t.engine.graph = s.engine.graph) (hflight : t.engine.inFlight = s.engine.inFlight)
    (hget : ∀ v, t.engine.get v = s.engine.get v) (hseeds : ∀ x ∈ s.engine.seeds, x ∈ t.engine.seeds) : t.Heedful where
  engaged := by
    unfold Engaged flying
    rw [hpass, hflight]
    exact h.engaged
  sorted := by
    rw [hpass, hgraph]
    exact h.sorted.imp fun hxy hedge => hseeds _ (hxy hedge)
  closed x y hx hedge := by
    unfold Unsettled at hx
    rw [hpass, hcells, hflight] at hx
    exact (h.closed x y hx (hgraph ▸ hedge)).of_seeds hpass hcells hflight hseeds
  flights c hc version hfly :=
    (h.flights c (hcells ▸ hc) version (hflight ▸ hfly)).imp_right fun ⟨hlt, hseed⟩ => ⟨hlt, hseeds _ hseed⟩
  synced v := by
    rw [hpass, hget]
    exact (h.synced v).imp_right fun hall c hc hread => hseeds _ (hall c (hcells ▸ hc) hread)

end Stage

namespace Engine

open Stage

variable {e e' : Engine} {p : Pass} {c : Cell} {x : CellId} {v : String} {reason : Prop}

/-- If a pass is in progress, it may go on though the notebook is edited. -/
def Heedful (e : Engine) : Prop := ∀ p, e.pass = some p → (e.resume p).Heedful

/-- A new pass takes in all that is downstream of what waits. -/
lemma expects_beginPass_of_reached (ht : e.Tidy) (hp : e.pass = none) (hx : x ∈ e.reached) :
    e.beginPass.Expects True x := by
  by_cases hcycle : e.graph.OnCycle x
  · refine .inl (.inr (.inr ⟨flying_beginPass ht hp ▸ List.not_mem_nil, fun c hc hcid => ?_⟩))
    rcases mem_cells_beginPass ht hc with ⟨-, hout⟩ | ⟨-, hmark⟩
    · exact absurd (hcid ▸ ⟨hx, hcycle⟩) hout
    · exact hmark
  · exact .inr (.inr ⟨(mem_remaining_beginPass ht).mpr ⟨hx, hcycle⟩, trivial⟩)

lemma heedful_beginPass (ht : e.Tidy) (hp : e.pass = none) : e.beginPass.Heedful := by
  have hfly := flying_beginPass ht hp
  refine
    { engaged := fun x hx => active_beginPass (hx.resolve_right (hfly ▸ List.not_mem_nil))
      sorted := (sorted_beginPass ht).imp fun hno hedge => absurd (graph_beginPass e ▸ hedge) hno
      closed := fun x y hx hedge => ?_
      flights := fun c hc version hflight => ?_
      synced := fun v => .inl ((replaces_beginPass ht).synced Pass.slot_start) }
  · have hw : x ∈ e.beginPass.pass.remaining := hx.isActive.resolve_right (hfly ▸ List.not_mem_nil)
    rw [graph_beginPass] at hedge
    exact expects_beginPass_of_reached ht hp (reached_of_edge ht ((mem_remaining_beginPass ht).mp hw).1 hedge)
  · have hmem : c.id ∈ e.beginPass.flying := List.mem_map_of_mem (f := (·.1)) hflight
    rw [hfly] at hmem
    cases hmem

/-- The readers of a variable that changes when a pass begins are expected. -/
lemma expects_of_changed_beginPass (ht : e.Tidy) (hp : e.pass = none) (hc : c ∈ e.beginPass.engine.cells)
    (hread : v ∈ c.reads) (hv : e.beginPass.engine.get v ≠ e.get v) :
    e.beginPass.Expects (v ∈ e.beginPass.pass.changed) c.id := by
  suffices hexpects : e.beginPass.Expects True c.id from
    hexpects.mono fun _ => (replaces_beginPass ht).changed v hv
  obtain ⟨b, hb, hreached, -, hw⟩ : ∃ b ∈ e.cells, b.id ∈ e.reached ∧ e.graph.OnCycle b.id ∧ v ∈ b.writes.names := by
    by_contra hout
    exact hv ((replaces_beginPass ht).get_eq hout)
  obtain ⟨d, hd, hsame⟩ := exists_source (s := e.blockCycles) (control_blockCycles e) hc
  simp only [Graph.Source.ofCell, Graph.Source.mk.injEq] at hsame
  rw [← hsame.1]
  refine expects_beginPass_of_reached ht hp ?_
  by_cases hbd : b.id = d.id
  · exact hbd ▸ hreached
  · refine reached_of_edge ht hreached ?_
    rw [ht.graph, Graph.edge_build_iff ht.ids]
    exact ⟨b, hb, d, hd, rfl, rfl, hbd, v, hw, hsame.2.1.symm ▸ hread⟩

/-- After the step a waiting cell has no new reader that is not seeded. -/
def Announced (e e' : Engine) : Prop :=
  ∀ p, e.pass = some p → ∀ x ∈ p.remaining, ∀ y, e'.graph.Edge x y → e.graph.Edge x y ∨ y ∈ e'.seeds

lemma Edit.pass_eq (h : Edit e e') : e'.pass = e.pass ∧ e'.inFlight = e.inFlight := by
  rcases h.shape with rfl | ⟨cells, store, seeds, rfl⟩ <;> exact ⟨rfl, rfl⟩

/-- A cell is expected after an edit that was expected before, for what is changed is seeded. -/
lemma expects_of_effect (heffect : Effect e e') (hflight : e'.inFlight = e.inFlight) (hx : x ∈ e'.cells.map (·.id))
    (h : (e.resume p).Expects reason x) : (e'.resume p).Expects reason x := by
  obtain ⟨c, hc, rfl⟩ := List.mem_map.mp hx
  rcases h with (hseed | hw | ⟨hfly, hmark⟩) | hrest
  · exact expects_of_seed (heffect.seeds c hc hseed)
  · exact .inl (.inr (.inl hw))
  · by_cases hseed : c.id ∈ e'.seeds
    · exact expects_of_seed hseed
    · refine .inl (.inr (.inr ⟨fun hf => hfly ?_, fun d hd hid => ?_⟩))
      · unfold flying at hf ⊢
        exact hflight ▸ hf
      · exact hmark d ((heffect.cells d hd).resolve_right (hid ▸ hseed)) hid
  · exact .inr hrest

/-- An edit leaves a pass heedful if what is in flight is not added anew and what waits gets no reader without it being
seeded. -/
theorem heedful_of_edit (h : (e.resume p).Heedful) (ht : e.Tidy) (ht' : e'.Tidy) (hp : e.pass = some p)
    (hedit : Edit e e') (hflying : ∀ x ∈ e.inFlight.map (·.1), e'.hasCell x = true → e.hasCell x = true)
    (hannounced : Announced e e') : (e'.resume p).Heedful := by
  rcases hedit.effect ht.ids ht.graph with rfl | heffect
  · exact h
  obtain ⟨hpass, hflight⟩ := hedit.pass_eq
  have hs' := ht'.pass p (hpass.trans hp)
  -- a cell with a script in flight is one from before, or one that has been changed since
  have horigin : ∀ c ∈ e'.cells, ∀ version, (c.id, version) ∈ e.inFlight →
      c ∈ e.cells ∨ version < c.version ∧ c.id ∈ e'.seeds := fun c hc version hfly => by
    rcases heffect.cells c hc with hold | hseed
    · exact .inl hold
    rcases hedit.origin ht.ids hc with hold | hfresh | ⟨b, hb, hbid, -, hversion⟩
    · exact .inl hold
    · have hthere := hflying c.id (List.mem_map_of_mem hfly) (hasCell_iff.mpr (List.mem_map_of_mem hc))
      exact absurd (hasCell_iff.mp hthere) hfresh
    · refine .inr ⟨?_, hseed⟩
      rcases h.flights b hb version (hbid.symm ▸ hfly) with heq | ⟨hlt, -⟩
      · exact heq ▸ hversion
      · exact hlt.trans hversion
  have hedge : ∀ x y, (e'.resume p).Unsettled x → e'.graph.Edge x y →
      (e.resume p).Unsettled x ∧ e.graph.Edge x y ∨ y ∈ e'.seeds := fun x y hx hxy => by
    rcases hx with hw | ⟨c, hc, rfl, hfly⟩
    · exact (hannounced p hp x hw y hxy).imp_left fun hold => ⟨.inl hw, hold⟩
    · change (c.id, c.version) ∈ e'.inFlight at hfly
      rw [hflight] at hfly
      have hold : c ∈ e.cells := (horigin c hc c.version hfly).resolve_right fun hnew => hnew.1.false
      obtain ⟨b, hb, d, hd, hbid, rfl, hne, v, hw, hr⟩ := hs'.edge_iff.mp hxy
      obtain rfl : b = c := List.inj_on_of_nodup_map ht'.ids hb hc hbid
      refine (heffect.cells d hd).imp_left fun hdold => ⟨.inr ⟨b, hold, rfl, hfly⟩, ?_⟩
      exact (ht.pass p hp).edge_iff.mpr ⟨b, hold, d, hdold, rfl, rfl, hne, v, hw, hr⟩
  refine
    { engaged := fun x hx => h.engaged x ?_
      sorted := ?_
      closed := fun x y hx hxy => ?_
      flights := fun c hc version hfly => ?_
      synced := fun v => ?_ }
  · unfold flying at hx ⊢
    exact hflight ▸ hx
  · refine h.sorted.imp_of_mem fun hx hy hxy hyx => ?_
    have hknown := hs'.mem_ids_iff.mp (hs'.coherent.known _ _ hyx)
    obtain ⟨c, hc, rfl⟩ := List.mem_map.mp hknown
    rcases hedge _ _ (.inl hy) hyx with ⟨-, hold⟩ | hseed
    · exact heffect.seeds c hc (hxy hold)
    · exact hseed
  · rcases hedge x y hx hxy with ⟨hx, hold⟩ | hseed
    · exact expects_of_effect heffect hflight (hs'.mem_ids_iff.mp (hs'.coherent.known x y hxy)) (h.closed x y hx hold)
    · exact expects_of_seed hseed
  · change (c.id, version) ∈ e'.inFlight at hfly
    rw [hflight] at hfly
    rcases horigin c hc version hfly with hold | hnew
    · exact (h.flights c hold version hfly).imp_right fun ⟨hlt, hseed⟩ => ⟨hlt, heffect.seeds c hc hseed⟩
    · exact .inr hnew
  · rcases heffect.value v with hsame | hcleared
    · refine (h.synced v).imp (fun hslot => hslot.trans hsame.symm) fun hall c hc hread => ?_
      rcases heffect.cells c hc with hold | hseed
      · exact heffect.seeds c hc (hall c hold hread)
      · exact hseed
    · exact .inr hcleared.readers

lemma Heedful.of_seeds (h : e.Heedful) (hpass : e'.pass = e.pass) (hcells : e'.cells = e.cells)
    (hgraph : e'.graph = e.graph) (hflight : e'.inFlight = e.inFlight) (hget : ∀ v, e'.get v = e.get v)
    (hseeds : ∀ x ∈ e.seeds, x ∈ e'.seeds) : e'.Heedful := fun p hp =>
  (h p (hpass ▸ hp)).of_seeds rfl hcells hgraph hflight hget hseeds

lemma heedful_of_idle (h : e.pass = none) : e.Heedful := fun p hp => by cases h.symm.trans hp

lemma heedful_suspend {s : Stage} (h : s.Heedful) (hp : s.engine.pass = none) : s.suspend.Heedful := fun p hp' => by
  obtain rfl : s.pass = p := Option.some.inj hp'
  rw [resume_suspend hp]
  exact h

theorem Ongoing.heedful (h : Ongoing l e e') (ht : e.Tidy) (he : e.Heedful) (hloops : ∀ p s a, e.pass = some p →
    PutsBack (e.resume p) s a → e' = s.suspend → (e.resume p).Unlooped) : e'.Heedful := by
  cases h with
  | host hh =>
    have hget := hh.get_eq
    cases hh with
    | seed ids => exact he.of_seeds rfl rfl rfl rfl hget fun x hx => Names.mem_insertAll.mpr (.inr hx)
    | _ => exact he.of_seeds rfl rfl rfl rfl hget fun x hx => hx
  | collect hp => exact heedful_of_idle (pass_collect.trans hp)
  | begin hp => exact heedful_suspend (heedful_beginPass ht hp) (engine_pass_beginPass.trans hp)
  | @move p s hp hm =>
    exact heedful_suspend ((he p hp).move (ht.pass p hp) hm fun a hput => hloops p s a hp hput rfl) hm.engine_pass
  | finish _ _ _ => exact heedful_of_idle rfl

theorem Edit.heedful (h : Edit e e') (ht : e.Tidy) (ht' : e'.Tidy) (he : e.Heedful)
    (hflying : ∀ x ∈ e.inFlight.map (·.1), e'.hasCell x = true → e.hasCell x = true) (hannounced : Announced e e') :
    e'.Heedful := fun p hp => by
  have hp := h.pass_eq.1 ▸ hp
  exact heedful_of_edit (he p hp) ht ht' hp h hflying hannounced

end Engine

end ReactiveNotebook
