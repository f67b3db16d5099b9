import ReactiveNotebook.Proofs.Engine.Arrival
import ReactiveNotebook.Proofs.Engine.Begin
import ReactiveNotebook.Proofs.Engine.Start
import ReactiveNotebook.Proofs.Engine.Tick

/-!
# Cells that have not been evaluated

A notebook that is edited between passes only loses no cell: one that has not been evaluated since it was added
is a seed of the next pass, or the present pass is going to evaluate it. A script that is put back to run again
might push such a cell out of the order of those that wait, but only if the two lay on a cycle of cells that all
wait or are in flight, and there is none.
-/
namespace ReactiveNotebook

open Relation (TransGen ReflTransGen)

variable {l : Language}

lemma Cell.status_withVerdict_ne {c : Cell} {v : Verdict} (h : ∀ source inputs, v ≠ .script source inputs) :
    (c.withVerdict v).status ≠ .pending := by
  cases v with
  | script source inputs => exact absurd rfl (h source inputs)
  | _ => nofun

namespace Stage

variable {s s' t : Stage} {a : Arrival} {c d : Cell} {id source x : CellId} {names : Names} {i : ℕ}
variable {exports : Script.Fields} {rest : List Arrival}

/-- The cell waits or is in flight. -/
def IsActive (s : Stage) (x : CellId) : Prop := x ∈ s.pass.remaining ∨ x ∈ s.flying

/-- No cycle is made up of cells that wait or are in flight. -/
def Unlooped (s : Stage) : Prop := ∀ x, ¬ s.engine.graph.OnCycleWithin s.IsActive x

/-- The cell is going to be evaluated, by this pass or by the next one. -/
def Attends (s : Stage) (c : Cell) : Prop :=
  c.id ∈ s.engine.seeds ∨ c.id ∈ s.pass.remaining ∧ c.id ∈ s.pass.seeds ∨ (c.id, c.version) ∈ s.engine.inFlight

/-- No cell that has not been evaluated is lost. -/
structure Attentive (s : Stage) : Prop where
  unlooped : ∀ x, ¬ s.engine.graph.OnCycleWithin s.IsActive x
  pending : ∀ c ∈ s.engine.cells, c.status = .pending → s.Attends c

lemma Attends.start (h : s.Attends c) (hstarts : Starts id s s') (hne : c.id ≠ id) : s'.Attends c := by
  unfold Attends
  rw [hstarts.seeds, hstarts.waiting, hstarts.roots]
  refine h.imp_right (Or.imp (fun hw => ⟨⟨hw.1, hne⟩, hw.2⟩) fun hfly => ?_)
  rcases hstarts.fate with ⟨-, hflight⟩ | ⟨-, b, -, -, -, hflight⟩ <;> rw [hflight]
  · exact hfly
  · exact List.mem_cons_of_mem _ hfly

lemma Attentive.start (h : s.Attentive) (hs : s.Tidy) (hid : s.pass.remaining[i]? = some id)
    (hrun : (s.withdraw i).runCell l id = .ok s') : s'.Attentive := by
  have hstarts := starts_of_runCell hs hid hrun
  have hwaits : id ∈ s.pass.remaining := List.mem_of_getElem? hid
  have hactive : ∀ x, s'.IsActive x → s.IsActive x := fun x hx => by
    rcases hx with hx | hx
    · exact .inl ((hstarts.waiting x).mp hx).1
    · rcases hstarts.mem_flying hx with hx | rfl
      · exact .inr hx
      · exact .inl hwaits
  refine ⟨fun x hx => h.unlooped x ?_, fun d hd hpending => ?_⟩
  · rw [hstarts.graph] at hx
    exact hx.of_edges fun a b hab ha hb => ⟨hab, hactive a ha, hactive b hb⟩
  · by_cases hdid : d.id = id
    · rcases mem_cells_start hs hrun hd hdid with ⟨hd, hroot | hfly⟩ | ⟨c, -, v, -, hscript, rfl⟩
      · rcases h.pending d hd hpending with hseed | ⟨-, hin⟩ | hfly
        · exact .inl (hstarts.seeds ▸ hseed)
        · exact absurd (hdid ▸ hin) hroot
        · exact absurd (List.mem_map_of_mem (f := (·.1)) hfly) (hdid ▸ hs.grounded id hwaits)
      · exact .inr (.inr (hdid ▸ hfly))
      · exact absurd hpending (Cell.status_withVerdict_ne hscript)
    · exact (h.pending d (hstarts.cells d hd hdid) hpending).start hstarts hdid

lemma Attends.land (h : s.Attends c) (hseeds : ∀ x ∈ s.engine.seeds, x ∈ t.engine.seeds)
    (hroots : t.pass.seeds = s.pass.seeds) (hremaining : c.id ∈ s.pass.remaining → c.id ∈ t.pass.remaining)
    (hflight : t.engine.inFlight = s.engine.inFlight.filter (·.1 != id))
    (hnot : c.id = id → (c.id, c.version) ∉ s.engine.inFlight) : t.Attends c := by
  refine h.imp (hseeds _) (Or.imp (fun hw => ⟨hremaining hw.1, hroots ▸ hw.2⟩) fun hfly => ?_)
  rw [hflight]
  exact List.mem_filter.mpr ⟨hfly, bne_iff_ne.mpr fun heq => hnot heq hfly⟩

/-- Where a script lands without touching the graph, only its own cell has to be looked at. -/
lemma Attentive.land (h : s.Attentive) (hgraph : t.engine.graph = s.engine.graph)
    (hseeds : t.engine.seeds = s.engine.seeds) (hroots : t.pass.seeds = s.pass.seeds)
    (hremaining : t.pass.remaining = s.pass.remaining)
    (hflight : t.engine.inFlight = s.engine.inFlight.filter (·.1 != id))
    (hcells : ∀ d ∈ t.engine.cells, d.status = .pending →
      d ∈ s.engine.cells ∧ (d.id = id → (d.id, d.version) ∉ s.engine.inFlight)) : t.Attentive where
  unlooped x hx := by
    rw [hgraph] at hx
    have hactive : ∀ y, t.IsActive y → s.IsActive y := fun y hy => by
      refine hy.imp (fun hw => hremaining ▸ hw) fun hfly => ?_
      rw [flying, hflight] at hfly
      exact ((List.filter_sublist ..).map _).subset hfly
    exact h.unlooped x (hx.of_edges fun a b hab ha hb => ⟨hab, hactive a ha, hactive b hb⟩)
  pending d hd hpending := by
    obtain ⟨hd, hnot⟩ := hcells d hd hpending
    exact (h.pending d hd hpending).land (fun x hx => hseeds ▸ hx) hroots (fun hw => hremaining ▸ hw) hflight hnot

/-- A script that is put back pushes none of the others out of the order. -/
lemma Unlooped.mem_requeue (h : s.Unlooped) (hs : s.Tidy) (hfly : a.cell ∈ s.flying)
    (hplace : x = a.cell ∨ x ∈ s.pass.remaining) (hk : x ∈ s.engine.cells.map (·.id)) :
    x ∈ (((s.deliver rest).land a.cell).requeue a.cell).pass.remaining := by
  refine Graph.mem_order_of_unlooped hs.coherent (fun y hy => h y ?_) ?_ (hs.mem_ids_iff.mpr hk)
  · have hactive : ∀ y, y ∈ (Names.ofList s.pass.remaining).insert a.cell → s.IsActive y := fun y hy => by
      rw [Names.mem_insert, Names.mem_ofList] at hy
      exact hy.elim (fun heq => .inr (heq ▸ hfly)) .inl
    exact hy.of_edges fun p q hpq hp hq => ⟨hpq, hactive p hp, hactive q hq⟩
  · rwa [Names.mem_insert, Names.mem_ofList]

/-- A script that is put back is not lost, and neither are the others. -/
lemma Attentive.requeue (h : s.Attentive) (hs : s.Tidy) (hfly : a.cell ∈ s.flying) :
    (((s.deliver rest).land a.cell).requeue a.cell).Attentive := by
  have hwaits : ∀ d ∈ s.engine.cells, d.id = a.cell ∨ d.id ∈ s.pass.remaining →
      d.id ∈ (((s.deliver rest).land a.cell).requeue a.cell).pass.remaining := fun d hd hplace =>
    Unlooped.mem_requeue h.unlooped hs hfly hplace (List.mem_map_of_mem hd)
  refine ⟨fun x hx => h.unlooped x ?_, fun d hd hpending => ?_⟩
  · have hactive : ∀ y, (((s.deliver rest).land a.cell).requeue a.cell).IsActive y → s.IsActive y := fun y hy => by
      rcases hy with hy | hy
      · have hmem := (Graph.mem_order hy).1
        rw [Names.mem_insert, Names.mem_ofList] at hmem
        exact hmem.elim (fun heq => .inr (heq ▸ hfly)) .inl
      · exact .inr (mem_flying_land (s := s.deliver rest).mp hy).1
    exact hx.of_edges fun p q hpq hp hq => ⟨hpq, hactive p hp, hactive q hq⟩
  · rcases h.pending d hd hpending with hseed | ⟨hw, hroot⟩ | hflight
    · exact .inl hseed
    · exact .inr (.inl ⟨hwaits d hd (.inr hw), Names.mem_insert.mpr (.inr hroot)⟩)
    · by_cases hid : d.id = a.cell
      · exact .inr (.inl ⟨hwaits d hd (.inl hid), Names.mem_insert.mpr (.inl hid)⟩)
      · exact .inr (.inr (List.mem_filter.mpr ⟨hflight, bne_iff_ne.mpr hid⟩))

lemma Attends.readopt (h : s.Attends d) : (s.readopt c exports).Attends d := by
  have hcontrol := control_adopt s c exports
  have hremaining : (s.readopt c exports).pass.remaining = s.pass.remaining := congrArg (·.pass.remaining) hcontrol
  have hroots : (s.readopt c exports).pass.seeds = s.pass.seeds := congrArg (·.pass.seeds) hcontrol
  have hflight : (s.readopt c exports).engine.inFlight = s.engine.inFlight := inFlight_adopt
  unfold Attends
  rw [hremaining, hroots, hflight]
  exact h.imp_left fun hseed => Engine.seeds_rebuild (seeds_adopt (s := s) ▸ hseed)

/-- Enlarging the pass loses no cell, for those that it takes from the waiting ones are marked. -/
lemma Attends.extend (h : s.Attends d) (hs : s.Tidy) (hd : d ∈ s.engine.cells)
    (hfree : ¬ (d.id ∈ s.pending source names ∧ s.engine.graph.OnCycle d.id)) : (s.extend source names).Attends d := by
  unfold Attends
  rw [seeds_extend, roots_extend, inFlight_extend, mem_remaining_extend hs]
  refine h.imp_right (Or.imp_left fun ⟨hw, hroot⟩ => ?_)
  have hpending : d.id ∈ s.pending source names := mem_pending.mpr (.inl hw)
  exact ⟨⟨hpending, hs.mem_ids_iff.mpr (List.mem_map_of_mem hd), fun hcycle => hfree ⟨hpending, hcycle⟩⟩, hroot⟩

/-- When the pass has been enlarged the cells that wait lie on no cycle. -/
lemma mem_flying_of_isActive_extend (hs : s.Tidy) (hx : (s.extend source names).IsActive x)
    (hcycle : s.engine.graph.OnCycle x) : x ∈ s.flying := by
  have hfly : x ∈ (s.extend source names).flying :=
    hx.resolve_left fun hw => ((mem_remaining_extend hs).mp hw).2.2 hcycle
  rwa [flying_extend] at hfly

/-- After new exports a cycle of what waits or is in flight would be one of scripts in flight, with old edges. -/
lemma unlooped_extend_readopt (hs : s.Tidy) (hout : c.id ∉ s.flying)
    (h : ∀ x, ¬ s.engine.graph.OnCycleWithin (· ∈ s.flying) x) :
    ¬ ((s.readopt c exports).extend c.id names).engine.graph.OnCycleWithin
      ((s.readopt c exports).extend c.id names).IsActive x := fun hx => by
  have ht : (s.readopt c exports).Tidy := hs.rebuild_adopt
  rw [graph_extend] at hx
  have hflies : ∀ y, TransGen (fun p q => (s.readopt c exports).engine.graph.Edge p q ∧
      ((s.readopt c exports).extend c.id names).IsActive p ∧
      ((s.readopt c exports).extend c.id names).IsActive q) y y →
      ((s.readopt c exports).extend c.id names).IsActive y → y ∈ s.flying := fun y hcycle hy =>
    flying_readopt (s := s) ▸ mem_flying_of_isActive_extend ht hy (Graph.OnCycleWithin.onCycle hcycle)
  refine h x (TransGen.mono (fun p q hpq => ?_) _ _ (transGen_inside hx))
  obtain ⟨⟨hedge, hp, hq⟩, ⟨hxp, hpx⟩, hxq, hqx⟩ := hpq
  have hp := hflies p (hpx.trans hxp) hp
  exact ⟨(edge_readopt_iff hs fun heq => hout (heq ▸ hp)).mp hedge, hp, hflies q (hqx.trans hxq) hq⟩

/-- No cell is lost when exports are taken over and the pass is enlarged. -/
lemma attentive_extend_readopt (hs : s.Tidy) (hout : c.id ∉ s.flying)
    (hunlooped : ∀ x, ¬ s.engine.graph.OnCycleWithin (· ∈ s.flying) x)
    (hpending : ∀ d ∈ s.engine.cells, d.id ≠ c.id → d.status = .pending → s.Attends d) :
    ((s.readopt c exports).extend c.id (novel c exports)).Attentive := by
  have ht : (s.readopt c exports).Tidy := hs.rebuild_adopt
  refine ⟨fun x => unlooped_extend_readopt hs hout hunlooped, fun d hd hp => ?_⟩
  rcases mem_cells_extend ht hd with ⟨hd, hfree⟩ | ⟨-, -, hmark⟩
  · rcases mem_cells_adopt hd with ⟨hds, hne⟩ | ⟨b, -, -, rfl⟩
    · exact (hpending d hds hne hp).readopt.extend ht hd hfree
    · cases hp
  · rw [hp] at hmark
    cases hmark

lemma Attentive.receive (h : s.Attentive) (hs : s.Tidy) (hperm : s.engine.arriving.Perm (a :: rest)) :
    ((s.deliver rest).receive a).Attentive := by
  have hland := hs.land hperm
  have hfly : a.cell ∈ s.flying := flying_of_arriving hs hperm
  have hlanding := landing_receive (s.deliver rest) a
  have hflight := hlanding.inFlight
  generalize (s.deliver rest).receive a = t at hlanding hflight
  cases hlanding with
  | stale hnone =>
    obtain ⟨completed, results, heq⟩ := dismiss_shape ((s.deliver rest).land a.cell) a.cell
    rw [heq]
    refine h.land rfl rfl rfl rfl rfl fun d hd _ => ⟨hd, fun hid hin => ?_⟩
    cases hnone.symm.trans (addressee?_of_inFlight hs hperm hd hid hin)
  | again _ _ => exact h.requeue hs hfly
  | @failed c message logs hc hr hsettle =>
    have hcid : c.id = a.cell := id_of_addressee? hc
    have hcontrol := control_failed (s.deliver rest) a c logs message
    refine h.land (congrArg (·.engine.graph) hcontrol) (congrArg (·.engine.seeds) hcontrol)
      (congrArg (·.pass.seeds) hcontrol) (congrArg (·.pass.remaining) hcontrol) hflight fun d hd hpending => ?_
    rw [cells_fail] at hd
    rcases mem_conclusion.mp hd with ⟨hd, hne⟩ | ⟨b, -, -, rfl⟩
    · exact ⟨mem_cells_landed hd (hcid ▸ hne), fun hid => absurd hid (hcid ▸ hne)⟩
    · cases hpending
  | @accepted c exports logs hc hr hsettle =>
    have hcid : c.id = a.cell := id_of_addressee? hc
    rcases accept_cases ((s.deliver rest).landed a logs) c exports with ⟨-, heq⟩ | heq
    · rw [heq] at hflight ⊢
      have hcontrol := control_adopt ((s.deliver rest).landed a logs) c exports
      refine h.land (congrArg (·.engine.graph) hcontrol) (congrArg (·.engine.seeds) hcontrol)
        (congrArg (·.pass.seeds) hcontrol) (congrArg (·.pass.remaining) hcontrol) hflight fun d hd hpending => ?_
      rcases mem_cells_adopt hd with ⟨hd, hne⟩ | ⟨b, -, -, rfl⟩
      · exact ⟨mem_cells_landed hd (hcid ▸ hne), fun hid => absurd hid (hcid ▸ hne)⟩
      · cases hpending
    · rw [heq]
      refine attentive_extend_readopt (hland.keepLogs a.cell logs) (fun hf => ?_) (fun x hx => h.unlooped x ?_)
        fun d hd hne hpending => ?_
      · exact (mem_flying_land (s := s.deliver rest).mp hf).2 hcid
      · exact hx.of_edges fun p q hpq hp hq => ⟨hpq, .inr (mem_flying_land (s := s.deliver rest).mp hp).1,
          .inr (mem_flying_land (s := s.deliver rest).mp hq).1⟩
      · have hds : d ∈ s.engine.cells := mem_cells_landed hd (hcid ▸ hne)
        exact (h.pending d hds hpending).land (fun x hx => hx) rfl (fun hw => hw) rfl
          fun hid => absurd hid (hcid ▸ hne)

theorem Attentive.move (h : s.Attentive) (hs : s.Tidy) (hm : s.Move l s') : s'.Attentive := by
  cases hm with
  | start _ _ hid hrun => exact h.start hs hid hrun
  | receive hperm => exact h.receive hs hperm

end Stage

namespace Engine

variable {e e' : Engine} {s : Stage} {c : Cell} {p : Pass}

/-- A step of a notebook that is edited between passes only. -/
inductive Calm (l : Language) (e : Engine) : Engine → Prop
  | edit {e' : Engine} (hp : e.pass = none) (h : Edit e e') : Calm l e e'
  | ongoing {e' : Engine} (h : Ongoing l e e') : Calm l e e'

lemma Calm.step (h : Calm l e e') : Step l e e' := by
  cases h with
  | edit hp h => exact .edit h
  | ongoing h => exact h.step

/-- No cell that has not been evaluated is lost between two steps. -/
structure Attentive (e : Engine) : Prop where
  resting : e.pass = none → ∀ c ∈ e.cells, c.status = .pending → c.id ∈ e.seeds
  running : ∀ p, e.pass = some p → (e.resume p).Attentive

lemma attentive_new {config : Config} {manual : Bool} : (new config manual).Attentive :=
  ⟨fun _ c hc => (by cases hc), fun p hp => by cases hp⟩

lemma attentive_suspend (h : s.Attentive) (hp : s.engine.pass = none) : s.suspend.Attentive where
  resting hn := by cases hn
  running p hp' := by
    obtain rfl : s.pass = p := Option.some.inj hp'
    rw [resume_suspend hp]
    exact h

/-- An edit seeds the cells that it adds or changes. -/
lemma Attentive.edit (h : e.Attentive) (ht : e.Tidy) (hp : e.pass = none) (hedit : Edit e e') : e'.Attentive := by
  rcases hedit.effect ht.ids ht.graph with rfl | heffect
  · exact h
  refine ⟨fun _ c hc hpending => ?_, fun p hp' => ?_⟩
  · rcases heffect.cells c hc with hc' | hseed
    · exact heffect.seeds c hc (h.resting hp c hc' hpending)
    · exact hseed
  · rcases hedit.shape with rfl | ⟨cells, store, seeds, rfl⟩ <;> cases hp.symm.trans hp'

/-- What is neither the graph nor a cell has no part in it, and more seeds do no harm. -/
lemma Attentive.of_seeds (h : e.Attentive) (hcells : e'.cells = e.cells) (hgraph : e'.graph = e.graph)
    (hpass : e'.pass = e.pass) (hflight : e'.inFlight = e.inFlight) (hseeds : ∀ x ∈ e.seeds, x ∈ e'.seeds) :
    e'.Attentive where
  resting hn c hc hpending := hseeds _ (h.resting (hpass ▸ hn) c (hcells ▸ hc) hpending)
  running p hp := by
    have hp' := h.running p (hpass ▸ hp)
    refine ⟨fun x hx => hp'.unlooped x ?_, fun c hc hpending => ?_⟩
    · change e'.graph.OnCycleWithin (fun x => x ∈ p.remaining ∨ x ∈ e'.inFlight.map (·.1)) x at hx
      rwa [hgraph, hflight] at hx
    · refine (hp'.pending c (hcells ▸ hc) hpending).imp (hseeds _) (Or.imp_right fun hfly => ?_)
      change _ ∈ e'.inFlight
      rw [hflight]
      exact hfly

lemma Attentive.begin (h : e.Attentive) (ht : e.Tidy) (hp : e.pass = none) : e.beginPass.Attentive := by
  have hfly := flying_beginPass ht hp
  refine ⟨fun x hx => ?_, fun c hc hpending => ?_⟩
  · obtain ⟨-, ⟨-, hactive, -⟩, -⟩ := TransGen.head'_iff.mp hx
    rw [Stage.IsActive, hfly] at hactive
    refine ((mem_remaining_beginPass ht).mp (hactive.resolve_right List.not_mem_nil)).2 ?_
    exact graph_beginPass e ▸ hx.onCycle
  · rcases mem_cells_beginPass ht hc with ⟨hc, hout⟩ | ⟨-, hmark⟩
    · have hseed := h.resting hp c hc hpending
      have hid : c.id ∈ e.cells.map (·.id) := List.mem_map_of_mem hc
      have hreached := reached_of_seed ht hseed hid
      exact .inr (.inl ⟨(mem_remaining_beginPass ht).mpr ⟨hreached, fun hcycle => hout ⟨hreached, hcycle⟩⟩,
        mem_roots ht hseed hid⟩)
    · rw [hpending] at hmark
      cases hmark

lemma Attentive.finish (h : e.Attentive) (hp : e.pass = some p) (hr : p.remaining = []) (hf : e.inFlight = []) :
    (endPass (e.resume p)).1.Attentive where
  resting _ c hc hpending := by
    rcases (h.running p hp).pending c hc hpending with hseed | ⟨hw, -⟩ | hfly
    · exact hseed
    · change c.id ∈ p.remaining at hw
      rw [hr] at hw
      cases hw
    · change _ ∈ e.inFlight at hfly
      rw [hf] at hfly
      cases hfly
  running p hp := by cases hp

theorem Calm.attentive (h : Calm l e e') (ht : e.Tidy) (he : e.Attentive) : e'.Attentive := by
  cases h with
  | edit hp hedit => exact he.edit ht hp hedit
  | ongoing h =>
    cases h with
    | host hh =>
      cases hh with
      | seed ids => exact he.of_seeds rfl rfl rfl rfl fun x hx => Names.mem_insertAll.mpr (.inr hx)
      | _ => exact he.of_seeds rfl rfl rfl rfl fun x hx => hx
    | collect _ =>
      obtain ⟨store, seeds, phase, hseeds, heq⟩ := collect_shape e
      rw [heq]
      exact he.of_seeds rfl rfl rfl rfl hseeds
    | begin hp => exact attentive_suspend (he.begin ht hp) (engine_pass_beginPass.trans hp)
    | move hp hm => exact attentive_suspend ((he.running _ hp).move (ht.pass _ hp) hm) hm.engine_pass
    | finish hp hr hf => exact he.finish hp hr hf

lemma attentive_of_ongoing (h : ReflTransGen (Ongoing l) e e') (ht : e.Tidy) (he : e.Attentive) : e'.Attentive := by
  induction h with
  | refl => exact he
  | tail hsteps hstep ih => exact (Calm.ongoing hstep).attentive (steps_tidy (steps_of_ongoing hsteps) ht) ih

end Engine

end ReactiveNotebook
