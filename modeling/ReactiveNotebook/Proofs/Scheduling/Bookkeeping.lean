import ReactiveNotebook.Proofs.Engine.Arrival
import ReactiveNotebook.Proofs.Engine.Begin
import ReactiveNotebook.Proofs.Engine.Start
import ReactiveNotebook.Proofs.Scheduling.Oscillation

/-!
# The bookkeeping of a pass

As long as the notebook is not edited, every cell that takes part in a pass either waits, is in flight, or is
done. The cells that wait lie on no cycle, so one of them can be started whenever no script is in flight. All
this is kept when a pass begins and when it is enlarged, since the cells on cycles are marked then. It is lost
at one place only: a script whose inputs changed while it ran is put back among the waiting cells without
asking whether it lies on a cycle by now.
-/
namespace ReactiveNotebook

variable {l : Language}

namespace Stage

variable {s s' t : Stage} {a : Arrival} {c : Cell} {id source x : CellId} {names : Names} {i n : ℕ}

/-- What may happen to a pass in progress of a notebook that is not edited. -/
inductive Goes (l : Language) (s : Stage) : Stage → Prop
  | move {s' : Stage} (h : s.Move l s') : Goes l s s'
  | host {e : Engine} (h : s.engine.Host e) : Goes l s ⟨e, s.pass⟩

lemma Goes.tidy (h : s.Goes l s') (hs : s.Tidy) : s'.Tidy := by
  cases h with
  | move h => exact hs.move h
  | host h => cases h <;> exact { hs with }

/-- The step puts the script of a result back among the waiting cells. -/
def PutsBack (s s' : Stage) (a : Arrival) : Prop :=
  ∃ rest, s.engine.arriving.Perm (a :: rest) ∧ s' = (s.deliver rest).receive a ∧ a.cell ∈ s.pass.rerun ∧
    ∃ c, s.engine.cell? a.cell = some c ∧ c.version = a.version

lemma PutsBack.eq (h : PutsBack s s' a) (hs : s.Tidy) :
    ∃ rest, s.engine.arriving.Perm (a :: rest) ∧ s' = ((s.deliver rest).land a.cell).requeue a.cell := by
  obtain ⟨rest, hperm, rfl, hrerun, c, hcell, hversion⟩ := h
  obtain ⟨hc, hid⟩ := (Engine.cell?_eq_some_iff hs.ids).mp hcell
  have hfly : (c.id, c.version) ∈ s.engine.inFlight := hid ▸ hversion ▸ flight_of_arriving hs hperm
  exact ⟨rest, hperm, receive_again (addressee?_of_inFlight hs hperm hc hid hfly) hrerun⟩

/-- Whatever waits or is in flight takes part and is not done. -/
def Engaged (s : Stage) : Prop :=
  ∀ x, x ∈ s.pass.remaining ∨ x ∈ s.flying → x ∈ s.pass.members ∧ x ∉ s.pass.completed

namespace Engaged

/-- A cell that waits or flies may be moved to those that are done. -/
lemma settle (h : s.Engaged) (hmembers : s'.pass.members = s.pass.members)
    (hremaining : ∀ x ∈ s'.pass.remaining, x ∈ s.pass.remaining ∧ x ≠ id)
    (hflying : ∀ x ∈ s'.flying, x ∈ s.flying ∧ x ≠ id)
    (hcompleted : ∀ x ∈ s'.pass.completed, x = id ∨ x ∈ s.pass.completed) : s'.Engaged := fun x hx => by
  have hold : (x ∈ s.pass.remaining ∨ x ∈ s.flying) ∧ x ≠ id :=
    hx.elim (fun hw => ⟨.inl (hremaining x hw).1, (hremaining x hw).2⟩) fun hf => ⟨.inr (hflying x hf).1, (hflying x hf).2⟩
  obtain ⟨hmember, hdone⟩ := h x hold.1
  exact ⟨hmembers ▸ hmember, fun hx => (hcompleted x hx).elim hold.2 hdone⟩

/-- A result that lands without touching the graph takes its script from the flights. -/
lemma land (h : s.Engaged) (hs : s.Tidy) (hid : id ∈ s.flying) (hflying : ∀ x ∈ s'.flying, x ∈ s.flying ∧ x ≠ id)
    (hmembers : s'.pass.members = s.pass.members) (hremaining : s'.pass.remaining = s.pass.remaining)
    (hcompleted : ∀ x ∈ s'.pass.completed, x = id ∨ x ∈ s.pass.completed) : s'.Engaged := by
  refine h.settle hmembers (fun x hx => ?_) hflying hcompleted
  rw [hremaining] at hx
  exact ⟨hx, fun heq => hs.grounded x hx (heq ▸ hid)⟩

lemma start (h : s.Engaged) (hs : s.Tidy) (hid : id ∈ s.pass.remaining) (hstarts : Starts id s s') : s'.Engaged := by
  rcases hstarts.fate with ⟨hdone, hflight⟩ | ⟨hdone, -⟩
  · refine h.settle hstarts.members (fun x => (hstarts.waiting x).mp) (fun x hx => ?_) fun x hx => ?_
    · rw [flying, hflight] at hx
      exact ⟨hx, fun heq => hs.grounded id hid (heq ▸ hx)⟩
    · rwa [hdone, Names.mem_insert] at hx
  · intro x hx
    rw [hstarts.members, hdone]
    rcases hx with hw | hf
    · exact h x (.inl ((hstarts.waiting x).mp hw).1)
    · rcases hstarts.mem_flying hf with hf | rfl
      · exact h x (.inr hf)
      · exact h x (.inl hid)

/-- Enlarging the pass takes in what is downstream. -/
lemma extend (h : s.Engaged) (hs : s.Tidy) : (s.extend source names).Engaged := fun x hx => by
  rw [mem_members_extend, mem_completed_extend hs]
  rw [mem_remaining_extend hs, flying_extend, mem_pending] at hx
  rcases hx with ⟨hp, -, hno⟩ | hf
  · by_cases hw : x ∈ s.pass.remaining
    · obtain ⟨hmember, hdone⟩ := h x (.inl hw)
      exact ⟨.inr hmember, by tauto⟩
    · obtain ⟨hdown, hfly⟩ := hp.resolve_left hw
      exact ⟨.inl ⟨hdown, .inr hw⟩, by tauto⟩
  · obtain ⟨hmember, hdone⟩ := h x (.inr hf)
    have hwait : x ∉ s.pass.remaining := fun hw => hs.grounded x hw hf
    rw [mem_pending]
    exact ⟨.inr hmember, by tauto⟩

/-- A script that is put back is not done. -/
lemma requeue (h : s.Engaged) (hid : id ∈ s.flying) {rest : List Arrival} :
    (((s.deliver rest).land id).requeue id).Engaged := fun x hx => by
  have hcompleted : x ∈ (((s.deliver rest).land id).requeue id).pass.completed ↔ x ∈ s.pass.completed ∧ x ≠ id := by
    change x ∈ s.pass.completed.filter (· != id) ↔ _
    rw [Names.mem_filter, bne_iff_ne]
  have hold : x ∈ s.pass.remaining ∨ x ∈ s.flying := by
    rcases hx with hw | hf
    · have hmem := (Graph.mem_order hw).1
      rw [Names.mem_insert, Names.mem_ofList] at hmem
      exact hmem.elim (fun heq => .inr (heq ▸ hid)) .inl
    · exact .inr (mem_flying_land (s := s.deliver rest).mp hf).1
  obtain ⟨hmember, hdone⟩ := h x hold
  exact ⟨hmember, fun hd => hdone (hcompleted.mp hd).1⟩

end Engaged

/-- Whatever waits or is in flight takes part and is not done, and whatever takes part is somewhere. -/
structure Accounted (s : Stage) : Prop where
  active : ∀ x, x ∈ s.pass.remaining ∨ x ∈ s.flying → x ∈ s.pass.members ∧ x ∉ s.pass.completed
  covered : ∀ x ∈ s.pass.members, x ∈ s.pass.remaining ∨ x ∈ s.flying ∨ x ∈ s.pass.completed
  known : ∀ x ∈ s.pass.remaining, x ∈ s.engine.graph.ids

/-- No waiting cell lies on a cycle. -/
def Acyclic (s : Stage) : Prop := ∀ x ∈ s.pass.remaining, ¬ s.engine.graph.OnCycle x

namespace Accounted

/-- A cell that waits or flies may be moved to those that are done. -/
lemma settle (h : s.Accounted) (hids : s'.engine.graph.ids = s.engine.graph.ids)
    (hmembers : s'.pass.members = s.pass.members)
    (hremaining : ∀ x, x ∈ s'.pass.remaining ↔ x ∈ s.pass.remaining ∧ x ≠ id)
    (hflying : ∀ x, x ∈ s'.flying ↔ x ∈ s.flying ∧ x ≠ id)
    (hcompleted : s'.pass.completed = s.pass.completed.insert id) : s'.Accounted where
  active := Engaged.settle h.active hmembers (fun x => (hremaining x).mp) (fun x => (hflying x).mp)
    fun x hx => by rwa [hcompleted, Names.mem_insert] at hx
  covered x hx := by
    rw [hremaining, hflying, hcompleted, Names.mem_insert]
    by_cases hxid : x = id
    · exact .inr (.inr (.inl hxid))
    · rcases h.covered x (hmembers ▸ hx) with hw | hf | hd
      · exact .inl ⟨hw, hxid⟩
      · exact .inr (.inl ⟨hf, hxid⟩)
      · exact .inr (.inr (.inr hd))
  known x hx := hids ▸ h.known x ((hremaining x).mp hx).1

lemma start (h : s.Accounted) (hs : s.Tidy) (hid : id ∈ s.pass.remaining) (hstarts : Starts id s s') :
    s'.Accounted := by
  have hfly : id ∉ s.flying := hs.grounded id hid
  rcases hstarts.fate with ⟨hdone, hflight⟩ | ⟨hdone, c, -, -, -, hflight⟩
  · refine h.settle (hstarts.graph ▸ rfl) hstarts.members hstarts.waiting (fun x => ?_) hdone
    rw [flying, hflight]
    exact ⟨fun hx => ⟨hx, fun heq => hfly (heq ▸ hx)⟩, fun hx => hx.1⟩
  · have hflying : ∀ x, x ∈ s'.flying ↔ x = id ∨ x ∈ s.flying := fun x => by
      rw [flying, hflight, List.map_cons, List.mem_cons, flying]
    refine ⟨Engaged.start h.active hs hid hstarts, fun x hx => ?_, fun x hx => ?_⟩
    · rw [hstarts.waiting, hflying, hdone]
      by_cases hxid : x = id
      · exact .inr (.inl (.inl hxid))
      · rcases h.covered x (hstarts.members ▸ hx) with hw | hf | hd
        · exact .inl ⟨hw, hxid⟩
        · exact .inr (.inl (.inr hf))
        · exact .inr (.inr hd)
    · exact hstarts.graph ▸ h.known x ((hstarts.waiting x).mp hx).1

/-- Enlarging the pass takes in what is downstream, and what is on a cycle is done. -/
lemma extend (h : s.Accounted) (hs : s.Tidy) : (s.extend source names).Accounted where
  active := Engaged.extend h.active hs
  covered x hx := by
    have hknown : x ∈ s.pending source names → x ∈ s.engine.graph.ids := fun hp => by
      rcases mem_pending.mp hp with hw | ⟨hdown, -⟩
      · exact h.known x hw
      · exact Graph.closure_known hs.coherent (List.mem_filter.mp hdown).1
    rw [mem_remaining_extend hs, flying_extend, mem_completed_extend hs]
    by_cases hp : x ∈ s.pending source names
    · by_cases hcycle : s.engine.graph.OnCycle x
      · exact .inr (.inr (.inr ⟨hp, hcycle⟩))
      · exact .inl ⟨hp, hknown hp, hcycle⟩
    · rw [mem_pending, not_or, not_and_not_right] at hp
      rcases mem_members_extend.mp hx with ⟨hdown, -⟩ | hmember
      · exact .inr (.inl (hp.2 hdown))
      · rcases h.covered x hmember with hw | hf | hd
        · exact absurd hw hp.1
        · exact .inr (.inl hf)
        · exact .inr (.inr (.inl ⟨hd, fun hdown => .inr (hp.2 hdown)⟩))
  known x hx := by
    rw [graph_extend]
    exact ((mem_remaining_extend hs).mp hx).2.1

/-- A script that is put back waits again, as long as it lies on no cycle. -/
lemma requeue (h : s.Accounted) (hid : id ∈ s.flying) {rest : List Arrival}
    (hland : ((s.deliver rest).land id).Tidy) (hacyclic : s.Acyclic) (hno : ¬ s.engine.graph.OnCycle id)
    (hk : id ∈ s.engine.graph.ids) : (((s.deliver rest).land id).requeue id).Accounted := by
  have hwaits : ∀ x, x ∈ (((s.deliver rest).land id).requeue id).pass.remaining ↔
      x = id ∨ x ∈ s.pass.remaining := fun x => by
    constructor
    · intro hx
      have hmem := (Graph.mem_order hx).1
      rwa [Names.mem_insert, Names.mem_ofList] at hmem
    · intro hx
      refine (mem_remaining_requeue hland (fun y hy => ?_) ?_).mpr hx
      · rcases hy with rfl | hy
        · exact hno
        · exact hacyclic y hy
      · rcases hx with rfl | hx
        · exact hk
        · exact h.known x hx
  have hflying : ∀ x, x ∈ (((s.deliver rest).land id).requeue id).flying ↔ x ∈ s.flying ∧ x ≠ id :=
    fun _ => mem_flying_land (s := s.deliver rest)
  have hcompleted : ∀ x, x ∈ (((s.deliver rest).land id).requeue id).pass.completed ↔
      x ∈ s.pass.completed ∧ x ≠ id := fun x => by
    change x ∈ s.pass.completed.filter (· != id) ↔ _
    rw [Names.mem_filter, bne_iff_ne]
  refine ⟨Engaged.requeue h.active hid, fun x hx => ?_, fun x hx => (Graph.mem_order hx).2⟩
  · rw [hwaits, hflying, hcompleted]
    by_cases hxid : x = id
    · exact .inl (.inl hxid)
    · rcases h.covered x hx with hw | hf | hd
      · exact .inl (.inr hw)
      · exact .inr (.inl ⟨hf, hxid⟩)
      · exact .inr (.inr ⟨hd, hxid⟩)

end Accounted

/-- A result that lands without touching the graph leaves its script done. -/
lemma Accounted.land (h : s.Accounted) (hs : s.Tidy) (hid : id ∈ s.flying)
    (hgraph : s'.engine.graph = s.engine.graph) (hflying : ∀ x, x ∈ s'.flying ↔ x ∈ s.flying ∧ x ≠ id)
    (hmembers : s'.pass.members = s.pass.members) (hremaining : s'.pass.remaining = s.pass.remaining)
    (hcompleted : s'.pass.completed = s.pass.completed.insert id) : s'.Accounted := by
  refine h.settle (hgraph ▸ rfl) hmembers (fun x => ?_) hflying hcompleted
  rw [hremaining]
  exact ⟨fun hx => ⟨hx, fun heq => hs.grounded x hx (heq ▸ hid)⟩, fun hx => hx.1⟩

lemma Acyclic.congr (h : s.Acyclic) (hgraph : s'.engine.graph = s.engine.graph)
    (hremaining : s'.pass.remaining = s.pass.remaining) : s'.Acyclic := by
  rw [Acyclic, hgraph, hremaining]
  exact h

lemma acyclic_extend (hs : s.Tidy) : (s.extend source names).Acyclic := fun x hx => by
  rw [graph_extend]
  exact ((mem_remaining_extend hs).mp hx).2.2

/-- Exports are taken over into a pass whose bookkeeping is in order. -/
lemma Accounted.accept (h : s.Accounted) (hs : s.Tidy) (hacyclic : s.Acyclic) {rest : List Arrival}
    {logs : List String} {exports : Script.Fields} (hland : ((s.deliver rest).landed a logs).Tidy)
    (hid : a.cell ∈ s.flying) (hcid : c.id = a.cell) :
    (((s.deliver rest).landed a logs).accept c exports).Accounted ∧
      (((s.deliver rest).landed a logs).accept c exports).Acyclic := by
  set u := ((s.deliver rest).landed a logs).adopt c exports with hu
  have hcontrol := control_adopt ((s.deliver rest).landed a logs) c exports
  have hgraph : u.engine.graph = s.engine.graph := congrArg (·.engine.graph) hcontrol
  have hremaining : u.pass.remaining = s.pass.remaining := congrArg (·.pass.remaining) hcontrol
  have hadopt : u.Accounted := by
    refine h.land hs hid hgraph (fun x => ?_) (congrArg (·.pass.members) hcontrol) hremaining ?_
    · rw [flying, hu, inFlight_adopt]
      exact mem_flying_land (s := s.deliver rest)
    · rw [← hcid]
      exact congrArg (·.pass.completed) hcontrol
  rcases accept_cases ((s.deliver rest).landed a logs) c exports with ⟨-, heq⟩ | heq
  · rw [heq]
    exact ⟨hadopt, hacyclic.congr hgraph hremaining⟩
  · rw [heq]
    have ht : (((s.deliver rest).landed a logs).readopt c exports).Tidy := hland.rebuild_adopt
    have hids : (Graph.build u.engine.cells).ids = u.engine.graph.ids := by
      rw [Graph.ids_build, hu, ids_adopt, ← hu, hgraph, hs.graph, Graph.ids_build,
        ids_of_control control_keepLogs]
      rfl
    have hreadopt : (((s.deliver rest).landed a logs).readopt c exports).Accounted :=
      ⟨hadopt.active, hadopt.covered, fun x hx => hids ▸ hadopt.known x hx⟩
    exact ⟨hreadopt.extend ht, acyclic_extend ht⟩

/-- The bookkeeping is kept when a result arrives, unless its script lies on a cycle and is put back. -/
lemma Accounted.receive (h : s.Accounted) (hs : s.Tidy) (hacyclic : s.Acyclic) {rest : List Arrival}
    (hperm : s.engine.arriving.Perm (a :: rest))
    (hno : PutsBack s ((s.deliver rest).receive a) a → ¬ s.engine.graph.OnCycle a.cell) :
    ((s.deliver rest).receive a).Accounted ∧ ((s.deliver rest).receive a).Acyclic := by
  have hland := hs.land hperm
  have hid : a.cell ∈ s.flying := flying_of_arriving hs hperm
  have hlanding := landing_receive (s.deliver rest) a
  have hflying : ∀ x, x ∈ ((s.deliver rest).receive a).flying ↔ x ∈ s.flying ∧ x ≠ a.cell :=
    fun x => hlanding.mem_flying
  have hput : ∀ c, s.engine.cell? a.cell = some c → c.version = a.version → a.cell ∈ s.pass.rerun →
      ¬ s.engine.graph.OnCycle a.cell := fun c hc hv hr => hno ⟨rest, hperm, rfl, hr, c, hc, hv⟩
  generalize (s.deliver rest).receive a = t at hlanding hflying
  cases hlanding with
  | stale _ =>
    obtain ⟨hmember, hdone⟩ := h.active a.cell (.inr hid)
    have heq : ((s.deliver rest).land a.cell).dismiss a.cell =
        ({ (s.deliver rest).land a.cell with pass := { ((s.deliver rest).land a.cell).pass with
          stale := s.pass.stale + 1 } } : Stage).finish a.cell .discarded := by
      refine if_pos ?_
      rw [Bool.and_eq_true, Bool.not_eq_true', Names.contains_iff, Names.contains_eq_false_iff]
      exact ⟨hmember, hdone⟩
    rw [heq] at hflying ⊢
    exact ⟨h.land hs hid rfl hflying rfl rfl rfl, hacyclic⟩
  | @again c hc hr =>
    have hcell := cell?_of_addressee? hc
    have hk : a.cell ∈ s.engine.graph.ids := by
      rw [hs.mem_ids_iff, ← Engine.hasCell_iff, Engine.hasCell]
      exact Option.isSome_iff_exists.mpr ⟨c, hcell⟩
    have hfree := hput c hcell (version_of_addressee? hc) hr
    refine ⟨h.requeue hid hland hacyclic hfree hk, fun x hx => ?_⟩
    have hmem := (Graph.mem_order hx).1
    rw [Names.mem_insert, Names.mem_ofList] at hmem
    rcases hmem with rfl | hmem
    · exact hfree
    · exact hacyclic x hmem
  | @failed c message logs hc hr hsettle =>
    have hcid : c.id = a.cell := id_of_addressee? hc
    have hcontrol := control_failed (s.deliver rest) a c logs message
    have hgraph : (((s.deliver rest).landed a logs).fail c (.execution a.cell message)).engine.graph =
        s.engine.graph := congrArg (·.engine.graph) hcontrol
    have hremaining : (((s.deliver rest).landed a logs).fail c (.execution a.cell message)).pass.remaining =
        s.pass.remaining := congrArg (·.pass.remaining) hcontrol
    have hcompleted : (((s.deliver rest).landed a logs).fail c (.execution a.cell message)).pass.completed =
        s.pass.completed.insert c.id := congrArg (·.pass.completed) hcontrol
    rw [hcid] at hcompleted
    exact ⟨h.land hs hid hgraph hflying (congrArg (·.pass.members) hcontrol) hremaining hcompleted,
      hacyclic.congr hgraph hremaining⟩
  | @accepted c exports logs hc hr hsettle =>
    have hcid : c.id = a.cell := id_of_addressee? hc
    exact h.accept hs hacyclic (hland.keepLogs _ _) hid hcid

lemma mem_completed_dismiss (h : x ∈ (s.dismiss id).pass.completed) : x = id ∨ x ∈ s.pass.completed := by
  unfold dismiss at h
  dsimp only at h
  split at h
  · exact Names.mem_insert.mp h
  · exact .inr h

/-- Whatever waits or is in flight after a result has arrived is not done. -/
lemma Engaged.receive (h : s.Engaged) (hs : s.Tidy) {rest : List Arrival} (hperm : s.engine.arriving.Perm (a :: rest)) :
    ((s.deliver rest).receive a).Engaged := by
  have hid : a.cell ∈ s.flying := flying_of_arriving hs hperm
  have hlanding := landing_receive (s.deliver rest) a
  have hflying : ∀ x ∈ ((s.deliver rest).receive a).flying, x ∈ s.flying ∧ x ≠ a.cell :=
    fun x => hlanding.mem_flying.mp
  generalize (s.deliver rest).receive a = t at hlanding hflying
  cases hlanding with
  | stale _ =>
    have hdone : ∀ x ∈ (((s.deliver rest).land a.cell).dismiss a.cell).pass.completed, x = a.cell ∨ x ∈ s.pass.completed :=
      fun x => mem_completed_dismiss
    obtain ⟨completed, results, heq⟩ := dismiss_shape ((s.deliver rest).land a.cell) a.cell
    rw [heq] at hflying hdone ⊢
    exact h.land hs hid hflying rfl rfl hdone
  | again _ _ => exact h.requeue hid
  | @failed c message logs hc _ _ =>
    have hcontrol := control_failed (s.deliver rest) a c logs message
    have hcompleted : (((s.deliver rest).landed a logs).fail c (.execution a.cell message)).pass.completed =
        s.pass.completed.insert c.id := congrArg (·.pass.completed) hcontrol
    rw [id_of_addressee? hc] at hcompleted
    exact h.land hs hid hflying (congrArg (·.pass.members) hcontrol) (congrArg (·.pass.remaining) hcontrol) fun x hx =>
      Names.mem_insert.mp (hcompleted ▸ hx)
  | @accepted c exports logs hc _ _ =>
    have hcontrol := control_adopt ((s.deliver rest).landed a logs) c exports
    have hcompleted : (((s.deliver rest).landed a logs).adopt c exports).pass.completed =
        s.pass.completed.insert c.id := congrArg (·.pass.completed) hcontrol
    rw [id_of_addressee? hc] at hcompleted
    have hadopt : (((s.deliver rest).landed a logs).adopt c exports).Engaged := by
      refine h.land hs hid (fun x hx => ?_) (congrArg (·.pass.members) hcontrol) (congrArg (·.pass.remaining) hcontrol)
        fun x hx => Names.mem_insert.mp (hcompleted ▸ hx)
      rw [flying, inFlight_adopt] at hx
      exact (mem_flying_land (s := s.deliver rest)).mp hx
    rcases accept_cases ((s.deliver rest).landed a logs) c exports with ⟨-, heq⟩ | heq
    · exact heq ▸ hadopt
    · have hreadopt : (((s.deliver rest).landed a logs).readopt c exports).Engaged := hadopt
      rw [heq]
      exact hreadopt.extend ((hs.land hperm).keepLogs a.cell logs).rebuild_adopt

/-- The bookkeeping is kept by every step that puts no script back that lies on a cycle. -/
theorem Goes.accounted (hgoes : s.Goes l s') (hs : s.Tidy) (h : s.Accounted) (hacyclic : s.Acyclic)
    (hno : ∀ a, PutsBack s s' a → ¬ s.engine.graph.OnCycle a.cell) : s'.Accounted ∧ s'.Acyclic := by
  cases hgoes with
  | move hm =>
    cases hm with
    | @start i id s' hfree hi hid hrun =>
      have hstarts := starts_of_runCell hs hid hrun
      refine ⟨h.start hs (List.mem_of_getElem? hid) hstarts, fun x hx => ?_⟩
      rw [hstarts.graph]
      exact hacyclic x ((hstarts.waiting x).mp hx).1
    | receive hperm => exact h.receive hs hacyclic hperm (hno _)
  | host hh => cases hh <;> exact ⟨⟨h.active, h.covered, h.known⟩, hacyclic⟩

/-- The bookkeeping of a pass. -/
structure Booked (s : Stage) : Prop where
  waiting : s.pass.remaining.Nodup
  /-- A cell that takes part is in exactly one place. -/
  once : ∀ x ∈ s.pass.members,
    (x ∈ s.pass.remaining ∧ x ∉ s.flying ∧ x ∉ s.pass.completed) ∨
      (x ∉ s.pass.remaining ∧ x ∈ s.flying ∧ x ∉ s.pass.completed) ∨
        (x ∉ s.pass.remaining ∧ x ∉ s.flying ∧ x ∈ s.pass.completed)
  rerun : ∀ x ∈ s.pass.rerun, x ∈ s.flying
  acyclic : s.Acyclic
  /-- The cell to start next is always one that is ready. -/
  orderly : s.next? = s.pass.remaining.findIdx? s.isReady
  /-- The dependencies of a cell that is started are done, as far as they take part. -/
  ready : ∀ i id, s.next? = some i → s.pass.remaining[i]? = some id →
    ∀ d ∈ s.engine.graph.dependencies id, d ∈ s.pass.members → d ∈ s.pass.completed
  /-- No cell is dispatched whose script is in flight. -/
  grounded : ∀ x ∈ s.pass.remaining, x ∉ s.flying
  single : s.flying.Nodup

/-- Without scripts in flight one of the waiting cells is ready, for none of them lies on a cycle. -/
lemma Accounted.exists_ready (h : s.Accounted) (hs : s.Tidy) (hacyclic : s.Acyclic)
    (hf : s.engine.inFlight = []) (hr : s.pass.remaining ≠ []) : ∃ x ∈ s.pass.remaining, s.isReady x = true := by
  by_contra hnone
  push Not at hnone
  have hback : ∀ x ∈ s.pass.remaining.toFinset, ∃ d ∈ s.pass.remaining.toFinset, s.engine.graph.Edge d x := by
    intro x hx
    have hnot := hnone x (List.mem_toFinset.mp hx)
    rw [Ne, isReady_iff] at hnot
    push Not at hnot
    obtain ⟨d, hd, hmember, hdone⟩ := hnot
    have hwaits : d ∈ s.pass.remaining := by
      rcases h.covered d hmember with hw | hfly | hc
      · exact hw
      · rw [flying, hf] at hfly
        cases hfly
      · exact absurd hc hdone
    exact ⟨d, List.mem_toFinset.mpr hwaits, (hs.coherent.edge_iff d x).mpr hd⟩
  obtain ⟨y, ys, hcons⟩ := List.exists_cons_of_ne_nil hr
  obtain ⟨x, hx, hcycle⟩ := Graph.exists_onCycle
    ⟨y, List.mem_toFinset.mpr (hcons ▸ List.mem_cons_self)⟩ hback
  exact hacyclic x (List.mem_toFinset.mp hx) hcycle

lemma Accounted.next?_eq (h : s.Accounted) (hs : s.Tidy) (hacyclic : s.Acyclic) :
    s.next? = s.pass.remaining.findIdx? s.isReady := by
  unfold next?
  cases hfind : s.pass.remaining.findIdx? s.isReady with
  | some i => rfl
  | none =>
    refine if_neg fun hstuck => ?_
    simp only [Bool.and_eq_true, List.isEmpty_iff, Bool.not_eq_true', List.isEmpty_eq_false_iff] at hstuck
    obtain ⟨x, hx, hready⟩ := h.exists_ready hs hacyclic hstuck.1 hstuck.2
    exact Bool.false_ne_true ((List.findIdx?_eq_none_iff.mp hfind x hx).symm.trans hready)

lemma Accounted.booked (h : s.Accounted) (hs : s.Tidy) (hacyclic : s.Acyclic) : s.Booked where
  waiting := hs.waiting
  once x hx := by
    rcases h.covered x hx with hw | hf | hd
    · exact .inl ⟨hw, hs.grounded x hw, (h.active x (.inl hw)).2⟩
    · exact .inr (.inl ⟨fun hw => hs.grounded x hw hf, hf, (h.active x (.inr hf)).2⟩)
    · exact .inr (.inr ⟨fun hw => (h.active x (.inl hw)).2 hd, fun hf => (h.active x (.inr hf)).2 hd, hd⟩)
  rerun := hs.rerun
  acyclic := hacyclic
  orderly := h.next?_eq hs hacyclic
  ready i id hi hid := by
    rw [h.next?_eq hs hacyclic] at hi
    obtain ⟨hlt, hready, -⟩ := List.findIdx?_eq_some_iff_getElem.mp hi
    obtain ⟨-, rfl⟩ := List.getElem?_eq_some_iff.mp hid
    exact isReady_iff.mp hready
  grounded := hs.grounded
  single := hs.single

/-- A script on a cycle that is put back is lost, or waits on the cycle. -/
lemma PutsBack.not_booked (h : PutsBack s s' a) (hs : s.Tidy) (hacc : s.Accounted)
    (hcycle : s.engine.graph.OnCycle a.cell) : ¬ s'.Booked := fun hbooked => by
  obtain ⟨rest, hperm, rfl⟩ := h.eq hs
  have hfly : a.cell ∈ s.flying := flying_of_arriving hs hperm
  rcases hbooked.once a.cell (hacc.active a.cell (.inr hfly)).1 with ⟨hw, -⟩ | ⟨-, hf, -⟩ | ⟨-, -, hd⟩
  · exact hbooked.acyclic a.cell hw hcycle
  · exact (mem_flying_land (s := s.deliver rest).mp hf).2 rfl
  · exact bne_iff_ne.mp (Names.mem_filter.mp hd).2 rfl

end Stage

namespace Engine

variable {e : Engine} {x : CellId}

lemma mem_members_beginPass (ht : e.Tidy) :
    x ∈ e.beginPass.pass.members ↔ x ∈ e.reached ∧ ¬ e.graph.OnCycle x := by
  change x ∈ e.reached.filter (fun id => !e.blockCycles.pass.completed.contains id) ↔ _
  simp only [Names.mem_filter, Bool.not_eq_true', Names.contains_eq_false_iff, mem_completed_blockCycles ht]
  tauto

lemma accounted_beginPass (ht : e.Tidy) (hp : e.pass = none) :
    e.beginPass.Accounted ∧ e.beginPass.Acyclic := by
  have hfly := flying_beginPass ht hp
  refine ⟨⟨fun x hx => ?_, fun x hx => ?_, fun x hx => ?_⟩, fun x hx => ?_⟩
  · rw [hfly] at hx
    exact active_beginPass (hx.resolve_right List.not_mem_nil)
  · exact .inl ((mem_remaining_beginPass ht).mpr ((mem_members_beginPass ht).mp hx))
  · rw [graph_beginPass]
    exact (Graph.mem_order hx).2
  · rw [graph_beginPass]
    exact ((mem_remaining_beginPass ht).mp hx).2

/-- The stages of a pass of a notebook that is not edited meanwhile. -/
structure IsPass (l : Language) (e : Engine) (n : ℕ) (σ : ℕ → Stage) : Prop where
  reachable : Reachable l e
  idle : e.pass = none
  start : σ 0 = e.beginPass
  goes : ∀ k < n, (σ k).Goes l (σ (k + 1))

namespace IsPass

variable {n : ℕ} {σ : ℕ → Stage}

lemma tidy (h : IsPass l e n σ) {k : ℕ} (hk : k ≤ n) : (σ k).Tidy := by
  induction k with
  | zero => exact h.start ▸ beginPass_tidy h.reachable.tidy h.idle
  | succ k ih => exact (h.goes k hk).tidy (ih (by omega))

lemma accounted (h : IsPass l e n σ) {k : ℕ} (hk : k ≤ n)
    (hno : ∀ j < k, ∀ a, Stage.PutsBack (σ j) (σ (j + 1)) a → ¬ (σ j).engine.graph.OnCycle a.cell) :
    (σ k).Accounted ∧ (σ k).Acyclic := by
  induction k with
  | zero => exact h.start ▸ accounted_beginPass h.reachable.tidy h.idle
  | succ k ih =>
    obtain ⟨hacc, hacyclic⟩ := ih (by omega) fun j hj => hno j (by omega)
    exact (h.goes k hk).accounted (h.tidy (by omega)) hacc hacyclic (hno k k.lt_succ_self)

end IsPass

/-- When a pass begins no script is in flight. From then on its bookkeeping is in order after every step, for
whatever the scripts export and in whatever order their results arrive, exactly if no script is put back that
lies on a cycle by then. -/
theorem pass_booked_iff {n : ℕ} {σ : ℕ → Stage} (h : IsPass l e n σ) :
    e.inFlight = [] ∧ ((∀ k ≤ n, (σ k).Booked) ↔
      ∀ k < n, ∀ a, Stage.PutsBack (σ k) (σ (k + 1)) a → ¬ (σ k).engine.graph.OnCycle a.cell) := by
  refine ⟨(h.reachable.tidy.idle h.idle).1, fun hbooked k => ?_, fun hno k hk => ?_⟩
  · induction k using Nat.strong_induction_on with
    | _ k ih =>
      intro hk a hput hcycle
      have hacc := (h.accounted hk.le fun j hj => ih j hj (by omega)).1
      exact hput.not_booked (h.tidy hk.le) hacc hcycle (hbooked (k + 1) hk)
  · obtain ⟨hacc, hacyclic⟩ := h.accounted hk fun j hj => hno j (by omega)
    exact hacc.booked (h.tidy hk) hacyclic

end Engine

namespace Stage

variable {s t : Stage}

/-- Whether the result at a given place puts its script back and the script lies on a cycle. -/
def rejoins (s : Stage) (i : ℕ) : Bool :=
  match s.engine.arriving[i]? with
  | none => false
  | some a => s.pass.rerun.contains a.cell && (s.engine.cell? a.cell).any (·.version == a.version) &&
    (s.engine.graph.cycleOf? a.cell).isSome

lemma putsBack_of_rejoins {i : ℕ} (hs : s.Tidy) (h : s.move? l (some i) = some t) (hr : s.rejoins i = true) :
    ∃ a, PutsBack s t a ∧ s.engine.graph.OnCycle a.cell := by
  obtain ⟨a, ha, rfl⟩ := Option.map_eq_some_iff.mp h
  simp only [rejoins, ha, Bool.and_eq_true, Names.contains_iff, Option.any_eq_true, beq_iff_eq] at hr
  obtain ⟨⟨hrerun, c, hc, hversion⟩, hcycle⟩ := hr
  exact ⟨a, ⟨_, perm_eraseIdx ha, rfl, hrerun, c, hc, hversion⟩, hs.cycleOf?_isSome_iff.mp hcycle⟩

end Stage

namespace Engine

variable {e : Engine} {choices : List (Option ℕ)}

lemma isPass_route (hr : Reachable l e) (hp : e.pass = none) (h : e.beginPass.isRoute l choices = true) :
    IsPass l e choices.length (e.beginPass.route l choices) where
  reachable := hr
  idle := hp
  start := rfl
  goes _ hk := .move (Stage.move_of_move? (Stage.move?_route h (List.getElem?_eq_getElem hk)))

/-- Scripts may run side by side. -/
def sideBySide : Config := { Config.standard with parallelScripts := true }

/-- The script `x` reads what `s` turns out to export, and `s` reads what the cell `c` writes, which lies on a
cycle but has not been reached by `x` before. -/
def crossing : Engine :=
  (((((new sideBySide true).grow ⟨"x", .script "sleep(1); let q = y; exports.w = 1;"⟩).grow
    ⟨"c", .formula "w + e" "v"⟩).grow ⟨"d", .formula "v" "e"⟩).grow ⟨"f", .input "5" "v"⟩).grow
      ⟨"s", .script "let q = v; #\x7b y: q \x7d"⟩

/-- Both scripts are started around the input cell, and `s` lands before `x`. -/
def crossingRoute : List (Option ℕ) := [none, none, none, some 1, some 0]

/-- The pass over the crossing is out of order in the end, since `x` is put back. -/
theorem crossing_pass_not_booked : crossing.inFlight = [] ∧
    ¬ ∀ k ≤ 5, (crossing.beginPass.route (.ofConfig sideBySide) crossingRoute k).Booked := by
  have hreach : Reachable (.ofConfig sideBySide) crossing :=
    ⟨sideBySide, true, ((((steps_grow _ _).trans (steps_grow _ _)).trans (steps_grow _ _)).trans
      (steps_grow _ _)).trans (steps_grow _ _)⟩
  have hroute : crossing.beginPass.isRoute (.ofConfig sideBySide) crossingRoute = true := by decide +kernel
  have hpass := isPass_route hreach rfl hroute
  obtain ⟨hflights, hiff⟩ := pass_booked_iff hpass
  have hrejoins : (crossing.beginPass.route (.ofConfig sideBySide) crossingRoute 4).rejoins 0 = true := by
    decide +kernel
  obtain ⟨a, hput, hcycle⟩ :=
    Stage.putsBack_of_rejoins (hpass.tidy (by decide)) (Stage.move?_route hroute rfl) hrejoins
  exact ⟨hflights, fun hbooked => hiff.mp hbooked 4 (by decide) a hput hcycle⟩

/-- The pass over the crossing after both scripts have arrived. -/
def crossed (l : Language) : Option Engine := do
  let (e, _) ← (crossing.tick l).toOption
  return e.awaitScript.awaitScript

/-- The script `x` waits to run again although it lies on a cycle. -/
theorem script_waits_on_cycle : ((crossed (.ofConfig sideBySide)).map fun e =>
    (e.pass.map (·.remaining), (e.graph.cycleOf? "x").isSome)) = some (some ["x"], true) := by
  decide +kernel

end Engine

end ReactiveNotebook
