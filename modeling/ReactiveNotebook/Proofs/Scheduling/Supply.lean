import ReactiveNotebook.Proofs.Scheduling.Footprint
import ReactiveNotebook.Proofs.Scheduling.Owed
import ReactiveNotebook.Proofs.Scheduling.Reports

/-!
# Input cells that supply a variable

A variable may be written by input cells only, which all give it one value. It has the value as soon as one of them
has been evaluated, and keeps it: whatever else is evaluated, arrives or comes onto a cycle writes other variables. An
input cell reads nothing, so it is ready whenever it waits, and no reader is started before it.
-/
namespace ReactiveNotebook

open Script (Value)

variable {l : Language}

namespace Cell

/-- The cell is an input cell that gives the variable the value. -/
structure Supplies (c : Cell) (n : String) (v : Value) : Prop where
  writes : n ∈ c.writes.names
  deaf : ∀ x, x ∉ c.reads
  text : ∃ text, c.content = .input text n ∧ readLiteral text = v

variable {c d : Cell} {n : String} {v : Value} {view : String → Slot}

lemma Supplies.inputs_eq (h : c.Supplies n v) : c.inputs view = [] := by
  rw [inputs, List.map_eq_nil_iff, List.eq_nil_iff_forall_not_mem]
  exact h.deaf

lemma Supplies.verdict_eq (h : c.Supplies n v) : c.verdict l view = .ok (.value n v) := by
  obtain ⟨text, hcontent, rfl⟩ := h.text
  unfold verdict
  rw [h.inputs_eq, hcontent]
  rfl

/-- The cell reads nothing, so it depends on no other. -/
lemma Supplies.not_edge {cells : List Cell} {x : CellId} (h : c.Supplies n v) (hn : (cells.map (·.id)).Nodup)
    (hc : c ∈ cells) : ¬ (Graph.build cells).Edge x c.id := fun hedge => by
  obtain ⟨-, -, d, hd, -, hid, -, name, -, hread⟩ := (Graph.edge_build_iff hn).mp hedge
  rw [List.inj_on_of_nodup_map hn hd hc hid] at hread
  exact h.deaf name hread

lemma Supplies.not_onCycle {cells : List Cell} (h : c.Supplies n v) (hn : (cells.map (·.id)).Nodup) (hc : c ∈ cells) :
    ¬ (Graph.build cells).OnCycle c.id := fun hcycle => by
  obtain ⟨y, -, hedge⟩ := Relation.TransGen.tail'_iff.mp hcycle
  exact h.not_edge hn hc hedge

lemma Supplies.isScript_eq (h : c.Supplies n v) : c.content.isScript = false := by
  obtain ⟨text, hcontent, -⟩ := h.text
  rw [hcontent]
  rfl

end Cell

namespace Engine

/-- Only input cells write the variable, and they all give it the value. -/
def Supplied (e : Engine) (n : String) (v : Value) : Prop :=
  ∀ c ∈ e.cells, n ∈ c.writes.names ∨ c.content.output? = some n → c.Supplies n v

end Engine

namespace Stage

variable {s s' t : Stage} {a : Arrival} {c d : Cell} {id x y : CellId} {i : ℕ} {n : String} {v : Value} {slot : Slot}
variable {p : String → Prop} {rest : List Arrival}

/-- The variable has the slot, and the pass sees it. -/
structure Carries (s : Stage) (n : String) (slot : Slot) : Prop where
  value : s.engine.get n = slot
  seen : s.pass.slot n = slot

lemma Carries.of_replaces (h : s.Carries n slot) (hreplaces : Replaces p s t) (hn : ¬ p n) : t.Carries n slot := by
  rcases hreplaces.value n with ⟨hvalue, hseen⟩ | ⟨hp, -⟩
  · exact ⟨hvalue.trans h.value, hseen.trans h.seen⟩
  · exact absurd hp hn

/-- The turn of a cell replaces what it writes or declares. -/
lemma replaces_verdict {view : String → Slot} {verdict : Verdict} (hv : c.verdict l view = .ok verdict) :
    Replaces (fun x => x ∈ c.writes.names ∨ c.content.output? = some x) s (s.conclude l c verdict) := by
  cases verdict with
  | fault f => exact replaces_fail.mono fun _ hx => .inl hx
  | value output value =>
    have hout := Cell.output_of_verdict hv
    exact (replaces_commit.mono fun x hx => .inr (hx ▸ hout)).trans replaces_succeed
  | text text => exact replaces_modifyCell.trans replaces_succeed
  | script source inputs => exact .of_eq (fun _ => rfl) (fun _ => rfl) rfl

/-- A cell that gives the variable its value has done so after its turn. -/
lemma carries_of_evaluated (h : c.Supplies n v) {view : String → Slot} {verdict : Verdict}
    (hv : c.verdict l view = .ok verdict) : (s.conclude l c verdict).Carries n (.value v) := by
  rw [h.verdict_eq] at hv
  cases hv
  exact ⟨get_commit.trans (if_pos rfl), slot_commit.trans (if_pos rfl)⟩

lemma Carries.start (h : s.Carries n (.value v)) (hsupplied : s.engine.Supplied n v)
    (hrun : (s.withdraw i).runCell l id = .ok s') : s'.Carries n (.value v) := by
  have hwithdraw : (s.withdraw i).Carries n (.value v) := ⟨h.value, h.seen⟩
  cases turn_of_runCell hrun with
  | gone _ => exact ⟨h.value, h.seen⟩
  | unchanged _ _ => exact ⟨h.value, h.seen⟩
  | @evaluated c verdict hc _ hv =>
    by_cases hwrites : n ∈ c.writes.names ∨ c.content.output? = some n
    · exact carries_of_evaluated (hsupplied c (List.mem_of_find?_eq_some hc) hwrites) hv
    · exact hwithdraw.of_replaces (replaces_verdict hv) hwrites

/-- A result of a script that does not write the variable leaves it alone, whatever comes onto a cycle. -/
lemma Carries.landing (h : s.Carries n slot) (hland : (s.land a.cell).Tidy) (hlanding : Landing s a t)
    (hold : ∀ c ∈ s.engine.cells, c.id = a.cell → n ∉ c.writes.names)
    (hnew : ∀ c ∈ t.engine.cells, n ∈ c.writes.names → c.id ≠ a.cell ∧ ¬ t.engine.graph.OnCycle c.id)
    (hwaits : a.cell ∉ s.pass.remaining) : t.Carries n slot := by
  have hlanded : ∀ logs, (s.landed a logs).Carries n slot := fun logs => ⟨h.value, h.seen⟩
  cases hlanding with
  | stale _ =>
    obtain ⟨completed, results, heq⟩ := dismiss_shape (s.land a.cell) a.cell
    rw [heq]
    exact ⟨h.value, h.seen⟩
  | again _ _ => exact ⟨h.value, h.seen⟩
  | @failed c message logs hc _ _ =>
    have hcell := cell?_of_addressee? hc
    exact (hlanded logs).of_replaces replaces_fail
      (hold c (List.mem_of_find?_eq_some hcell) (id_eq_of_cell? hcell))
  | @accepted c exports logs hc _ _ =>
    have hcell := cell?_of_addressee? hc
    have hcid : c.id = a.cell := id_eq_of_cell? hcell
    have hcm : c ∈ s.engine.cells := List.mem_of_find?_eq_some hcell
    have hcm' : { c with logs } ∈ (s.landed a logs).engine.cells := mem_landed hcm hcid
    have haccepted : { c with logs, writes := .confirmed (Names.ofList (exports.map (·.1))), status := .ok } ∈
        ((s.landed a logs).accept c exports).engine.cells := mem_accept hcm' rfl (hcid ▸ hwaits)
    have hexports : n ∉ Names.ofList (exports.map (·.1)) := fun hn => (hnew _ haccepted hn).1 hcid
    have hadopted : ¬ (n ∈ Names.ofList (exports.map (·.1)) ∨ n ∈ c.writes.names) :=
      not_or.mpr ⟨hexports, hold c hcm hcid⟩
    rcases accept_cases (s.landed a logs) c exports with ⟨-, heq⟩ | heq
    · rw [heq]
      exact (hlanded logs).of_replaces replaces_adopt hadopted
    · rw [heq] at hnew ⊢
      have ht : ((s.landed a logs).readopt c exports).Tidy := (hland.keepLogs a.cell logs).rebuild_adopt
      refine ((hlanded logs).of_replaces replaces_readopt hadopted).of_replaces (replaces_extend ht) ?_
      rintro ⟨d, hd, -, hcycle, hwrites⟩
      obtain ⟨d', hd', hid, hsame⟩ := exists_mem_extend c.id (novel c exports) hd
      refine (hnew d' hd' (hsame ▸ hwrites)).2 ?_
      rwa [hid, graph_extend]

theorem Carries.move (h : s.Carries n (.value v)) (hs : s.Tidy) (hm : s.Move l s') (hsupplied : s.engine.Supplied n v)
    (hsupplied' : s'.engine.Supplied n v)
    (hscripts : ∀ c ∈ s.engine.cells, c.id ∈ s.flying → c.content.isScript = true) : s'.Carries n (.value v) := by
  have hs' := hs.move hm
  have hrevisions := hm.revisions_eq
  cases hm with
  | start _ _ _ hrun => exact h.start hsupplied hrun
  | @receive a rest hperm =>
    have hfly : a.cell ∈ s.flying := flying_of_arriving hs hperm
    have hdeliver : (s.deliver rest).Carries n (.value v) := ⟨h.value, h.seen⟩
    refine hdeliver.landing (hs.land hperm) (landing_receive _ a) (fun c hc hid hwrites => ?_) (fun c hc hwrites => ?_)
      fun hw => hs.grounded a.cell hw hfly
    · have hscript := hscripts c hc (hid ▸ hfly)
      rw [(hsupplied c hc (.inl hwrites)).isScript_eq] at hscript
      cases hscript
    · have hsupplies := hsupplied' c hc (.inl hwrites)
      refine ⟨fun hid => ?_, hs'.graph ▸ hsupplies.not_onCycle hs'.ids hc⟩
      obtain ⟨b, hb, heq⟩ := Cell.exists_revision hrevisions hc
      have hbid : b.id = c.id := congrArg (·.1) heq
      have hcontent : b.content = c.content := congrArg (·.2.1) heq
      have hscript := hscripts b hb (hbid.trans hid ▸ hfly)
      rw [hcontent, hsupplies.isScript_eq] at hscript
      cases hscript

/-- The cell waits and is going to be evaluated in this pass. -/
structure Poises (s : Stage) (x : CellId) : Prop where
  waits : x ∈ s.pass.remaining
  root : x ∈ s.pass.seeds
  member : x ∈ s.pass.members
  undone : x ∉ s.pass.completed

lemma Poises.start (h : s.Poises x) (hstarts : Starts id s s') (hne : x ≠ id) : s'.Poises x where
  waits := (hstarts.waiting x).mpr ⟨h.waits, hne⟩
  root := hstarts.roots ▸ h.root
  member := hstarts.members ▸ h.member
  undone := by
    rcases hstarts.fate with ⟨hdone, -⟩ | ⟨hdone, -⟩ <;> rw [hdone]
    · exact fun hx => (Names.mem_insert.mp hx).elim hne h.undone
    · exact h.undone

/-- What arrives leaves a cell poised that lies on no cycle. -/
lemma Poises.receive (h : s.Poises x) (hs : s.Tidy) (ha : s.Attentive) (hperm : s.engine.arriving.Perm (a :: rest))
    (hk : x ∈ s.engine.cells.map (·.id)) (hoff : ¬ ((s.deliver rest).receive a).engine.graph.OnCycle x) :
    ((s.deliver rest).receive a).Poises x := by
  have hfly : a.cell ∈ s.flying := flying_of_arriving hs hperm
  have hne : x ≠ a.cell := fun heq => hs.grounded x h.waits (heq ▸ hfly)
  have hland := hs.land hperm
  have hlanding := landing_receive (s.deliver rest) a
  generalize (s.deliver rest).receive a = t at hlanding hoff
  cases hlanding with
  | stale _ =>
    unfold dismiss
    dsimp only
    split
    · exact ⟨h.waits, h.root, h.member, fun hx => (Names.mem_insert.mp hx).elim hne h.undone⟩
    · exact ⟨h.waits, h.root, h.member, h.undone⟩
  | again _ _ =>
    refine ⟨Unlooped.mem_requeue ha.unlooped hs hfly (.inr h.waits) hk, Names.mem_insert.mpr (.inr h.root),
      h.member, fun hx => ?_⟩
    exact h.undone (Names.mem_filter.mp hx).1
  | @failed c message logs hc _ _ =>
    have hcid : c.id = a.cell := id_of_addressee? hc
    have hpass : ∀ {α : Type} (part : Pass → α), (∀ s : Stage, part s.control.pass = part s.pass) → part
        (((s.deliver rest).landed a logs).fail c (.execution a.cell message)).pass =
          part (((s.deliver rest).landed a logs).finish c.id .success).pass := fun part hpart =>
      part_of_control (part ·.pass) hpart (control_failed (s.deliver rest) a c logs message)
    refine ⟨?_, ?_, ?_, fun hx => ?_⟩
    · rw [hpass (·.remaining) fun _ => rfl]
      exact h.waits
    · rw [hpass (·.seeds) fun _ => rfl]
      exact h.root
    · rw [hpass (·.members) fun _ => rfl]
      exact h.member
    · rw [hpass (·.completed) fun _ => rfl] at hx
      exact (Names.mem_insert.mp hx).elim (hcid ▸ hne) h.undone
  | @accepted c exports logs hc _ _ =>
    have hcid : c.id = a.cell := id_of_addressee? hc
    have hcontrol := control_adopt ((s.deliver rest).landed a logs) c exports
    have hadopt : (((s.deliver rest).landed a logs).adopt c exports).Poises x := by
      refine ⟨?_, ?_, ?_, fun hx => ?_⟩
      · exact congrArg (·.pass.remaining) hcontrol ▸ h.waits
      · exact congrArg (·.pass.seeds) hcontrol ▸ h.root
      · exact congrArg (·.pass.members) hcontrol ▸ h.member
      · rw [completed_adopt] at hx
        exact (Names.mem_insert.mp hx).elim (hcid ▸ hne) h.undone
    rcases accept_cases ((s.deliver rest).landed a logs) c exports with ⟨-, heq⟩ | heq
    · rw [heq]
      exact hadopt
    · rw [heq] at hoff ⊢
      have ht : (((s.deliver rest).landed a logs).readopt c exports).Tidy := (hland.keepLogs a.cell logs).rebuild_adopt
      have hids : (((s.deliver rest).landed a logs).readopt c exports).engine.cells.map (·.id) =
          s.engine.cells.map (·.id) :=
        ids_adopt.trans (ids_modifyCell fun _ => rfl)
      have hreadopt : (((s.deliver rest).landed a logs).readopt c exports).Poises x :=
        ⟨hadopt.waits, hadopt.root, hadopt.member, hadopt.undone⟩
      rw [graph_extend] at hoff
      refine ⟨?_, roots_extend.symm ▸ hreadopt.root, mem_members_extend.mpr (.inr hreadopt.member), fun hx => ?_⟩
      · refine (mem_remaining_extend ht).mpr ⟨mem_pending.mpr (.inl hreadopt.waits), ?_, hoff⟩
        exact ht.mem_ids_iff.mpr (hids ▸ hk)
      · rcases (mem_completed_extend ht).mp hx with ⟨hx, -⟩ | ⟨-, hcycle⟩
        · exact hreadopt.undone hx
        · exact hoff hcycle

/-- A poised cell has a reason to be evaluated, so its turn provides the value. -/
lemma Poises.carries_of_start (h : s.Poises c.id) (hs : s.Tidy) (hc : c ∈ s.engine.cells) (hsupplies : c.Supplies n v)
    (hi : s.next? = some i) (hid : s.pass.remaining[i]? = some c.id) (hrun : (s.withdraw i).runCell l c.id = .ok s') :
    s'.Carries n (.value v) := by
  have hcell : s.engine.cell? c.id = some c := (Engine.cell?_eq_some_iff hs.ids).mpr ⟨hc, rfl⟩
  rcases judges_or hi hid hrun with ⟨d, hdid, j, verdict, -, -, hd, -, hv, rfl⟩ | ⟨hidle, -⟩
  · rw [hdid, hcell] at hd
    cases hd
    exact carries_of_evaluated hsupplies hv
  · have htrigger := hidle c hcell
    rw [isTriggered, Names.contains_iff.mpr h.root] at htrigger
    cases htrigger

/-- A poised input cell stays poised until its turn has come. -/
theorem Poises.move (h : s.Poises c.id) (hs : s.Tidy) (ha : s.Attentive) (hc : c ∈ s.engine.cells)
    (hsupplies : c.Supplies n v) (hd : d ∈ s'.engine.cells) (hdid : d.id = c.id) (hsupplies' : d.Supplies n v)
    (hm : s.Move l s') : s'.Poises d.id ∨ s'.Carries n (.value v) := by
  have hs' := hs.move hm
  have hoff : ¬ s'.engine.graph.OnCycle c.id := hdid ▸ hs'.graph ▸ hsupplies'.not_onCycle hs'.ids hd
  rw [hdid]
  cases hm with
  | @start i id s' _ hi hid hrun =>
    by_cases hne : c.id = id
    · subst hne
      exact .inr (h.carries_of_start hs hc hsupplies hi hid hrun)
    · exact .inl (h.start (starts_of_runCell hs hid hrun) hne)
  | receive hperm => exact .inl (h.receive hs ha hperm (List.mem_map_of_mem hc) hoff)

/-- While a cell is poised that depends on nothing, no cell is started that depends on it. -/
lemma Poises.not_edge (h : s.Poises x) (hs : s.Tidy) (hsource : ∀ y, ¬ s.engine.graph.Edge y x)
    (hi : s.next? = some i) (hid : s.pass.remaining[i]? = some id) : ¬ s.engine.graph.Edge x id := by
  have hx : s.isReady x = true :=
    isReady_iff.mpr fun d hd => absurd ((hs.coherent.edge_iff d x).mpr hd) (hsource d)
  have hready : s.isReady id = true := (ready_or_first_of_next hi hid).resolve_right fun ⟨_, hnone, _⟩ =>
    Bool.false_ne_true ((hnone x h.waits).symm.trans hx)
  intro hedge
  exact h.undone (isReady_iff.mp hready x ((hs.coherent.edge_iff x id).mp hedge) h.member)

end Stage

end ReactiveNotebook
