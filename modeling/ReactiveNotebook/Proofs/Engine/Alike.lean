import ReactiveNotebook.Proofs.Engine.Cells
import ReactiveNotebook.Proofs.Engine.Move
import ReactiveNotebook.Proofs.Engine.Values

/-!
# What a pass depends on

What a pass has reported so far, the texts that cells show, the version counters of variables and the calls
of subscribers have no influence on how the pass goes on: two stages that agree on all else make the same
moves.
-/
namespace ReactiveNotebook

variable {l : Language}

def Cell.bare (c : Cell) : Cell := { c with rendered := none, logs := [] }

namespace Cell

variable {c d : Cell}

lemma id_of_bare (h : c.bare = d.bare) : c.id = d.id := show c.bare.id = d.bare.id from congrArg _ h
lemma reads_of_bare (h : c.bare = d.bare) : c.reads = d.reads := show c.bare.reads = d.bare.reads from congrArg _ h
lemma writes_of_bare (h : c.bare = d.bare) : c.writes = d.writes :=
  show c.bare.writes = d.bare.writes from congrArg _ h
lemma version_of_bare (h : c.bare = d.bare) : c.version = d.version :=
  show c.bare.version = d.bare.version from congrArg _ h
lemma content_of_bare (h : c.bare = d.bare) : c.content = d.content :=
  show c.bare.content = d.bare.content from congrArg _ h
lemma status_of_bare (h : c.bare = d.bare) : c.status = d.status :=
  show c.bare.status = d.bare.status from congrArg _ h
lemma blank_of_bare (h : c.bare = d.bare) : c.blank = d.blank := show c.bare.blank = d.bare.blank from congrArg _ h

end Cell

namespace Stage

variable {s s' t t' : Stage} {a : Arrival} {c d : Cell} {id : CellId} {name : String} {slot : Slot}
variable {fault : Fault} {outcome outcome' : Outcome} {names : Names}

/-- Two stages that agree on all that the pass depends on. -/
structure Alike (s t : Stage) : Prop where
  control : s.control = t.control
  cells : List.Forall₂ (fun c d => Cell.bare c = Cell.bare d) s.engine.cells t.engine.cells
  storage : s.engine.storage = t.engine.storage
  get : ∀ x, s.engine.get x = t.engine.get x
  slot : ∀ x, s.pass.slot x = t.pass.slot x
  changed : s.pass.changed = t.pass.changed

namespace Alike

@[refl] lemma refl (s : Stage) : s.Alike s := ⟨rfl, List.forall₂_same.mpr fun _ _ => rfl, rfl, fun _ => rfl, fun _ => rfl, rfl⟩

lemma symm (h : s.Alike t) : t.Alike s :=
  ⟨h.control.symm, h.cells.flip.imp fun _ _ he => he.symm, h.storage.symm, fun x => (h.get x).symm, fun x => (h.slot x).symm,
    h.changed.symm⟩

lemma foldl {α : Type} {f : Stage → α → Stage} (hf : ∀ s t a, s.Alike t → (f s a).Alike (f t a))
    (xs : List α) (h : s.Alike t) : (xs.foldl f s).Alike (xs.foldl f t) := by
  induction xs generalizing s t with
  | nil => exact h
  | cons x xs ih => exact ih (hf s t x h)

lemma graph (h : s.Alike t) : s.engine.graph = t.engine.graph := congrArg (·.engine.graph) h.control

lemma inFlight (h : s.Alike t) : s.engine.inFlight = t.engine.inFlight :=
  congrArg (·.engine.inFlight) h.control

lemma arriving (h : s.Alike t) : s.engine.arriving = t.engine.arriving :=
  congrArg (·.engine.arriving) h.control

lemma remaining (h : s.Alike t) : s.pass.remaining = t.pass.remaining :=
  congrArg (·.pass.remaining) h.control

lemma rerun (h : s.Alike t) : s.pass.rerun = t.pass.rerun := congrArg (·.pass.rerun) h.control

lemma members (h : s.Alike t) : s.pass.members = t.pass.members := congrArg (·.pass.members) h.control

lemma completed (h : s.Alike t) : s.pass.completed = t.pass.completed :=
  congrArg (·.pass.completed) h.control

lemma seeds (h : s.Alike t) : s.pass.seeds = t.pass.seeds := congrArg (·.pass.seeds) h.control

lemma commit (h : s.Alike t) : (s.commit name slot).Alike (t.commit name slot) where
  control := h.control
  cells := h.cells
  storage := h.storage
  get x := by rw [get_commit, get_commit, h.get]
  slot x := by rw [slot_commit, slot_commit, h.slot]
  changed := by rw [changed_commit, changed_commit, h.get, h.changed]

/-- The cells with one id found on both sides differ in their texts only. -/
lemma cell?_cases (h : s.Alike t) (id : CellId) :
    s.engine.cell? id = none ∧ t.engine.cell? id = none ∨
      ∃ c d, s.engine.cell? id = some c ∧ t.engine.cell? id = some d ∧ c.bare = d.bare := by
  unfold Engine.cell?
  have hcells := h.cells
  generalize s.engine.cells = cs, t.engine.cells = ds at hcells
  induction hcells with
  | nil => exact .inl ⟨rfl, rfl⟩
  | @cons c d cs ds hcd _ ih =>
    have hid : c.id = d.id := Cell.id_of_bare hcd
    by_cases hc : c.id = id
    · exact .inr ⟨c, d, by simp [hc], by simp [← hid, hc], hcd⟩
    · have hd : d.id ≠ id := hid ▸ hc
      simpa [List.find?_cons, hc, hd] using ih

lemma modifyCell {f g : Cell → Cell} (hf : ∀ c d, c.bare = d.bare → (f c).bare = (g d).bare)
    (h : s.Alike t) : (s.modifyCell id f).Alike (t.modifyCell id g) := by
  have hcells : List.Forall₂ (fun c d => Cell.bare c = Cell.bare d) (s.modifyCell id f).engine.cells
      (t.modifyCell id g).engine.cells := by
    refine List.forall₂_map_left_iff.mpr (List.forall₂_map_right_iff.mpr (h.cells.imp fun c d hcd => ?_))
    have hid : c.id = d.id := Cell.id_of_bare hcd
    rw [hid]
    split
    · exact hf c d hcd
    · exact hcd
  have hblank : (s.modifyCell id f).engine.cells.map Cell.blank = (t.modifyCell id g).engine.cells.map Cell.blank := by
    refine List.forall₂_eq_eq_eq ▸ List.forall₂_map_left_iff.mpr (List.forall₂_map_right_iff.mpr
      (hcells.imp fun c d hcd => ?_))
    exact Cell.blank_of_bare hcd
  refine ⟨?_, hcells, h.storage, h.get, h.slot, h.changed⟩
  have hcontrol : ∀ (u : Stage) (k : Cell → Cell), (u.modifyCell id k).control =
      { u.control with engine := { u.control.engine with
        cells := (u.modifyCell id k).engine.cells.map Cell.blank } } := fun _ _ => rfl
  rw [hcontrol, hcontrol, hblank, h.control]

lemma finish (h : s.Alike t) : (s.finish id outcome).Alike (t.finish id outcome') :=
  ⟨finish_congr h.control _, h.cells, h.storage, h.get, h.slot, h.changed⟩

lemma mark (h : s.Alike t) (hcd : c.bare = d.bare) : (s.mark c fault).Alike (t.mark d fault) := by
  have hid : c.id = d.id := Cell.id_of_bare hcd
  have hw : c.writes = d.writes := Cell.writes_of_bare hcd
  unfold Stage.mark
  rw [hid, hw]
  refine foldl (f := fun s name => s.commit name (.error fault)) (fun _ _ _ h => h.commit) _
    (h.modifyCell fun c d hcd => ?_)
  simp only [Cell.bare, Cell.mk.injEq] at hcd ⊢
  simp [hcd]

lemma fail (h : s.Alike t) (hcd : c.bare = d.bare) : (s.fail c fault).Alike (t.fail d fault) := by
  have hid : c.id = d.id := Cell.id_of_bare hcd
  unfold Stage.fail
  rw [hid]
  exact (h.mark hcd).finish

lemma succeed (h : s.Alike t) : (s.succeed id).Alike (t.succeed id) := by
  refine finish (h.modifyCell fun c d hcd => ?_)
  simp only [Cell.bare, Cell.mk.injEq] at hcd ⊢
  simp [hcd]

lemma block (h : s.Alike t) (id : CellId) : (s.block id).Alike (t.block id) := by
  unfold Stage.block
  rcases h.cell?_cases id with ⟨hs, ht⟩ | ⟨c, d, hs, ht, hcd⟩
  · rw [hs, ht]
    exact h
  · simp only [hs, ht, h.graph]
    exact (h.mark hcd).finish

lemma inputs (h : s.Alike t) (hcd : c.bare = d.bare) : s.inputs c = t.inputs d := by
  have hr : c.reads = d.reads := Cell.reads_of_bare hcd
  have hw : c.writes = d.writes := Cell.writes_of_bare hcd
  unfold Stage.inputs
  rw [hr, hw]
  exact List.map_congr_left fun x _ => by rw [h.slot]

lemma isTriggered (h : s.Alike t) (hcd : c.bare = d.bare) : s.isTriggered c = t.isTriggered d := by
  have hid : c.id = d.id := Cell.id_of_bare hcd
  have hr : c.reads = d.reads := Cell.reads_of_bare hcd
  unfold Stage.isTriggered
  rw [hid, hr, h.seeds, h.changed]
  simp only [h.slot]

lemma launch {source : String} {inputs : Inputs} (h : s.Alike t) (hcd : c.bare = d.bare) :
    (s.launch l c source inputs).Alike (t.launch l d source inputs) := by
  have hid : c.id = d.id := Cell.id_of_bare hcd
  have hv : c.version = d.version := Cell.version_of_bare hcd
  have hw : s.engine.workTime = t.engine.workTime := congrArg (·.engine.workTime) h.control
  have hflights : (s.launch l c source inputs).engine.inFlight = (t.launch l d source inputs).engine.inFlight := by
    simp only [Stage.launch, h.inFlight, hid, hv]
  have harriving : (s.launch l c source inputs).engine.arriving = (t.launch l d source inputs).engine.arriving := by
    simp only [Stage.launch, h.arriving, h.storage, hw, hid, hv]
  have hcontrol : ∀ (u : Stage) (b : Cell), (u.launch l b source inputs).control =
      { u.control with engine := { u.control.engine with
        inFlight := (u.launch l b source inputs).engine.inFlight
        arriving := (u.launch l b source inputs).engine.arriving } } := fun _ _ => rfl
  refine ⟨?_, h.cells, ?_, h.get, h.slot, h.changed⟩
  · rw [hcontrol, hcontrol, hflights, harriving, h.control]
  · simp only [Stage.launch, h.storage]

lemma dispatch {source : String} {inputs : Inputs} (h : s.Alike t) (hcd : c.bare = d.bare)
    (hs : s.dispatch l c source inputs = .ok s') : ∃ t', t.dispatch l d source inputs = .ok t' ∧ s'.Alike t' := by
  unfold Stage.dispatch at hs ⊢
  rw [← Cell.id_of_bare hcd, ← Cell.version_of_bare hcd]
  dsimp only at hs ⊢
  split at hs
  · cases hs
  · next hname =>
    rw [if_neg hname]
    cases hrefusal : l.refusal? ⟨c.id, c.version, source, inputs⟩ with
    | some cause =>
      simp only [hrefusal] at hs ⊢
      cases hs
      exact ⟨_, rfl, h.fail hcd⟩
    | none =>
      simp only [hrefusal] at hs ⊢
      cases hs
      exact ⟨_, rfl, h.launch hcd⟩

/-- Evaluating a cell whose texts differ comes out alike. -/
lemma evaluate {inputs : Inputs} (h : s.Alike t) (hcd : c.bare = d.bare)
    (hs : s.evaluate l c inputs = .ok s') : ∃ t', t.evaluate l d inputs = .ok t' ∧ s'.Alike t' := by
  have hid : c.id = d.id := Cell.id_of_bare hcd
  unfold Stage.evaluate at hs ⊢
  rw [← Cell.content_of_bare hcd, ← hid]
  cases hcontent : c.content with
  | script source =>
    simp only [hcontent] at hs ⊢
    exact h.dispatch hcd hs
  | formula expression output =>
    simp only [hcontent] at hs ⊢
    cases hv : l.evaluate expression inputs with
    | ok v =>
      simp only [hv] at hs ⊢
      cases hs
      exact ⟨_, rfl, h.commit.succeed⟩
    | error message =>
      simp only [hv] at hs ⊢
      cases hs
      exact ⟨_, rfl, h.fail hcd⟩
  | input literal output =>
    simp only [hcontent] at hs ⊢
    cases hs
    exact ⟨_, rfl, h.commit.succeed⟩
  | markdown template =>
    simp only [hcontent] at hs ⊢
    cases hr : l.render template inputs with
    | error cause => simp [hr, Except.mapError, bind, Except.bind] at hs
    | ok text =>
      simp only [hr, Except.mapError, bind, Except.bind, pure, Except.pure] at hs ⊢
      cases hs
      refine ⟨_, rfl, succeed (h.modifyCell fun c d hcd => ?_)⟩
      simp only [Cell.bare, Cell.mk.injEq] at hcd ⊢
      simp [hcd]

lemma runCell (h : s.Alike t) (hs : s.runCell l id = .ok s') :
    ∃ t', t.runCell l id = .ok t' ∧ s'.Alike t' := by
  unfold Stage.runCell at hs ⊢
  rcases h.cell?_cases id with ⟨hsc, htc⟩ | ⟨c, d, hsc, htc, hcd⟩
  · rw [hsc] at hs
    rw [htc]
    cases hs
    exact ⟨_, rfl, h.finish⟩
  · simp only [hsc, htc] at hs ⊢
    rw [← h.isTriggered hcd, ← h.inputs hcd]
    split at hs
    · next ht =>
      rw [if_pos ht]
      cases hs
      exact ⟨_, rfl, h.finish⟩
    · next ht =>
      rw [if_neg ht]
      cases hf : firstFault (s.inputs c) with
      | none =>
        simp only [hf] at hs ⊢
        exact h.evaluate hcd hs
      | some p =>
        simp only [hf] at hs ⊢
        cases hs
        exact ⟨_, rfl, h.fail hcd⟩

lemma isWrittenElsewhere (h : s.Alike t) : s.engine.isWrittenElsewhere name id = t.engine.isWrittenElsewhere name id := by
  unfold Engine.isWrittenElsewhere
  have hcells := h.cells
  generalize s.engine.cells = cs, t.engine.cells = ds at hcells
  induction hcells with
  | nil => rfl
  | cons hcd _ ih =>
    rw [List.any_cons, List.any_cons, ih, Cell.id_of_bare hcd, Cell.writes_of_bare hcd]

lemma retract (h : s.Alike t) : (Stage.retract id s name).Alike (Stage.retract id t name) := by
  have hpass : (Stage.retract id s name).pass.slot = (Stage.retract id t name).pass.slot ∧
      (Stage.retract id s name).pass.changed = (Stage.retract id t name).pass.changed := by
    by_cases hw : s.engine.isWrittenElsewhere name id = true
    · have hw' := h.isWrittenElsewhere ▸ hw
      unfold Stage.retract
      rw [if_pos hw, if_pos hw']
      exact ⟨funext h.slot, h.changed⟩
    · have hw : s.engine.isWrittenElsewhere name id = false := by simpa using hw
      have hw' := h.isWrittenElsewhere ▸ hw
      by_cases hu : s.engine.get name = .undefined
      · rw [retract_of_undefined hu, retract_of_undefined (h.get name ▸ hu)]
        exact ⟨funext h.slot, h.changed⟩
      · rw [retract_of_defined hu hw, retract_of_defined (h.get name ▸ hu) hw']
        refine ⟨funext fun x => ?_, ?_⟩
        · rw [Pass.slot_record, Pass.slot_record, h.slot]
        · exact congrArg (·.insert name) h.changed
  refine ⟨?_, ?_, ?_, fun x => ?_, congrFun hpass.1, hpass.2⟩
  · rw [control_retract, control_retract]
    exact h.control
  · rw [cells_retract, cells_retract]
    exact h.cells
  · have hstorage : ∀ u : Stage, (Stage.retract id u name).engine.storage = u.engine.storage := by
      intro u
      unfold Stage.retract
      split <;> rfl
    rw [hstorage, hstorage, h.storage]
  · rw [get_retract, get_retract, h.isWrittenElsewhere, h.get]

lemma land (h : s.Alike t) : (s.land id).Alike (t.land id) := by
  refine ⟨?_, h.cells, h.storage, h.get, h.slot, h.changed⟩
  have hcontrol : ∀ u : Stage, (u.land id).control = u.control.land id := fun _ => rfl
  rw [hcontrol, hcontrol, h.control]

lemma deliver {rest : List Arrival} (h : s.Alike t) : (s.deliver rest).Alike (t.deliver rest) := by
  refine ⟨?_, h.cells, h.storage, h.get, h.slot, h.changed⟩
  have hcontrol : ∀ u : Stage, (u.deliver rest).control = u.control.deliver rest := fun _ => rfl
  rw [hcontrol, hcontrol, h.control]

lemma withdraw {i : ℕ} (h : s.Alike t) : (s.withdraw i).Alike (t.withdraw i) := by
  refine ⟨?_, h.cells, h.storage, h.get, h.slot, h.changed⟩
  have hcontrol : ∀ u : Stage, (u.withdraw i).control = u.control.withdraw i := fun _ => rfl
  rw [hcontrol, hcontrol, h.control]

lemma requeue (h : s.Alike t) : (s.requeue id).Alike (t.requeue id) := by
  refine ⟨?_, h.cells, h.storage, h.get, h.slot, h.changed⟩
  have hcontrol : ∀ u : Stage, (u.requeue id).control = (u.control.requeue id).control := by
    intro u
    simp [Stage.control, Stage.requeue, Cell.blank]
  rw [hcontrol, h.control, ← hcontrol]

lemma dismiss (h : s.Alike t) : (s.dismiss id).Alike (t.dismiss id) := by
  have hstale : ({ s with pass := { s.pass with stale := s.pass.stale + 1 } } : Stage).Alike
      { t with pass := { t.pass with stale := t.pass.stale + 1 } } :=
    ⟨h.control, h.cells, h.storage, h.get, h.slot, h.changed⟩
  unfold Stage.dismiss
  by_cases hc : (s.pass.members.contains id && !s.pass.completed.contains id) = true
  · have hc' : (t.pass.members.contains id && !t.pass.completed.contains id) = true := by
      rw [← h.members, ← h.completed]
      exact hc
    simp only [hc, hc', if_true]
    exact hstale.finish
  · have hc' : ¬ (t.pass.members.contains id && !t.pass.completed.contains id) = true := by
      rw [← h.members, ← h.completed]
      exact hc
    simp only [hc, hc']
    exact hstale

lemma keepLogs {logs : List String} (h : s.Alike t) : (s.keepLogs id logs).Alike (t.keepLogs id logs) :=
  h.modifyCell fun c d hcd => by
    simp only [Cell.bare, Cell.mk.injEq] at hcd ⊢
    simp [hcd]

lemma adopt {exports : Script.Fields} (h : s.Alike t) (hcd : c.bare = d.bare) :
    (s.adopt c exports).Alike (t.adopt d exports) := by
  unfold Stage.adopt
  rw [Cell.id_of_bare hcd, Cell.writes_of_bare hcd]
  have hcommits := h.foldl (f := fun s (x : String × Script.Value) => s.commit x.1 (.value x.2))
    (fun _ _ _ h => h.commit) exports
  have hretracts := hcommits.foldl (f := Stage.retract d.id) (fun _ _ _ h => h.retract)
    (d.writes.names.toList.filter fun name => !(Names.ofList (exports.map (·.1))).contains name)
  refine succeed (hretracts.modifyCell fun c d hcd => ?_)
  simp only [Cell.bare, Cell.mk.injEq] at hcd ⊢
  simp [hcd]

lemma map_filter {p : CellId → Bool → Bool} {cs ds : List Cell}
    (h : List.Forall₂ (fun c d => Cell.bare c = Cell.bare d) cs ds) :
    (cs.filter fun c => p c.id c.status.isCycle).map (·.id) =
      (ds.filter fun c => p c.id c.status.isCycle).map (·.id) := by
  induction h with
  | nil => rfl
  | @cons c d _ _ hcd _ ih =>
    rw [List.filter_cons, List.filter_cons, Cell.id_of_bare hcd, Cell.status_of_bare hcd]
    split
    · rw [List.map_cons, List.map_cons, ih, Cell.id_of_bare hcd]
    · exact ih

lemma rebuild (h : s.Alike t) :
    ({ s with engine := s.engine.rebuild } : Stage).Alike { t with engine := t.engine.rebuild } := by
  have hgraph : Graph.build s.engine.cells = Graph.build t.engine.cells :=
    Graph.build_congr (map_ofCell_of_control h.control)
  have hseeds : s.engine.rebuild.seeds = t.engine.rebuild.seeds := by
    have hmoved := map_filter (p := fun id blocked =>
      blocked != ((Graph.build s.engine.cells).cycleOf? id).isSome) h.cells
    have hold : s.engine.seeds = t.engine.seeds := congrArg (·.engine.seeds) h.control
    rw [hgraph] at hmoved
    simp only [Engine.rebuild, hold, hmoved, hgraph]
  have hcontrol : ∀ u : Stage, ({ u with engine := u.engine.rebuild } : Stage).control =
      { u.control with engine := { u.control.engine with
        graph := Graph.build u.engine.cells, seeds := u.engine.rebuild.seeds } } := fun _ => rfl
  refine ⟨?_, h.cells, h.storage, h.get, h.slot, h.changed⟩
  rw [hcontrol, hcontrol, hgraph, hseeds, h.control]

lemma downstream (h : s.Alike t) : s.downstream id names = t.downstream id names := by
  unfold Stage.downstream
  rw [h.graph]

lemma isFlying (h : s.Alike t) : s.isFlying = t.isFlying := by
  funext x
  unfold Stage.isFlying
  rw [h.inFlight]

lemma pending (h : s.Alike t) : s.pending id names = t.pending id names := by
  unfold Stage.pending
  rw [h.downstream, h.remaining, h.isFlying]

lemma enlarge (h : s.Alike t) : (s.enlarge id names).Alike (t.enlarge id names) := by
  have hcontrol : ∀ u : Stage, (u.enlarge id names).control = (u.control.enlarge id names).control := by
    intro u
    simp [Stage.control, Stage.enlarge, Stage.downstream, Stage.pending, Stage.isFlying, Cell.blank]
  refine ⟨?_, h.cells, h.storage, h.get, h.slot, h.changed⟩
  rw [hcontrol, h.control, ← hcontrol]

lemma extend (h : s.Alike t) : (s.extend id names).Alike (t.extend id names) := by
  rw [extend_eq, extend_eq, h.graph, h.pending]
  exact h.enlarge.foldl (fun _ _ id h => h.block id) _

lemma accept {exports : Script.Fields} (h : s.Alike t) (hcd : c.bare = d.bare) :
    (s.accept c exports).Alike (t.accept d exports) := by
  have hadopt : (s.adopt c exports).Alike (t.adopt d exports) := h.adopt hcd
  rw [accept_eq, accept_eq, Cell.writes_of_bare hcd, Cell.id_of_bare hcd]
  split
  · exact hadopt.rebuild.extend
  · exact hadopt

lemma addressee?_cases (h : s.Alike t) (a : Arrival) :
    s.addressee? a = none ∧ t.addressee? a = none ∨
      ∃ c d, s.addressee? a = some c ∧ t.addressee? a = some d ∧ c.bare = d.bare := by
  unfold Stage.addressee?
  rw [h.inFlight]
  rcases h.cell?_cases a.cell with ⟨hs, ht⟩ | ⟨c, d, hs, ht, hcd⟩
  · exact .inl ⟨by rw [hs]; rfl, by rw [ht]; rfl⟩
  · simp only [hs, ht, Option.filter, Cell.version_of_bare hcd]
    split
    · exact .inr ⟨c, d, rfl, rfl, hcd⟩
    · exact .inl ⟨rfl, rfl⟩

theorem receive (h : s.Alike t) (a : Arrival) : (s.receive a).Alike (t.receive a) := by
  rcases h.addressee?_cases a with ⟨hs, ht⟩ | ⟨c, d, hs, ht, hcd⟩
  · rw [receive_stale hs, receive_stale ht]
    exact h.land.dismiss
  · by_cases hr : a.cell ∈ s.pass.rerun
    · have hr' : a.cell ∈ t.pass.rerun := h.rerun ▸ hr
      rw [receive_again hs hr, receive_again ht hr']
      exact h.land.requeue
    · have hr' : a.cell ∉ t.pass.rerun := h.rerun ▸ hr
      rcases hrun : settle a.run with ⟨result, logs⟩
      cases result with
      | error message =>
        rw [receive_failed hs hr hrun, receive_failed ht hr' hrun]
        exact h.land.keepLogs.fail hcd
      | ok exports =>
        rw [receive_accepted hs hr hrun, receive_accepted ht hr' hrun]
        exact h.land.keepLogs.accept hcd

lemma next? (h : s.Alike t) : s.next? = t.next? := by
  have hready : s.isReady = t.isReady := by
    funext id
    unfold Stage.isReady
    rw [h.graph, h.members, h.completed]
  unfold Stage.next?
  rw [h.remaining, h.inFlight, hready]

/-- Two stages that agree on what matters make the same moves. -/
theorem move (h : s.Alike t) (hm : s.Move l s') : ∃ t', t.Move l t' ∧ s'.Alike t' := by
  cases hm with
  | start hfree hi hid hrun =>
    obtain ⟨t', ht', hst⟩ := h.withdraw.runCell hrun
    have hconfig : s.engine.config = t.engine.config := congrArg (·.engine.config) h.control
    refine ⟨t', .start ?_ (h.next? ▸ hi) (h.remaining ▸ hid) ht', hst⟩
    rw [← hconfig, ← h.inFlight]
    exact hfree
  | receive hp => exact ⟨_, .receive (h.arriving ▸ hp), h.deliver.receive _⟩

end Alike

end Stage

end ReactiveNotebook
