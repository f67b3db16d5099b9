import ReactiveNotebook.Proofs.Engine.Control

/-!
# Taking over the result of a script

A result that arrives is dismissed, puts its script back among the waiting cells, or is taken over. If the
names that the script writes are not the ones known before, the graph is built anew and the pass enlarged.
-/
namespace ReactiveNotebook.Stage

open Script (Fields)

variable {s s' t : Stage} {a : Arrival} {c : Cell} {id source : CellId} {names : Names}

def land (s : Stage) (id : CellId) : Stage where
  engine := { s.engine with inFlight := s.engine.inFlight.filter (·.1 != id) }
  pass := { s.pass with rerun := s.pass.rerun.filter (· != id) }

/-- The cell that a result is for, unless it has been edited since the dispatch. -/
def addressee? (s : Stage) (a : Arrival) : Option Cell :=
  let dispatched := (s.engine.inFlight.find? (·.1 == a.cell)).map (·.2)
  (s.engine.cell? a.cell).filter fun c => dispatched == some a.version && c.version == a.version

/-- Counts a result that nothing can be done with. -/
def dismiss (s : Stage) (id : CellId) : Stage :=
  let s := { s with pass := { s.pass with stale := s.pass.stale + 1 } }
  if s.pass.members.contains id && !s.pass.completed.contains id then s.finish id .discarded else s

lemma dismiss_shape (s : Stage) (id : CellId) : ∃ completed results, s.dismiss id =
    { s with pass := { s.pass with stale := s.pass.stale + 1, completed, results } } := by
  unfold dismiss
  dsimp only
  split <;> exact ⟨_, _, rfl⟩

/-- Puts a script whose inputs changed while it ran back among the waiting cells. -/
def requeue (s : Stage) (id : CellId) : Stage :=
  { s with pass := { s.pass with
    stale := s.pass.stale + 1
    seeds := s.pass.seeds.insert id
    completed := s.pass.completed.filter (· != id)
    remaining := s.engine.graph.order ((Names.ofList s.pass.remaining).insert id) } }

/-- Keeps the lines that a run printed. -/
def keepLogs (s : Stage) (id : CellId) (logs : List String) : Stage :=
  s.modifyCell id fun c => { c with logs }

lemma receive_stale (h : s.addressee? a = none) : s.receive a = (s.land a.cell).dismiss a.cell := by
  unfold receive
  simp only [addressee?, Engine.cell?] at h ⊢
  rw [h]
  rfl

lemma receive_again (h : s.addressee? a = some c) (hr : a.cell ∈ s.pass.rerun) :
    s.receive a = (s.land a.cell).requeue a.cell := by
  unfold receive
  simp only [addressee?, Engine.cell?] at h ⊢
  rw [h]
  simp only [Names.contains_iff.mpr hr, if_true]
  rfl

lemma receive_failed {message : String} {logs : List String} (h : s.addressee? a = some c)
    (hr : a.cell ∉ s.pass.rerun) (hs : settle a.run = (.error message, logs)) :
    s.receive a = ((s.land a.cell).keepLogs a.cell logs).fail c (.execution a.cell message) := by
  unfold receive
  simp only [addressee?, Engine.cell?] at h ⊢
  rw [h]
  simp only [Names.contains_eq_false_iff.mpr hr, Bool.false_eq_true, if_false, hs]
  rfl

lemma receive_accepted {exports : Fields} {logs : List String} (h : s.addressee? a = some c)
    (hr : a.cell ∉ s.pass.rerun) (hs : settle a.run = (.ok exports, logs)) :
    s.receive a = ((s.land a.cell).keepLogs a.cell logs).accept c exports := by
  unfold receive
  simp only [addressee?, Engine.cell?] at h ⊢
  rw [h]
  simp only [Names.contains_eq_false_iff.mpr hr, Bool.false_eq_true, if_false, hs]
  rfl

/-- Only a run that succeeds has fields to take over. -/
lemma result_of_settle {run : ScriptRun} {exports : Fields} {logs : List String}
    (h : settle run = (.ok exports, logs)) : run.result = .ok exports := by
  unfold settle at h
  cases hr : run.result with
  | ok fields =>
    simp only [hr] at h
    cases h
    rfl
  | error failure =>
    rw [hr] at h
    cases failure <;> cases h

/-- What can become of a result. -/
inductive Landing (s : Stage) (a : Arrival) : Stage → Prop
  | stale (h : s.addressee? a = none) : Landing s a ((s.land a.cell).dismiss a.cell)
  | again {c : Cell} (h : s.addressee? a = some c) (hr : a.cell ∈ s.pass.rerun) :
    Landing s a ((s.land a.cell).requeue a.cell)
  | failed {c : Cell} {message : String} {logs : List String} (h : s.addressee? a = some c)
      (hr : a.cell ∉ s.pass.rerun) (hs : settle a.run = (.error message, logs)) :
    Landing s a (((s.land a.cell).keepLogs a.cell logs).fail c (.execution a.cell message))
  | accepted {c : Cell} {exports : Fields} {logs : List String} (h : s.addressee? a = some c)
      (hr : a.cell ∉ s.pass.rerun) (hs : settle a.run = (.ok exports, logs)) :
    Landing s a (((s.land a.cell).keepLogs a.cell logs).accept c exports)

theorem landing_receive (s : Stage) (a : Arrival) : Landing s a (s.receive a) := by
  cases hc : s.addressee? a with
  | none => exact receive_stale hc ▸ .stale hc
  | some c =>
    by_cases hr : a.cell ∈ s.pass.rerun
    · exact receive_again hc hr ▸ .again hc hr
    · rcases hs : settle a.run with ⟨result, logs⟩
      cases result with
      | error message => exact receive_failed hc hr hs ▸ .failed hc hr hs
      | ok exports => exact receive_accepted hc hr hs ▸ .accepted hc hr hs

lemma cell?_of_addressee? (h : s.addressee? a = some c) : s.engine.cell? a.cell = some c :=
  (Option.filter_eq_some_iff.mp h).1

lemma id_of_addressee? (h : s.addressee? a = some c) : c.id = a.cell := id_eq_of_cell? (cell?_of_addressee? h)

lemma version_of_addressee? (h : s.addressee? a = some c) : c.version = a.version := by
  have hp := (Option.filter_eq_some_iff.mp h).2
  simp only [Bool.and_eq_true, beq_iff_eq] at hp
  exact hp.2

lemma control_keepLogs {logs : List String} : (s.keepLogs id logs).control = s.control :=
  control_modifyCell fun _ => rfl

/-- The stage after the exports of a run have been committed and recorded, before the graph is looked at. -/
def adopt (s : Stage) (c : Cell) (exports : Fields) : Stage :=
  let current := Names.ofList (exports.map (·.1))
  let s := exports.foldl (fun s (name, v) => s.commit name (.value v)) s
  let s := (c.writes.names.toList.filter fun name => !current.contains name).foldl (retract c.id) s
  (s.modifyCell c.id fun c => { c with writes := .confirmed current }).succeed c.id

/-- Exports that are known already leave the graph as it is. -/
lemma accept_eq (s : Stage) (c : Cell) (exports : Fields) :
    s.accept c exports =
      if c.writes.names != Names.ofList (exports.map (·.1)) || !c.writes.isConfirmed then
        ({ s.adopt c exports with engine := (s.adopt c exports).engine.rebuild } : Stage).extend c.id
          ((Names.ofList (exports.map (·.1))).filter fun name => !c.writes.names.contains name)
      else s.adopt c exports :=
  rfl

/-- Records what the run of a script has written. -/
def confirm (s : Stage) (id : CellId) (names : Names) : Stage :=
  s.modifyCell id fun c => { c with writes := .confirmed names }

lemma control_confirm (h : s.control = t.control) :
    (s.confirm id names).control = (t.confirm id names).control := by
  have hcells : ∀ s : Stage, (s.confirm id names).engine.cells.map Cell.blank =
      (s.engine.cells.map Cell.blank).map fun c =>
        if c.id == id then { c with writes := .confirmed names } else c := by
    intro s
    simp only [confirm, modifyCell, Engine.modifyCell, List.map_map]
    refine List.map_congr_left fun c _ => ?_
    simp only [Function.comp_apply, Cell.blank]
    by_cases hid : c.id == id <;> simp [hid]
  have hc := congrArg (fun u : Stage => ({ u with engine := { u.engine with
    cells := u.engine.cells.map fun c => if c.id == id then { c with writes := .confirmed names } else c } } :
    Stage)) h
  simp only [control] at hc ⊢
  rw [hcells, hcells]
  exact hc

lemma control_adopt (s : Stage) (c : Cell) (exports : Fields) :
    (s.adopt c exports).control =
      ((s.confirm c.id (Names.ofList (exports.map (·.1)))).finish c.id .success).control := by
  unfold adopt
  rw [control_succeed]
  refine finish_congr (control_confirm ?_) _
  rw [control_foldl fun _ _ => control_retract, control_foldl fun _ _ => control_commit]

/-- The cells downstream of the readers of some names, without the script that has just landed. -/
def downstream (s : Stage) (source : CellId) (names : Names) : List CellId :=
  (s.engine.graph.closure
    ((names.toList.flatMap s.engine.graph.readersOf).filter (· != source))).toList.filter (· != source)

def isFlying (s : Stage) (id : CellId) : Bool := s.engine.inFlight.any (·.1 == id)

/-- The cells that wait after the pass has been enlarged, in no order yet. -/
def pending (s : Stage) (source : CellId) (names : Names) : Names :=
  (Names.ofList s.pass.remaining).insertAll
    ((s.downstream source names).filter fun id => !s.pass.remaining.contains id && !s.isFlying id)

/-- The stage after the pass has been enlarged, before the cells on cycles are marked. -/
def enlarge (s : Stage) (source : CellId) (names : Names) : Stage :=
  let again := (s.downstream source names).filter s.isFlying
  let fresh := (s.downstream source names).filter fun id => !s.pass.remaining.contains id && !s.isFlying id
  { s with pass := { s.pass with
    members := (s.pass.members.insertAll again).insertAll fresh
    rerun := s.pass.rerun.insertAll again
    completed := s.pass.completed.filter fun id => !fresh.contains id
    remaining := s.engine.graph.order
      ((s.pending source names).filter fun id => (s.engine.graph.cycleOf? id).isNone) } }

lemma extend_eq (s : Stage) (source : CellId) (names : Names) :
    s.extend source names =
      ((s.pending source names).toList.filter fun id => (s.engine.graph.cycleOf? id).isSome).foldl block
        (s.enlarge source names) :=
  rfl

/-- Cells that are marked as lying on a cycle are done; nothing else changes in the control. -/
lemma control_foldl_block (ids : List CellId) (s : Stage) :
    (ids.foldl block s).control =
      ({ s with pass := { s.pass with
        completed := s.pass.completed.insertAll (ids.filter s.engine.hasCell) } } : Stage).control := by
  induction ids generalizing s with
  | nil => rfl
  | cons id ids ih =>
    have hb : (s.block id).control = _ := control_block
    rw [List.foldl_cons, ih]
    by_cases hid : s.engine.hasCell id = true
    · rw [if_pos hid] at hb
      have hcell : (s.block id).engine.hasCell = (s.finish id .success).engine.hasCell :=
        hasCell_of_control hb
      have hdone : (s.block id).pass.completed = s.pass.completed.insert id :=
        congrArg (·.pass.completed) hb
      rw [hcell, hdone, List.filter_cons_of_pos hid]
      change _ = ({ s with pass := { s.pass with
        completed := (s.pass.completed.insert id).insertAll (ids.filter s.engine.hasCell) } } : Stage).control
      exact congrArg (fun u : Stage => ({ u with pass := { u.pass with
        completed := (s.pass.completed.insert id).insertAll (ids.filter s.engine.hasCell) } } : Stage)) hb
    · rw [if_neg hid] at hb
      have hcell : (s.block id).engine.hasCell = s.engine.hasCell := hasCell_of_control hb
      have hdone : (s.block id).pass.completed = s.pass.completed := congrArg (·.pass.completed) hb
      rw [hcell, hdone, List.filter_cons_of_neg hid]
      exact congrArg (fun u : Stage => ({ u with pass := { u.pass with
        completed := s.pass.completed.insertAll (ids.filter s.engine.hasCell) } } : Stage)) hb

end ReactiveNotebook.Stage
