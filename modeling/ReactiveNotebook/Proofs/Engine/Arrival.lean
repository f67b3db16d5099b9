import ReactiveNotebook.Proofs.Engine.Cells
import ReactiveNotebook.Proofs.Engine.Effect
import ReactiveNotebook.Proofs.Engine.Extend

/-!
# What the arrival of a result leaves alone

A result that arrives takes its script from the flights and keeps all seeds of the next pass. The values that
it replaces are replaced in the store and in the view of the pass alike. A script that is put back to run again
waits with the others, as long as none of them lies on a cycle.
-/
namespace ReactiveNotebook.Stage

variable {s t : Stage} {a : Arrival} {c : Cell} {id source x : CellId} {names : Names} {logs : List String}
variable {exports : Script.Fields}

/-- The stage in which the script of a result has landed and its lines are kept. -/
abbrev landed (s : Stage) (a : Arrival) (logs : List String) : Stage := (s.land a.cell).keepLogs a.cell logs

lemma mem_cells_landed {d : Cell} (hd : d ∈ (s.landed a logs).engine.cells) (hne : d.id ≠ a.cell) :
    d ∈ s.engine.cells := by
  rcases Engine.mem_modifyCell hd with ⟨hd, -⟩ | ⟨b, -, hb, rfl⟩
  · exact hd
  · exact absurd hb hne

/-- The cell of the script keeps the lines. -/
lemma mem_landed (hc : c ∈ s.engine.cells) (hid : c.id = a.cell) :
    { c with logs } ∈ (s.landed a logs).engine.cells := by
  rw [landed, ← hid]
  exact mem_modifyCell hc

lemma control_failed (s : Stage) (a : Arrival) (c : Cell) (logs : List String) (message : String) :
    ((s.landed a logs).fail c (.execution a.cell message)).control =
      ((s.landed a logs).finish c.id .success).control :=
  control_fail

lemma ids_adopt : (s.adopt c exports).engine.cells.map (·.id) = s.engine.cells.map (·.id) := by
  rw [ids_of_control (control_adopt s c exports)]
  exact ids_modifyCell fun _ => rfl

lemma seeds_adopt : (s.adopt c exports).engine.seeds = s.engine.seeds :=
  congrArg (·.engine.seeds) (control_adopt s c exports)

lemma seeds_extend : (s.extend source names).engine.seeds = s.engine.seeds :=
  congrArg (·.engine.seeds) (control_extend s source names)

lemma roots_extend : (s.extend source names).pass.seeds = s.pass.seeds :=
  congrArg (·.pass.seeds) (control_extend s source names)

lemma config_extend : (s.extend source names).engine.config = s.engine.config :=
  congrArg (·.engine.config) (control_extend s source names)

lemma inFlight_adopt : (s.adopt c exports).engine.inFlight = s.engine.inFlight :=
  congrArg (·.engine.inFlight) (control_adopt s c exports)

lemma inFlight_extend : (s.extend source names).engine.inFlight = s.engine.inFlight :=
  congrArg (·.engine.inFlight) (control_extend s source names)

lemma arriving_adopt : (s.adopt c exports).engine.arriving = s.engine.arriving :=
  congrArg (·.engine.arriving) (control_adopt s c exports)

lemma arriving_extend : (s.extend source names).engine.arriving = s.engine.arriving :=
  congrArg (·.engine.arriving) (control_extend s source names)

lemma flying_extend : (s.extend source names).flying = s.flying := by
  rw [flying, inFlight_extend, flying]

lemma flying_readopt : (s.readopt c exports).flying = s.flying := by
  change (s.adopt c exports).engine.inFlight.map (·.1) = _
  rw [inFlight_adopt, flying]

/-- The arrival of a result takes its script from the flights. -/
lemma Landing.inFlight (h : Landing s a t) :
    t.engine.inFlight = s.engine.inFlight.filter (·.1 != a.cell) := by
  cases h with
  | stale _ =>
    unfold dismiss
    dsimp only
    split <;> rfl
  | again _ _ => rfl
  | @failed c message logs _ _ _ =>
    have hcontrol := control_failed s a c logs message
    exact congrArg (·.engine.inFlight) hcontrol
  | @accepted c exports logs _ _ _ =>
    rcases accept_cases (s.landed a logs) c exports with ⟨-, heq⟩ | heq
    · rw [heq, inFlight_adopt]
      rfl
    · rw [heq, inFlight_extend]
      exact inFlight_adopt

/-- The arrival of a result leaves the others under way. -/
lemma Landing.arriving (h : Landing s a t) : t.engine.arriving = s.engine.arriving := by
  cases h with
  | stale _ =>
    unfold dismiss
    dsimp only
    split <;> rfl
  | again _ _ => rfl
  | @failed c message logs _ _ _ =>
    have hcontrol := control_failed s a c logs message
    exact congrArg (·.engine.arriving) hcontrol
  | @accepted c exports logs _ _ _ =>
    rcases accept_cases (s.landed a logs) c exports with ⟨-, heq⟩ | heq
    · rw [heq, arriving_adopt]
      rfl
    · rw [heq, arriving_extend]
      exact arriving_adopt

lemma mem_flying_land : x ∈ (s.land id).flying ↔ x ∈ s.flying ∧ x ≠ id := by
  simp only [flying, land, List.mem_map, List.mem_filter, bne_iff_ne, ne_eq]
  constructor
  · rintro ⟨p, ⟨hp, hne⟩, rfl⟩
    exact ⟨⟨p, hp, rfl⟩, hne⟩
  · rintro ⟨⟨p, hp, rfl⟩, hne⟩
    exact ⟨p, ⟨hp, hne⟩, rfl⟩

section

variable {rest : List Arrival}

/-- The script of a result under way is in flight, with the version that was dispatched. -/
lemma flight_of_arriving (hs : s.Tidy) (hperm : s.engine.arriving.Perm (a :: rest)) :
    (a.cell, a.version) ∈ s.engine.inFlight :=
  List.mem_of_find?_eq_some (hs.find?_inFlight (hperm.mem_iff.mpr List.mem_cons_self))

lemma flying_of_arriving (hs : s.Tidy) (hperm : s.engine.arriving.Perm (a :: rest)) : a.cell ∈ s.flying :=
  List.mem_map_of_mem (f := (·.1)) (flight_of_arriving hs hperm)

/-- A result that is not stale is for a cell of the notebook whose script is in flight. -/
lemma flight_of_addressee? (hs : s.Tidy) (hperm : s.engine.arriving.Perm (a :: rest))
    (hc : (s.deliver rest).addressee? a = some c) :
    c ∈ s.engine.cells ∧ c.id = a.cell ∧ (c.id, c.version) ∈ s.engine.inFlight := by
  obtain ⟨hcm, hid⟩ := (Engine.cell?_eq_some_iff (e := s.engine) hs.ids).mp (cell?_of_addressee? hc)
  refine ⟨hcm, hid, ?_⟩
  rw [hid, version_of_addressee? hc]
  exact flight_of_arriving hs hperm

/-- A result under way is for the cell whose script is in flight with the version that the cell has. -/
lemma addressee?_of_inFlight (hs : s.Tidy) (hperm : s.engine.arriving.Perm (a :: rest))
    (hc : c ∈ s.engine.cells) (hid : c.id = a.cell) (hfly : (c.id, c.version) ∈ s.engine.inFlight) :
    (s.deliver rest).addressee? a = some c := by
  have hfind := hs.find?_inFlight (hperm.mem_iff.mpr List.mem_cons_self)
  have hversion : c.version = a.version :=
    congrArg Prod.snd (List.inj_on_of_nodup_map hs.single hfly (List.mem_of_find?_eq_some hfind) hid)
  refine Option.filter_eq_some_iff.mpr ⟨(Engine.cell?_eq_some_iff hs.ids).mpr ⟨hc, hid⟩, ?_⟩
  change ((s.engine.inFlight.find? (·.1 == a.cell)).map (·.2) == some a.version && c.version == a.version) = true
  rw [hfind]
  simpa using hversion

end

/-- The script of the result is in flight no longer; the others are. -/
lemma Landing.mem_flying (h : Landing s a t) : x ∈ t.flying ↔ x ∈ s.flying ∧ x ≠ a.cell := by
  rw [← mem_flying_land, flying, h.inFlight]
  rfl

/-- The arrival of a result keeps all seeds. -/
lemma Landing.seeds (h : Landing s a t) (hx : x ∈ s.engine.seeds) : x ∈ t.engine.seeds := by
  cases h with
  | stale _ =>
    unfold dismiss
    dsimp only
    split <;> exact hx
  | again _ _ => exact hx
  | @failed c message logs _ _ _ =>
    have hcontrol := control_failed s a c logs message
    have hseeds : _ = s.engine.seeds := congrArg (·.engine.seeds) hcontrol
    exact hseeds ▸ hx
  | @accepted c exports logs _ _ _ =>
    rcases accept_cases (s.landed a logs) c exports with ⟨-, heq⟩ | heq
    · rw [heq, seeds_adopt]
      exact hx
    · rw [heq, seeds_extend]
      refine Engine.seeds_rebuild ?_
      rw [seeds_adopt]
      exact hx

/-- The arrival of a result keeps the settings. -/
lemma Landing.config_eq (h : Landing s a t) : t.engine.config = s.engine.config := by
  cases h with
  | stale _ =>
    obtain ⟨completed, results, heq⟩ := dismiss_shape (s.land a.cell) a.cell
    rw [heq]
    rfl
  | again _ _ => rfl
  | @failed c message logs _ _ _ =>
    have hcontrol := control_failed s a c logs message
    exact congrArg (·.engine.config) hcontrol
  | @accepted c exports logs _ _ _ =>
    have hadopt : ((s.landed a logs).adopt c exports).engine.config = s.engine.config :=
      congrArg (·.engine.config) (control_adopt (s.landed a logs) c exports)
    rcases accept_cases (s.landed a logs) c exports with ⟨-, heq⟩ | heq
    · rw [heq]
      exact hadopt
    · rw [heq]
      exact config_extend.trans hadopt

/-- The arrival of a result replaces values of variables only. -/
lemma Landing.replaces (h : Landing s a t) (hs : (s.land a.cell).Tidy) : Replaces (fun _ => True) s t := by
  have hland : Replaces (fun _ => True) s (s.land a.cell) := .of_eq (fun _ => rfl) (fun _ => rfl) rfl
  have hlanded : ∀ logs, Replaces (fun _ => True) s (s.landed a logs) := fun logs =>
    hland.trans replaces_modifyCell
  cases h with
  | stale _ =>
    refine hland.trans ?_
    unfold dismiss
    dsimp only
    split <;> exact .of_eq (fun _ => rfl) (fun _ => rfl) rfl
  | again _ _ => exact hland.trans (.of_eq (fun _ => rfl) (fun _ => rfl) rfl)
  | @failed c message logs _ _ _ => exact (hlanded logs).trans (replaces_fail.mono fun _ _ => trivial)
  | @accepted c exports logs _ _ _ =>
    refine (hlanded logs).trans ?_
    rcases accept_cases (s.landed a logs) c exports with ⟨-, heq⟩ | heq
    · exact heq ▸ replaces_adopt.mono fun _ _ => trivial
    · rw [heq]
      have ht : ((s.landed a logs).readopt c exports).Tidy := (hs.keepLogs _ _).rebuild_adopt
      exact (replaces_readopt.mono fun _ _ => trivial).trans ((replaces_extend ht).mono fun _ _ => trivial)

/-- Edges from other cells than the script whose exports are taken over stay as they are. -/
lemma edge_readopt_iff (hs : s.Tidy) {y : CellId} (hx : x ≠ c.id) :
    (s.readopt c exports).engine.graph.Edge x y ↔ s.engine.graph.Edge x y := by
  have ht : (s.readopt c exports).Tidy := hs.rebuild_adopt
  rw [hs.edge_iff, ht.edge_iff]
  constructor
  · rintro ⟨b, hb, d, hd, rfl, rfl, hne, name, hw, hr⟩
    have hbs : b ∈ s.engine.cells := by
      rcases mem_cells_adopt hb with ⟨hb, -⟩ | ⟨b', -, hb', rfl⟩
      · exact hb
      · exact absurd hb' hx
    rcases mem_cells_adopt hd with ⟨hd, -⟩ | ⟨d', hd', hid, rfl⟩
    · exact ⟨b, hbs, d, hd, rfl, rfl, hne, name, hw, hr⟩
    · exact ⟨b, hbs, d', hd', rfl, rfl, hne, name, hw, hr⟩
  · rintro ⟨b, hb, d, hd, rfl, rfl, hne, name, hw, hr⟩
    have hbt := mem_adopt_of_ne exports hb hx
    by_cases hid : d.id = c.id
    · exact ⟨b, hbt, _, mem_adopt exports hd hid, rfl, rfl, hne, name, hw, hr⟩
    · exact ⟨b, hbt, d, mem_adopt_of_ne exports hd hid, rfl, rfl, hne, name, hw, hr⟩

/-- A script that is put back waits with the others if none of them lies on a cycle. -/
lemma mem_remaining_requeue (hs : s.Tidy) (hno : ∀ y, y = id ∨ y ∈ s.pass.remaining → ¬ s.engine.graph.OnCycle y)
    (hk : x ∈ s.engine.graph.ids) : x ∈ (s.requeue id).pass.remaining ↔ x = id ∨ x ∈ s.pass.remaining := by
  have hmem : ∀ y, y ∈ (Names.ofList s.pass.remaining).insert id ↔ y = id ∨ y ∈ s.pass.remaining := fun y => by
    rw [Names.mem_insert, Names.mem_ofList]
  refine ⟨fun h => (hmem x).mp (Graph.mem_order h).1, fun h => ?_⟩
  exact Graph.mem_order_of_acyclic hs.coherent (fun y hy => hno y ((hmem y).mp hy)) ((hmem x).mpr h) hk

end ReactiveNotebook.Stage
