import ReactiveNotebook.Proofs.Engine.Move
import ReactiveNotebook.Proofs.Engine.Revision
import ReactiveNotebook.Proofs.Engine.Verdict

/-!
# The start of a cell

A cell that is started no longer waits: either it is done at once, or its script is in flight with the version
that the cell has. Nothing else changes in the bookkeeping, and no other cell is touched.
-/
namespace ReactiveNotebook.Stage

variable {l : Language} {s s' : Stage} {c d : Cell} {id x : CellId} {i : ℕ}

/-- What the turn of a cell does to the bookkeeping. -/
structure Starts (id : CellId) (s s' : Stage) : Prop where
  graph : s'.engine.graph = s.engine.graph
  seeds : s'.engine.seeds = s.engine.seeds
  roots : s'.pass.seeds = s.pass.seeds
  rerun : s'.pass.rerun = s.pass.rerun
  members : s'.pass.members = s.pass.members
  waiting : ∀ x, x ∈ s'.pass.remaining ↔ x ∈ s.pass.remaining ∧ x ≠ id
  cells : ∀ d ∈ s'.engine.cells, d.id ≠ id → d ∈ s.engine.cells
  /-- The cell is done, or its script is in flight with the version that it has. -/
  fate : s'.pass.completed = s.pass.completed.insert id ∧ s'.engine.inFlight = s.engine.inFlight ∨
    s'.pass.completed = s.pass.completed ∧ ∃ c ∈ s.engine.cells, c.id = id ∧ c.content.isScript = true ∧
      s'.engine.inFlight = (id, c.version) :: s.engine.inFlight

lemma cells_of_turn (h : Turn l s id s') (hn : (s.engine.cells.map (·.id)).Nodup) (hd : d ∈ s'.engine.cells)
    (hne : d.id ≠ id) : d ∈ s.engine.cells := by
  cases h with
  | gone hc => exact hd
  | unchanged hc ht => exact hd
  | @evaluated c v hc ht hv =>
    rw [cells_conclude] at hd
    rcases mem_conclusion.mp hd with ⟨hd, -⟩ | ⟨b, -, hb, rfl⟩
    · exact hd
    · have hcid := ((Engine.cell?_eq_some_iff hn).mp hc).2
      exact absurd ((Cell.id_withVerdict ..).trans (hb.trans hcid)) hne

theorem starts_of_runCell (h : s.Tidy) (hid : s.pass.remaining[i]? = some id)
    (hrun : (s.withdraw i).runCell l id = .ok s') : Starts id s s' := by
  have hcells : ∀ d ∈ s'.engine.cells, d.id ≠ id → d ∈ s.engine.cells := fun d hd hne =>
    cells_of_turn (s := s.withdraw i) (turn_of_runCell hrun) h.ids hd hne
  have hwaiting : ∀ x, x ∈ (s.withdraw i).pass.remaining ↔ x ∈ s.pass.remaining ∧ x ≠ id :=
    fun x => mem_withdraw h.waiting hid
  rcases runCell_cases hrun with hcontrol | ⟨c, source, hc, hcontent, -, -, rfl⟩
  · have hremaining : s'.pass.remaining = (s.withdraw i).pass.remaining :=
      congrArg (·.pass.remaining) hcontrol
    exact
      { graph := congrArg (·.engine.graph) hcontrol
        seeds := congrArg (·.engine.seeds) hcontrol
        roots := congrArg (·.pass.seeds) hcontrol
        rerun := congrArg (·.pass.rerun) hcontrol
        members := congrArg (·.pass.members) hcontrol
        waiting := hremaining ▸ hwaiting
        cells := hcells
        fate := .inl ⟨congrArg (·.pass.completed) hcontrol, congrArg (·.engine.inFlight) hcontrol⟩ }
  · obtain ⟨hcm, hcid⟩ := (Engine.cell?_eq_some_iff h.ids).mp hc
    have hfly : id ∉ s.flying := h.grounded id (List.mem_of_getElem? hid)
    have hkeep : s.engine.inFlight.filter (·.1 != c.id) = s.engine.inFlight := by
      refine List.filter_eq_self.mpr fun p hp => ?_
      have hne : p.1 ≠ c.id := fun heq => hfly (hcid ▸ heq ▸ List.mem_map_of_mem hp)
      simpa using hne
    exact
      { graph := rfl
        seeds := rfl
        roots := rfl
        rerun := rfl
        members := rfl
        waiting := hwaiting
        cells := hcells
        fate := by
          refine .inr ⟨rfl, c, hcm, hcid, by rw [hcontent]; rfl, ?_⟩
          change (c.id, c.version) :: s.engine.inFlight.filter (·.1 != c.id) = _
          rw [hkeep, hcid] }

/-- The cells that wait stay in order when one of them is started. -/
lemma sublist_of_runCell (hrun : (s.withdraw i).runCell l id = .ok s') :
    s'.pass.remaining.Sublist s.pass.remaining := by
  have hwithdraw : (s.withdraw i).pass.remaining.Sublist s.pass.remaining := List.eraseIdx_sublist ..
  rcases runCell_cases hrun with hcontrol | ⟨c, source, -, -, -, -, rfl⟩
  · have hremaining : s'.pass.remaining = (s.withdraw i).pass.remaining := congrArg (·.pass.remaining) hcontrol
    exact hremaining ▸ hwithdraw
  · exact hwithdraw

/-- The cell whose turn it was has had no reason to be evaluated, has its script in flight, or shows a verdict. -/
lemma mem_cells_start (h : s.Tidy) (hrun : (s.withdraw i).runCell l id = .ok s') (hd : d ∈ s'.engine.cells)
    (hdid : d.id = id) : d ∈ s.engine.cells ∧ (id ∉ s.pass.seeds ∨ (id, d.version) ∈ s'.engine.inFlight) ∨
      ∃ c ∈ s.engine.cells, ∃ v, c.verdict l s.pass.slot = .ok v ∧ (∀ source inputs, v ≠ .script source inputs) ∧
        d = c.withVerdict v := by
  cases turn_of_runCell hrun with
  | gone hc => nomatch hc.symm.trans ((Engine.cell?_eq_some_iff h.ids).mpr ⟨hd, hdid⟩)
  | @unchanged c hc ht =>
    have hroot : s.pass.seeds.contains c.id = false := (Bool.or_eq_false_iff.mp ht).1
    exact .inl ⟨hd, .inl (id_eq_of_cell? hc ▸ Names.contains_eq_false_iff.mp hroot)⟩
  | @evaluated c v hc ht hv =>
    obtain ⟨hcm, hcid⟩ := (Engine.cell?_eq_some_iff h.ids).mp hc
    rw [cells_conclude] at hd
    rcases mem_conclusion.mp hd with ⟨-, hne⟩ | ⟨b, hb, hbc, rfl⟩
    · exact absurd (hdid.trans hcid.symm) hne
    · obtain rfl : b = c := List.inj_on_of_nodup_map h.ids hb hcm hbc
      cases v with
      | script source inputs => exact .inl ⟨hcm, .inr (hcid ▸ List.mem_cons_self)⟩
      | _ => exact .inr ⟨b, hcm, _, hv, (fun _ _ => nofun), rfl⟩

/-- What is in flight after the start of a cell was so before, or is the script of the cell. -/
lemma Starts.mem_flying (h : Starts id s s') (hx : x ∈ s'.flying) : x ∈ s.flying ∨ x = id := by
  rcases h.fate with ⟨-, hfly⟩ | ⟨-, c, -, -, -, hfly⟩
  · rw [flying, hfly] at hx
    exact .inl hx
  · rw [flying, hfly, List.map_cons, List.mem_cons] at hx
    exact hx.symm

/-- What is in flight stays so when a cell is started. -/
lemma Starts.flying_subset (h : Starts id s s') (hx : x ∈ s.flying) : x ∈ s'.flying := by
  rcases h.fate with ⟨-, hfly⟩ | ⟨-, c, -, -, -, hfly⟩
  · rw [flying, hfly]
    exact hx
  · rw [flying, hfly]
    exact List.mem_cons_of_mem _ hx

/-- The turn of a cell replaces values of variables only. -/
lemma replaces_turn (h : Turn l s id s') : Replaces (fun _ => True) s s' := by
  cases h with
  | gone hc => exact replaces_finish
  | unchanged hc ht => exact replaces_finish
  | @evaluated c v hc ht hv =>
    cases v with
    | fault f => exact replaces_fail.mono fun _ _ => trivial
    | value output value => exact (replaces_commit.mono fun _ _ => trivial).trans replaces_succeed
    | text text => exact replaces_modifyCell.trans replaces_succeed
    | script source inputs => exact .of_eq (fun _ => rfl) (fun _ => rfl) rfl

end ReactiveNotebook.Stage
