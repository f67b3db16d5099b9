import ReactiveNotebook.Proofs.Scheduling.LateExport

/-!
# Faults that cells inherit

A cell that reads the fault of another cell is not evaluated but fails in turn, and passes its own fault on to
all that it writes. Whose fault a variable carries is decided by name: a cell that counts as a writer of the
variable takes the fault for its own and sees nothing there. So a fault goes on to exactly those readers that do
not write the variable themselves.
-/
namespace ReactiveNotebook

variable {l : Language}

def Slot.withoutFault : Slot → Slot
  | .error _ => .undefined
  | slot => slot

namespace Stage

variable {s s' t : Stage} {c : Cell} {id : CellId} {fault : Fault} {v name : String} {origin : CellId}

/-- The cell fails without being evaluated: it shows the fault, every variable that it writes carries the fault,
and nothing else happens. -/
structure FailsWith (s : Stage) (c : Cell) (fault : Fault) (s' : Stage) : Prop where
  cells : s'.engine.cells = conclusion c.id (.fault fault) s.engine.cells
  get : ∀ x, s'.engine.get x = if x ∈ c.writes.names then .error fault else s.engine.get x
  slot : ∀ x, s'.pass.slot x = if x ∈ c.writes.names then .error fault else s.pass.slot x
  results : s'.pass.results = s.pass.results ++ [(c.id, .failed fault)]
  inFlight : s'.engine.inFlight = s.engine.inFlight
  arriving : s'.engine.arriving = s.engine.arriving
  storage : s'.engine.storage = s.engine.storage

lemma results_mark : (s.mark c fault).pass.results = s.pass.results := by
  have hcommits := foldl_keeps (f := fun s name => s.commit name (.error fault)) (·.pass.results) (fun _ _ => rfl)
  exact hcommits c.writes.names.toList _

lemma storage_mark : (s.mark c fault).engine.storage = s.engine.storage := by
  have hcommits := foldl_keeps (f := fun s name => s.commit name (.error fault)) (·.engine.storage) (fun _ _ => rfl)
  exact hcommits c.writes.names.toList _

lemma failsWith_fail : s.FailsWith c fault (s.fail c fault) where
  cells := cells_fail
  get _ := get_mark
  slot _ := slot_mark
  results := by
    change (s.mark c fault).pass.results ++ _ = _
    rw [results_mark]
  inFlight := congrArg (·.engine.inFlight) (control_mark (s := s))
  arriving := congrArg (·.engine.arriving) (control_mark (s := s))
  storage := storage_mark

/-- The first fault is the fault of one of the inputs. -/
lemma mem_of_firstFault {inputs : Inputs} (h : firstFault inputs = some (name, fault)) :
    (name, .error fault) ∈ inputs := by
  obtain ⟨⟨x, slot⟩, hmem, hfound⟩ := List.exists_of_findSome?_eq_some h
  cases slot with
  | error f =>
    cases hfound
    exact hmem
  | undefined => cases hfound
  | value v => cases hfound

lemma firstFault_eq_none_iff {inputs : Inputs} :
    firstFault inputs = none ↔ ∀ p ∈ inputs, p.2.isError = false := by
  simp only [firstFault, List.findSome?_eq_none_iff]
  refine forall₂_congr fun p _ => ?_
  rcases p with ⟨x, _ | _ | _⟩ <;> simp [Slot.fault?, Slot.isError]

end Stage

namespace Cell

variable {c : Cell} {view : String → Slot} {fault : Fault} {v name : String} {origin : CellId}

/-- An input that carries a fault is a variable that the cell does not write. -/
lemma error_mem_inputs_iff : (name, .error fault) ∈ c.inputs view ↔
    name ∈ c.reads ∧ name ∉ c.writes.names ∧ view name = .error fault := by
  simp only [inputs, List.mem_map, Names.mem_toList, Prod.mk.injEq, Bool.and_eq_true]
  constructor
  · rintro ⟨x, hx, rfl, hslot⟩
    split at hslot
    · cases hslot
    · next hown =>
      rw [hslot] at hown
      exact ⟨hx, fun hw => hown ⟨rfl, Names.contains_iff.mpr hw⟩, hslot⟩
  · rintro ⟨hread, hwrite, hslot⟩
    refine ⟨name, hread, rfl, ?_⟩
    rw [if_neg fun hown => hwrite (Names.contains_iff.mp hown.2), hslot]

/-- The fault of another cell is among the inputs if a variable carries it which the cell does not write. -/
lemma firstFault_eq_none_iff : Stage.firstFault (c.inputs view) = none ↔
    ∀ v ∈ c.reads, (view v).isError = true → v ∈ c.writes.names := by
  rw [Stage.firstFault_eq_none_iff]
  constructor
  · intro h v hread herror
    by_contra hwrite
    cases hslot : view v with
    | error fault =>
      have hfalse := h _ (error_mem_inputs_iff.mpr ⟨hread, hwrite, hslot⟩)
      cases hfalse
    | undefined => rw [hslot] at herror; cases herror
    | value _ => rw [hslot] at herror; cases herror
  · rintro h ⟨v, slot⟩ hmem
    cases slot with
    | error fault =>
      obtain ⟨hread, hwrite, hslot⟩ := error_mem_inputs_iff.mp hmem
      exact absurd (h v hread (by rw [hslot]; rfl)) hwrite
    | undefined => rfl
    | value _ => rfl

/-- Without a fault of another cell, the cell sees its variables with its own faults taken away. -/
lemma inputs_eq_of_own (h : ∀ v ∈ c.reads, (view v).isError = true → v ∈ c.writes.names) :
    c.inputs view = c.reads.toList.map fun v => (v, (view v).withoutFault) := by
  refine List.map_congr_left fun v hread => ?_
  cases hslot : view v with
  | error fault =>
    have hown : c.writes.contains v = true := Names.contains_iff.mpr (h v hread (by rw [hslot]; rfl))
    simp [hown, Slot.isError, Slot.withoutFault]
  | undefined => rfl
  | value _ => rfl

/-- Only a fault among the inputs makes a cell inherit one. -/
lemma firstFault_of_verdict (h : c.verdict l view = .ok (.fault (.inherited name origin))) :
    ∃ fault, Stage.firstFault (c.inputs view) = some (name, fault) ∧ fault.origin = origin := by
  unfold verdict at h
  split at h
  · next fault hfirst =>
    cases h
    exact ⟨_, hfirst, rfl⟩
  · split at h
    · split at h <;> cases h
    · cases h
    · obtain ⟨text, heq⟩ := text_of_render h
      cases heq
    · obtain ⟨message, heq⟩ | heq := startVerdict_cases h <;> cases heq

end Cell

namespace Stage

variable {s s' t : Stage} {c : Cell} {id : CellId} {fault : Fault} {v name : String} {origin : CellId}

/-- A variable that carries a fault is a reason to evaluate its readers. -/
lemma isTriggered_of_isError (hread : v ∈ c.reads) (herror : (s.pass.slot v).isError = true) :
    s.isTriggered c = true := by
  simp only [isTriggered, Bool.or_eq_true, List.any_eq_true]
  exact .inr ⟨v, Names.mem_toList.mpr hread, .inr herror⟩

lemma exists_foreign_of_firstFault (h : firstFault (c.inputs s.pass.slot) = some (name, fault)) :
    name ∈ c.reads ∧ name ∉ c.writes.names ∧ s.pass.slot name = .error fault :=
  Cell.error_mem_inputs_iff.mp (mem_of_firstFault h)

/-- What a turn reports tells a fault that is inherited from all other outcomes. -/
lemma firstFault_of_failsWith (hc : s.engine.cell? id = some c) (hrun : s.runCell l id = .ok s')
    (hfails : s.FailsWith c (.inherited name origin) s') :
    ∃ fault, firstFault (c.inputs s.pass.slot) = some (name, fault) ∧ fault.origin = origin := by
  have hlast : ∀ outcome, s'.pass.results = s.pass.results ++ [(c.id, outcome)] →
      outcome = .failed (.inherited name origin) := fun outcome hresults => by
    have hsame := List.append_cancel_left (hresults.symm.trans hfails.results)
    cases hsame
    rfl
  cases turn_of_runCell hrun with
  | gone hnone => cases hc.symm.trans hnone
  | unchanged hc' ht =>
    have hid := id_eq_of_cell? hc
    cases hlast .unchanged (by rw [hid]; rfl)
  | @evaluated d verdict hd ht hv =>
    obtain rfl : c = d := Option.some.inj (hc.symm.trans hd)
    cases verdict with
    | fault f =>
      have hf := hlast (.failed f) failsWith_fail.results
      cases hf
      exact Cell.firstFault_of_verdict hv
    | value output value => cases hlast .success rfl
    | text text => cases hlast .success rfl
    | script source inputs =>
      have hlength := congrArg List.length hfails.results
      simp [conclude, launch] at hlength

/-- The turn of a cell ends with an inherited fault exactly if a variable that it reads, and does not count as a
writer of, carries a fault. The fault names such a variable, and the origin of the fault there. Otherwise the
cell, if it has a reason to be evaluated, is evaluated as if the variables that it reads carried no fault. -/
theorem inherits_iff_foreign_fault (hc : s.engine.cell? id = some c) :
    ((∃ name origin s', s.runCell l id = .ok s' ∧ s.FailsWith c (.inherited name origin) s') ↔
      ∃ v ∈ c.reads, v ∉ c.writes.names ∧ (s.pass.slot v).isError = true) ∧
    (∀ name origin s', s.runCell l id = .ok s' → s.FailsWith c (.inherited name origin) s' →
      name ∈ c.reads ∧ name ∉ c.writes.names ∧ ∃ fault, s.pass.slot name = .error fault ∧ fault.origin = origin) ∧
    ((∀ v ∈ c.reads, (s.pass.slot v).isError = true → v ∈ c.writes.names) → s.isTriggered c = true →
      s.runCell l id = s.evaluate l c (c.reads.toList.map fun v => (v, (s.pass.slot v).withoutFault))) := by
  have hnamed : ∀ name origin s', s.runCell l id = .ok s' → s.FailsWith c (.inherited name origin) s' →
      name ∈ c.reads ∧ name ∉ c.writes.names ∧
        ∃ fault, s.pass.slot name = .error fault ∧ fault.origin = origin := fun name origin s' hrun hfails => by
    obtain ⟨fault, hfirst, horigin⟩ := firstFault_of_failsWith hc hrun hfails
    obtain ⟨hread, hwrite, hslot⟩ := exists_foreign_of_firstFault hfirst
    exact ⟨hread, hwrite, fault, hslot, horigin⟩
  refine ⟨⟨?_, ?_⟩, hnamed, fun hown htriggered => ?_⟩
  · rintro ⟨name, origin, s', hrun, hfails⟩
    obtain ⟨hread, hwrite, fault, hslot, -⟩ := hnamed name origin s' hrun hfails
    exact ⟨name, hread, hwrite, by rw [hslot]; rfl⟩
  · rintro ⟨v, hread, hwrite, herror⟩
    have hsome : firstFault (c.inputs s.pass.slot) ≠ none := fun hnone =>
      hwrite (Cell.firstFault_eq_none_iff.mp hnone v hread herror)
    obtain ⟨⟨name, fault⟩, hfirst⟩ := Option.ne_none_iff_exists'.mp hsome
    have hverdict : c.verdict l s.pass.slot = .ok (.fault (.inherited name fault.origin)) := by
      rw [Cell.verdict, hfirst]
    refine ⟨name, fault.origin, s.fail c (.inherited name fault.origin), ?_, failsWith_fail⟩
    rw [runCell_eq hc (isTriggered_of_isError hread herror), hverdict]
    rfl
  · have hnone := Cell.firstFault_eq_none_iff.mpr hown
    have hinputs : s.inputs c = c.inputs s.pass.slot := rfl
    unfold runCell
    simp only [hc, htriggered, Bool.not_true, Bool.false_eq_true, if_false, hinputs, hnone]
    rw [Cell.inputs_eq_of_own hown]

end Stage

namespace Engine

/-- The formula `a` fails, and the formula `r` reads the variable that `a` writes. -/
def failing (output : String) : Engine :=
  ((new .standard true).grow ⟨"a", .formula "1 / 0" "v"⟩).grow ⟨"r", .formula "v == ()" output⟩

/-- The pass in which `a` has its turn, and then `r`. -/
def failingPass (output : String) : ℕ → Stage :=
  (failing output).beginPass.route (.ofConfig .standard) [none, none]

/-- How the pass goes if `r` writes another variable than `a`. -/
lemma failingPass_trace :
    (failing "w").beginPass.isRoute (.ofConfig .standard) [none, none] = true ∧
    (((failingPass "w" 1).engine.cell? "r").any fun c => c.reads.contains "v" && !c.writes.contains "v") = true ∧
    ((failingPass "w" 1).pass.slot "v").isError = true := by
  decide +kernel

/-- The formula `r` inherits the fault of `a`. -/
theorem reader_inherits_fault : ∃ c, (failingPass "w" 1).engine.cell? "r" = some c ∧
    ∃ name origin s', (failingPass "w" 1).runCell (.ofConfig .standard) "r" = .ok s' ∧
      (failingPass "w" 1).FailsWith c (.inherited name origin) s' := by
  obtain ⟨-, hreader, herror⟩ := failingPass_trace
  obtain ⟨c, hc, hreads⟩ := (Option.any_eq_true _ _).mp hreader
  simp only [Bool.and_eq_true, Bool.not_eq_true', WriteSet.contains, Names.contains_iff,
    Names.contains_eq_false_iff] at hreads
  obtain ⟨hiff, -, -⟩ := Stage.inherits_iff_foreign_fault (l := .ofConfig .standard) hc
  exact ⟨c, hc, hiff.mpr ⟨"v", hreads.1, hreads.2, herror⟩⟩

/-- How the pass goes if `r` writes the variable that `a` writes. -/
lemma ownPass_trace :
    (failing "v").beginPass.isRoute (.ofConfig .standard) [none, none] = true ∧
    ((failingPass "v" 0).pass.slot "v").isUndefined = true ∧
    (failingPass "v" 1).pass.results.map (·.1) = ["a"] ∧
    ((failingPass "v" 1).pass.slot "v").fault?.map (·.origin) = some "a" ∧
    (((failingPass "v" 1).engine.cell? "r").any fun c => c.reads.contains "v") = true ∧
    (failingPass "v" 2).pass.results.getLast? = some ("r", .success) ∧
    ((failingPass "v" 2).pass.slot "v").same (.value (.bool true)) = true := by
  decide +kernel

/-- A cell that counts as a writer of a variable does not inherit the fault of another cell there. The turn of
`a` puts a fault on the variable `v`, and the turn of `r`, which reads `v`, ends with success. -/
theorem fault_of_other_writer_not_inherited :
    (failingPass "v" 0).Move (.ofConfig .standard) (failingPass "v" 1) ∧
    (failingPass "v" 1).Move (.ofConfig .standard) (failingPass "v" 2) ∧
    ((failingPass "v" 0).pass.slot "v").isUndefined = true ∧
    (failingPass "v" 1).pass.results.map (·.1) = ["a"] ∧
    ((failingPass "v" 1).pass.slot "v").fault?.map (·.origin) = some "a" ∧
    (((failingPass "v" 1).engine.cell? "r").any fun c => c.reads.contains "v") = true ∧
    (failingPass "v" 2).pass.results.getLast? = some ("r", .success) ∧
    ((failingPass "v" 2).pass.slot "v").same (.value (.bool true)) = true := by
  obtain ⟨hroute, hvalues⟩ := ownPass_trace
  exact ⟨Stage.move_of_move? (Stage.move?_route hroute rfl), Stage.move_of_move? (Stage.move?_route hroute rfl),
    hvalues⟩

end Engine

end ReactiveNotebook
