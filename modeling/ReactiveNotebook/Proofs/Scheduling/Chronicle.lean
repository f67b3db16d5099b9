import ReactiveNotebook.Proofs.Engine.Arrival
import ReactiveNotebook.Proofs.Engine.Begin
import ReactiveNotebook.Proofs.Engine.Start
import ReactiveNotebook.Proofs.Scheduling.StaleResult

/-!
# Chronicles

A chronicle is the whole life of an engine, from the notebook without cells on, one operation after the other.
Along it every cell can be traced back. What a cell counts as writing is changed by edits, and by the results of
its script that are taken over. While no cell comes back under the id of one that was removed during the same
pass, only the cells of scripts have results under way.
-/
namespace ReactiveNotebook

open Relation (ReflTransGen TransGen)

variable {l : Language}

namespace Cell

variable {b c d : Cell}

/-- The second cell holds what the first one holds and counts as writing the same. -/
def Continues (c d : Cell) : Prop := d.revision = c.revision ∧ d.writes = c.writes

lemma Continues.trans (h : b.Continues c) (h' : c.Continues d) : b.Continues d :=
  ⟨h'.1.trans h.1, h'.2.trans h.2⟩

lemma continues_of_blank (h : d.blank = c.blank) : c.Continues d := by
  have hrevision : d.blank.revision = c.blank.revision := congrArg _ h
  have hwrites : d.blank.writes = c.blank.writes := congrArg _ h
  exact ⟨hrevision, hwrites⟩

end Cell

namespace Stage

variable {s t : Stage} {a : Arrival} {b c d : Cell} {exports : Script.Fields}

lemma exists_continues (h : s.control = t.control) (hd : d ∈ s.engine.cells) :
    ∃ c ∈ t.engine.cells, c.Continues d := by
  obtain ⟨c, hc, heq⟩ := List.mem_map.mp
    (cells_blank_of_control h ▸ List.mem_map_of_mem hd : d.blank ∈ t.engine.cells.map Cell.blank)
  exact ⟨c, hc, Cell.continues_of_blank heq.symm⟩

lemma cells_blank_extend {source : CellId} {names : Names} :
    (s.extend source names).engine.cells.map Cell.blank = s.engine.cells.map Cell.blank := by
  have hcells := cells_blank_of_control (control_extend s source names)
  exact hcells

/-- Taking over exports changes what the script counts as writing, and nothing else of that kind. -/
lemma exists_mem_of_accept (hd : d ∈ (s.accept c exports).engine.cells) :
    ∃ b ∈ s.engine.cells, b.id ≠ c.id ∧ b.Continues d ∨ b.id = c.id ∧ d.revision = b.revision ∧
      d.writes = .confirmed (Names.ofList (exports.map (·.1))) := by
  have hadopt : ∀ d ∈ (s.adopt c exports).engine.cells, ∃ b ∈ s.engine.cells, b.id ≠ c.id ∧ b.Continues d ∨
      b.id = c.id ∧ d.revision = b.revision ∧ d.writes = .confirmed (Names.ofList (exports.map (·.1))) := by
    intro d hd
    rcases mem_cells_adopt hd with ⟨hd, hne⟩ | ⟨b, hb, hid, rfl⟩
    · exact ⟨d, hd, .inl ⟨hne, rfl, rfl⟩⟩
    · exact ⟨b, hb, .inr ⟨hid, rfl, rfl⟩⟩
  rcases accept_cases s c exports with ⟨-, heq⟩ | heq
  · exact hadopt d (heq ▸ hd)
  · rw [heq] at hd
    obtain ⟨d', hd', hrevision, hwrites⟩ := exists_continues (control_extend ..) hd
    obtain ⟨b, hb, hcase⟩ := hadopt d' hd'
    refine ⟨b, hb, hcase.imp (fun ⟨hne, hcontinues⟩ => ⟨hne, hcontinues.trans ⟨hrevision, hwrites⟩⟩) ?_⟩
    exact fun ⟨hid, hsame, hnew⟩ => ⟨hid, hrevision.trans hsame, hwrites.trans hnew⟩

end Stage

namespace Engine

variable {e e' f : Engine} {a : Arrival} {c d : Cell} {id x : CellId} {σ : ℕ → Engine} {n k : ℕ}
variable {report : Option Report} {reports : List Report}

/-- A step of the scheduler. -/
inductive Schedules (l : Language) (e : Engine) : Engine → Prop
  | collect (h : e.pass = none) : Schedules l e e.collect
  | begin (h : e.pass = none) : Schedules l e e.beginPass.suspend
  | move {p : Pass} {s : Stage} (h : e.pass = some p) (hm : (e.resume p).Move l s) : Schedules l e s.suspend
  | finish {p : Pass} (h : e.pass = some p) (hr : p.remaining = []) (hf : e.inFlight = []) :
      Schedules l e (endPass (e.resume p)).1

lemma Schedules.ongoing (h : Schedules l e e') : Ongoing l e e' := by
  cases h with
  | collect h => exact .collect h
  | begin h => exact .begin h
  | move h hm => exact .move h hm
  | finish h hr hf => exact .finish h hr hf

/-- A call of an engine, or a step of the ticks and runs that are called. It is a step that seeds only cells of the
notebook. -/
inductive Operation (l : Language) (e : Engine) : Engine → Prop
  | edit {e' : Engine} (h : Edit e e') : Operation l e e'
  | host {e' : Engine} (h : Host e e') (hs : e'.seeds = e.seeds) : Operation l e e'
  | seedAll : Operation l e (e.seedAll (e.cells.map (·.id)))
  | schedule {e' : Engine} (h : Schedules l e e') : Operation l e e'

lemma Operation.edit_or_ongoing (h : Operation l e e') : Edit e e' ∨ Ongoing l e e' := by
  cases h with
  | edit h => exact .inl h
  | host h _ => exact .inr (.host h)
  | seedAll => exact .inr (.host (.seed _))
  | schedule h => exact .inr h.ongoing

lemma Operation.step (h : Operation l e e') : Step l e e' :=
  h.edit_or_ongoing.elim .edit Ongoing.step

lemma Proceeds.operations (h : Proceeds l e f) : ReflTransGen (Operation l) e f := by
  cases h with
  | begin hp _ =>
    exact .tail (.single (.schedule (.collect hp))) (.schedule (.begin (pass_collect.trans hp)))
  | @collect phase hp _ _ => exact .tail (.single (.schedule (.collect hp))) (.host (.phase phase) rfl)
  | @wait phase time _ _ _ => exact .tail (.single (.host (.phase phase) rfl)) (.host (.sleep time) rfl)
  | @move p s time hp hm => exact .tail (.single (.host (.work time) rfl)) (.schedule (.move hp hm))
  | finish hp hr hf => exact .single (.schedule (.finish hp hr hf))

lemma operations_of_proceeds (h : ReflTransGen (Proceeds l) e f) : ReflTransGen (Operation l) e f := by
  induction h with
  | refl => exact .refl
  | tail _ hp ih => exact ih.trans hp.operations

/-- Ticks are made of operations. -/
theorem operations_tick (ht : e.Tidy) (h : e.tick l = .ok (e', report)) : ReflTransGen (Operation l) e e' := by
  rcases proceeds_tick ht h with hruns | ⟨-, -, -, -, phase, rfl⟩
  · exact operations_of_proceeds hruns
  · exact .single (.host (.phase phase) rfl)

/-- Runs are made of operations. -/
theorem operations_runUntilIdle (ht : e.Tidy) (h : e.runUntilIdle l = .ok (e', reports)) :
    ReflTransGen (Operation l) e e' := by
  have hwork : Operation l e e.arriveAll := .host (.work _) rfl
  obtain ⟨u, phase, hruns, -, rfl⟩ := proceeds_drive (hwork.step.tidy ht) h
  exact .head hwork ((operations_of_proceeds hruns).tail (.host (.phase phase) rfl))

theorem operations_runAll (ht : e.Tidy) (h : e.runAll l = .ok (e', reports)) :
    ReflTransGen (Operation l) e e' := by
  have hseed : Operation l e (e.seedAll (e.cells.map (·.id))) := .seedAll
  exact .head hseed (operations_runUntilIdle (hseed.step.tidy ht) h)

/-- The step takes over the result of a successful run of the script of a cell, which exports the names. -/
def Exports (e e' : Engine) (id : CellId) (names : Names) : Prop :=
  ∃ a exports, Lands e e' a ∧ Current e a ∧ a.cell = id ∧ a.run.result = .ok exports ∧
    names = Names.ofList (exports.map (·.1))

lemma flying_of_lands (ht : e.Tidy) (h : Lands e e' a) : a.cell ∈ e.inFlight.map (·.1) := by
  obtain ⟨p, rest, hp, hperm, -⟩ := h
  exact Stage.flying_of_arriving (ht.pass p hp) hperm

/-- A step that is no edit leaves what a cell holds, and changes what it counts as writing to what the run of a script
exports that it takes over. -/
theorem Ongoing.exists_mem (h : Ongoing l e e') (hd : d ∈ e'.cells) : ∃ c ∈ e.cells, d.revision = c.revision ∧
    (d.writes = c.writes ∨ ∃ names, Exports e e' d.id names ∧ d.writes = .confirmed names) := by
  have hkept : ∀ {s t : Stage}, s.control = t.control → d ∈ s.engine.cells → ∃ c ∈ t.engine.cells,
      d.revision = c.revision ∧ (d.writes = c.writes ∨ ∃ names, Exports e e' d.id names ∧ d.writes = .confirmed names) :=
    fun hcontrol hd => by
      obtain ⟨c, hc, hrevision, hwrites⟩ := Stage.exists_continues hcontrol hd
      exact ⟨c, hc, hrevision, .inl hwrites⟩
  cases h with
  | host h => exact ⟨d, h.cells_eq ▸ hd, rfl, .inl rfl⟩
  | collect _ => exact ⟨d, cells_collect e ▸ hd, rfl, .inl rfl⟩
  | begin _ => exact hkept (control_blockCycles e) hd
  | finish _ _ _ => exact ⟨d, hd, rfl, .inl rfl⟩
  | @move p s hp hm =>
    cases hm with
    | @start i id _ _ _ _ hrun =>
      rcases Stage.runCell_cases hrun with hcontrol | ⟨c, source, -, -, -, -, rfl⟩
      · exact hkept hcontrol hd
      · exact ⟨d, hd, rfl, .inl rfl⟩
    | @receive a rest hperm =>
      have hlands : Lands e (((e.resume p).deliver rest).receive a).suspend a := ⟨p, rest, hp, hperm, rfl⟩
      have hlanding := Stage.landing_receive ((e.resume p).deliver rest) a
      generalize ((e.resume p).deliver rest).receive a = t at hlanding hlands hd hkept
      cases hlanding with
      | stale _ =>
        unfold Stage.dismiss at hd
        dsimp only at hd
        split at hd <;> exact ⟨d, hd, rfl, .inl rfl⟩
      | again _ _ => exact ⟨d, hd, rfl, .inl rfl⟩
      | @failed c message logs _ _ _ =>
        exact hkept (t := (((e.resume p).deliver rest).land a.cell).finish c.id .success)
          ((Stage.control_failed ..).trans (Stage.finish_congr Stage.control_keepLogs .success)) hd
      | @accepted c exports logs hsome hrerun hsettle =>
        obtain ⟨b, hb, hcase⟩ := Stage.exists_mem_of_accept hd
        obtain ⟨b', hb', hrevision, hwrites⟩ :=
          Stage.exists_continues (t := ((e.resume p).deliver rest).land a.cell) Stage.control_keepLogs hb
        refine ⟨b', hb', ?_⟩
        rcases hcase with ⟨-, hsame, hold⟩ | ⟨hid, hsame, hnew⟩
        · exact ⟨hsame.trans hrevision, .inl (hold.trans hwrites)⟩
        · have hcell := Stage.cell?_of_addressee? hsome
          refine ⟨hsame.trans hrevision, .inr ⟨_, ⟨a, exports, hlands, ?_, ?_, Stage.result_of_settle hsettle, rfl⟩, hnew⟩⟩
          · exact ⟨p, c, hp, hrerun, hcell, Stage.version_of_addressee? hsome⟩
          · exact (Stage.id_eq_of_cell? hcell).symm.trans (hid.symm.trans (congrArg (·.1) hsame.symm))

lemma isScript_withText (content : Content) (text : String) : (content.withText text).isScript = content.isScript := by
  cases content <;> rfl

lemma isScript_withOutput (content : Content) (name : String) : (content.withOutput name).isScript = content.isScript := by
  cases content <;> rfl

/-- A cell after an edit was there before, is new, or is one that was there with another text or variable, which
is of the same kind and counts its version up. -/
lemma Edit.origin (h : Edit e e') (hn : (e.cells.map (·.id)).Nodup) (hd : d ∈ e'.cells) :
    d ∈ e.cells ∨ d.id ∉ e.cells.map (·.id) ∨
      ∃ c ∈ e.cells, c.id = d.id ∧ c.content.isScript = d.content.isScript ∧ c.version < d.version := by
  cases h with
  | add h =>
    obtain ⟨hi, hfresh, -, rfl⟩ := addCell_ok h
    rcases (List.mem_insertIdx hi).mp hd with rfl | hd
    · exact .inr (.inl hfresh)
    · exact .inl hd
  | remove h =>
    obtain ⟨b, -, -, rfl⟩ := removeCell_ok h
    rw [(vacates_foldl _).cells] at hd
    exact .inl (List.mem_filter.mp hd).1
  | content h =>
    obtain ⟨b, -, ⟨-, rfl⟩ | ⟨-, rfl⟩⟩ := setContent_ok h
    · exact .inl hd
    · rcases mem_modifyCell hd with ⟨hd, -⟩ | ⟨c, hc, -, rfl⟩
      · exact .inl hd
      · exact .inr (.inr ⟨c, hc, rfl, (isScript_withText ..).symm, c.version.lt_succ_self⟩)
  | move h =>
    obtain ⟨old, b, ho, hb, hi, ⟨-, rfl⟩ | ⟨-, rfl⟩⟩ := moveCell_ok h
    · exact .inl hd
    · exact .inl ((mem_move_iff hn ho hb hi).mp hd)
  | @rename id name e' h =>
    obtain ⟨b, old, -, -, -, ⟨-, rfl⟩ | ⟨-, rfl⟩⟩ := renameVariable_ok h
    · exact .inl hd
    · change d ∈ (vacate false id ((e.withOutput id name).seed id) old).cells at hd
      rw [vacates_vacate.cells] at hd
      rcases mem_modifyCell hd with ⟨hd, -⟩ | ⟨c, hc, -, rfl⟩
      · exact .inl hd
      · exact .inr (.inr ⟨c, hc, rfl, (isScript_withOutput ..).symm, c.version.lt_succ_self⟩)

/-- After an operation a cell is new, or it was there before and was a script if it is one now. -/
lemma Operation.exists_kind (h : Operation l e e') (hn : (e.cells.map (·.id)).Nodup) (hd : d ∈ e'.cells) :
    d.id ∉ e.cells.map (·.id) ∨ ∃ c ∈ e.cells, c.id = d.id ∧ c.content.isScript = d.content.isScript := by
  rcases h.edit_or_ongoing with hedit | hongoing
  · rcases hedit.origin hn hd with hd | hfresh | ⟨c, hc, hid, hkind, -⟩
    · exact .inr ⟨d, hd, rfl, rfl⟩
    · exact .inl hfresh
    · exact .inr ⟨c, hc, hid, hkind⟩
  · obtain ⟨c, hc, hrevision, -⟩ := hongoing.exists_mem hd
    simp only [Cell.revision, Prod.mk.injEq] at hrevision
    exact .inr ⟨c, hc, hrevision.1.symm, hrevision.2.1 ▸ rfl⟩

/-- What is in flight after a step was so before, or is a script that a pass has started. -/
lemma Step.mem_flying (h : Step l e e') (ht : e.Tidy) (hx : x ∈ e'.inFlight.map (·.1)) :
    x ∈ e.inFlight.map (·.1) ∨ e.pass ≠ none ∧ ∃ c ∈ e.cells, c.id = x ∧ c.content.isScript = true := by
  cases h with
  | edit h =>
    rcases h.shape with rfl | ⟨cells, store, seeds, rfl⟩ <;> exact .inl hx
  | host h => cases h <;> exact .inl hx
  | collect _ =>
    obtain ⟨store, seeds, phase, -, heq⟩ := collect_shape e
    rw [heq] at hx
    exact .inl hx
  | begin _ =>
    rw [show e.beginPass.suspend.inFlight = e.inFlight from inFlight_beginPass e] at hx
    exact .inl hx
  | finish _ _ _ => exact .inl hx
  | @move p s hp hm =>
    cases hm with
    | start _ _ hid hrun =>
      rcases (Stage.starts_of_runCell (ht.pass p hp) hid hrun).fate with ⟨-, hfly⟩ | ⟨-, c, hc, hcid, hscript, hfly⟩ <;>
        rw [show s.suspend.inFlight = s.engine.inFlight from rfl, hfly] at hx
      · exact .inl hx
      · rcases List.mem_cons.mp hx with rfl | hx
        · exact .inr ⟨hp ▸ Option.some_ne_none p, c, hc, hcid, hscript⟩
        · exact .inl hx
    | receive _ => exact .inl ((Stage.landing_receive _ _).mem_flying.mp hx).1

/-- A chronicle of `n` operations. -/
structure IsChronicle (l : Language) (n : ℕ) (σ : ℕ → Engine) : Prop where
  start : ∃ config manual, σ 0 = new config manual
  step : ∀ k < n, Operation l (σ k) (σ (k + 1))

lemma IsChronicle.isRun (h : IsChronicle l n σ) : IsRun l n σ where
  reachable := by
    obtain ⟨config, manual, hstart⟩ := h.start
    exact ⟨config, manual, hstart ▸ .refl⟩
  step k hk := (h.step k hk).step

lemma IsChronicle.tidy (h : IsChronicle l n σ) (hk : k ≤ n) : (σ k).Tidy := (h.isRun.reachable_of_le hk).tidy

/-- No cell is added under the id of a removed one before the pass is over in which that one was there last. -/
def NoReturn (n : ℕ) (σ : ℕ → Engine) : Prop :=
  ∀ j k x, j ≤ k → k < n → (σ j).hasCell x = true → (σ k).hasCell x = false → (σ (k + 1)).hasCell x = true →
    ∃ i, j ≤ i ∧ i ≤ k ∧ (σ i).pass = none

/-- The cell, if it is there, is a script, and it has been there in the pass in progress. -/
structure Airborne (σ : ℕ → Engine) (k : ℕ) (x : CellId) : Prop where
  script : ∀ c ∈ (σ k).cells, c.id = x → c.content.isScript = true
  since : ∃ j ≤ k, (σ j).hasCell x = true ∧ ∀ i, j ≤ i → i ≤ k → (σ i).pass ≠ none

lemma pass_ne_none_of_flying (ht : e.Tidy) (hx : x ∈ e.inFlight.map (·.1)) : e.pass ≠ none := fun hp => by
  rw [(ht.idle hp).1] at hx
  cases hx

/-- A cell that has been there in the pass in progress is not added anew. -/
lemma Airborne.hasCell (h : Airborne σ k x) (hret : NoReturn n σ) (hk : k < n) (hx : (σ (k + 1)).hasCell x = true) :
    (σ k).hasCell x = true := by
  obtain ⟨j, hj, hthere, hbusy⟩ := h.since
  by_contra hgone
  obtain ⟨i, hi, hik, hidle⟩ := hret j k x hj hk hthere (Bool.not_eq_true _ ▸ hgone) hx
  exact hbusy i hi hik hidle

/-- Whatever is in flight is a script. -/
theorem IsChronicle.airborne (h : IsChronicle l n σ) (hret : NoReturn n σ) (hk : k ≤ n)
    (hx : x ∈ (σ k).inFlight.map (·.1)) : Airborne σ k x := by
  induction k with
  | zero =>
    obtain ⟨config, manual, hstart⟩ := h.start
    rw [hstart] at hx
    cases hx
  | succ k ih =>
    have ht := h.tidy (by omega : k ≤ n)
    have hpass := pass_ne_none_of_flying (h.tidy hk) hx
    have hbefore : Airborne σ k x := by
      rcases (h.step k hk).step.mem_flying ht hx with hx | ⟨hp, c, hc, rfl, hscript⟩
      · exact ih (by omega) hx
      · refine ⟨fun d hd hid => ?_, k, le_rfl, hasCell_iff.mpr (List.mem_map_of_mem hc), fun i hi hik => ?_⟩
        · rwa [List.inj_on_of_nodup_map ht.ids hd hc hid]
        · rwa [Nat.le_antisymm hik hi]
    obtain ⟨j, hj, hthere, hbusy⟩ := hbefore.since
    refine ⟨fun d hd hid => ?_, j, by omega, hthere, fun i hi hik => ?_⟩
    · subst hid
      rcases (h.step k hk).exists_kind ht.ids hd with hgone | ⟨c, hc, hid, hkind⟩
      · -- the cell would have come back in the pass in progress
        exact absurd (hasCell_iff.mp (hbefore.hasCell hret hk (hasCell_iff.mpr (List.mem_map_of_mem hd)))) hgone
      · exact hkind ▸ hbefore.script c hc hid
    · rcases Nat.le_succ_iff.mp hik with hik | rfl
      · exact hbusy i hi hik
      · exact hpass

end Engine

end ReactiveNotebook
