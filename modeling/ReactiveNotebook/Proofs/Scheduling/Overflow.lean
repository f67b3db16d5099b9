import ReactiveNotebook.Proofs.Scheduling.Rounds

/-!
# What can stop a run

Formulas, inputs and scripts that run end with a value or a fault whatever they hold. A template stops the scheduler
if a placeholder shows a finite number with more places than a formatted field may have, and a script stops it if its
id has a null character, for then no thread can bear the id. Nothing else does: as long as there is no such cell in
the notebook, every tick goes through, and a run is not stopped.
-/
namespace ReactiveNotebook

open Relation (ReflTransGen)
open Analysis (Part)
open Script (Value)

variable {l : Language}

/-- The double is neither infinite nor undefined. -/
def Decimal.IsFinite (x : Double) : Prop := ∃ negative mantissa exponent, decode x = .finite negative mantissa exponent

namespace Format

lemma Overflow.eq_argument (cause : Overflow) : cause = .argument := by
  cases cause
  rfl

variable {x : Double} {places : ℕ} {symbol : String} {v : Value}

open Decimal (IsFinite)

lemma fixed_eq_error_iff : fixed x places = .error .argument ↔ IsFinite x ∧ mostFieldPlaces < places := by
  unfold fixed IsFinite
  cases Decimal.decode x with
  | finite negative m q => simp
  | nan => simp
  | infinite negative => simp

lemma money_eq_error_iff : money x symbol places = .error .argument ↔
    IsFinite x ∧ IsFinite x.abs ∧ mostFieldPlaces < places := by
  rw [← fixed_eq_error_iff]
  unfold money IsFinite
  cases Decimal.decode x with
  | finite negative m q => cases fixed x.abs places <;> simp [bind, Except.bind, pure, Except.pure]
  | nan => simp
  | infinite negative => simp

namespace Filter

variable {f : Filter}

/-- The number of places that the filter asks for, if it formats numbers. -/
def places? (f : Filter) : Option ℕ :=
  match Kind.ofName? f.name with
  | some .fixed | some .percent => some (f.count 0 0)
  | some .currency => some (f.count 1 2)
  | _ => none

/-- The doubles that the filter formats when it is applied to a value. -/
def figures (f : Filter) (v : Value) : List Double :=
  match Kind.ofName? f.name, v.toFloat? with
  | some .fixed, some x => [x]
  | some .percent, some x => [x * 100.0]
  | some .currency, some x => [x, x.abs]
  | _, _ => []

/-- The filter asks for more places than a formatted field may have. -/
def IsWide (f : Filter) : Prop := ∃ places, f.places? = some places ∧ mostFieldPlaces < places

/-- A filter is refused if it asks for too many places of a finite number. -/
theorem apply_eq_error_iff : f.apply v = .error .argument ↔
    f.IsWide ∧ f.figures v ≠ [] ∧ ∀ x ∈ f.figures v, IsFinite x := by
  unfold apply IsWide places? figures
  rcases hkind : Kind.ofName? f.name with _ | kind
  · simp
  · cases kind with
    | fixed =>
      cases v.toFloat? with
      | none => simp
      | some x => simp [fixed_eq_error_iff, and_comm]
    | percent =>
      cases v.toFloat? with
      | none => simp
      | some x =>
        have hmap : ((· ++ "%") <$> fixed (x * 100.0) (f.count 0 0)) = .error .argument ↔
            fixed (x * 100.0) (f.count 0 0) = .error .argument := by
          cases fixed (x * 100.0) (f.count 0 0) <;> simp [Functor.map, Except.map]
        simp [hmap, fixed_eq_error_iff, and_comm]
    | currency =>
      cases v.toFloat? with
      | none => simp
      | some x => simp [money_eq_error_iff, and_comm, and_assoc]
    | default => cases v <;> simp
    | length => cases v <;> simp
    | _ => simp

end Filter

end Format

/-- One of several steps is refused exactly if going through them all is. -/
lemma mapM_eq_error_iff {α β : Type} {f : α → Except Format.Overflow β} {xs : List α} :
    xs.mapM f = .error .argument ↔ ∃ x ∈ xs, f x = .error .argument := by
  induction xs with
  | nil => simp [pure, Except.pure]
  | cons x xs ih =>
    rw [List.mapM_cons, List.exists_mem_cons_iff, ← ih]
    cases hx : f x with
    | error cause => simp [bind, Except.bind, cause.eq_argument]
    | ok y => cases xs.mapM f <;> simp [bind, Except.bind, pure, Except.pure]

namespace Language

variable {inputs : Inputs} {template : String} {part : Part}

/-- The placeholder has a value, which is a finite number that its filter shows with too many places. -/
def Exceeds (l : Language) (inputs : Inputs) : Part → Prop
  | .text _ => False
  | .placeholder p => ∃ v f, l.evaluate p.expression inputs = .ok v ∧ p.filter = some f ∧ f.IsWide ∧
    f.figures v ≠ [] ∧ ∀ x ∈ f.figures v, Decimal.IsFinite x

lemma renderPart_eq_error_iff : l.renderPart inputs part = .error .argument ↔ l.Exceeds inputs part := by
  cases part with
  | text content => simp [renderPart, Exceeds]
  | placeholder p =>
    unfold renderPart Exceeds
    cases hv : l.evaluate p.expression inputs with
    | error message => simp [hv]
    | ok v =>
      cases hf : p.filter with
      | none => simp [hv, hf]
      | some f => simp [hv, hf, Format.Filter.apply_eq_error_iff]

/-- Rendering is refused exactly if one of the placeholders exceeds what can be formatted. -/
theorem render_eq_error_iff : l.render template inputs = .error .argument ↔
    ∃ part ∈ (Analysis.parseTemplate template).1, l.Exceeds inputs part := by
  simp only [← renderPart_eq_error_iff, ← mapM_eq_error_iff]
  unfold render
  cases (Analysis.parseTemplate template).1.mapM (l.renderPart inputs) <;> simp [bind, Except.bind, pure, Except.pure]

end Language

lemma Job.isNamable_iff {j : Job} : j.isNamable = true ↔ '\x00' ∉ j.cell.toList := by
  have hprefix : '\x00' ∉ "cellflow-script-".toList := by decide +kernel
  rw [isNamable, threadName, Bool.not_eq_true', List.contains_eq_mem, decide_eq_false_iff_not, String.toList_append,
    List.mem_append, not_or]
  exact and_iff_right hprefix

namespace Cell

variable {c : Cell} {view : String → Slot} {cause : Panic}

/-- No template of the cell asks for more places than a formatted field may have, and a thread can bear the id of
the cell if it is a script. -/
structure Modest (c : Cell) : Prop where
  narrow : ∀ template, c.content = .markdown template → ∀ p, Part.placeholder p ∈ (Analysis.parseTemplate template).1 →
    ∀ f, p.filter = some f → ¬ f.IsWide
  namable : c.content.isScript = true → '\x00' ∉ c.id.toList

lemma startVerdict_eq_error_iff {source : String} {inputs : Inputs} :
    c.startVerdict l source inputs = .error cause ↔
      '\x00' ∈ c.id.toList ∧ cause = .threadName ("cellflow-script-" ++ c.id) := by
  have hnull := not_congr (Job.isNamable_iff (j := ⟨c.id, c.version, source, inputs⟩))
  rw [not_not] at hnull
  rw [← hnull]
  unfold startVerdict
  dsimp only
  split
  · next hname =>
    have hname : ¬ (⟨c.id, c.version, source, inputs⟩ : Job).isNamable = true := by simpa using hname
    rw [and_iff_right hname, Except.error.injEq, eq_comm]
    rfl
  · next hname =>
    have hname : (⟨c.id, c.version, source, inputs⟩ : Job).isNamable = true := by simpa using hname
    cases l.refusal? ⟨c.id, c.version, source, inputs⟩ <;> simp [hname]

/-- A template stops the scheduler only for what one of its placeholders asks for, and a script only for its id. -/
lemma verdict_eq_error_iff : c.verdict l view = .error cause ↔ Stage.firstFault (c.inputs view) = none ∧
    ((∃ template, c.content = .markdown template ∧ cause = .overflow .argument ∧
      ∃ part ∈ (Analysis.parseTemplate template).1, l.Exceeds (c.inputs view) part) ∨
    c.content.isScript = true ∧ '\x00' ∈ c.id.toList ∧ cause = .threadName ("cellflow-script-" ++ c.id)) := by
  unfold verdict
  cases hf : Stage.firstFault (c.inputs view) with
  | some p => simp
  | none =>
    cases hc : c.content with
    | formula expression output => cases he : l.evaluate expression (c.inputs view) <;> simp [he, Content.isScript]
    | input literal output => simp [Content.isScript]
    | script source => simp [startVerdict_eq_error_iff, Content.isScript]
    | markdown template =>
      have hmap : ((l.render template (c.inputs view)).mapError Panic.overflow).map Verdict.text = .error cause ↔
          cause = .overflow .argument ∧ l.render template (c.inputs view) = .error .argument := by
        cases l.render template (c.inputs view) with
        | error overflow => simp [Except.mapError, Except.map, overflow.eq_argument, eq_comm]
        | ok text => simp [Except.mapError, Except.map]
      simp [hmap, Language.render_eq_error_iff, Content.isScript]

lemma Modest.exists_verdict (h : c.Modest) : ∃ v, c.verdict l view = .ok v := by
  cases hv : c.verdict l view with
  | ok v => exact ⟨v, rfl⟩
  | error cause =>
    obtain ⟨-, ⟨template, hc, -, part, hpart, hexceeds⟩ | ⟨hscript, hnull, -⟩⟩ := verdict_eq_error_iff.mp hv
    · cases part with
      | text content => exact hexceeds.elim
      | placeholder p =>
        obtain ⟨v, f, -, hf, hwide, -⟩ := hexceeds
        exact absurd hwide (h.narrow template hc p hpart f hf)
    · exact absurd hnull (h.namable hscript)

end Cell

namespace Stage

variable {s : Stage} {id : CellId}

/-- Every turn of a cell goes through. -/
lemma exists_runCell (h : ∀ c ∈ s.engine.cells, c.Modest) : ∃ s', s.runCell l id = .ok s' := by
  cases hc : s.engine.cell? id with
  | none => exact ⟨s.finish id .skipped, by simp only [runCell, hc]⟩
  | some c =>
    cases ht : s.isTriggered c with
    | false => exact ⟨s.finish id .unchanged, by simp [runCell, hc, ht]⟩
    | true =>
      have hmodest : c.Modest := h c (List.mem_of_find?_eq_some hc)
      obtain ⟨v, hv⟩ : ∃ v, c.verdict l s.pass.slot = .ok v := hmodest.exists_verdict
      exact ⟨s.conclude l c v, by rw [runCell_eq hc ht, hv]; rfl⟩

lemma not_panics (h : ∀ c ∈ s.engine.cells, c.Modest) : ¬ s.Panics l := by
  rintro ⟨i, id, cause, -, -, hrun⟩
  obtain ⟨s', hok⟩ : ∃ s', (s.withdraw i).runCell l id = .ok s' := exists_runCell h
  cases hok.symm.trans hrun

end Stage

namespace Engine

variable {e e' f : Engine} {c : Cell} {report : Option Report} {cause : Panic}

/-- A run does not touch what only edits change. -/
lemma Proceeds.revisions_eq (h : Proceeds l e f) : f.cells.map Cell.revision = e.cells.map Cell.revision := by
  cases h with
  | begin _ _ =>
    change e.collect.beginPass.revisions = _
    rw [revisions_beginPass, cells_collect]
  | collect _ _ _ => exact congrArg (List.map Cell.revision) (cells_collect e)
  | wait _ _ _ => rfl
  | move _ hm => exact hm.revisions_eq
  | finish _ _ _ => rfl

lemma revisions_of_proceeds (h : ReflTransGen (Proceeds l) e f) :
    f.cells.map Cell.revision = e.cells.map Cell.revision := by
  induction h with
  | refl => rfl
  | tail _ hstep ih => exact hstep.revisions_eq.trans ih

lemma modest_of_revisions (h : f.cells.map Cell.revision = e.cells.map Cell.revision)
    (hm : ∀ c ∈ e.cells, c.Modest) : ∀ c ∈ f.cells, c.Modest := fun c hc => by
  obtain ⟨d, hd, heq⟩ := Cell.exists_revision h hc
  have hid : d.id = c.id := congrArg (·.1) heq
  have hcontent : d.content = c.content := congrArg (·.2.1) heq
  exact ⟨fun template ht => (hm d hd).narrow template (hcontent.trans ht), hid ▸ hcontent ▸ (hm d hd).namable⟩

lemma not_jams_of_modest (hm : ∀ c ∈ e.cells, c.Modest) (h : ReflTransGen (Proceeds l) e f) : ¬ f.Jams l := by
  rintro ⟨p, -, hpanics⟩
  have hcells : ∀ c ∈ f.cells, c.Modest := modest_of_revisions (revisions_of_proceeds h) hm
  exact Stage.not_panics (s := f.resume p) hcells hpanics

/-- A tick that goes through ends the pass, or leaves it to wait for a script in flight. -/
lemma waits_of_tick (ht : e.Tidy) (h : e.tick l = .ok (e', report)) {p : Pass} (hp : e'.pass = some p) :
    e'.inFlight ≠ [] := by
  cases report with
  | none => exact inFlight_of_tick ht h hp
  | some r =>
    rcases tick_cases l ht with ⟨-, -, phase, htick⟩ | ⟨s, -, -, -, htick⟩
    · rw [htick] at h
      cases h
    · obtain ⟨t, -, ⟨-, -, rfl, -⟩ | ⟨-, -, hnone⟩⟩ := advance_cases (htick ▸ h)
      · cases hp
      · cases hnone

lemma runUntilIdle_ne_panic (ht : e.Tidy) (hm : ∀ c ∈ e.cells, c.Modest) :
    e.runUntilIdle l ≠ .error (.panic cause) := fun h => by
  have hwork : Host e e.arriveAll := .work _
  obtain ⟨u, hu, hjams⟩ := jams_of_drive (hwork.tidy ht) h
  exact not_jams_of_modest (e := e.arriveAll) hm hu hjams

/-- As long as no template of the notebook asks for more places than a formatted field may have, and no script has an
id that no thread can bear, nothing that a cell holds stops the scheduler. A tick goes through, and then no cell waits
except behind a script in flight; neither a run to the end nor one over all cells is stopped. -/
theorem not_stopped_of_modest (he : Reachable l e) (hm : ∀ c ∈ e.cells, c.Modest) :
    (∃ e' report, e.tick l = .ok (e', report) ∧ ∀ p, e'.pass = some p → e'.inFlight ≠ []) ∧
    (∀ cause, e.runUntilIdle l ≠ .error (.panic cause)) ∧
    ∀ cause, e.runAll l ≠ .error (.panic cause) := by
  have ht := he.tidy
  refine ⟨?_, fun cause => runUntilIdle_ne_panic ht hm, fun cause => ?_⟩
  · cases htick : e.tick l with
    | error cause =>
      obtain ⟨u, hu, hjams⟩ := jams_of_tick ht htick
      exact absurd hjams (not_jams_of_modest hm hu)
    | ok r => exact ⟨r.1, r.2, rfl, fun p hp => waits_of_tick ht htick hp⟩
  · have hseed : Host e (e.seedAll (e.cells.map (·.id))) := .seed _
    exact runUntilIdle_ne_panic (hseed.tidy ht) hm

/-- The template shows what the script exports with two places. -/
def twoPlaces : Engine :=
  ((new .standard true).grow ⟨"a", .markdown "\x7b\x7b x | fixed,2 \x7d\x7d"⟩).grow ⟨"s", .script "exports.x = 1.5;"⟩

/-- A script, and a template that asks for two places, stop nothing. -/
theorem two_places_do_not_stop : Reachable (.ofConfig .standard) twoPlaces ∧ (∀ c ∈ twoPlaces.cells, c.Modest) ∧
    (∃ e' report, twoPlaces.tick (.ofConfig .standard) = .ok (e', report) ∧
      ∀ p, e'.pass = some p → e'.inFlight ≠ []) ∧
    (∀ cause, twoPlaces.runUntilIdle (.ofConfig .standard) ≠ .error (.panic cause)) ∧
    ∀ cause, twoPlaces.runAll (.ofConfig .standard) ≠ .error (.panic cause) := by
  have hreach : Reachable (.ofConfig .standard) twoPlaces := ⟨.standard, true, (steps_grow _ _).trans (steps_grow _ _)⟩
  have hcells : (twoPlaces.cells.all fun c => !c.id.toList.contains '\x00' &&
      (Analysis.parseTemplate c.content.text).1.all fun
      | .text _ => true
      | .placeholder p => p.filter.all fun f => f.places?.all (· ≤ Format.mostFieldPlaces)) = true := by decide +kernel
  have hmodest : ∀ c ∈ twoPlaces.cells, c.Modest := by
    intro c hc
    obtain ⟨hnull, hparts⟩ := Bool.and_eq_true_iff.mp (List.all_eq_true.mp hcells c hc)
    refine ⟨?_, fun _ => by simpa using hnull⟩
    rintro template htemplate p hp f hf ⟨places, hplaces, hwide⟩
    rw [htemplate] at hparts
    have hpart := List.all_eq_true.mp hparts _ hp
    simp only [hf, Option.all_some, hplaces, decide_eq_true_eq] at hpart
    omega
  exact ⟨hreach, hmodest, not_stopped_of_modest hreach hmodest⟩

/-- An input cell after a template that asks for too many places. -/
def behindWideField : Engine := wideField.grow ⟨"b", .input "5" "x"⟩

/-- A template that asks for more places than a formatted field may have stops the scheduler. -/
theorem wide_field_stops_tick : Reachable (.ofConfig .standard) behindWideField ∧
    (behindWideField.tick (.ofConfig .standard)).toOption.isNone = true ∧
    (behindWideField.runUntilIdle (.ofConfig .standard)).toOption.isNone = true := by
  refine ⟨⟨.standard, true, (steps_grow _ _).trans (steps_grow _ _)⟩, ?_⟩
  decide +kernel

end Engine

end ReactiveNotebook
