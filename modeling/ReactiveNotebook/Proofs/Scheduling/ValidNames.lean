import ReactiveNotebook.Proofs.Engine.Touches
import ReactiveNotebook.Proofs.Scheduling.Faithful
import ReactiveNotebook.Proofs.Scheduling.HeldNames
import ReactiveNotebook.Script.Run

/-!
# Names that cannot be variables

Declared variables are checked when a cell is edited, and exports when a run ends. The names that the text of a
script lets expect are not checked: until its next run is taken over, a script counts as writing whatever its texts
assign to its exports. If it fails meanwhile, or is marked as lying on a cycle, the fault goes to these names too.
No other name that cannot be a variable gets into the store from a cell, and none ever gets a value.
-/
namespace ReactiveNotebook

variable {l : Language}

namespace Language

/-- Runs that succeed export variables only. -/
def ExportsVariables (l : Language) : Prop :=
  ∀ source inputs storage exports, (l.run source inputs storage).result = .ok exports →
    ∀ f ∈ exports, Analysis.isVariableName f.1 = true

lemma exportsVariables_ofConfig (config : Config) : (ofConfig config).ExportsVariables := by
  intro source inputs storage exports h f hf
  change (runScript config source inputs storage).result = .ok exports at h
  unfold runScript at h
  split at h
  · cases h
  · dsimp only at h
    split at h
    · cases h
      exact (List.mem_filter.mp hf).2
    · cases h
    · cases h

end Language

namespace Engine

variable {e e' : Engine} {a : Arrival} {c : Cell} {name : String} {k n : ℕ} {σ : ℕ → Engine}

/-- A result under way after a step was so before, or is that of a run which the step has begun. -/
lemma Step.mem_arriving (h : Step l e e') (ha : a ∈ e'.arriving) :
    a ∈ e.arriving ∨ ∃ source inputs storage, a.run = l.run source inputs storage := by
  cases h with
  | edit h => rcases h.shape with rfl | ⟨cells, store, seeds, rfl⟩ <;> exact .inl ha
  | host h => cases h <;> exact .inl ha
  | collect _ =>
    obtain ⟨store, seeds, phase, -, heq⟩ := collect_shape e
    rw [heq] at ha
    exact .inl ha
  | begin _ =>
    have hsame : e.beginPass.engine.arriving = e.arriving := congrArg (·.engine.arriving) (control_blockCycles e)
    exact .inl (hsame ▸ ha)
  | finish _ _ _ => exact .inl ha
  | @move p s _ hm =>
    cases hm with
    | @start i id _ _ _ _ hrun =>
      rcases Stage.runCell_cases hrun with hcontrol | ⟨c, source, -, -, -, -, rfl⟩
      · have hsame : s.engine.arriving = e.arriving := congrArg (·.engine.arriving) hcontrol
        exact .inl (hsame ▸ ha)
      · rcases List.mem_append.mp ha with ha | ha
        · exact .inl ha
        · rw [List.mem_singleton.mp ha]
          exact .inr ⟨source, _, _, rfl⟩
    | @receive b rest hperm =>
      have hsame : (((e.resume p).deliver rest).receive b).engine.arriving = rest :=
        (Stage.landing_receive ((e.resume p).deliver rest) b).arriving
      exact .inl (hperm.mem_iff.mpr (List.mem_cons_of_mem b (hsame ▸ ha)))

/-- The declared variables are good ones, and so is everything that a result under way exports. -/
structure Checked (e : Engine) : Prop where
  declared : ∀ c ∈ e.cells, c.definition.check = .ok ()
  exported : ∀ a ∈ e.arriving, ∀ exports, a.run.result = .ok exports →
    ∀ f ∈ exports, Analysis.isVariableName f.1 = true

lemma Operation.checked (h : Operation l e e') (ht : e.Tidy) (hl : l.ExportsVariables) (he : e.Checked) :
    e'.Checked where
  declared c hc := by
    rcases h.edit_or_ongoing with hedit | hongoing
    · rcases hedit.checked ht.ids he.declared hc with hold | ⟨b, rfl, hcheck⟩
      · exact he.declared c hold
      · exact hcheck
    · obtain ⟨b, hb, hrevision, -⟩ := hongoing.exists_mem hc
      simp only [Cell.revision, Prod.mk.injEq] at hrevision
      rw [Cell.definition, hrevision.1, hrevision.2.1]
      exact he.declared b hb
  exported a ha exports hresult := by
    rcases h.step.mem_arriving ha with hold | ⟨source, inputs, storage, hrun⟩
    · exact he.exported a hold exports hresult
    · exact hl source inputs storage exports (hrun ▸ hresult)

lemma IsChronicle.checked (h : IsChronicle l n σ) (hl : l.ExportsVariables) (hk : k ≤ n) : (σ k).Checked := by
  induction k with
  | zero =>
    obtain ⟨config, manual, hstart⟩ := h.start
    rw [hstart]
    exact ⟨(fun c hc => by cases hc), fun a ha => by cases ha⟩
  | succ k ih => exact (h.step k hk).checked (h.tidy (by omega)) hl (ih (by omega))

lemma output?_of_mem_writes {content : Content} (h : content.isScript = false)
    (hname : name ∈ content.analyze.writes.names) : content.output? = some name := by
  cases content with
  | script source => cases h
  | markdown text => exact absurd hname (Names.not_mem_empty name)
  | _ => exact congrArg some (List.mem_singleton.mp (Names.mem_ofList.mp hname)).symm

/-- After an edit of its text a script counts as writing what it did before, and what the new text lets expect. -/
lemma mem_writes_of_reanalyze {b : Cell} (hcheck : b.reanalyze.definition.check = .ok ())
    (hname : name ∈ b.reanalyze.writes.names) : Analysis.isVariableName name = true ∨
      b.reanalyze.writes.isConfirmed = false ∧
        (name ∈ b.writes.names ∨ name ∈ b.reanalyze.content.analyze.writes.names) := by
  cases hcontent : b.content with
  | script source =>
    have hwrites : b.reanalyze.writes = .provisional ((Analysis.exportEstimate source).union b.writes.names) := by
      rw [Cell.reanalyze, hcontent]
      rfl
    rw [hwrites] at hname ⊢
    rw [Cell.reanalyze_content, hcontent]
    exact .inr ⟨rfl, Names.mem_union.mp hname⟩
  | _ =>
    have hscript : b.reanalyze.content.isScript = false := by
      rw [Cell.reanalyze_content, hcontent]
      rfl
    rw [(derived_reanalyze (c := b) hcheck).writes hscript] at hname
    exact .inl (isVariableName_of_check hcheck (output?_of_mem_writes hscript hname))

/-- A cell counts as writing variables, and before its writes are confirmed also what its texts have let expect. -/
theorem IsChronicle.variable_or_held (h : IsChronicle l n σ) (hl : l.ExportsVariables) (hk : k ≤ n)
    (hc : c ∈ (σ k).cells) (hname : name ∈ c.writes.names) :
    Analysis.isVariableName name = true ∨ c.writes.isConfirmed = false ∧ Holds σ k c.id name := by
  induction k generalizing c with
  | zero =>
    obtain ⟨config, manual, hstart⟩ := h.start
    rw [hstart] at hc
    cases hc
  | succ k ih =>
    have ht := h.tidy (k := k) (by omega)
    have hchecked := h.checked hl hk
    -- what was held before is held on while the writes are not confirmed
    have hkept : ∀ b ∈ (σ k).cells, b.id = c.id → name ∈ b.writes.names →
        (b.writes.isConfirmed = false → c.writes.isConfirmed = false) →
        Analysis.isVariableName name = true ∨ c.writes.isConfirmed = false ∧ Holds σ (k + 1) c.id name :=
      fun b hb hid hbname hopen => (ih (by omega) hb hbname).imp_right fun ⟨hbopen, hholds⟩ =>
        ⟨hopen hbopen, (hid ▸ hholds).succ hc (hopen hbopen)⟩
    rcases (h.step k hk).edit_or_ongoing with hedit | hongoing
    · rcases hedit.mem_cells ht.ids hc with hold | ⟨b, rfl, hbefore⟩
      · exact hkept c hold rfl hname id
      · rcases mem_writes_of_reanalyze (hchecked.declared _ hc) hname with hgood | ⟨hopen, hold | htext⟩
        · exact .inl hgood
        · obtain ⟨d, hd, hid, hdname⟩ := hbefore name hold
          exact hkept d hd hid hdname fun _ => hopen
        · exact .inr ⟨hopen, holds_of_text hc htext⟩
    · obtain ⟨b, hb, hrevision, hwrites⟩ := hongoing.exists_mem hc
      have hid : b.id = c.id := (congrArg (·.1) hrevision).symm
      rcases hwrites with hsame | ⟨names, ⟨a, exports, ⟨p, rest, -, hperm, -⟩, -, -, hresult, rfl⟩, hnew⟩
      · exact hkept b hb hid (hsame ▸ hname) fun hopen => hsame ▸ hopen
      · rw [hnew] at hname
        obtain ⟨f, hf, rfl⟩ := List.mem_map.mp (Names.mem_ofList.mp hname)
        have ha : a ∈ (σ k).arriving := hperm.mem_iff.mpr List.mem_cons_self
        exact .inl ((h.checked hl (by omega)).exported a ha exports hresult f hf)

/-- A step of the scheduler that evaluates a cell, takes over the result of a script, or marks the cells on
cycles. -/
inductive Works (l : Language) (e : Engine) : Engine → Prop
  | begin (h : e.pass = none) : Works l e e.beginPass.suspend
  | move {p : Pass} {s : Stage} (h : e.pass = some p) (hm : (e.resume p).Move l s) : Works l e s.suspend

/-- Such a step commits values to variables only, and faults and nothing also to what cells count as writing. -/
lemma Works.touches (h : Works l e e') (he : e.Checked) (x : String) :
    e'.store.version x = e.store.version x ∨ Analysis.isVariableName x = true ∨
      (∃ c ∈ e.cells, x ∈ c.writes.names) ∧ ∀ v, e'.get x ≠ .value v := by
  have hversion : e'.store.find? x = e.store.find? x → e'.store.version x = e.store.version x := fun hfind => by
    rw [Store.version, hfind]
    rfl
  have hclaimed : ∀ b ∈ e.cells, ∀ x ∈ b.writes.names, ∃ c ∈ e.cells, x ∈ c.writes.names :=
    fun b hb x hx => ⟨b, hb, hx⟩
  cases h with
  | begin _ =>
    have htouches := touches_beginPass (p := (Analysis.isVariableName · = true)) hclaimed
    exact (htouches x).imp_left hversion
  | @move p s _ hm =>
    have htouches := hm.touches (p := (Analysis.isVariableName · = true))
      (fun c hc x => isVariableName_of_check (he.declared c hc)) he.exported hclaimed
    exact (htouches x).imp_left hversion

/-- For the script language of a notebook: what a cell counts as writing are variables, and before its writes are
confirmed also names that its texts have let expect. What the evaluation of a cell, the result of a script, or the
marks on cycles commit to the store are variables, and such names too, which get no values. -/
theorem committed_variable_or_held {config : Config} (h : IsChronicle (.ofConfig config) n σ) (hk : k ≤ n) :
    (∀ c ∈ (σ k).cells, ∀ name ∈ c.writes.names, Analysis.isVariableName name = true ∨
      c.writes.isConfirmed = false ∧ Holds σ k c.id name) ∧
    ∀ e', Works (.ofConfig config) (σ k) e' → ∀ name, e'.store.version name ≠ (σ k).store.version name →
      Analysis.isVariableName name = true ∨
        (∃ c ∈ (σ k).cells, name ∈ c.writes.names ∧ c.writes.isConfirmed = false ∧ Holds σ k c.id name) ∧
          ∀ v, e'.get name ≠ .value v := by
  have hl := Language.exportsVariables_ofConfig config
  refine ⟨fun c hc name hname => h.variable_or_held hl hk hc hname, fun e' hworks name hversion => ?_⟩
  rcases (hworks.touches (h.checked hl hk) name).resolve_left hversion with hgood | ⟨⟨c, hc, hname⟩, hno⟩
  · exact .inl hgood
  · refine (h.variable_or_held hl hk hc hname).imp_right fun ⟨hopen, hholds⟩ => ?_
    exact ⟨⟨c, hc, hname, hopen, hholds⟩, hno⟩

/-- A script that assigns an export that is no variable, and then fails. -/
def spacedExport : List Deed :=
  [.act (.push ⟨"s", .script "exports[\"a b\"] = 1; throw 1;"⟩), .act .begin, .act (.move none),
    .act (.move (some 0))]

/-- The engine along these deeds. -/
def spacedExportRun : ℕ → Engine := along (deed? (.ofConfig .standard)) (new .standard true) spacedExport

/-- How the chronicle goes, as far as it can be computed. -/
lemma spacedExportRun_trace :
    leads (deed? (.ofConfig .standard)) (new .standard true) spacedExport = true ∧
    Analysis.isVariableName "a b" = false ∧ (spacedExportRun 3).store.version "a b" = 0 ∧
    (spacedExportRun 4).store.version "a b" = 1 ∧ ((spacedExportRun 4).get "a b").isError = true ∧
    ((spacedExportRun 4).cells.any fun c => c.writes.contains "a b") = true := by
  decide +kernel

lemma works_of_deed? {choice : Option ℕ} (h : e.deed? l (.act (.move choice)) = some e') : Works l e e' := by
  have hact : e.act? l (.move choice) = some e' := h
  obtain ⟨p, hp, hmove⟩ := Option.bind_eq_some_iff.mp hact
  obtain ⟨s, hs, rfl⟩ := Option.map_eq_some_iff.mp hmove
  exact .move hp (Stage.move_of_move? hs)

/-- The last deed is the arrival of the result. -/
lemma works_spacedExportRun : Works (.ofConfig .standard) (spacedExportRun 3) (spacedExportRun 4) :=
  works_of_deed? (step_along spacedExportRun_trace.1 rfl)

/-- The name that is committed is one that the text of the script has let expect. -/
theorem spaced_export_held : IsChronicle (.ofConfig .standard) 4 spacedExportRun ∧
    Works (.ofConfig .standard) (spacedExportRun 3) (spacedExportRun 4) ∧
    (spacedExportRun 4).store.version "a b" ≠ (spacedExportRun 3).store.version "a b" ∧
    (∃ c ∈ (spacedExportRun 3).cells, "a b" ∈ c.writes.names ∧ c.writes.isConfirmed = false ∧
      Holds spacedExportRun 3 c.id "a b") ∧ ∀ v, (spacedExportRun 4).get "a b" ≠ .value v := by
  obtain ⟨hleads, hname, hbefore, hafter, -, -⟩ := spacedExportRun_trace
  have hchronicle : IsChronicle (.ofConfig .standard) 4 spacedExportRun := isChronicle_along hleads
  have hversion : (spacedExportRun 4).store.version "a b" ≠ (spacedExportRun 3).store.version "a b" := by
    rw [hbefore, hafter]
    decide
  obtain ⟨-, hcommits⟩ := committed_variable_or_held hchronicle (k := 3) (by decide)
  have hcommitted := hcommits _ works_spacedExportRun _ hversion
  rw [hname] at hcommitted
  exact ⟨hchronicle, works_spacedExportRun, hversion, hcommitted.resolve_left Bool.false_ne_true⟩

/-- The failure of the script puts a fault on a name that is no variable, and the script counts as writing it. -/
theorem failure_commits_spaced_export : IsChronicle (.ofConfig .standard) 4 spacedExportRun ∧
    Works (.ofConfig .standard) (spacedExportRun 3) (spacedExportRun 4) ∧ Analysis.isVariableName "a b" = false ∧
    (∃ c ∈ (spacedExportRun 4).cells, "a b" ∈ c.writes.names) ∧
    (spacedExportRun 4).store.version "a b" = (spacedExportRun 3).store.version "a b" + 1 ∧
    ((spacedExportRun 4).get "a b").isError = true := by
  obtain ⟨hleads, hname, hbefore, hafter, herror, hwrites⟩ := spacedExportRun_trace
  obtain ⟨c, hc, hcontains⟩ := List.any_eq_true.mp hwrites
  have hversion : (spacedExportRun 4).store.version "a b" = (spacedExportRun 3).store.version "a b" + 1 := by
    rw [hbefore, hafter]
  have hname' : "a b" ∈ c.writes.names := Names.contains_iff.mp hcontains
  exact ⟨isChronicle_along hleads, works_spacedExportRun, hname, ⟨c, hc, hname'⟩, hversion, herror⟩

end Engine

end ReactiveNotebook
