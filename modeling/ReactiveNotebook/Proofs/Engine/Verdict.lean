import ReactiveNotebook.Proofs.Engine.Cells
import ReactiveNotebook.Proofs.Engine.Edit
import ReactiveNotebook.Proofs.Engine.Values

/-!
# The turn of a cell

What the evaluation of a cell comes to depends on its content and on the slots of the variables it reads. The
turn of a cell in a pass either leaves all values alone or carries out that verdict.
-/
namespace ReactiveNotebook

open Script (Value)

variable {l : Language}

lemma of_map_ok {ε α β : Type} {r : Except ε α} {f : α → β} {b : β} (h : r.map f = .ok b) :
    ∃ a, r = .ok a ∧ b = f a := by
  cases r with
  | error => cases h
  | ok a =>
    cases h
    exact ⟨a, rfl, rfl⟩

/-- What the evaluation of a cell comes to. -/
inductive Verdict where
  | fault (fault : Fault)
  | value (output : String) (value : Value)
  | text (text : String)
  /-- The script has to be run to know. -/
  | script (source : String) (inputs : Inputs)

namespace Cell

variable {c : Cell} {view view' : String → Slot} {v : Verdict} {output : String}

/-- What a cell sees of the variables it reads. -/
def inputs (c : Cell) (view : String → Slot) : Inputs :=
  c.reads.toList.map fun name =>
    (name, if (view name).isError && c.writes.contains name then .undefined else view name)

def startVerdict (l : Language) (c : Cell) (source : String) (inputs : Inputs) : Except Panic Verdict :=
  let job : Job := ⟨c.id, c.version, source, inputs⟩
  if !job.isNamable then .error (.threadName job.threadName)
  else
    match l.refusal? job with
    | some cause => .ok (.fault (.execution c.id s!"Failed to start script worker: {cause}"))
    | none => .ok (.script source inputs)

/-- What evaluating the cell comes to. -/
def verdict (l : Language) (view : String → Slot) (c : Cell) : Except Panic Verdict :=
  match Stage.firstFault (c.inputs view) with
  | some (name, fault) => .ok (.fault (.inherited name fault.origin))
  | none =>
    match c.content with
    | .formula expression output =>
      match l.evaluate expression (c.inputs view) with
      | .ok value => .ok (.value output value)
      | .error message => .ok (.fault (.execution c.id message))
    | .input literal output => .ok (.value output (readLiteral literal))
    | .markdown template => ((l.render template (c.inputs view)).mapError .overflow).map .text
    | .script source => c.startVerdict l source (c.inputs view)

/-- A script is run unless the system refuses it a thread, which is a fault of the cell. -/
lemma startVerdict_cases {source : String} {inputs : Inputs} (h : c.startVerdict l source inputs = .ok v) :
    (∃ message, v = .fault (.execution c.id message)) ∨ v = .script source inputs := by
  unfold startVerdict at h
  dsimp only at h
  split at h
  · cases h
  · split at h <;> cases h
    · exact .inl ⟨_, rfl⟩
    · exact .inr rfl

lemma text_of_render {template : String} {inputs : Inputs}
    (h : ((l.render template inputs).mapError Panic.overflow).map Verdict.text = .ok v) : ∃ text, v = .text text := by
  obtain ⟨text, -, hv⟩ := of_map_ok h
  exact ⟨text, hv⟩

/-- A verdict is a fault of another kind than a cycle. -/
lemma isCycle_of_verdict {f : Fault} (h : c.verdict l view = .ok (.fault f)) : f.isCycle = false := by
  unfold verdict at h
  split at h
  · cases h
    rfl
  · split at h
    · split at h <;> cases h
      rfl
    · cases h
    · obtain ⟨text, heq⟩ := text_of_render h
      cases heq
    · obtain ⟨message, heq⟩ | heq := startVerdict_cases h <;> cases heq
      rfl

/-- A verdict with a value is about the declared variable. -/
lemma output_of_verdict {value : Script.Value} (h : c.verdict l view = .ok (.value output value)) :
    c.content.output? = some output := by
  unfold verdict at h
  split at h
  · cases h
  · split at h
    · next hcontent =>
      split at h <;> cases h
      rw [hcontent]
      rfl
    · next hcontent =>
      cases h
      rw [hcontent]
      rfl
    · obtain ⟨text, heq⟩ := text_of_render h
      cases heq
    · obtain ⟨message, heq⟩ | heq := startVerdict_cases h <;> cases heq

/-- Only a template has a text, and only a script is to be run. -/
lemma markdown_of_verdict {text : String} (h : c.verdict l view = .ok (.text text)) :
    ∃ template, c.content = .markdown template := by
  unfold verdict at h
  split at h
  · cases h
  · split at h
    · split at h <;> cases h
    · cases h
    · next template hcontent => exact ⟨template, hcontent⟩
    · obtain ⟨message, heq⟩ | heq := startVerdict_cases h <;> cases heq

lemma content_of_verdict {source : String} {inputs : Inputs}
    (h : c.verdict l view = .ok (.script source inputs)) : c.content = .script source := by
  unfold verdict at h
  split at h
  · cases h
  · split at h
    · split at h <;> cases h
    · cases h
    · obtain ⟨text, heq⟩ := text_of_render h
      cases heq
    · next hcontent =>
      obtain ⟨message, heq⟩ | heq := startVerdict_cases h <;> cases heq
      exact hcontent

lemma isScript_of_verdict {source : String} {inputs : Inputs}
    (h : c.verdict l view = .ok (.script source inputs)) : c.content.isScript = true := by
  rw [content_of_verdict h]
  rfl

/-- Only the content and the slots of the variables read matter. -/
lemma inputs_congr (h : ∀ x ∈ c.reads, view x = view' x) : c.inputs view = c.inputs view' := by
  refine List.map_congr_left fun x hx => ?_
  rw [h x hx]

lemma verdict_congr (h : ∀ x ∈ c.reads, view x = view' x) : c.verdict l view = c.verdict l view' := by
  unfold verdict
  rw [inputs_congr h]

end Cell

namespace Stage

variable {s s' t u : Stage} {c : Cell} {id : CellId} {name x : String} {slot : Slot} {fault : Fault}
variable {v : Verdict} {names names' : String → Prop}

def conclude (l : Language) (s : Stage) (c : Cell) : Verdict → Stage
  | .fault fault => s.fail c fault
  | .value output value => (s.commit output (.value value)).succeed c.id
  | .text text => (s.modifyCell c.id fun c => { c with rendered := some text }).succeed c.id
  | .script source inputs => s.launch l c source inputs

lemma dispatch_eq {source : String} {inputs : Inputs} :
    s.dispatch l c source inputs = (c.startVerdict l source inputs).map (s.conclude l c) := by
  unfold dispatch Cell.startVerdict
  dsimp only
  split
  · rfl
  · cases l.refusal? ⟨c.id, c.version, source, inputs⟩ <;> rfl

/-- The turn of a cell that has a reason to be evaluated is its verdict. -/
theorem runCell_eq (hc : s.engine.cell? id = some c) (ht : s.isTriggered c = true) :
    s.runCell l id = (c.verdict l s.pass.slot).map (s.conclude l c) := by
  have hinputs : s.inputs c = c.inputs s.pass.slot := rfl
  unfold runCell
  simp only [hc, ht, Bool.not_true, Bool.false_eq_true, if_false, hinputs]
  unfold Cell.verdict
  cases firstFault (c.inputs s.pass.slot) with
  | some p => rfl
  | none =>
    simp only [evaluate]
    cases c.content with
    | formula expression output =>
      dsimp only
      cases l.evaluate expression (c.inputs s.pass.slot) <;> rfl
    | input literal output => rfl
    | script source => exact dispatch_eq
    | markdown template =>
      dsimp only
      cases l.render template (c.inputs s.pass.slot) <;> rfl

/-- What the turn of a cell can be. -/
inductive Turn (l : Language) (s : Stage) (id : CellId) : Stage → Prop
  | gone (hc : s.engine.cell? id = none) : Turn l s id (s.finish id .skipped)
  | unchanged {c : Cell} (hc : s.engine.cell? id = some c) (ht : s.isTriggered c = false) :
    Turn l s id (s.finish id .unchanged)
  | evaluated {c : Cell} {v : Verdict} (hc : s.engine.cell? id = some c) (ht : s.isTriggered c = true)
      (hv : c.verdict l s.pass.slot = .ok v) : Turn l s id (s.conclude l c v)

theorem turn_of_runCell (h : s.runCell l id = .ok s') : Turn l s id s' := by
  cases hc : s.engine.cell? id with
  | none =>
    simp only [runCell, hc] at h
    cases h
    exact .gone hc
  | some c =>
    cases ht : s.isTriggered c with
    | false =>
      simp only [runCell, hc, ht] at h
      cases h
      exact .unchanged hc ht
    | true =>
      rw [runCell_eq hc ht] at h
      obtain ⟨v, hv, rfl⟩ := of_map_ok h
      exact .evaluated hc ht hv

/-- From one stage to the other only the given variables may have been replaced. The pass sees what has
become of them, and those that changed count as changed. -/
structure Replaces (names : String → Prop) (s t : Stage) : Prop where
  value : ∀ x, t.engine.get x = s.engine.get x ∧ t.pass.slot x = s.pass.slot x ∨
    names x ∧ t.pass.slot x = t.engine.get x
  changed : ∀ x, t.engine.get x ≠ s.engine.get x → x ∈ t.pass.changed
  keeps : ∀ x ∈ s.pass.changed, x ∈ t.pass.changed

namespace Replaces

@[refl] lemma refl (s : Stage) : Replaces names s s := ⟨fun _ => .inl ⟨rfl, rfl⟩, fun _ h => absurd rfl h, fun _ h => h⟩

lemma trans (h : Replaces names s t) (h' : Replaces names t u) : Replaces names s u where
  value x := by
    rcases h'.value x with ⟨hg, hs⟩ | h2
    · rw [hg, hs]
      exact h.value x
    · exact .inr h2
  changed x hx := by
    by_cases htu : u.engine.get x = t.engine.get x
    · exact h'.keeps x (h.changed x (htu ▸ hx))
    · exact h'.changed x htu
  keeps x hx := h'.keeps x (h.keeps x hx)

lemma mono (h : Replaces names s t) (hn : ∀ x, names x → names' x) : Replaces names' s t where
  value x := (h.value x).imp_right fun ⟨hx, hs⟩ => ⟨hn x hx, hs⟩
  changed := h.changed
  keeps := h.keeps

/-- Stages that agree on the values are as good as each other. -/
lemma of_eq (hg : ∀ x, t.engine.get x = s.engine.get x) (hp : ∀ x, t.pass.slot x = s.pass.slot x)
    (hc : t.pass.changed = s.pass.changed) : Replaces names s t :=
  ⟨fun x => .inl ⟨hg x, hp x⟩, fun x hx => absurd (hg x) hx, fun _ hx => hc ▸ hx⟩

lemma get_eq (h : Replaces names s t) (hx : ¬ names x) : t.engine.get x = s.engine.get x :=
  (h.value x).elim (·.1) fun hn => absurd hn.1 hx

lemma synced (h : Replaces names s t) (hs : s.pass.slot x = s.engine.get x) :
    t.pass.slot x = t.engine.get x := by
  rcases h.value x with ⟨hg, hp⟩ | ⟨-, hp⟩
  · rw [hg, hp, hs]
  · exact hp

lemma foldl {α : Type} {f : Stage → α → Stage} (hf : ∀ s a, Replaces names s (f s a)) (xs : List α)
    (s : Stage) : Replaces names s (xs.foldl f s) := by
  induction xs generalizing s with
  | nil => rfl
  | cons a xs ih => exact (hf s a).trans (ih _)

lemma foldl_mem {α : Type} {f : Stage → α → Stage} (xs : List α)
    (hf : ∀ s, ∀ a ∈ xs, Replaces names s (f s a)) (s : Stage) : Replaces names s (xs.foldl f s) := by
  induction xs generalizing s with
  | nil => rfl
  | cons a xs ih =>
    exact (hf s a List.mem_cons_self).trans (ih (fun s b hb => hf s b (List.mem_cons_of_mem _ hb)) _)

end Replaces

lemma replaces_commit : Replaces (· = name) s (s.commit name slot) where
  value x := by
    rw [get_commit, slot_commit]
    by_cases hx : x = name
    · exact .inr ⟨hx, by rw [if_pos hx, if_pos hx]⟩
    · exact .inl ⟨by rw [if_neg hx], by rw [if_neg hx]⟩
  changed x hx := by
    rw [get_commit] at hx
    rw [changed_commit]
    split
    · next hsame =>
      split at hx
      · next hxn =>
        rw [hxn] at hx
        exact absurd (Slot.eq_of_same hsame).symm hx
      · exact absurd rfl hx
    · split at hx
      · next hxn => exact Names.mem_insert.mpr (.inl hxn)
      · exact absurd rfl hx
  keeps x hx := by
    rw [changed_commit]
    split
    · exact hx
    · exact Names.mem_insert.mpr (.inr hx)

lemma replaces_modifyCell {f : Cell → Cell} : Replaces names s (s.modifyCell id f) :=
  .of_eq (fun _ => rfl) (fun _ => rfl) rfl

lemma replaces_finish {outcome : Outcome} : Replaces names s (s.finish id outcome) :=
  .of_eq (fun _ => rfl) (fun _ => rfl) rfl

lemma replaces_succeed : Replaces names s (s.succeed id) := .of_eq (fun _ => rfl) (fun _ => rfl) rfl

lemma replaces_mark : Replaces (· ∈ c.writes.names) s (s.mark c fault) := by
  refine (replaces_modifyCell (s := s)).trans (.foldl_mem _ (fun t name hname => ?_) _)
  exact replaces_commit.mono fun x hx => hx ▸ hname

lemma replaces_fail : Replaces (· ∈ c.writes.names) s (s.fail c fault) :=
  replaces_mark.trans replaces_finish

lemma replaces_block (hc : ∀ c ∈ s.engine.cells, c.id = id → ∀ name ∈ c.writes.names, names name) :
    Replaces names s (s.block id) := by
  unfold block
  split
  · rfl
  · next c hcell =>
    have hmem := List.mem_of_find?_eq_some hcell
    exact (replaces_mark.trans replaces_finish).mono fun x hx => hc c hmem (id_eq_of_cell? hcell) x hx

/-- A script that drops an export replaces no variable but that one. -/
lemma replaces_retract : Replaces (· = name) s (retract id s name) := by
  by_cases hw : s.engine.isWrittenElsewhere name id = true
  · have heq : retract id s name = s := by simp [retract, hw]
    rw [heq]
  · have hw : s.engine.isWrittenElsewhere name id = false := by simpa using hw
    by_cases hu : s.engine.get name = .undefined
    · have hpass : (retract id s name).pass = s.pass := retract_of_undefined hu
      refine .of_eq (fun x => ?_) (fun x => by rw [hpass]) (by rw [hpass])
      rw [get_retract]
      split
      · next hx => rw [hx.1, hu]
      · rfl
    · have hpass := retract_of_defined hu hw
      refine ⟨fun x => ?_, fun x hx => ?_, fun x hx => ?_⟩
      · rw [get_retract, hpass, Pass.slot_record]
        by_cases hx : x = name
        · exact .inr ⟨hx, by rw [if_pos hx, if_pos ⟨hx, hw⟩]⟩
        · exact .inl ⟨by rw [if_neg fun h => hx h.1], by rw [if_neg hx]⟩
      · rw [get_retract] at hx
        rw [hpass]
        split at hx
        · next hxn => exact Names.mem_insert.mpr (.inl hxn.1)
        · exact absurd rfl hx
      · rw [hpass]
        exact Names.mem_insert.mpr (.inr hx)

/-- The turn of a cell replaces what it writes. -/
lemma replaces_conclude (hv : ∀ output value, v = .value output value → output ∈ c.writes.names) :
    Replaces (· ∈ c.writes.names) s (s.conclude l c v) := by
  cases v with
  | fault f => exact replaces_fail
  | value output value =>
    have hout := hv output value rfl
    exact (replaces_commit.mono fun x hx => hx ▸ hout).trans replaces_succeed
  | text text => exact replaces_modifyCell.trans replaces_succeed
  | script source inputs => exact .of_eq (fun _ => rfl) (fun _ => rfl) rfl

end Stage

def Cell.withVerdict (v : Verdict) (c : Cell) : Cell :=
  match v with
  | .fault fault =>
    { c with
      status := .failed fault
      rendered := match c.content with
        | .markdown _ => none
        | _ => c.rendered }
  | .value _ _ => { c with status := .ok }
  | .text text => { c with rendered := some text, status := .ok }
  | .script _ _ => c

def conclusion (id : CellId) (v : Verdict) (cells : List Cell) : List Cell :=
  cells.map fun c => if c.id == id then c.withVerdict v else c

namespace Cell

variable {c : Cell} {v : Verdict} {view : String → Slot}

@[simp] lemma id_withVerdict : (c.withVerdict v).id = c.id := by cases v <;> rfl
@[simp] lemma content_withVerdict : (c.withVerdict v).content = c.content := by cases v <;> rfl
@[simp] lemma reads_withVerdict : (c.withVerdict v).reads = c.reads := by cases v <;> rfl
@[simp] lemma writes_withVerdict : (c.withVerdict v).writes = c.writes := by cases v <;> rfl
@[simp] lemma version_withVerdict : (c.withVerdict v).version = c.version := by cases v <;> rfl

/-- A verdict on the cell does not change what evaluating it comes to. -/
@[simp] lemma verdict_withVerdict : (c.withVerdict v).verdict l view = c.verdict l view := by
  unfold verdict startVerdict inputs
  simp only [id_withVerdict, content_withVerdict, reads_withVerdict, writes_withVerdict, version_withVerdict]

end Cell

section conclusion

variable {cells : List Cell} {c d : Cell} {id : CellId} {v : Verdict}

lemma mem_conclusion :
    d ∈ conclusion id v cells ↔ d ∈ cells ∧ d.id ≠ id ∨ ∃ c ∈ cells, c.id = id ∧ d = c.withVerdict v := by
  simp only [conclusion, List.mem_map]
  constructor
  · rintro ⟨c, hc, rfl⟩
    by_cases hid : c.id = id
    · exact .inr ⟨c, hc, hid, by simp [hid]⟩
    · exact .inl (by simpa [hid] using hc)
  · rintro (⟨hd, hid⟩ | ⟨c, hc, hid, rfl⟩)
    · exact ⟨d, hd, by simp [hid]⟩
    · exact ⟨c, hc, by simp [hid]⟩

lemma conclusion_of_not_mem (h : id ∉ cells.map (·.id)) : conclusion id v cells = cells := by
  have heq : ∀ c ∈ cells, (if c.id == id then c.withVerdict v else c) = c := by
    intro c hc
    have hne : c.id ≠ id := fun he => h (he ▸ List.mem_map_of_mem hc)
    simp [hne]
  rw [conclusion, List.map_congr_left heq]
  exact List.map_id' cells

end conclusion

namespace Stage

variable {s : Stage} {c : Cell} {id : CellId} {fault : Fault} {v : Verdict}

lemma cells_mark : (s.mark c fault).engine.cells = conclusion c.id (.fault fault) s.engine.cells := by
  unfold mark
  rw [cells_foldl fun _ _ => cells_commit]
  rfl

lemma cells_fail : (s.fail c fault).engine.cells = conclusion c.id (.fault fault) s.engine.cells := cells_mark

lemma cells_block : (s.block id).engine.cells =
    conclusion id (.fault (.cycle id ((s.engine.graph.cycleOf? id).getD []))) s.engine.cells := by
  unfold block
  cases hc : s.engine.cell? id with
  | none =>
    have hnone : id ∉ s.engine.cells.map (·.id) := by
      intro hmem
      rw [← Engine.hasCell_iff, Engine.hasCell, hc] at hmem
      cases hmem
    exact (conclusion_of_not_mem hnone).symm
  | some c =>
    have hid := id_eq_of_cell? hc
    subst hid
    exact cells_mark

lemma cells_conclude : (s.conclude l c v).engine.cells = conclusion c.id v s.engine.cells := by
  cases v with
  | fault f => exact cells_fail
  | value output value => rfl
  | text text =>
    change (s.engine.cells.map _).map _ = s.engine.cells.map _
    rw [List.map_map]
    refine List.map_congr_left fun d _ => ?_
    by_cases hd : d.id = c.id
    · simp [hd, Cell.withVerdict]
    · simp [hd]
  | script source inputs =>
    refine (List.map_id'' (fun d => ?_) s.engine.cells).symm
    split <;> rfl

/-- One slot is committed to several variables. -/
lemma values_foldl_commit {x : String} {slot : Slot} (names : List String) (s : Stage) :
    (names.foldl (fun s name => s.commit name slot) s).engine.get x =
        (if x ∈ names then slot else s.engine.get x) ∧
      (names.foldl (fun s name => s.commit name slot) s).pass.slot x =
        (if x ∈ names then slot else s.pass.slot x) := by
  induction names generalizing s with
  | nil => simp
  | cons y ys ih =>
    obtain ⟨hget, hslot⟩ := ih (s.commit y slot)
    rw [List.foldl_cons, hget, hslot, get_commit, slot_commit]
    by_cases hx : x ∈ ys
    · simp [hx]
    · by_cases hxy : x = y <;> simp [hx, hxy]

/-- A fault is passed on to every variable that the cell writes. -/
lemma get_mark {x : String} :
    (s.mark c fault).engine.get x = if x ∈ c.writes.names then .error fault else s.engine.get x :=
  (values_foldl_commit c.writes.names.toList _).1

lemma slot_mark {x : String} :
    (s.mark c fault).pass.slot x = if x ∈ c.writes.names then .error fault else s.pass.slot x :=
  (values_foldl_commit c.writes.names.toList _).2

lemma silent_foldl_commit {f : String → Slot} (xs : List String) (s : Stage) :
    s.engine.store.Silent (xs.foldl (fun s x => s.commit x (f x)) s).engine.store := by
  induction xs generalizing s with
  | nil => exact .refl _
  | cons x xs ih => exact Store.silent_commit.trans (ih (s.commit x (f x)))

lemma silent_mark {fault : Fault} : s.engine.store.Silent (s.mark c fault).engine.store := by
  unfold mark
  exact silent_foldl_commit (f := fun _ => .error fault) _ (s.modifyCell c.id _)

lemma silent_block : s.engine.store.Silent (s.block id).engine.store := by
  unfold block
  split
  · exact .refl _
  · exact silent_mark

lemma silent_conclude : s.engine.store.Silent (s.conclude l c v).engine.store := by
  cases v with
  | fault f => exact silent_mark
  | value output value => exact Store.silent_commit
  | text text => exact .refl _
  | script source inputs => exact .refl _

lemma silent_of_turn (h : Turn l s id s') : s.engine.store.Silent s'.engine.store := by
  cases h with
  | gone hc => exact .refl _
  | unchanged hc ht => exact .refl _
  | evaluated hc ht hv => exact silent_conclude

end Stage

end ReactiveNotebook
