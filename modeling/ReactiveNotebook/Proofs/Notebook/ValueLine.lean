import ReactiveNotebook.Notebook.Markdown
import ReactiveNotebook.Proofs.Scheduling.ValidNames

/-!
# One line for each value

A formula or an input is exported as one line with the name of its variable and its value. Line breaks in the value
become blanks, and the name of a variable has none. The message of a fault, which follows the value, is taken as it
is: what is exported has as many lines as the message.
-/
namespace ReactiveNotebook

open Engine (IsChronicle)

@[simp] lemma toString_self (s : String) : toString s = s := rfl

variable {f : Fault} {c : Cell} {e : Engine} {name : String} {text : String}

/-- Whether there is a line break in something that the message of a fault names. -/
def Fault.HasBreak : Fault → Prop
  | .cycle _ path => ∃ id ∈ path, '\n' ∈ id.toList
  | .execution _ text => '\n' ∈ text.toList
  | .inherited name origin => '\n' ∈ name.toList ∨ '\n' ∈ origin.toList

lemma mem_intercalate_iff {ch : Char} {separator : String} {texts : List String} (h : ch ∉ separator.toList) :
    ch ∈ (String.intercalate separator texts).toList ↔ ∃ text ∈ texts, ch ∈ text.toList := by
  induction texts with
  | nil => simp
  | cons text texts ih =>
    cases texts with
    | nil => simp
    | cons next texts =>
      rw [String.intercalate_cons_cons, String.toList_append, String.toList_append, List.mem_append, List.mem_append,
        or_iff_left h, ih]
      simp

lemma Fault.message_cycle {cell : CellId} {path : List CellId} :
    (Fault.cycle cell path).message = "Circular dependency: " ++ String.intercalate " -> " path := rfl

lemma Fault.message_inherited {name : String} {origin : CellId} : (Fault.inherited name origin).message =
    "Upstream error in \x60" ++ name ++ "\x60 (from cell " ++ origin ++ ")" := rfl

lemma Fault.mem_message_iff : '\n' ∈ f.message.toList ↔ f.HasBreak := by
  cases f with
  | cycle cell path =>
    have hlead : '\n' ∉ "Circular dependency: ".toList := by decide
    rw [message_cycle, String.toList_append, List.mem_append, or_iff_right hlead, mem_intercalate_iff (by decide)]
    exact Iff.rfl
  | execution cell text => exact Iff.rfl
  | inherited name origin =>
    rw [message_inherited]
    simp [HasBreak]

namespace Analysis

/-- The name of a variable has no line break. -/
lemma not_mem_of_isVariableName (h : isVariableName name = true) : '\n' ∉ name.toList := by
  rw [isVariableName, Bool.and_eq_true] at h
  replace h := h.1
  generalize name.toList = cs at h
  cases cs with
  | nil => cases h
  | cons c rest =>
    rw [isNameShape, Bool.and_eq_true, List.all_eq_true] at h
    intro hmem
    rcases List.mem_cons.mp hmem with rfl | hmem
    · cases h.1
    · cases h.2 _ hmem

end Analysis

namespace Notebook

lemma not_mem_escapeMarkdown (text : String) : '\n' ∉ (escapeMarkdown text).toList := by
  rw [escapeMarkdown, String.toList_ofList, List.mem_flatMap]
  rintro ⟨c, -, hc⟩
  split_ifs at hc with hbar hbreak
  · simp at hc
  · simp at hc
  · exact hbreak (beq_iff_eq.mpr (List.mem_singleton.mp hc).symm)

/-- Whether a text has one line break, at its end. -/
def IsOneLine (text : String) : Prop := text.toList.count '\n' = 1 ∧ text.toList.getLast? = some '\n'

instance : Decidable (IsOneLine text) := by
  unfold IsOneLine
  infer_instance

/-- What follows the value: the message of the fault, if the cell has one. -/
def faultSuffix (c : Cell) : List Char :=
  (c.status.fault?.map fun f => " (".toList ++ f.message.toList ++ ")".toList).getD []

/-- The line breaks in the message of the fault, if the cell has one. -/
def faultBreaks (c : Cell) : ℕ := (c.status.fault?.map fun f => f.message.toList.count '\n').getD 0

lemma count_faultSuffix (c : Cell) : (faultSuffix c).count '\n' = faultBreaks c := by
  unfold faultSuffix faultBreaks
  cases c.status.fault? <;> simp

lemma faultBreaks_eq_zero_iff : faultBreaks c = 0 ↔ ∀ f, c.status.fault? = some f → ¬ f.HasBreak := by
  unfold faultBreaks
  cases c.status.fault? with
  | none => simp
  | some f => simp [List.count_eq_zero, Fault.mem_message_iff]

lemma cellMarkdown_of_output (h : c.content.output? = some name) : (cellMarkdown e c).toList =
    '\x60' :: name.toList ++ "\x60 = ".toList ++ (escapeMarkdown (Format.slotText (e.get name))).toList ++
      faultSuffix c ++ ['\n'] := by
  unfold cellMarkdown faultSuffix
  cases hcontent : c.content with
  | script source => rw [hcontent] at h; cases h
  | markdown template => rw [hcontent] at h; cases h
  | formula expression output =>
    rw [hcontent] at h
    obtain rfl : output = name := Option.some.inj h
    cases hfault : c.status.fault? <;> simp
  | input literal output =>
    rw [hcontent] at h
    obtain rfl : output = name := Option.some.inj h
    cases hfault : c.status.fault? <;> simp

/-- There are as many line breaks in what is exported as in the message of the fault, and one at the end. -/
lemma count_cellMarkdown (h : c.content.output? = some name) (hname : Analysis.isVariableName name = true) :
    (cellMarkdown e c).toList.count '\n' = faultBreaks c + 1 := by
  have hname' := List.count_eq_zero.mpr (Analysis.not_mem_of_isVariableName hname)
  have hvalue := List.count_eq_zero.mpr (not_mem_escapeMarkdown (Format.slotText (e.get name)))
  rw [cellMarkdown_of_output h]
  simp [hname', hvalue, count_faultSuffix]

lemma isOneLine_cellMarkdown_iff (h : c.content.output? = some name) (hname : Analysis.isVariableName name = true) :
    IsOneLine (cellMarkdown e c) ↔ ∀ f, c.status.fault? = some f → ¬ f.HasBreak := by
  have hlast : (cellMarkdown e c).toList.getLast? = some '\n' := by
    rw [cellMarkdown_of_output h, List.getLast?_concat]
  rw [IsOneLine, count_cellMarkdown h hname, ← faultBreaks_eq_zero_iff, and_iff_left hlast]
  omega

end Notebook

namespace Engine

open Notebook (cellMarkdown IsOneLine faultBreaks)

variable {n k : ℕ} {σ : ℕ → Engine} {config : Config}

/-- A formula or an input is exported as one line, whatever its value and its status are, unless its fault names
something with a line break in it. Every line break there begins another line. -/
theorem value_exported_as_one_line_iff (h : IsChronicle (.ofConfig config) n σ) (hk : k ≤ n) (hc : c ∈ (σ k).cells)
    (hout : c.content.output? = some name) :
    (IsOneLine (cellMarkdown (σ k) c) ↔ ∀ f, c.status.fault? = some f → ¬ f.HasBreak) ∧
      (cellMarkdown (σ k) c).toList.count '\n' = faultBreaks c + 1 := by
  have hcheck := (h.checked (Language.exportsVariables_ofConfig config) hk).declared c hc
  have hname := isVariableName_of_check hcheck hout
  exact ⟨Notebook.isOneLine_cellMarkdown_iff hout hname, Notebook.count_cellMarkdown hout hname⟩

/-- Two formulas that fail, the second one inside the function given to another. -/
def failingFormulas : List Deed :=
  [.act (.push ⟨"g", .formula "1 / 0" "z"⟩), .act (.push ⟨"f", .formula "[1].map(|n| n / 0)" "y"⟩), .act .begin,
    .act (.move none), .act (.move none)]

/-- The engine along these deeds. -/
def failingFormulasRun : ℕ → Engine := along (deed? (.ofConfig .standard)) (new .standard true) failingFormulas

/-- The fault of the first formula. -/
def plainFault : Fault := .execution "g" "Division by zero: 1 / 0 (line 1, position 3)"

/-- The fault of the second formula, with the calls in which it happened. -/
def nestedFault : Fault := .execution "f" ("Division by zero: 1 / 0 (line 1, position 15)\n" ++
  "in closure call (line 1, position 5)\nin call to function 'map' (line 1, position 5)")

/-- How the chronicle goes, as far as it can be computed. -/
lemma failingFormulasRun_trace :
    leads (deed? (.ofConfig .standard)) (new .standard true) failingFormulas = true ∧
    ((failingFormulasRun 5).cells.map fun c => (c.content.output?, c.status)) =
      [(some "z", .failed plainFault), (some "y", .failed nestedFault)] := by
  decide +kernel

lemma exists_failingFormula {fault : Fault}
    (h : (some name, Status.failed fault) ∈ [(some "z", Status.failed plainFault), (some "y", .failed nestedFault)]) :
    ∃ c ∈ (failingFormulasRun 5).cells, c.content.output? = some name ∧ c.status.fault? = some fault := by
  rw [← failingFormulasRun_trace.2] at h
  obtain ⟨c, hc, heq⟩ := List.mem_map.mp h
  obtain ⟨hout, hstatus⟩ := Prod.mk.inj heq
  exact ⟨c, hc, hout, by rw [hstatus]; rfl⟩

/-- The fault of the first formula stays in its line. -/
theorem plain_fault_exported_as_one_line : IsChronicle (.ofConfig .standard) 5 failingFormulasRun ∧
    ∃ c ∈ (failingFormulasRun 5).cells, c.content.output? = some "z" ∧ c.status.fault? = some plainFault ∧
      IsOneLine (cellMarkdown (failingFormulasRun 5) c) := by
  have hchronicle : IsChronicle (.ofConfig .standard) 5 failingFormulasRun :=
    isChronicle_along failingFormulasRun_trace.1
  obtain ⟨c, hc, hout, hfault⟩ : ∃ c ∈ (failingFormulasRun 5).cells, c.content.output? = some "z" ∧
      c.status.fault? = some plainFault := exists_failingFormula List.mem_cons_self
  refine ⟨hchronicle, c, hc, hout, hfault, (value_exported_as_one_line_iff hchronicle le_rfl hc hout).1.mpr ?_⟩
  intro f hf
  obtain rfl : plainFault = f := Option.some.inj (hfault.symm.trans hf)
  rw [← Fault.mem_message_iff]
  decide

/-- The fault of the second formula makes three lines of one. -/
theorem nested_fault_exported_as_three_lines : IsChronicle (.ofConfig .standard) 5 failingFormulasRun ∧
    ∃ c ∈ (failingFormulasRun 5).cells, c.content.output? = some "y" ∧ c.status.fault? = some nestedFault ∧
      (cellMarkdown (failingFormulasRun 5) c).toList.count '\n' = 3 ∧
      ¬ IsOneLine (cellMarkdown (failingFormulasRun 5) c) := by
  obtain ⟨c, hc, hout, hfault⟩ : ∃ c ∈ (failingFormulasRun 5).cells, c.content.output? = some "y" ∧
      c.status.fault? = some nestedFault := exists_failingFormula (List.mem_cons_of_mem _ List.mem_cons_self)
  have hcount : (cellMarkdown (failingFormulasRun 5) c).toList.count '\n' = 3 := by
    rw [Notebook.count_cellMarkdown hout (by decide +kernel), faultBreaks, hfault]
    decide +kernel
  refine ⟨isChronicle_along failingFormulasRun_trace.1, c, hc, hout, hfault, hcount, fun hline => ?_⟩
  rw [IsOneLine, hcount] at hline
  exact absurd hline.1 (by decide)

end Engine

end ReactiveNotebook
