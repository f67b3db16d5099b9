import Mathlib.Data.List.DropRight
import Mathlib.Tactic
import ReactiveNotebook.Notebook.Record
import ReactiveNotebook.Proofs.Json.RoundTrip

/-!
# Writing notebooks and reading them back

A written notebook yields the same cells exactly if the format can express them: reading makes an id of the position of
a cell whose id is blank, and drops the blanks around the name of a declared variable. What has been read can be
expressed.
-/
namespace ReactiveNotebook

namespace Text

/-- A text without blanks at its ends. -/
def Trimmed (s : String) : Prop :=
  (∀ c, s.toList.head? = some c → isBlank c = false) ∧ ∀ c, s.toList.getLast? = some c → isBlank c = false

variable {p : Char → Bool} {cs : List Char} {s : String}

lemma dropWhile_eq_self : cs.dropWhile p = cs ↔ ∀ c, cs.head? = some c → p c = false := by
  cases cs <;> simp

lemma rdropWhile_eq_self : cs.rdropWhile p = cs ↔ ∀ c, cs.getLast? = some c → p c = false := by
  rw [List.rdropWhile, List.reverse_eq_iff, dropWhile_eq_self, List.head?_reverse]

lemma dropEnds_eq (p : Char → Bool) (cs : List Char) : dropEnds p cs = (cs.dropWhile p).rdropWhile p := rfl

lemma dropEnds_eq_self :
    dropEnds p cs = cs ↔
      (∀ c, cs.head? = some c → p c = false) ∧ ∀ c, cs.getLast? = some c → p c = false := by
  rw [← dropWhile_eq_self, ← rdropWhile_eq_self, dropEnds_eq]
  constructor
  · intro h
    have hsuffix := List.dropWhile_suffix p (l := cs)
    have hlen := (List.rdropWhile_prefix p (cs.dropWhile p)).length_le
    rw [h] at hlen
    have hfront : cs.dropWhile p = cs := hsuffix.eq_of_length (le_antisymm hsuffix.length_le hlen)
    rw [hfront] at h
    exact ⟨hfront, h⟩
  · rintro ⟨hfront, hback⟩
    rw [hfront, hback]

lemma dropEnds_dropEnds (p : Char → Bool) (cs : List Char) : dropEnds p (dropEnds p cs) = dropEnds p cs := by
  refine dropEnds_eq_self.mpr ⟨fun c hc => ?_, ?_⟩
  · obtain ⟨back, hback⟩ := List.rdropWhile_prefix p (cs.dropWhile p)
    have hhead : (cs.dropWhile p).head? = some c := by
      rw [← hback, List.head?_append, ← dropEnds_eq, hc, Option.some_or]
    simpa [hhead] using List.head?_dropWhile_not p cs
  · exact rdropWhile_eq_self.mp (List.rdropWhile_idempotent p _)

lemma trim_eq_self : trim s = s ↔ Trimmed s := by
  rw [← String.toList_inj, trim, String.toList_ofList, trimList, dropEnds_eq_self, Trimmed]

lemma trimmed_trim (s : String) : Trimmed (trim s) := by
  rw [Trimmed, ← dropEnds_eq_self, trim, String.toList_ofList]
  exact dropEnds_dropEnds ..

lemma allBlank_eq_false : allBlank s = false ↔ ∃ c ∈ s.toList, isBlank c = false := by
  simp [allBlank]

end Text

namespace Notebook

/-- A cell that the format can express: its id has a character that is not blank, and a declared variable has a name,
without blanks at its ends. -/
def Expressible (d : Definition) : Prop :=
  (∃ c ∈ d.id.toList, Text.isBlank c = false) ∧
    ∀ name, d.content.output? = some name → name ≠ "" ∧ Text.Trimmed name

namespace Record

def ofCell (d : Definition) : Record :=
  match d.content with
  | .script s => ⟨"script", some d.id, none, some (.str s), none⟩
  | .formula s output => ⟨"formula", some d.id, some output, none, some s⟩
  | .markdown s => ⟨"markdown", some d.id, none, some (.str s), none⟩
  | .input s output => ⟨"input", some d.id, some output, some (.str s), none⟩

lemma ofJson?_ofDefinition (d : Definition) : ofJson? (.obj (ofDefinition d)) = some (ofCell d) := by
  obtain ⟨id, content⟩ := d
  cases content <;> rfl

variable {r : Record} {d : Definition} {index : ℕ}

/-- All that is stored of a cell are texts. -/
lemma plain_of_mem {levels : ℕ} {f : String × Json} (hf : f ∈ ofDefinition d) : Json.Plain levels f.2 := by
  have hstr : ∃ s, f.2 = .str s := by
    obtain ⟨id, content⟩ := d
    cases content <;>
      · simp only [ofDefinition, List.cons_append, List.nil_append, List.mem_cons, List.not_mem_nil, or_false] at hf
        rcases hf with rfl | rfl | rfl | rfl <;> exact ⟨_, rfl⟩
  obtain ⟨s, hs⟩ := hstr
  exact hs ▸ .str s

lemma cellId_ofCell (d : Definition) (index : ℕ) :
    (ofCell d).cellId index = if Text.allBlank d.id then s!"cell-{index + 1}" else d.id := by
  obtain ⟨id, content⟩ := d
  cases content <;> rfl

/-- A generated id has a character that is not blank. -/
lemma allBlank_generated (index : ℕ) : Text.allBlank s!"cell-{index + 1}" = false := by
  refine Text.allBlank_eq_false.mpr ⟨'c', ?_, rfl⟩
  rw [String.toList_append]
  exact List.mem_append_left _ (by decide)

lemma allBlank_cellId (r : Record) (index : ℕ) : Text.allBlank (r.cellId index) = false := by
  unfold cellId
  split
  · split_ifs with hid
    · exact allBlank_generated index
    · simpa using hid
  · exact allBlank_generated index

lemma cellId_ofCell_eq : (ofCell d).cellId index = d.id ↔ Text.allBlank d.id = false := by
  rw [cellId_ofCell]
  cases hid : Text.allBlank d.id with
  | false => simp
  | true =>
    simp only [if_true, reduceCtorEq, iff_false]
    intro heq
    rw [← heq, allBlank_generated] at hid
    cases hid

lemma variableName?_eq_some {name : String} :
    r.variableName? = some name ↔ r.variableName.map Text.trim = some name ∧ name ≠ "" := by
  unfold variableName?
  cases r.variableName.map Text.trim with
  | none => simp
  | some x =>
    by_cases hx : x = ""
    · subst hx
      simp [eq_comm]
    · simp only [Option.some.injEq]
      constructor
      · rintro rfl
        exact ⟨rfl, hx⟩
      · exact fun h => h.1

/-- A declared variable that is read has a name without blanks at its ends. -/
lemma trimmed_of_variableName? {name : String} (h : r.variableName? = some name) :
    name ≠ "" ∧ Text.Trimmed name := by
  obtain ⟨hname, hne⟩ := variableName?_eq_some.mp h
  obtain ⟨written, -, rfl⟩ := Option.map_eq_some_iff.mp hname
  exact ⟨hne, Text.trimmed_trim written⟩

/-- What a cell has of its record. -/
lemma of_toDefinition (h : r.toDefinition index = .ok d) :
    d.id = r.cellId index ∧ ∀ name, d.content.output? = some name → r.variableName? = some name := by
  simp only [toDefinition] at h
  split_ifs at h
  · cases h
    exact ⟨rfl, nofun⟩
  · split at h
    · cases h
    · next hname =>
      cases h
      exact ⟨rfl, fun name heq => Option.some.inj heq ▸ hname⟩
  · cases h
    exact ⟨rfl, nofun⟩
  · split at h
    · cases h
    · next hname =>
      cases h
      exact ⟨rfl, fun name heq => Option.some.inj heq ▸ hname⟩

lemma kind_ofCell (d : Definition) :
    String.ofList ((Text.trimList (ofCell d).kind.toList).map Char.toLower) = d.content.kindName := by
  have hkind : ∀ kind ∈ ["script", "formula", "markdown", "input"],
      String.ofList ((Text.trimList kind.toList).map Char.toLower) = kind := by decide
  obtain ⟨id, content⟩ := d
  cases content <;> exact hkind _ (by simp [ofCell])

lemma toDefinition_ofCell (hid : (ofCell d).cellId index = d.id)
    (hname : ∀ name, d.content.output? = some name → (ofCell d).variableName? = some name) :
    (ofCell d).toDefinition index = .ok d := by
  simp only [toDefinition, kind_ofCell, hid]
  obtain ⟨id, content⟩ := d
  cases content with
  | script s | markdown s => simp [Content.kindName, ofCell, contentText]
  | formula s output =>
    have hread := hname output rfl
    rw [ofCell] at hread
    simp [Content.kindName, ofCell, hread]
  | input s output =>
    have hread := hname output rfl
    rw [ofCell] at hread
    simp [Content.kindName, ofCell, contentText, hread]

/-- Exactly the cells that the format can express are read back from their records. -/
lemma toDefinition_ofCell_iff : (ofCell d).toDefinition index = .ok d ↔ Expressible d := by
  have hname : ∀ name, d.content.output? = some name → (ofCell d).variableName = some name := by
    obtain ⟨id, content⟩ := d
    cases content with
    | script | markdown => nofun
    | formula | input => exact fun _ h => h
  constructor
  · intro h
    obtain ⟨hid, hread⟩ := of_toDefinition h
    exact ⟨Text.allBlank_eq_false.mp (cellId_ofCell_eq.mp hid.symm),
      fun name heq => trimmed_of_variableName? (hread name heq)⟩
  · rintro ⟨hid, htrimmed⟩
    refine toDefinition_ofCell (cellId_ofCell_eq.mpr (Text.allBlank_eq_false.mpr hid)) fun name heq => ?_
    obtain ⟨hne, hends⟩ := htrimmed name heq
    rw [variableName?_eq_some, hname name heq, Option.map_some, Text.trim_eq_self.mpr hends]
    exact ⟨rfl, hne⟩

lemma expressible_of_toDefinition (h : r.toDefinition index = .ok d) : Expressible d := by
  obtain ⟨hid, hread⟩ := of_toDefinition h
  refine ⟨?_, fun name heq => trimmed_of_variableName? (hread name heq)⟩
  rw [hid]
  exact Text.allBlank_eq_false.mp (allBlank_cellId r index)

end Record

variable {ds : List Definition} {index : ℕ}

lemma definitionsFrom_cons_eq_ok {r : Record} {rs : List Record} {d : Definition} :
    definitionsFrom index (r :: rs) = .ok (d :: ds) ↔
      r.toDefinition index = .ok d ∧ definitionsFrom (index + 1) rs = .ok ds := by
  rw [definitionsFrom]
  cases r.toDefinition index with
  | error => simp [bind, Except.bind]
  | ok d' => cases definitionsFrom (index + 1) rs <;> simp [bind, Except.bind, pure, Except.pure]

lemma definitionsFrom_ofCell_iff :
    definitionsFrom index (ds.map Record.ofCell) = .ok ds ↔ ∀ d ∈ ds, Expressible d := by
  induction ds generalizing index with
  | nil => simp [definitionsFrom]
  | cons d ds ih =>
    rw [List.map_cons, definitionsFrom_cons_eq_ok, Record.toDefinition_ofCell_iff, ih, List.forall_mem_cons]

lemma expressible_of_definitionsFrom {rs : List Record} (h : definitionsFrom index rs = .ok ds) :
    ∀ d ∈ ds, Expressible d := by
  induction rs generalizing ds index with
  | nil =>
    cases h
    nofun
  | cons r rs ih =>
    cases ds with
    | nil => nofun
    | cons d ds =>
      obtain ⟨hfirst, hrest⟩ := definitionsFrom_cons_eq_ok.mp h
      exact List.forall_mem_cons.mpr ⟨Record.expressible_of_toDefinition hfirst, ih hrest⟩

def toJson (cells : List Definition) : Json :=
  .obj [("cells", .arr (cells.map fun d => .obj (Record.ofDefinition d)))]

lemma plain_toJson (ds : List Definition) : Json.Plain Json.deepest (toJson ds) := by
  refine Json.Plain.obj fun f hf => ?_
  obtain rfl := List.mem_singleton.mp hf
  refine Json.Plain.arr fun v hv => ?_
  obtain ⟨d, -, rfl⟩ := List.mem_map.mp hv
  exact Json.Plain.obj fun f hf => Record.plain_of_mem hf

lemma records?_toJson (ds : List Definition) : records? (toJson ds) = some (ds.map Record.ofCell) := by
  change (ds.map fun d => Json.obj (Record.ofDefinition d)).mapM Record.ofJson? = _
  have hrecord : (Record.ofJson? ∘ fun d => Json.obj (Record.ofDefinition d)) = fun d => pure (Record.ofCell d) :=
    funext Record.ofJson?_ofDefinition
  rw [List.mapM_map, hrecord, List.mapM_pure]
  rfl

lemma read_write (ds : List Definition) : read (write ds) = definitionsFrom 0 (ds.map Record.ofCell) := by
  have hread : Json.read? (write ds).toList = some (toJson ds, ['\n']) := by
    rw [write, String.toList_append]
    exact (plain_toJson ds).read?_indented ['\n']
  rw [read, hread]
  simp [records?_toJson, Json.skipSpace, List.dropWhile, Json.isSpace]

/-- Every text that is a notebook yields cells that the format can express. -/
lemma expressible_of_read {text : String} (h : read text = .ok ds) : ∀ d ∈ ds, Expressible d := by
  unfold read at h
  split at h
  · cases h
  · split at h
    · cases h
    · split at h
      · exact expressible_of_definitionsFrom h
      · cases h

/-- What is written for cells is read back as the same cells exactly if the format can express each of them, and
whatever has been read can be expressed. -/
theorem written_notebook_read_back_iff (ds : List Definition) :
    (read (write ds) = .ok ds ↔ ∀ d ∈ ds, Expressible d) ∧
      ∀ text, read text = .ok ds → read (write ds) = .ok ds := by
  have hiff : read (write ds) = .ok ds ↔ ∀ d ∈ ds, Expressible d := by
    rw [read_write, definitionsFrom_ofCell_iff]
  exact ⟨hiff, fun _ h => hiff.mpr (expressible_of_read h)⟩

end Notebook
end ReactiveNotebook
