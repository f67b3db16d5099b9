import Mathlib.Data.List.Duplicate
import Mathlib.Tactic
import ReactiveNotebook.Notebook.Document
import ReactiveNotebook.Proofs.Engine.Edit
import ReactiveNotebook.Proofs.Notebook.RoundTrip

/-!
# Generated ids

A record without an id is given one that is made of its position. Two such ids never coincide, but nothing keeps the
author of another record from having chosen the same id. Loading succeeds unless that has happened, and then every id
that was chosen is kept.
-/
namespace ReactiveNotebook

namespace Notebook

/-- The id of the record at `index` if it states none. -/
def generatedId (index : ℕ) : CellId := s!"cell-{index + 1}"

lemma generatedId_injective : Function.Injective generatedId := by
  intro i j h
  have hdigits : Nat.toDigits 10 (i + 1) = Nat.toDigits 10 (j + 1) := by
    refine String.ofList_injective ?_
    simpa [generatedId, toString, Nat.repr_eq_ofList_toDigits] using h
  have hread := congrArg (Nat.ofDigitChars 10 · 0) hdigits
  simpa [Nat.ofDigitChars_toDigits] using hread

namespace Record

variable {r : Record} {index : ℕ}

def statedId? (r : Record) : Option CellId := r.id.filter fun id => !Text.allBlank id

lemma cellId_eq (r : Record) (index : ℕ) : r.cellId index = r.statedId?.getD (generatedId index) := by
  unfold cellId statedId?
  cases r.id with
  | none => rfl
  | some id => cases hid : Text.allBlank id <;> simp [hid, generatedId, Option.filter]

/-- The kind of a record, as it is compared with the known ones. -/
def kindName (r : Record) : String := String.ofList ((Text.trimList r.kind.toList).map Char.toLower)

/-- A record of a known kind that declares a variable where its kind asks for one. -/
def Sound (r : Record) : Prop :=
  r.kindName ∈ ["script", "code", "markdown", "md"] ∨
    r.kindName ∈ ["formula", "input"] ∧
      ∃ name, r.variableName? = some name ∧ Analysis.isVariableName name = true

lemma toDefinition_of_sound (h : r.Sound) (index : ℕ) :
    ∃ d, r.toDefinition index = .ok d ∧
      ∀ name, d.content.output? = some name → Analysis.isVariableName name = true := by
  rcases h with hkind | ⟨hkind, name, hname, hvalid⟩
  · simp only [List.mem_cons, List.not_mem_nil, or_false] at hkind
    rcases hkind with hkind | hkind | hkind | hkind <;>
      simp [toDefinition, ← kindName.eq_def, hkind, Content.output?]
  · simp only [List.mem_cons, List.not_mem_nil, or_false] at hkind
    rcases hkind with hkind | hkind <;>
      simp [toDefinition, ← kindName.eq_def, hkind, hname, hvalid, Content.output?]

/-- The engine has nothing against the cell of a sound record but perhaps its id. -/
lemma cell_of_sound (h : r.Sound) (index : ℕ) :
    ∃ d, r.toDefinition index = .ok d ∧ d.id = r.cellId index ∧ d.check = .ok () := by
  obtain ⟨d, hd, hvalid⟩ := toDefinition_of_sound h index
  obtain ⟨hid, hread⟩ := of_toDefinition hd
  refine ⟨d, hd, hid, ?_⟩
  unfold Definition.check
  cases hout : d.content.output? with
  | none => rfl
  | some name =>
    have hne : name ≠ "" := (variableName?_eq_some.mp (hread name hout)).2
    simp [hne, hvalid name hout]

end Record

variable {rs : List Record} {id : CellId}

def cellIds (rs : List Record) : List CellId := rs.mapIdx fun index r => r.cellId index

/-- A record states the id that is generated for another one. -/
def Clashes (rs : List Record) (id : CellId) : Prop :=
  id ∈ rs.filterMap Record.statedId? ∧ ∃ index r, rs[index]? = some r ∧ r.statedId? = none ∧ id = generatedId index

lemma getElem?_cellIds {index : ℕ} {r : Record} (hr : rs[index]? = some r) :
    (cellIds rs)[index]? = some (r.cellId index) := by
  simp [cellIds, hr]

lemma not_nodup_of_clashes (h : Clashes rs id) : ¬ (cellIds rs).Nodup := by
  obtain ⟨hstated, i, r, hr, hnone, rfl⟩ := h
  obtain ⟨r', hmem, hr'⟩ := List.mem_filterMap.mp hstated
  obtain ⟨j, hj⟩ := List.mem_iff_getElem?.mp hmem
  intro hnodup
  have heq : (cellIds rs)[i]? = (cellIds rs)[j]? := by
    rw [getElem?_cellIds hr, getElem?_cellIds hj, Record.cellId_eq, Record.cellId_eq, hnone, hr']
    rfl
  have hlt : i < (cellIds rs).length := by
    simpa [cellIds] using (List.getElem?_eq_some_iff.mp hr).1
  obtain rfl : i = j := (List.getElem?_inj hlt hnodup).mp heq
  rw [hr] at hj
  cases hj
  rw [hnone] at hr'
  cases hr'

/-- Neither two stated ids nor two generated ones coincide. -/
lemma clashes_of_eq (hdistinct : (rs.filterMap Record.statedId?).Nodup) {i j : ℕ} {r r' : Record}
    (hr : rs[i]? = some r) (hr' : rs[j]? = some r') (hij : i ≠ j) (heq : r.cellId i = r'.cellId j) :
    Clashes rs (r.cellId i) := by
  have hstated : ∀ {k : ℕ} {r : Record} {id : CellId}, rs[k]? = some r → r.statedId? = some id →
      id ∈ rs.filterMap Record.statedId? :=
    fun hk hid => List.mem_filterMap.mpr ⟨_, List.mem_of_getElem? hk, hid⟩
  rw [Record.cellId_eq, Record.cellId_eq] at heq
  rw [Record.cellId_eq]
  cases hid : r.statedId? with
  | none =>
    cases hid' : r'.statedId? with
    | none =>
      rw [hid, hid'] at heq
      exact absurd (generatedId_injective heq) hij
    | some id =>
      rw [hid, hid'] at heq
      exact ⟨by rw [heq]; exact hstated hr' hid', i, r, hr, hid, rfl⟩
  | some id =>
    cases hid' : r'.statedId? with
    | none =>
      rw [hid, hid'] at heq
      exact ⟨hstated hr hid, j, r', hr', hid', heq⟩
    | some id' =>
      rw [hid, hid'] at heq
      obtain rfl : id = id' := heq
      obtain ⟨hi, rfl⟩ := List.getElem?_eq_some_iff.mp hr
      obtain ⟨hj, rfl⟩ := List.getElem?_eq_some_iff.mp hr'
      have hpair := List.pairwise_iff_getElem.mp (List.pairwise_filterMap.mp hdistinct)
      rcases Nat.lt_or_gt_of_ne hij with hlt | hlt
      · exact absurd rfl (hpair i j hi hj hlt id hid id hid')
      · exact absurd rfl (hpair j i hj hi hlt id hid' id hid)

lemma clashes_of_duplicate (hdistinct : (rs.filterMap Record.statedId?).Nodup)
    (h : List.Duplicate id (cellIds rs)) : Clashes rs id := by
  obtain ⟨i, j, hlt, hi, hj⟩ := List.duplicate_iff_exists_distinct_get.mp h
  have hlt_length : ∀ k : Fin (cellIds rs).length, k.val < rs.length := fun k => by
    simpa [cellIds] using k.isLt
  have hr := List.getElem?_eq_getElem (hlt_length i)
  have hr' := List.getElem?_eq_getElem (hlt_length j)
  have hget : ∀ k : Fin (cellIds rs).length,
      (cellIds rs).get k = (rs.get ⟨k, hlt_length k⟩).cellId k := fun k => List.getElem_mapIdx ..
  rw [hget] at hi hj
  rw [hi]
  exact clashes_of_eq hdistinct hr hr' (Fin.val_ne_of_ne hlt.ne) (hi.symm.trans hj)

/-- Sound records describe cells with these ids, which the engine has nothing else against. -/
lemma definitionsFrom_of_sound (hsound : ∀ r ∈ rs, r.Sound) (start : ℕ) :
    ∃ ds, definitionsFrom start rs = .ok ds ∧ (∀ d ∈ ds, d.check = .ok ()) ∧
      ds.map (·.id) = rs.mapIdx fun index r => r.cellId (start + index) := by
  induction rs generalizing start with
  | nil => exact ⟨[], rfl, nofun, rfl⟩
  | cons r rs ih =>
    obtain ⟨hfirst, hrest⟩ := List.forall_mem_cons.mp hsound
    obtain ⟨d, hd, hid, hcheck⟩ := Record.cell_of_sound hfirst start
    obtain ⟨ds, hds, hchecks, hids⟩ := ih hrest (start + 1)
    refine ⟨d :: ds, definitionsFrom_cons_eq_ok.mpr ⟨hd, hds⟩, List.forall_mem_cons.mpr ⟨hcheck, hchecks⟩, ?_⟩
    rw [List.map_cons, hids, hid, List.mapIdx_cons]
    simp only [Nat.add_zero, Nat.add_assoc, Nat.add_comm 1]

def recordsOf? (text : String) : Option (List Record) :=
  match Json.read? text.toList with
  | none => none
  | some (json, rest) => if (Json.skipSpace rest).isEmpty then records? json else none

lemma read_of_recordsOf? {text : String} (h : recordsOf? text = some rs) : read text = definitionsFrom 0 rs := by
  unfold recordsOf? at h
  unfold read
  cases hjson : Json.read? text.toList with
  | none => simp [hjson] at h
  | some found =>
    obtain ⟨json, rest⟩ := found
    cases hend : (Json.skipSpace rest).isEmpty with
    | false => simp [hjson, hend] at h
    | true =>
      have hrecords : records? json = some rs := by simpa [hjson, hend] using h
      simp [hrecords, hend]

end Notebook

namespace Document

variable {e : Engine} {d : Definition} {ds : List Definition}

lemma pushCell_of_fresh (hcheck : d.check = .ok ()) (hid : d.id ∉ e.cells.map (·.id)) :
    ∃ e', e.pushCell d = .ok e' ∧ e'.cells = e.cells ++ [.ofDefinition d] := by
  have hnew : ¬ e.hasCell d.id = true := mt Engine.hasCell_iff.mp hid
  have hpush : e.pushCell d = .ok (Engine.rebuild
      { (e.seed d.id) with cells := e.cells.insertIdx e.cells.length (.ofDefinition d) }) := by
    simp [Engine.pushCell, Engine.addCell, hnew, hcheck, bind, Except.bind, pure, Except.pure]
  exact ⟨_, hpush, List.insertIdx_length_self⟩

lemma pushCell_of_taken (hid : d.id ∈ e.cells.map (·.id)) : e.pushCell d = .error (.duplicateCell d.id) := by
  have htaken : e.hasCell d.id = true := Engine.hasCell_iff.mpr hid
  simp [Engine.pushCell, Engine.addCell, htaken, bind, Except.bind, throw, throwThe, MonadExceptOf.throw]

lemma pushAll_cons (e : Engine) (d : Definition) (ds : List Definition) :
    pushAll e (d :: ds) = e.pushCell d >>= (pushAll · ds) := rfl

lemma pushAll_of_nodup (hcheck : ∀ d ∈ ds, d.check = .ok ())
    (hnodup : (e.cells.map (·.id) ++ ds.map (·.id)).Nodup) :
    ∃ e', pushAll e ds = .ok e' ∧ e'.cells.map Cell.definition = e.cells.map Cell.definition ++ ds := by
  induction ds generalizing e with
  | nil => exact ⟨e, rfl, (List.append_nil _).symm⟩
  | cons d ds ih =>
    obtain ⟨hfirst, hrest⟩ := List.forall_mem_cons.mp hcheck
    have hid : d.id ∉ e.cells.map (·.id) := fun hmem =>
      (List.nodup_append.mp hnodup).2.2 d.id hmem d.id List.mem_cons_self rfl
    obtain ⟨e₁, hpush, hcells⟩ := pushCell_of_fresh hfirst hid
    have hids : e₁.cells.map (·.id) ++ ds.map (·.id) = e.cells.map (·.id) ++ (d :: ds).map (·.id) := by
      simp [hcells, Cell.ofDefinition]
    obtain ⟨e', hpushAll, hdefs⟩ := ih hrest (hids ▸ hnodup)
    refine ⟨e', by rw [pushAll_cons, hpush]; exact hpushAll, ?_⟩
    rw [hdefs, hcells]
    simp [Cell.ofDefinition, Cell.definition]

lemma pushAll_of_not_nodup (hcheck : ∀ d ∈ ds, d.check = .ok ()) (he : (e.cells.map (·.id)).Nodup)
    (hnodup : ¬ (e.cells.map (·.id) ++ ds.map (·.id)).Nodup) :
    ∃ id, List.Duplicate id (e.cells.map (·.id) ++ ds.map (·.id)) ∧ pushAll e ds = .error (.duplicateCell id) := by
  induction ds generalizing e with
  | nil => exact absurd (by simpa using he) hnodup
  | cons d ds ih =>
    obtain ⟨hfirst, hrest⟩ := List.forall_mem_cons.mp hcheck
    by_cases hid : d.id ∈ e.cells.map (·.id)
    · refine ⟨d.id, ?_, by rw [pushAll_cons, pushCell_of_taken hid]; rfl⟩
      rw [List.duplicate_iff_two_le_count, List.count_append, List.map_cons, List.count_cons_self]
      have hpos := List.count_pos_iff.mpr hid
      omega
    · obtain ⟨e₁, hpush, hcells⟩ := pushCell_of_fresh hfirst hid
      have hids : e₁.cells.map (·.id) ++ ds.map (·.id) = e.cells.map (·.id) ++ (d :: ds).map (·.id) := by
        simp [hcells, Cell.ofDefinition]
      have he₁ : (e₁.cells.map (·.id)).Nodup := by
        rw [hcells, List.map_append]
        refine List.nodup_append.mpr ⟨he, List.nodup_singleton _, fun x hx y hy hxy => hid ?_⟩
        obtain rfl : y = d.id := List.mem_singleton.mp hy
        exact hxy ▸ hx
      obtain ⟨id, hdup, herr⟩ := ih hrest he₁ (hids ▸ hnodup)
      exact ⟨id, hids ▸ hdup, by rw [pushAll_cons, hpush]; exact herr⟩

open Notebook

variable {rs : List Record} {path text : String} {file : Except FileError ByteArray}

lemma bind_decodeText_toUTF8 (text : String) :
    (Except.ok text.toUTF8 : Except FileError ByteArray).bind decodeText = .ok text := by
  have hvalid : text.toUTF8.IsValidUTF8 := text.isValidUTF8
  simp only [Except.bind, decodeText, String.fromUTF8?, hvalid, dif_pos]
  rfl

/-- What loading comes to for sound records: their cells are appended to an empty notebook. -/
lemma load_eq (d : Document) (path : String) (hfile : file.bind decodeText = .ok text)
    (hrecords : recordsOf? text = some rs) (hsound : ∀ r ∈ rs, r.Sound) :
    ∃ ds : List Definition, ds.map (·.id) = cellIds rs ∧ (∀ d ∈ ds, d.check = .ok ()) ∧
      d.load path file =
        match pushAll (.new d.engine.config false) ds with
        | .error cause => .error (.edit cause)
        | .ok engine => .ok ⟨engine, some path, false⟩ := by
  obtain ⟨ds, hread, hcheck, hids⟩ := definitionsFrom_of_sound hsound 0
  refine ⟨ds, by simpa [cellIds] using hids, hcheck, ?_⟩
  cases hpush : pushAll (.new d.engine.config false) ds <;>
    simp [load, hfile, read_of_recordsOf? hrecords, hread, hpush]

lemma load_of_free (d : Document) (path : String) (hfile : file.bind decodeText = .ok text)
    (hrecords : recordsOf? text = some rs) (hsound : ∀ r ∈ rs, r.Sound)
    (hdistinct : (rs.filterMap Record.statedId?).Nodup) (hfree : ∀ id, ¬ Clashes rs id) :
    ∃ d', d.load path file = .ok d' ∧ d'.definitions.map (·.id) = cellIds rs ∧ (cellIds rs).Nodup := by
  obtain ⟨ds, hids, hcheck, hload⟩ := load_eq d path hfile hrecords hsound
  have hnodup : (cellIds rs).Nodup := by
    by_contra hnot
    obtain ⟨id, hdup⟩ := List.exists_duplicate_iff_not_nodup.mpr hnot
    exact hfree id (clashes_of_duplicate hdistinct hdup)
  obtain ⟨e, hpush, hdefs⟩ := pushAll_of_nodup (e := .new d.engine.config false) hcheck (hids ▸ hnodup)
  refine ⟨⟨e, some path, false⟩, by rw [hload, hpush], ?_, hnodup⟩
  rw [← hids]
  exact congrArg (List.map (·.id)) hdefs

lemma load_of_clash (d : Document) (path : String) (hfile : file.bind decodeText = .ok text)
    (hrecords : recordsOf? text = some rs) (hsound : ∀ r ∈ rs, r.Sound)
    (hdistinct : (rs.filterMap Record.statedId?).Nodup) (hclash : ∃ id, Clashes rs id) :
    ∃ id, Clashes rs id ∧ d.load path file = .error (.edit (.duplicateCell id)) := by
  obtain ⟨ds, hids, hcheck, hload⟩ := load_eq d path hfile hrecords hsound
  obtain ⟨_, hclash⟩ := hclash
  obtain ⟨id, hdup, herr⟩ := pushAll_of_not_nodup (e := .new d.engine.config false) hcheck List.nodup_nil
    (hids ▸ not_nodup_of_clashes hclash)
  exact ⟨id, clashes_of_duplicate hdistinct (hids ▸ hdup), by rw [hload, herr]⟩

/-- A notebook whose records are sound and state distinct ids is loaded unless one of them states the id that is
generated for another one. It then has the ids that its records state, each at its place, and generated ones at the
other places, all distinct. Otherwise loading fails with a coinciding id. -/
theorem load_of_sound_records (d : Document) (path : String) (hfile : file.bind decodeText = .ok text)
    (hrecords : recordsOf? text = some rs) (hsound : ∀ r ∈ rs, r.Sound)
    (hdistinct : (rs.filterMap Record.statedId?).Nodup) :
    ((∀ id, ¬ Clashes rs id) →
      ∃ d', d.load path file = .ok d' ∧ d'.definitions.length = rs.length ∧ (d'.definitions.map (·.id)).Nodup ∧
        ∀ (index : ℕ) (r : Record), rs[index]? = some r →
          (d'.definitions.map (·.id))[index]? = some (r.statedId?.getD (generatedId index))) ∧
      ((∃ id, Clashes rs id) →
        ∃ id, Clashes rs id ∧ d.load path file = .error (.edit (.duplicateCell id))) := by
  refine ⟨fun hfree => ?_, load_of_clash d path hfile hrecords hsound hdistinct⟩
  obtain ⟨d', hload, hids, hnodup⟩ := load_of_free d path hfile hrecords hsound hdistinct hfree
  refine ⟨d', hload, ?_, hids ▸ hnodup, fun index r hr => ?_⟩
  · simpa [cellIds] using congrArg List.length hids
  · rw [hids, getElem?_cellIds hr, Record.cellId_eq]

/-- A record of a markdown cell, perhaps without an id. -/
def note (id : Option String) (content : String) : Record := ⟨"markdown", id, none, some (.str content), none⟩

def noteJson (n : Option String × String) : Json :=
  .obj (("type", .str "markdown") :: (n.1.map fun id => ("id", .str id)).toList ++ [("content", .str n.2)])

/-- The text of a notebook of such records. -/
def notesText (notes : List (Option String × String)) : String :=
  Json.indented 0 (.arr (notes.map noteJson)) ++ "\n"

lemma ofJson?_noteJson (n : Option String × String) : Record.ofJson? (noteJson n) = some (note n.1 n.2) := by
  obtain ⟨id | id, content⟩ := n <;> rfl

lemma recordsOf?_notesText (notes : List (Option String × String)) :
    recordsOf? (notesText notes) = some (notes.map fun n => note n.1 n.2) := by
  have hplain : Json.Plain Json.deepest (.arr (notes.map noteJson)) := by
    refine .arr fun v hv => ?_
    obtain ⟨⟨id, content⟩, -, rfl⟩ := List.mem_map.mp hv
    refine .obj fun f hf => ?_
    have hstr : ∃ s, f.2 = .str s := by
      cases id <;> simp at hf <;> rcases hf with rfl | rfl | rfl <;> exact ⟨_, rfl⟩
    obtain ⟨s, hs⟩ := hstr
    exact hs ▸ .str s
  have hrecords : records? (.arr (notes.map noteJson)) = some (notes.map fun n => note n.1 n.2) := by
    have hnote : Record.ofJson? ∘ noteJson = fun n => pure (note n.1 n.2) := funext ofJson?_noteJson
    rw [records?, List.mapM_map, hnote, List.mapM_pure]
    rfl
  rw [recordsOf?, notesText, String.toList_append, hplain.read?_indented "\n".toList]
  simp [hrecords, Json.skipSpace, List.dropWhile, Json.isSpace]

lemma sound_note (id : Option String) (content : String) : (note id content).Sound := by
  have hkind : (note id content).kindName = "markdown" := by
    change String.ofList ((Text.trimList "markdown".toList).map Char.toLower) = "markdown"
    decide +kernel
  exact .inl (by simp [hkind])

/-- A record may well state the id that would be generated for itself. -/
theorem note_states_own_generated_id :
    ∃ d', (Document.new .standard).load "n.json" (.ok (notesText [(some "cell-1", "a"), (none, "b")]).toUTF8) = .ok d' ∧
      d'.definitions.length = 2 ∧ (d'.definitions.map (·.id))[0]? = some "cell-1" ∧
      (d'.definitions.map (·.id))[1]? = some "cell-2" := by
  have hfree : ∀ id, ¬ Clashes [note (some "cell-1") "a", note none "b"] id := by
    rintro id ⟨hstated, index, r, hr, hnone, rfl⟩
    rcases index with _ | _ | index
    · cases hr
      cases hnone
    · revert hstated
      decide +kernel
    · cases hr
  obtain ⟨d', hload, hlength, -, hids⟩ :=
    (load_of_sound_records (.new .standard) "n.json" (bind_decodeText_toUTF8 _)
      (recordsOf?_notesText [(some "cell-1", "a"), (none, "b")]) (by simp [sound_note]) (by decide +kernel)).1 hfree
  exact ⟨d', hload, hlength, hids 0 _ rfl, hids 1 _ rfl⟩

/-- A record may state the id that is generated for a later one. -/
theorem generated_id_stated_by_earlier_record :
    (∃ rs, recordsOf? (notesText [(some "cell-2", "a"), (none, "b")]) = some rs ∧ (∀ r ∈ rs, r.Sound) ∧
        (rs.filterMap Record.statedId?).Nodup) ∧
      (Document.new .standard).load "n.json" (.ok (notesText [(some "cell-2", "a"), (none, "b")]).toUTF8) =
        .error (.edit (.duplicateCell "cell-2")) := by
  have hrecords := recordsOf?_notesText [(some "cell-2", "a"), (none, "b")]
  have hsound : ∀ r ∈ [note (some "cell-2") "a", note none "b"], r.Sound := by simp [sound_note]
  have hdistinct : ([note (some "cell-2") "a", note none "b"].filterMap Record.statedId?).Nodup := by decide +kernel
  refine ⟨⟨_, hrecords, hsound, hdistinct⟩, ?_⟩
  obtain ⟨id, ⟨hstated, -⟩, herr⟩ := load_of_clash (.new .standard) "n.json" (bind_decodeText_toUTF8 _) hrecords hsound
    hdistinct ⟨"cell-2", by decide +kernel, 1, note none "b", rfl, rfl, by decide +kernel⟩
  obtain rfl : id = "cell-2" := by
    have hlist : [note (some "cell-2") "a", note none "b"].filterMap Record.statedId? = ["cell-2"] := by decide +kernel
    exact List.mem_singleton.mp (hlist ▸ hstated)
  exact herr

end Document

end ReactiveNotebook
