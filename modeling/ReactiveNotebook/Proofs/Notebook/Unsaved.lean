import Mathlib.Tactic
import ReactiveNotebook.Proofs.Notebook.InPlace
import ReactiveNotebook.Proofs.Scheduling.Overflow

/-!
# Unsaved changes

A document is marked as modified by every edit, until it is loaded or saved. One operation changes cells without the
mark: a variable is overridden by rewriting the input cell that declares it. So the cells of an unmarked document are
those that were loaded or saved last, with the overrides made since.
-/
namespace ReactiveNotebook

open Relation (ReflTransGen)

namespace Content

/-- An input that declares a variable. -/
def isInputOf (name : String) : Content → Bool
  | .input _ output => output == name
  | _ => false

lemma withText_text (c : Content) : c.withText c.text = c := by
  cases c <;> rfl

end Content

namespace Definition

/-- Cells with another text in the first input that declares a variable. -/
def overridden (name text : String) : List Definition → List Definition
  | [] => []
  | d :: ds =>
    if d.content.isInputOf name then { d with content := d.content.withText text } :: ds
    else d :: overridden name text ds

variable {name text : String} {cells : List Cell} {c : Cell}

lemma overridden_of_none {ds : List Definition} (h : ∀ d ∈ ds, d.content.isInputOf name = false) :
    overridden name text ds = ds := by
  induction ds with
  | nil => rfl
  | cons d ds ih =>
    rw [List.forall_mem_cons] at h
    rw [overridden, h.1, ih h.2]
    rfl

def retext (id : CellId) (text : String) (c : Cell) : Definition :=
  if c.id == id then ⟨c.id, c.content.withText text⟩ else c.definition

lemma overridden_of_find? (hn : (cells.map (·.id)).Nodup)
    (h : cells.find? (·.content.isInputOf name) = some c) :
    overridden name text (cells.map Cell.definition) = cells.map (retext c.id text) := by
  induction cells with
  | nil => cases h
  | cons d ds ih =>
    rw [List.map_cons, List.nodup_cons] at hn
    rw [List.map_cons, List.map_cons, overridden]
    cases hd : d.content.isInputOf name with
    | true =>
      simp only [List.find?_cons, hd] at h
      obtain rfl := Option.some.inj h
      have htail : ds.map (retext d.id text) = ds.map Cell.definition := by
        refine List.map_congr_left fun x hx => if_neg ?_
        rw [beq_iff_eq]
        exact fun hid => hn.1 (hid ▸ List.mem_map_of_mem hx)
      have hdef : d.definition.content.isInputOf name = true := hd
      rw [if_pos hdef, htail, retext, if_pos (beq_self_eq_true d.id)]
      rfl
    | false =>
      simp only [List.find?_cons, hd] at h
      have hne : (d.id == c.id) = false := by
        rw [beq_eq_false_iff_ne]
        exact fun hid => hn.1 (hid ▸ List.mem_map_of_mem (List.mem_of_find?_eq_some h))
      have hdef : ¬ d.definition.content.isInputOf name = true := by
        change ¬ d.content.isInputOf name = true
        simp [hd]
      rw [if_neg hdef, ih hn.2 h, retext, hne]
      rfl

end Definition

namespace Document

variable {d d' : Document} {name text : String}

lemma inputOf?_eq (d : Document) (name : String) :
    d.inputOf? name = d.engine.cells.find? (·.content.isInputOf name) := rfl

/-- Only the cell of that id has another text. -/
lemma definitions_setContent {e e' : Engine} {c : Cell} (ht : e.Tidy) (hc : c ∈ e.cells)
    (h : e.setContent c.id text = .ok e') :
    e'.cells.map Cell.definition = e.cells.map (Definition.retext c.id text) := by
  obtain ⟨c', hcell, hcase⟩ := Engine.setContent_ok h
  obtain rfl : c = c' := Option.some.inj (((Engine.cell?_eq_some_iff ht.ids).mpr ⟨hc, rfl⟩).symm.trans hcell)
  rcases hcase with ⟨hsame, rfl⟩ | ⟨-, rfl⟩
  · -- the same text again leaves the cell as it is, and the ids tell the cells apart
    refine List.map_congr_left fun x hx => ?_
    rw [Definition.retext]
    split_ifs with hid
    · obtain rfl : x = c := List.inj_on_of_nodup_map ht.ids hx hc (eq_of_beq hid)
      rw [← hsame, Content.withText_text]
      rfl
    · rfl
  · change (e.cells.map _).map Cell.definition = _
    rw [List.map_map]
    refine List.map_congr_left fun x _ => ?_
    rw [Function.comp_apply, Definition.retext]
    split_ifs <;> rfl

lemma definitions_overrideVariable (ht : d.engine.Tidy) (h : d.overrideVariable name text = .ok d') :
    d'.definitions = Definition.overridden name text d.definitions ∧ d'.modified = d.modified ∧ d'.engine.Tidy := by
  unfold overrideVariable at h
  cases hc : d.inputOf? name with
  | none =>
    rw [hc] at h
    cases h
    refine ⟨(Definition.overridden_of_none ?_).symm, rfl, (Engine.Host.setImmediate ..).tidy ht⟩
    intro x hx
    obtain ⟨c, hcell, rfl⟩ := List.mem_map.mp hx
    rw [inputOf?_eq, List.find?_eq_none] at hc
    exact Bool.eq_false_of_not_eq_true (hc c hcell)
  | some c =>
    rw [hc] at h
    cases hset : d.engine.setContent c.id text with
    | error cause =>
      simp only [hset] at h
      cases h
    | ok e =>
      simp only [hset] at h
      cases h
      refine ⟨?_, rfl, (Engine.Edit.content hset).tidy ht⟩
      rw [inputOf?_eq] at hc
      rw [definitions, definitions, Definition.overridden_of_find? ht.ids hc]
      exact definitions_setContent ht (List.mem_of_find?_eq_some hc) hset

lemma of_bind_ok {ε α β : Type} {r : Except ε α} {f : α → Except ε β} {b : β} (h : (r >>= f) = .ok b) :
    ∃ a, r = .ok a ∧ f a = .ok b := by
  cases r with
  | error => cases h
  | ok a => exact ⟨a, rfl, h⟩

lemma pushAll_tidy {cells : List Definition} {e e' : Engine} (ht : e.Tidy) (h : pushAll e cells = .ok e') :
    e'.Tidy := by
  induction cells generalizing e with
  | nil =>
    cases h
    exact ht
  | cons c cs ih =>
    obtain ⟨e₁, hc, hcs⟩ := of_bind_ok h
    exact ih ((Engine.Edit.add hc).tidy ht) hcs

lemma load_ok {path : String} {file : Except FileError ByteArray} (h : d.load path file = .ok d') :
    d'.engine.Tidy := by
  unfold load at h
  split at h
  · cases h
  · split at h
    · cases h
    · split at h
      · cases h
      · next hpush =>
        cases h
        exact pushAll_tidy (Engine.new_tidy ..) hpush

lemma edited_ok {r : Except EditError Engine} (h : d.edited r = .ok d') :
    ∃ e, r = .ok e ∧ d' = { d with engine := e, modified := true } := by
  cases r with
  | error => cases h
  | ok e =>
    cases h
    exact ⟨e, rfl, rfl⟩

lemma removeCell_ok {id : CellId} {c : Definition} (h : d.removeCell id = .ok (d', c)) :
    ∃ e, d.engine.removeCell id = .ok (e, c) ∧ d' = { d with engine := e, modified := true } := by
  unfold removeCell at h
  cases hr : d.engine.removeCell id with
  | error cause =>
    rw [hr] at h
    cases h
  | ok p =>
    rw [hr] at h
    cases h
    exact ⟨p.1, rfl, rfl⟩

lemma save_tidy (ht : d.engine.Tidy) (write : String → String → Except FileError Unit) :
    (d.save write).1.engine.Tidy := by
  unfold save
  split
  · exact ht
  · split <;> exact ht

/-- Evaluates what waits, within a number of steps. -/
def updateWithin (l : Language) (fuel : ℕ) (d : Document) : Except Engine.Stop Document :=
  (d.engine.arriveAll.drive l fuel []).map fun p => { d with engine := p.1 }

/-- Evaluates everything, within a number of steps. -/
def runWithin (l : Language) (fuel : ℕ) (d : Document) : Except Engine.Stop Document :=
  updateWithin l fuel { d with engine := d.engine.seedAll (d.engine.cells.map (·.id)) }

lemma update_eq (l : Language) (d : Document) : (d.update l).map (·.1) = d.updateWithin l Engine.runFuel := by
  rw [update, updateWithin, Engine.runUntilIdle]
  cases d.engine.arriveAll.drive l Engine.runFuel [] <;> rfl

lemma run_eq (l : Language) (d : Document) : (d.run l).map (·.1) = d.runWithin l Engine.runFuel := by
  rw [run, runWithin, updateWithin, Engine.runAll, Engine.runUntilIdle]
  cases (d.engine.seedAll (d.engine.cells.map (·.id))).arriveAll.drive l Engine.runFuel [] <;> rfl

/-- Evaluating changes no definition. -/
lemma updateWithin_ok {l : Language} {fuel : ℕ} (ht : d.engine.Tidy) (h : d.updateWithin l fuel = .ok d') :
    d'.definitions = d.definitions ∧ d'.modified = d.modified ∧ d'.engine.Tidy := by
  obtain ⟨p, hdrive, rfl⟩ := of_map_ok h
  have harrive : d.engine.arriveAll.Tidy := (Engine.Host.work _).tidy ht
  obtain ⟨u, phase, hu, -, hp⟩ := Engine.proceeds_drive harrive hdrive
  -- evaluating keeps the revision of each cell, which its definition is a part of
  have hrevisions := congrArg (List.map fun r => Definition.mk r.1 r.2.1) (Engine.revisions_of_proceeds hu)
  rw [List.map_map, List.map_map] at hrevisions
  refine ⟨?_, rfl, ?_⟩
  · change p.1.cells.map Cell.definition = _
    rw [hp]
    exact hrevisions
  · change p.1.Tidy
    rw [hp]
    exact (Engine.Host.phase phase).tidy (Engine.tidy_of_proceeds hu harrive)

/-- An operation, which may also be a host write or a run. A run ends within a number of steps. -/
inductive Call where
  | request (r : Request)
  | setVariable (name text : String)
  | run (fuel : ℕ)
  | update (fuel : ℕ)

/-- A document with its cells when it was loaded or saved last, and the variables overridden since. -/
structure Journal where
  doc : Document
  saved : List Definition
  overrides : List (String × String)

namespace Journal

def new (config : Config) (manual : Bool) : Journal := ⟨.ofEngine (.new config manual), [], []⟩

/-- What an operation that succeeded leaves. -/
def record (j : Journal) (doc : Document) : Request → Journal
  | .load _ _ | .save _ | .saveAs _ _ => ⟨doc, doc.definitions, []⟩
  | .override name text => { j with doc, overrides := j.overrides ++ [(name, text)] }
  | _ => { j with doc }

/-- The next operation. A run that is stopped ends the history. -/
def next (l : Language) (j : Journal) : Call → Except Engine.Stop Journal
  | .request r =>
    match r.perform j.doc with
    | (.ok _, doc) => .ok (j.record doc r)
    | (.error _, doc) => .ok { j with doc }
  | .setVariable name text => .ok { j with doc := j.doc.setVariable name text }
  | .run fuel => (j.doc.runWithin l fuel).map fun doc => { j with doc }
  | .update fuel => (j.doc.updateWithin l fuel).map fun doc => { j with doc }

/-- The operations, one after the other. -/
def play (l : Language) : Journal → List Call → Except Engine.Stop Journal
  | j, [] => .ok j
  | j, call :: calls => do play l (← j.next l call) calls

/-- The saved cells with the overrides. -/
def expected (j : Journal) : List Definition :=
  j.overrides.foldl (fun ds o => Definition.overridden o.1 o.2 ds) j.saved

lemma expected_override (j : Journal) (doc : Document) (name text : String) :
    (j.record doc (.override name text)).expected = Definition.overridden name text j.expected :=
  List.foldl_concat (fun ds (o : String × String) => Definition.overridden o.1 o.2 ds) j.saved (name, text) j.overrides

/-- The cells of an unmarked document are the saved ones with the overrides. -/
structure Honest (j : Journal) : Prop where
  tidy : j.doc.engine.Tidy
  cells : j.doc.modified = false → j.doc.definitions = j.expected

variable {l : Language} {j j' : Journal}

lemma Honest.new (config : Config) (manual : Bool) : Honest (.new config manual) where
  tidy := Engine.new_tidy config manual
  cells _ := rfl

lemma Honest.of_edit {e : Engine} (h : j.Honest) (he : Engine.Edit j.doc.engine e) :
    Honest { j with doc := { j.doc with engine := e, modified := true } } where
  tidy := he.tidy h.tidy
  cells := nofun

/-- What leaves the definitions and the mark alone. -/
lemma Honest.of_kept {doc : Document} (h : j.Honest) (ht : doc.engine.Tidy) (hd : doc.definitions = j.doc.definitions)
    (hm : doc.modified = j.doc.modified) : Honest { j with doc } where
  tidy := ht
  cells hclean := hd.trans (h.cells (hm ▸ hclean))

lemma Honest.record {r : Request} {reply : Reply} {doc : Document} (h : j.Honest)
    (hr : r.perform j.doc = (.ok reply, doc)) : (j.record doc r).Honest := by
  cases r with
  | push c =>
    obtain ⟨e, he, rfl⟩ := edited_ok (InPlace.ok_of_atomic hr)
    exact h.of_edit (.add he)
  | insert c index =>
    obtain ⟨e, he, rfl⟩ := edited_ok (InPlace.ok_of_atomic hr)
    exact h.of_edit (.add he)
  | edit id text =>
    obtain ⟨e, he, rfl⟩ := edited_ok (InPlace.ok_of_atomic hr)
    exact h.of_edit (.content he)
  | move id index =>
    obtain ⟨e, he, rfl⟩ := edited_ok (InPlace.ok_of_atomic hr)
    exact h.of_edit (.move he)
  | remove id =>
    obtain ⟨p, hremove, hp⟩ := of_map_ok (InPlace.of_atomic_ok hr)
    cases hp
    obtain ⟨e, he, hdoc⟩ := removeCell_ok hremove
    rw [hdoc]
    exact h.of_edit (.remove he)
  | override name text =>
    obtain ⟨hcells, hmark, htidy⟩ := definitions_overrideVariable h.tidy (InPlace.ok_of_atomic hr)
    refine ⟨htidy, fun hclean => ?_⟩
    change doc.definitions = _
    rw [hcells, h.cells (hmark ▸ hclean)]
    exact (expected_override ..).symm
  | load path file => exact ⟨load_ok (InPlace.ok_of_atomic hr), fun _ => rfl⟩
  | save write =>
    obtain rfl := (Prod.mk.inj hr).2
    exact ⟨save_tidy h.tidy write, fun _ => rfl⟩
  | saveAs path write =>
    obtain rfl := (Prod.mk.inj hr).2
    exact ⟨save_tidy (d := { j.doc with path := some path }) h.tidy write, fun _ => rfl⟩

lemma Honest.next {call : Call} (h : j.Honest) (hnext : j.next l call = .ok j') : j'.Honest := by
  cases call with
  | request r =>
    rw [Journal.next] at hnext
    split at hnext
    · next hr =>
      cases hnext
      exact h.record hr
    · next hr =>
      cases hnext
      obtain rfl := Request.perform_failed hr
      exact h.of_kept h.tidy rfl rfl
  | setVariable name text =>
    cases hnext
    exact h.of_kept ((Engine.Host.setImmediate ..).tidy h.tidy) rfl rfl
  | run fuel =>
    obtain ⟨doc, hrun, rfl⟩ := of_map_ok hnext
    obtain ⟨hcells, hmark, htidy⟩ := updateWithin_ok ((Engine.Host.seed _).tidy h.tidy) hrun
    exact h.of_kept htidy hcells hmark
  | update fuel =>
    obtain ⟨doc, hrun, rfl⟩ := of_map_ok hnext
    obtain ⟨hcells, hmark, htidy⟩ := updateWithin_ok h.tidy hrun
    exact h.of_kept htidy hcells hmark

lemma Honest.play {calls : List Call} (h : j.Honest) (hplay : j.play l calls = .ok j') : j'.Honest := by
  induction calls generalizing j with
  | nil =>
    cases hplay
    exact h
  | cons call calls ih =>
    obtain ⟨k, hnext, hrest⟩ := of_bind_ok hplay
    exact ih (h.next hnext) hrest

lemma expected_of_foreign (h : ∀ o ∈ j.overrides, ∀ d ∈ j.saved, d.content.isInputOf o.1 = false) :
    j.expected = j.saved := by
  obtain ⟨doc, saved, overrides⟩ := j
  induction overrides with
  | nil => rfl
  | cons o os ih =>
    rw [List.forall_mem_cons] at h
    rw [expected, List.foldl_cons, Definition.overridden_of_none h.1]
    exact ih h.2

end Journal

/-- A document that is not marked as modified has the cells that it had when it was loaded or saved last, but for the
inputs that have been overridden since; so it has exactly these if no input declares an overridden variable. -/
theorem unmodified_document_as_saved (l : Language) (config : Config) (manual : Bool) (calls : List Call) (j : Journal)
    (h : (Journal.new config manual).play l calls = .ok j) (hclean : j.doc.modified = false) :
    j.doc.definitions = j.expected ∧
      ((∀ o ∈ j.overrides, ∀ d ∈ j.saved, d.content.isInputOf o.1 = false) →
        j.doc.definitions = j.saved) := by
  have hcells := ((Journal.Honest.new config manual).play h).cells hclean
  exact ⟨hcells, fun hforeign => hcells.trans (Journal.expected_of_foreign hforeign)⟩

/-- An input is saved, and then the variable overridden that it declares. -/
def overridingCalls : List Call :=
  [.request (.push ⟨"a", .input "1" "v"⟩), .request (.saveAs "a.json" fun _ _ => .ok ()), .request (.override "v" "2")]

lemma play_overridingCalls : ∃ j, (Journal.new .standard true).play (.ofConfig .standard) overridingCalls = .ok j ∧
    j.doc.modified = false ∧ j.saved = [⟨"a", .input "1" "v"⟩] ∧ j.overrides = [("v", "2")] ∧
    j.doc.definitions = [⟨"a", .input "2" "v"⟩] :=
  ⟨_, rfl, rfl, rfl, rfl, rfl⟩

/-- The document is not marked then, and its cells are the saved ones with the override. -/
theorem overridden_input_unmarked :
    ∃ j, (Journal.new .standard true).play (.ofConfig .standard) overridingCalls = .ok j ∧ j.doc.modified = false ∧
      j.doc.definitions = Definition.overridden "v" "2" [⟨"a", .input "1" "v"⟩] := by
  obtain ⟨j, hplay, hclean, hsaved, hoverrides, -⟩ := play_overridingCalls
  obtain ⟨hcells, -⟩ := unmodified_document_as_saved (.ofConfig .standard) .standard true overridingCalls j hplay hclean
  refine ⟨j, hplay, hclean, hcells.trans ?_⟩
  rw [Journal.expected, hsaved, hoverrides]
  rfl

/-- A document that is not marked may have changes that were never saved. -/
theorem unmodified_document_not_saved :
    ¬ ∀ (l : Language) (config : Config) (manual : Bool) (calls : List Call) (j : Journal),
      (Journal.new config manual).play l calls = .ok j → j.doc.modified = false → j.doc.definitions = j.saved := by
  intro h
  obtain ⟨j, hplay, hclean, hsaved, -, hcells⟩ := play_overridingCalls
  have hsame := h _ _ _ _ j hplay hclean
  rw [hcells, hsaved] at hsame
  exact absurd hsame (by decide)

end Document
end ReactiveNotebook
