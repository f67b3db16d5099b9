import Mathlib.Tactic
import ReactiveNotebook.Notebook.Document

/-!
# Operations in place

Carried out in place, an operation changes its state one statement after the other, and what it has changed by then
stays changed when a later statement fails. So whether a failed operation leaves the state as it was depends on the
order of its statements. All operations on documents check before they change anything, with one exception: saving
under another path makes that path the document's before the file is written.
-/
namespace ReactiveNotebook

/-- A program that changes a state in place and may fail. -/
abbrev InPlace (σ ε α : Type) := ExceptT ε (StateM σ) α

namespace InPlace

variable {σ ε α β : Type} {s : σ}

/-- The result of a program, with the state that it leaves even if it fails. -/
def outcome (p : InPlace σ ε α) (s : σ) : Except ε α × σ := p.run.run s

lemma outcome_modify_bind (f : σ → σ) (p : PUnit → InPlace σ ε α) :
    (modify f >>= p).outcome s = (p ⟨⟩).outcome (f s) := rfl

lemma outcome_get_bind (p : σ → InPlace σ ε α) : (get >>= p).outcome s = (p s).outcome s := rfl

lemma outcome_bind (p : InPlace σ ε α) (q : α → InPlace σ ε β) :
    (p >>= q).outcome s =
      match p.outcome s with
      | (.ok a, t) => (q a).outcome t
      | (.error x, t) => (.error x, t) := by
  simp only [outcome, ExceptT.run_bind, StateT.run_bind]
  change (match (p.run.run s).1 with | .ok a => (q a).run | .error x => pure (.error x)).run (p.run.run s).2 = _
  rcases p.run.run s with ⟨a | x, t⟩ <;> rfl

lemma outcome_map (f : α → β) (p : InPlace σ ε α) :
    (f <$> p).outcome s = ((p.outcome s).1.map f, (p.outcome s).2) := by
  rw [map_eq_pure_bind, outcome_bind]
  rcases p.outcome s with ⟨a | x, t⟩ <;> rfl

lemma outcome_forM {ns : List α} (f : σ → α → σ) :
    (forM ns fun n => modify (f · n) : InPlace σ ε PUnit).outcome s = (.ok ⟨⟩, ns.foldl f s) := by
  induction ns generalizing s with
  | nil => rfl
  | cons n ns ih =>
    rw [List.forM_cons, outcome_modify_bind]
    exact ih

lemma outcome_ofExcept_bind (r : Except ε α) (p : α → InPlace σ ε β) :
    (MonadExcept.ofExcept r >>= p : InPlace σ ε β).outcome s =
      match r with
      | .ok a => (p a).outcome s
      | .error x => (.error x, s) := by
  cases r <;> rfl

/-- The outcome of an operation that leaves the state as it was if it fails. -/
def atomic (s : σ) : Except ε (α × σ) → Except ε α × σ
  | .ok (a, t) => (.ok a, t)
  | .error x => (.error x, s)

lemma eq_of_atomic_error {r : Except ε (α × σ)} {x : ε} {t : σ} (h : atomic s r = (.error x, t)) : t = s := by
  cases r with
  | ok => cases h
  | error =>
    cases h
    rfl

lemma of_atomic_ok {r : Except ε (α × σ)} {a : α} {t : σ} (h : atomic s r = (.ok a, t)) : r = .ok (a, t) := by
  cases r with
  | ok =>
    cases h
    rfl
  | error => cases h

lemma ok_of_atomic {r : Except ε σ} {a b : α} {t : σ} (h : atomic s (r.map (Prod.mk a)) = (.ok b, t)) :
    r = .ok t := by
  have hmap := of_atomic_ok h
  cases r with
  | ok =>
    cases hmap
    rfl
  | error => cases hmap

variable {e : Engine}

def addCell (d : Definition) (index : ℕ) : InPlace Engine EditError Unit := do
  let e ← get
  if e.cells.length < index then throw (.indexOutOfRange index e.cells.length)
  if e.hasCell d.id then throw (.duplicateCell d.id)
  MonadExcept.ofExcept d.check
  modify (·.seed d.id)
  modify fun e => { e with cells := e.cells.insertIdx index (.ofDefinition d) }
  modify Engine.rebuild

def pushCell (d : Definition) : InPlace Engine EditError Unit := do
  addCell d (← get).cells.length

def removeCell (id : CellId) : InPlace Engine EditError Definition := do
  let some c := (← get).cell? id | throw (.unknownCell id)
  modify fun e => { e with cells := e.cells.filter (·.id != id) }
  modify fun e => { e with seeds := e.seeds.filter (· != id) }
  modify Engine.rebuild
  forM c.writes.names.toList fun name => modify (Engine.dropVariable id · name)
  return c.definition

def setContent (id : CellId) (text : String) : InPlace Engine EditError Unit := do
  let some c := (← get).cell? id | throw (.unknownCell id)
  if c.content.text == text then return
  modify fun e => e.modifyCell id fun c =>
    Cell.reanalyze { c with content := c.content.withText text, version := c.version + 1 }
  modify (·.seed id)
  modify Engine.rebuild

def moveCell (id : CellId) (index : ℕ) : InPlace Engine EditError Unit := do
  let e ← get
  let some old := e.index? id | throw (.unknownCell id)
  let some c := e.cell? id | throw (.unknownCell id)
  if e.cells.length ≤ index then throw (.indexOutOfRange index e.cells.length)
  if old = index then return
  modify fun e => { e with cells := e.cells.eraseIdx old }
  modify fun e => { e with cells := e.cells.insertIdx index c }
  modify (·.seed id)
  modify Engine.rebuild

lemma outcome_addCell (d : Definition) (index : ℕ) :
    (addCell d index).outcome e = atomic e ((e.addCell d index).map (Prod.mk ())) := by
  rw [addCell, Engine.addCell, outcome_get_bind]
  by_cases hi : e.cells.length < index
  · simp only [hi, if_true]
    rfl
  · by_cases hc : e.hasCell d.id = true
    · simp only [hi, hc, if_true, if_false]
      rfl
    · simp only [hi, hc, if_false]
      cases d.check <;> rfl

lemma outcome_pushCell (d : Definition) :
    (pushCell d).outcome e = atomic e ((e.pushCell d).map (Prod.mk ())) :=
  outcome_addCell d e.cells.length

lemma outcome_removeCell (id : CellId) :
    (removeCell id).outcome e = atomic e ((e.removeCell id).map Prod.swap) := by
  rw [removeCell, Engine.removeCell, outcome_get_bind]
  cases e.cell? id with
  | none => rfl
  | some c =>
    simp only [outcome_bind, outcome_forM]
    rfl

lemma outcome_setContent (id : CellId) (text : String) :
    (setContent id text).outcome e = atomic e ((e.setContent id text).map (Prod.mk ())) := by
  rw [setContent, Engine.setContent, outcome_get_bind]
  cases e.cell? id with
  | none => rfl
  | some c =>
    simp only
    split <;> rfl

lemma outcome_moveCell (id : CellId) (index : ℕ) :
    (moveCell id index).outcome e = atomic e ((e.moveCell id index).map (Prod.mk ())) := by
  rw [moveCell, Engine.moveCell, outcome_get_bind]
  cases e.index? id with
  | none => rfl
  | some old =>
    cases e.cell? id with
    | none => rfl
    | some c =>
      by_cases hi : e.cells.length ≤ index
      · simp only [hi, if_true]
        rfl
      · by_cases hold : old = index
        · simp only [hi, hold, if_true, if_false]
          rfl
        · simp only [hi, hold, if_false]
          rfl

/-- Appends cells one after the other, until one is refused. -/
def pushAll : List Definition → InPlace Engine EditError Unit
  | [] => pure ()
  | c :: cs => do
    pushCell c
    pushAll cs

/-- The cells up to the one that is refused have been appended; only the refusal itself is as if nothing had been. -/
lemma outcome_pushAll (cs : List Definition) :
    ∃ partly, (pushAll cs).outcome e = atomic partly ((Document.pushAll e cs).map (Prod.mk ())) := by
  induction cs generalizing e with
  | nil => exact ⟨e, rfl⟩
  | cons c cs ih =>
    rw [pushAll, Document.pushAll, outcome_bind, outcome_pushCell]
    cases e.pushCell c with
    | error cause => exact ⟨e, rfl⟩
    | ok e' => exact ih

variable {d : Document}

/-- Edits the engine of a document, which is changed as far as the edit comes. -/
def onEngine (p : InPlace Engine EditError α) : InPlace Document DocumentError α := do
  let (r, engine) := p.outcome (← get).engine
  modify fun d => { d with engine }
  MonadExcept.ofExcept (r.mapError .edit)

/-- Edits the engine of a document and marks the document as changed. -/
def edit (p : InPlace Engine EditError α) : InPlace Document DocumentError α := do
  let a ← onEngine p
  modify fun d => { d with modified := true }
  return a

/-- Gives a variable another literal. -/
def overrideVariable (name text : String) : InPlace Document DocumentError Unit := do
  match (← get).inputOf? name with
  | some c => onEngine (setContent c.id text)
  | none => modify (·.setVariable name text)

def load (path : String) (file : Except FileError ByteArray) : InPlace Document DocumentError Unit := do
  let text ← MonadExcept.ofExcept ((file.bind decodeText).mapError .file)
  let cells ← MonadExcept.ofExcept ((Notebook.read text).mapError .format)
  -- the cells go to an engine of its own, which is given up with all of them if one is refused
  let (pushed, engine) := (pushAll cells).outcome (Engine.new (← get).engine.config false)
  MonadExcept.ofExcept (pushed.mapError .edit)
  modify fun d => { d with engine }
  modify fun d => { d with path := some path }
  modify fun d => { d with modified := false }

def save (write : String → String → Except FileError Unit) : InPlace Document DocumentError String := do
  let some path := (← get).path | throw .noFilePath
  MonadExcept.ofExcept ((write path (← get).fileText).mapError .file)
  modify fun d => { d with modified := false }
  return path

/-- Makes a path the file of a document and saves to it. -/
def saveAs (path : String) (write : String → String → Except FileError Unit) :
    InPlace Document DocumentError String := do
  modify fun d => { d with path := some path }
  save write

lemma outcome_edit {p : InPlace Engine EditError α} {r : Except EditError (α × Engine)}
    (h : p.outcome d.engine = atomic d.engine r) :
    (edit p).outcome d =
      atomic d ((r.mapError DocumentError.edit).map fun (a, engine) => (a, { d with engine, modified := true })) := by
  rw [edit, outcome_bind, onEngine, outcome_get_bind, h]
  rcases r with cause | ⟨a, engine⟩ <;> rfl

lemma outcome_overrideVariable (name text : String) :
    (overrideVariable name text).outcome d = atomic d ((d.overrideVariable name text).map (Prod.mk ())) := by
  rw [overrideVariable, Document.overrideVariable, outcome_get_bind]
  cases d.inputOf? name with
  | none => rfl
  | some c =>
    simp only [onEngine, outcome_get_bind, outcome_setContent]
    cases d.engine.setContent c.id text <;> rfl

lemma outcome_load (path : String) (file : Except FileError ByteArray) :
    (load path file).outcome d = atomic d ((d.load path file).map (Prod.mk ())) := by
  rw [load, Document.load]
  cases file.bind decodeText with
  | error cause => rfl
  | ok text =>
    simp only [outcome_ofExcept_bind, Except.mapError]
    cases Notebook.read text with
    | error cause => rfl
    | ok cells =>
      obtain ⟨partly, hpush⟩ := outcome_pushAll (e := .new d.engine.config false) cells
      simp only [outcome_get_bind, hpush]
      cases Document.pushAll (.new d.engine.config false) cells <;> rfl

lemma outcome_save (write : String → String → Except FileError Unit) :
    (save write).outcome d = (d.save write).swap := by
  obtain ⟨engine, path, modified⟩ := d
  rw [save, Document.save, outcome_get_bind]
  cases path with
  | none => rfl
  | some path =>
    simp only [outcome_get_bind]
    cases write path (Document.fileText ⟨engine, some path, modified⟩) <;> rfl

lemma outcome_saveAs (path : String) (write : String → String → Except FileError Unit) :
    (saveAs path write).outcome d = (d.saveAs path write).swap :=
  outcome_save (d := { d with path := some path }) write

end InPlace

namespace Document

/-- What an operation on a document yields besides the document. -/
inductive Reply where
  | done
  | removed (c : Definition)
  | saved (path : String)

/-- An operation on a document, together with what reading or writing a file yields. -/
inductive Request where
  | push (c : Definition)
  | insert (c : Definition) (index : ℕ)
  | remove (id : CellId)
  | edit (id : CellId) (text : String)
  | move (id : CellId) (index : ℕ)
  | override (name text : String)
  | load (path : String) (file : Except FileError ByteArray)
  | save (write : String → String → Except FileError Unit)
  | saveAs (path : String) (write : String → String → Except FileError Unit)

namespace Request

open InPlace (atomic)

variable {d d' : Document} {cause : DocumentError}

/-- The operation, carried out statement by statement. -/
def inPlace : Request → InPlace Document DocumentError Reply
  | push c => (fun _ => .done) <$> InPlace.edit (InPlace.pushCell c)
  | insert c index => (fun _ => .done) <$> InPlace.edit (InPlace.addCell c index)
  | remove id => .removed <$> InPlace.edit (InPlace.removeCell id)
  | edit id text => (fun _ => .done) <$> InPlace.edit (InPlace.setContent id text)
  | move id index => (fun _ => .done) <$> InPlace.edit (InPlace.moveCell id index)
  | override name text => (fun _ => .done) <$> InPlace.overrideVariable name text
  | load path file => (fun _ => .done) <$> InPlace.load path file
  | save write => .saved <$> InPlace.save write
  | saveAs path write => .saved <$> InPlace.saveAs path write

/-- The operation, carried out at once. -/
def perform (d : Document) : Request → Except DocumentError Reply × Document
  | push c => atomic d ((d.pushCell c).map (Prod.mk .done))
  | insert c index => atomic d ((d.insertCell c index).map (Prod.mk .done))
  | remove id => atomic d ((d.removeCell id).map fun p => (.removed p.2, p.1))
  | edit id text => atomic d ((d.setContent id text).map (Prod.mk .done))
  | move id index => atomic d ((d.moveCell id index).map (Prod.mk .done))
  | override name text => atomic d ((d.overrideVariable name text).map (Prod.mk .done))
  | load path file => atomic d ((d.load path file).map (Prod.mk .done))
  | save write => ((d.save write).2.map .saved, (d.save write).1)
  | saveAs path write => ((d.saveAs path write).2.map .saved, (d.saveAs path write).1)

/-- The file of the document after the operation has failed. -/
def pathOnFailure (d : Document) : Request → Option String
  | saveAs path _ => some path
  | _ => d.path

/-- An edit that yields nothing besides the document. -/
lemma outcome_edited {p : InPlace Engine EditError Unit} {r : Except EditError Engine}
    (h : p.outcome d.engine = atomic d.engine (r.map (Prod.mk ()))) :
    ((fun _ => Reply.done) <$> InPlace.edit p).outcome d = atomic d ((d.edited r).map (Prod.mk .done)) := by
  rw [InPlace.outcome_map, InPlace.outcome_edit h]
  cases r <;> rfl

lemma inPlace_eq_perform (r : Request) (d : Document) : r.inPlace.outcome d = r.perform d := by
  cases r with
  | push c => exact outcome_edited (InPlace.outcome_pushCell c)
  | insert c index => exact outcome_edited (InPlace.outcome_addCell c index)
  | edit id text => exact outcome_edited (InPlace.outcome_setContent id text)
  | move id index => exact outcome_edited (InPlace.outcome_moveCell id index)
  | remove id =>
    rw [inPlace, InPlace.outcome_map, InPlace.outcome_edit (InPlace.outcome_removeCell id), perform, removeCell]
    cases d.engine.removeCell id <;> rfl
  | override name text =>
    rw [inPlace, InPlace.outcome_map, InPlace.outcome_overrideVariable, perform]
    cases d.overrideVariable name text <;> rfl
  | load path file =>
    rw [inPlace, InPlace.outcome_map, InPlace.outcome_load, perform]
    cases d.load path file <;> rfl
  | save write =>
    rw [inPlace, InPlace.outcome_map, InPlace.outcome_save]
    rfl
  | saveAs path write =>
    rw [inPlace, InPlace.outcome_map, InPlace.outcome_saveAs]
    rfl

/-- Saving that fails leaves the document as it was. -/
lemma save_failed {write : String → String → Except FileError Unit} (h : (d.save write).2 = .error cause) :
    (d.save write).1 = d := by
  unfold Document.save at h ⊢
  split
  · rfl
  · next path hpath =>
    rw [hpath] at h
    cases hwrite : write path d.fileText with
    | ok => simp [hwrite] at h
    | error => rfl

lemma of_saved_failed {p : Document × Except DocumentError String}
    (h : (p.2.map Reply.saved, p.1) = (.error cause, d')) : p.2 = .error cause ∧ d' = p.1 := by
  obtain ⟨t, path | x⟩ := p <;> cases h
  exact ⟨rfl, rfl⟩

lemma perform_failed {r : Request} (h : r.perform d = (.error cause, d')) :
    d' = { d with path := r.pathOnFailure d } := by
  cases r with
  | save write =>
    obtain ⟨hfailed, rfl⟩ := of_saved_failed h
    exact save_failed hfailed
  | saveAs path write =>
    obtain ⟨hfailed, rfl⟩ := of_saved_failed h
    exact save_failed hfailed
  | push | insert | remove | edit | move | override | load => exact InPlace.eq_of_atomic_error h

end Request

/-- An operation on a document checks before it changes anything: if it fails, even after some of its statements, the
document is as it was, its cells, variables, statuses and mark included. Only the path that it was to be saved under
stays the document's. -/
theorem failed_operation_keeps_document (r : Request) (d : Document) :
    r.inPlace.outcome d = r.perform d ∧
      ∀ cause d', r.inPlace.outcome d = (.error cause, d') → d' = { d with path := r.pathOnFailure d } := by
  have heq := Request.inPlace_eq_perform r d
  exact ⟨heq, fun cause d' h => Request.perform_failed (heq ▸ h)⟩

/-- A failed attempt to save under another path leaves that path behind. -/
theorem failed_saving_changes_path :
    ¬ ∀ (r : Request) (d d' : Document) (cause : DocumentError), r.inPlace.outcome d = (.error cause, d') →
      d'.definitions = d.definitions ∧ d'.variableTexts = d.variableTexts ∧
        d'.engine.cells.map Cell.status = d.engine.cells.map Cell.status ∧ d'.path = d.path ∧
        d'.modified = d.modified := by
  intro h
  have hpath := (h (.saveAs "no/such/dir.json" fun _ _ => .error .notFound) (.new .standard) _ _ rfl).2.2.2.1
  cases hpath

end Document
end ReactiveNotebook
