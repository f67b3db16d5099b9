import ReactiveNotebook.Engine.Edit
import ReactiveNotebook.Engine.Run
import ReactiveNotebook.Notebook.Record

/-!
# Documents

A document is a notebook together with the file it belongs to and a mark that says whether it has changed
since it was loaded or saved. Files are outside the document: loading is given what reading the file yielded,
and saving is given what writing it yields.
-/
namespace ReactiveNotebook

/-- Why a file cannot be read or written. -/
inductive FileError where
  | notFound
  /-- The bytes are no UTF-8. -/
  | notText
  /-- A file of settings beyond the size limit. -/
  | tooLarge (path : String) (size : Nat)
  /-- Any other reason, in the words of the system. -/
  | other (message : String)
  deriving DecidableEq, Repr

namespace FileError

def mostConfigBytes : Nat := 1048576

/-- The text shown for the failure. -/
def message : FileError → String
  | .notFound => "No such file or directory (os error 2)"
  | .notText => "stream did not contain valid UTF-8"
  | .tooLarge path size =>
    s!"Refusing to read {path}: config file too large ({size} bytes, max {mostConfigBytes})"
  | .other text => text

end FileError

def decodeText (bytes : ByteArray) : Except FileError String :=
  match String.fromUTF8? bytes with
  | some s => .ok s
  | none => .error .notText

/-- Why an operation on a document fails. -/
inductive DocumentError where
  | file (cause : FileError)
  | format (cause : Notebook.ReadError)
  | config (path : String)
  | edit (cause : EditError)
  | noFilePath
  deriving DecidableEq, Repr

namespace DocumentError

def formatCause : Notebook.ReadError → String
  | .malformed => "malformed text"
  | .wrongShape => "data did not match any variant of untagged enum NotebookFile"
  | .badRecord _ text => text

/-- The text shown for the failure. -/
def message : DocumentError → String
  | .file cause => "IO error: " ++ cause.message
  | .format (.badRecord index text) => s!"Cell record {index}: {text}"
  | .format cause => "JSON error: " ++ formatCause cause
  | .config path => s!"Invalid config {path}: malformed settings"
  | .edit cause => cause.message
  | .noFilePath => "No file path set"

/-- The text of the failure beneath, where there is one. -/
def cause? : DocumentError → Option String
  | .file cause => some cause.message
  | .format (.badRecord _ _) => none
  | .format cause => some (formatCause cause)
  | _ => none

end DocumentError

/-- A notebook as its author works on it. -/
structure Document where
  engine : Engine
  path : Option String
  modified : Bool

namespace Document

def ofEngine (e : Engine) : Document := ⟨e, none, false⟩

def new (config : Config) : Document := ofEngine (.new config false)

/-- The cells as their author gave them. -/
def definitions (d : Document) : List Definition := d.engine.cells.map Cell.definition

def variableTexts (d : Document) : List (String × String) :=
  d.engine.store.definedNames.map fun name => (name, Format.slotText (d.engine.get name))

def edited (d : Document) (r : Except EditError Engine) : Except DocumentError Document :=
  match r with
  | .ok engine => .ok { d with engine, modified := true }
  | .error cause => .error (.edit cause)

def pushCell (d : Document) (c : Definition) : Except DocumentError Document :=
  d.edited (d.engine.pushCell c)

def insertCell (d : Document) (c : Definition) (index : Nat) : Except DocumentError Document :=
  d.edited (d.engine.addCell c index)

def removeCell (d : Document) (id : CellId) : Except DocumentError (Document × Definition) :=
  match d.engine.removeCell id with
  | .ok (engine, c) => .ok ({ d with engine, modified := true }, c)
  | .error cause => .error (.edit cause)

def setContent (d : Document) (id : CellId) (text : String) : Except DocumentError Document :=
  d.edited (d.engine.setContent id text)

def moveCell (d : Document) (id : CellId) (index : Nat) : Except DocumentError Document :=
  d.edited (d.engine.moveCell id index)

/-- Writes a variable from the text of a literal, which is no edit. -/
def setVariable (d : Document) (name text : String) : Document :=
  { d with engine := d.engine.setImmediate name (readLiteral text) }

/-- The first input cell that declares a variable. -/
def inputOf? (d : Document) (name : String) : Option Cell :=
  d.engine.cells.find? fun c =>
    match c.content with
    | .input _ output => output == name
    | _ => false

/-- Gives a variable another literal: in the input cell that declares it, or else as a host write. -/
def overrideVariable (d : Document) (name text : String) : Except DocumentError Document :=
  match d.inputOf? name with
  | none => .ok (d.setVariable name text)
  | some c =>
    match d.engine.setContent c.id text with
    | .ok engine => .ok { d with engine }
    | .error cause => .error (.edit cause)

/-- Evaluates everything. -/
def run (l : Language) (d : Document) : Except Engine.Stop (Document × List Report) := do
  let (engine, reports) ← d.engine.runAll l
  return ({ d with engine }, reports)

/-- Evaluates what waits. -/
def update (l : Language) (d : Document) : Except Engine.Stop (Document × List Report) := do
  let (engine, reports) ← d.engine.runUntilIdle l
  return ({ d with engine }, reports)

/-- Appends cells one after the other. -/
def pushAll (e : Engine) : List Definition → Except EditError Engine
  | [] => .ok e
  | c :: cs => do pushAll (← e.pushCell c) cs

/-- Replaces the document by a notebook file, whose bytes are given. The new engine has the same settings
and runs on real time. -/
def load (d : Document) (path : String) (file : Except FileError ByteArray) : Except DocumentError Document :=
  match file.bind decodeText with
  | .error cause => .error (.file cause)
  | .ok text =>
    match Notebook.read text with
    | .error cause => .error (.format cause)
    | .ok cells =>
      match pushAll (.new d.engine.config false) cells with
      | .error cause => .error (.edit cause)
      | .ok engine => .ok ⟨engine, some path, false⟩

def openFile (path : String) (config : Config) (file : Except FileError ByteArray) :
    Except DocumentError Document :=
  (new config).load path file

def fileText (d : Document) : String := Notebook.write d.definitions

/-- Saves the document to its file. `write` tells what writing a text to a path yields. -/
def save (d : Document) (write : String → String → Except FileError Unit) :
    Document × Except DocumentError String :=
  match d.path with
  | none => (d, .error .noFilePath)
  | some path =>
    match write path d.fileText with
    | .ok () => ({ d with modified := false }, .ok path)
    | .error cause => (d, .error (.file cause))

/-- Makes a path the file of the document and saves to it. -/
def saveAs (d : Document) (path : String) (write : String → String → Except FileError Unit) :
    Document × Except DocumentError String :=
  save { d with path := some path } write

end Document

end ReactiveNotebook
