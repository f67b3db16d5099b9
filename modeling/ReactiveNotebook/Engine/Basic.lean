import ReactiveNotebook.Config
import ReactiveNotebook.Engine.Report
import ReactiveNotebook.Graph.Order
import ReactiveNotebook.Language
import ReactiveNotebook.Store.Basic

/-!
# The engine

The engine owns the cells, the store, the storage area of scripts and the state of the scheduler. The graph
is derived from the cells. Scripts run beside the engine: the run is computed when a script is dispatched and
kept until it arrives.
-/
namespace ReactiveNotebook

open Script (Value Fields)

/-- What the scheduler is doing. -/
inductive Phase where
  | idle
  /-- Writes arrive whose burst has not settled. -/
  | collecting
  | ordering
  | executing
  | committing
  deriving DecidableEq, Repr

/-- A source of time, in nanoseconds. A manual clock moves only when it is told to, and keeps its reading in a word. -/
inductive Clock where
  | manual (reading : UInt64)
  | running (elapsed : Nat)
  deriving DecidableEq, Repr

namespace Clock

def isManual : Clock → Bool
  | .manual _ => true
  | .running _ => false

def now : Clock → Nat
  | .manual reading => reading.toNat
  | .running elapsed => elapsed

/-- The clock after some time. The reading of a manual clock wraps around. -/
def after : Clock → Nat → Clock
  | .manual reading, nanos => .manual (reading + .ofNat nanos)
  | .running elapsed, nanos => .running (elapsed + nanos)

end Clock

/-- What stops the scheduler. -/
inductive Panic where
  /-- A template asked for a field wider than formatting allows. -/
  | overflow (cause : Format.Overflow)
  /-- A thread was to have a name with a null character. -/
  | threadName (name : String)

def Panic.message : Panic → String
  | .overflow cause => cause.message
  | .threadName name =>
    let bytes := name.toUTF8.toList.map (·.toNat)
    s!"thread name may not contain interior null bytes: NulError({bytes.idxOf 0}, {bytes})"

/-- The result of a script on its way to the engine. -/
structure Arrival where
  cell : CellId
  /-- The version of the cell that was dispatched. -/
  version : Nat
  run : ScriptRun
  /-- The time on the workers' clock at which the script is done. -/
  due : Nat

/-- A notebook with its scheduler. -/
structure Engine where
  config : Config
  clock : Clock
  store : Store
  /-- The storage area that scripts reach beside the variables. -/
  storage : Fields
  cells : List Cell
  graph : Graph
  phase : Phase
  /-- The number of passes started. -/
  generation : Nat
  /-- The cells that the next pass starts from. -/
  seeds : Names
  pass : Option Pass
  /-- The scripts that run, with the version dispatched. -/
  inFlight : List (CellId × Nat)
  /-- The results of these scripts, in the order of dispatch. -/
  arriving : List Arrival
  /-- The time on the workers' clock up to which results have arrived. -/
  workTime : Nat

namespace Engine

/-- A notebook without cells. -/
def new (config : Config) (manual : Bool) : Engine where
  config := config
  clock := if manual then .manual 0 else .running 0
  store := .empty
  storage := []
  cells := []
  graph := .empty
  phase := .idle
  generation := 0
  seeds := ∅
  pass := none
  inFlight := []
  arriving := []
  workTime := 0

def cell? (e : Engine) (id : CellId) : Option Cell :=
  e.cells.find? (·.id == id)

def hasCell (e : Engine) (id : CellId) : Bool :=
  (e.cell? id).isSome

def index? (e : Engine) (id : CellId) : Option Nat :=
  e.cells.findIdx? (·.id == id)

def modifyCell (e : Engine) (id : CellId) (f : Cell → Cell) : Engine :=
  { e with cells := e.cells.map fun c => if c.id == id then f c else c }

def isWrittenElsewhere (e : Engine) (name : String) (except : CellId) : Bool :=
  e.cells.any fun c => c.id != except && c.writes.contains name

/-- Makes a cell a starting point of the next pass. -/
def seed (e : Engine) (id : CellId) : Engine :=
  { e with seeds := e.seeds.insert id }

/-- Makes cells starting points of the next pass. -/
def seedAll (e : Engine) (ids : List CellId) : Engine :=
  { e with seeds := e.seeds.insertAll ids }

/-- Builds the graph of the current cells. A cell that came onto a cycle or left one is seeded, so that the
next pass refreshes its status. -/
def rebuild (e : Engine) : Engine :=
  let graph := Graph.build e.cells
  let moved := e.cells.filter fun c => c.status.isCycle != (graph.cycleOf? c.id).isSome
  { e with graph, seeds := e.seeds.insertAll (moved.map (·.id)) }

def clearVariable (e : Engine) (name : String) (drop : Bool) : Engine × Bool :=
  let (store, had) := e.store.clear name drop e.clock.now
  ({ e with store }, had)

/-- Whether a pass is in progress or something waits to start one. -/
def isBusy (e : Engine) : Bool :=
  e.pass.isSome || !e.seeds.toList.isEmpty || !e.inFlight.isEmpty || e.store.hasPending

def get (e : Engine) (name : String) : Slot := e.store.get name

/-- Queues a write. -/
def set (e : Engine) (name : String) (value : Value) : Engine :=
  { e with store := e.store.write name value false e.clock.now }

/-- Queues a write that counts as a change whatever its value. -/
def setForced (e : Engine) (name : String) (value : Value) : Engine :=
  { e with store := e.store.write name value true e.clock.now }

/-- Queues a write and releases the burst. -/
def setImmediate (e : Engine) (name : String) (value : Value) : Engine :=
  { e with store := e.store.writeNow name value e.clock.now }

/-- Releases the waiting burst. -/
def flush (e : Engine) : Engine :=
  { e with store := { e.store with queue := e.store.queue.settle } }

def advanceClock (e : Engine) (nanos : Nat) : Engine :=
  if e.clock.isManual then { e with clock := e.clock.after nanos } else e

/-- Waits, which moves either kind of clock. -/
def sleep (e : Engine) (nanos : Nat) : Engine :=
  { e with clock := e.clock.after nanos }

end Engine

end ReactiveNotebook
