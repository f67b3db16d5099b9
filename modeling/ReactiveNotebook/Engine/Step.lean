import ReactiveNotebook.Engine.Basic
import ReactiveNotebook.Cell.Literal
import ReactiveNotebook.Render

/-!
# The steps of a pass

A pass starts from the seeded cells and covers everything downstream of them, in an order in which each cell
follows its dependencies. A seeded cell is always evaluated, any other only if something it reads changed
during the pass or carries a fault. Formulas, templates and inputs are evaluated at once; a script is
dispatched and its result is taken over when it arrives.
-/
namespace ReactiveNotebook

open Script (Value Fields)

/-- An engine whose pass is in progress. -/
structure Stage where
  engine : Engine
  pass : Pass

namespace Stage

def commit (s : Stage) (name : String) (slot : Slot) : Stage :=
  let (store, changed) := s.engine.store.commit name slot s.engine.clock.now
  { engine := { s.engine with store }, pass := s.pass.record name slot changed }

def finish (s : Stage) (id : CellId) (outcome : Outcome) : Stage :=
  { s with pass := s.pass.finish id outcome }

def modifyCell (s : Stage) (id : CellId) (f : Cell → Cell) : Stage :=
  { s with engine := s.engine.modifyCell id f }

/-- Ends the evaluation of a cell with success. -/
def succeed (s : Stage) (id : CellId) : Stage :=
  (s.modifyCell id fun c => { c with status := .ok }).finish id .success

/-- Gives a cell a fault and passes it on to every variable the cell writes. -/
def mark (s : Stage) (c : Cell) (fault : Fault) : Stage :=
  let s := s.modifyCell c.id fun c =>
    { c with
      status := .failed fault
      rendered := match c.content with
        | .markdown _ => none
        | _ => c.rendered }
  c.writes.names.toList.foldl (fun s name => s.commit name (.error fault)) s

def fail (s : Stage) (c : Cell) (fault : Fault) : Stage :=
  (s.mark c fault).finish c.id (.failed fault)

/-- Marks a cell as lying on a cycle. -/
def block (s : Stage) (id : CellId) : Stage :=
  match s.engine.cell? id with
  | none => s
  | some c => (s.mark c (.cycle id ((s.engine.graph.cycleOf? id).getD []))).finish id .skipped

/-- What a cell sees of the variables it reads. Its own fault on a name it reads back counts as undefined. -/
def inputs (s : Stage) (c : Cell) : Inputs :=
  c.reads.toList.map fun name =>
    let slot := s.pass.slot name
    (name, if slot.isError && c.writes.contains name then .undefined else slot)

def isTriggered (s : Stage) (c : Cell) : Bool :=
  s.pass.seeds.contains c.id
    || c.reads.toList.any fun name => s.pass.changed.contains name || (s.pass.slot name).isError

/-- The first fault among the inputs, with the variable that carries it. -/
def firstFault (inputs : Inputs) : Option (String × Fault) :=
  inputs.findSome? fun (name, slot) => slot.fault?.map fun f => (name, f)

/-- Sends a script on its way. Its run is computed now, on the present inputs and storage. -/
def launch (l : Language) (s : Stage) (c : Cell) (source : String) (inputs : Inputs) : Stage :=
  let e := s.engine
  let run := l.run source inputs e.storage
  let arrival : Arrival := ⟨c.id, c.version, run, e.workTime + run.slept⟩
  { s with engine := { e with
      storage := run.storage
      inFlight := (c.id, c.version) :: e.inFlight.filter (·.1 != c.id)
      arriving := e.arriving ++ [arrival] } }

/-- Starts a script on a thread that bears the id of its cell. The cell fails if the system refuses the thread. -/
def dispatch (l : Language) (s : Stage) (c : Cell) (source : String) (inputs : Inputs) : Except Panic Stage :=
  let job : Job := ⟨c.id, c.version, source, inputs⟩
  if !job.isNamable then .error (.threadName job.threadName)
  else
    match l.refusal? job with
    | some cause => .ok (s.fail c (.execution c.id s!"Failed to start script worker: {cause}"))
    | none => .ok (s.launch l c source inputs)

def evaluate (l : Language) (s : Stage) (c : Cell) (inputs : Inputs) : Except Panic Stage :=
  match c.content with
  | .formula expression output =>
    match l.evaluate expression inputs with
    | .ok v => .ok ((s.commit output (.value v)).succeed c.id)
    | .error message => .ok (s.fail c (.execution c.id message))
  | .input literal output => .ok ((s.commit output (.value (readLiteral literal))).succeed c.id)
  | .markdown template => do
    let text ← (l.render template inputs).mapError .overflow
    return (s.modifyCell c.id fun c => { c with rendered := some text }).succeed c.id
  | .script source => s.dispatch l c source inputs

/-- Handles a cell whose turn has come. -/
def runCell (l : Language) (s : Stage) (id : CellId) : Except Panic Stage :=
  match s.engine.cell? id with
  | none => .ok (s.finish id .skipped)
  | some c =>
    if !s.isTriggered c then .ok (s.finish id .unchanged)
    else
      let inputs := s.inputs c
      match firstFault inputs with
      | some (name, fault) => .ok (s.fail c (.inherited name fault.origin))
      | none => s.evaluate l c inputs

/-- Whether all dependencies of a cell that take part are done. -/
def isReady (s : Stage) (id : CellId) : Bool :=
  (s.engine.graph.dependencies id).all fun d => !s.pass.members.contains d || s.pass.completed.contains d

/-- The place of the cell to start next. Without scripts in flight the first one is started even if it is
not ready. -/
def next? (s : Stage) : Option Nat :=
  match s.pass.remaining.findIdx? s.isReady with
  | some i => some i
  | none => if s.engine.inFlight.isEmpty && !s.pass.remaining.isEmpty then some 0 else none

/-- Starts every cell that can be started. The fuel bounds the number of cells. -/
def runReadyFor (l : Language) : Nat → Stage → Except Panic Stage
  | 0, s => .ok s
  | fuel + 1, s =>
    if !s.engine.config.parallelScripts && !s.engine.inFlight.isEmpty then .ok s
    else
      match s.next?.bind fun i => (s.pass.remaining[i]?).map fun id => (i, id) with
      | none => .ok s
      | some (i, id) => do
        let s := { s with pass := { s.pass with remaining := s.pass.remaining.eraseIdx i } }
        runReadyFor l fuel (← s.runCell l id)

/-- Starts every cell that can be started. -/
def runReady (l : Language) (s : Stage) : Except Panic Stage :=
  runReadyFor l s.pass.remaining.length s

/-- After the graph has changed during the pass: takes in the readers of newly exported names, also those
that already ran without them, and orders what has not run. -/
def extend (s : Stage) (source : CellId) (names : Names) : Stage :=
  let g := s.engine.graph
  let flying (id : CellId) : Bool := s.engine.inFlight.any (·.1 == id)
  let readers := (names.toList.flatMap g.readersOf).filter (· != source)
  let reached := (g.closure readers).toList.filter (· != source)
  let again := reached.filter flying
  let fresh := reached.filter fun id => !s.pass.remaining.contains id && !flying id
  let pending := (Names.ofList s.pass.remaining).insertAll fresh
  let blocked := pending.toList.filter fun id => (g.cycleOf? id).isSome
  let s := { s with pass := { s.pass with
    members := (s.pass.members.insertAll again).insertAll fresh
    rerun := s.pass.rerun.insertAll again
    completed := s.pass.completed.filter fun id => !fresh.contains id
    remaining := g.order (pending.filter fun id => (g.cycleOf? id).isNone) } }
  blocked.foldl block s

/-- Clears a variable that a script no longer exports. -/
def retract (id : CellId) (s : Stage) (name : String) : Stage :=
  if s.engine.isWrittenElsewhere name id then s
  else
    let (e, had) := s.engine.clearVariable name false
    { engine := e, pass := if had then s.pass.record name .undefined true else s.pass }

/-- Takes over the exports of a successful run. -/
def accept (s : Stage) (c : Cell) (exports : Fields) : Stage :=
  let previous := c.writes.names
  let current := Names.ofList (exports.map (·.1))
  let s := exports.foldl (fun s (name, v) => s.commit name (.value v)) s
  let s := (previous.toList.filter fun name => !current.contains name).foldl (retract c.id) s
  let s := (s.modifyCell c.id fun c => { c with writes := .confirmed current }).succeed c.id
  if previous != current || !c.writes.isConfirmed then
    let s := { s with engine := s.engine.rebuild }
    s.extend c.id (current.filter fun name => !previous.contains name)
  else s

/-- The fields of a successful run, or the message of a failed one, with the lines to keep. -/
def settle (run : ScriptRun) : Except String Fields × List String :=
  match run.result with
  | .ok exports => (.ok exports, run.logs)
  | .error (.failed message) => (.error message, run.logs)
  | .error (.overflow cause) => (.error s!"Script worker panicked: {cause.message}", [])

/-- Takes over the result of a script, unless the cell has been edited since it was dispatched or its inputs
have changed. -/
def receive (s : Stage) (a : Arrival) : Stage :=
  let id := a.cell
  let dispatched := (s.engine.inFlight.find? (·.1 == id)).map (·.2)
  let s := { s with engine := { s.engine with inFlight := s.engine.inFlight.filter (·.1 != id) } }
  let current := (s.engine.cell? id).filter fun c => dispatched == some a.version && c.version == a.version
  let again := s.pass.rerun.contains id
  let s := { s with pass := { s.pass with rerun := s.pass.rerun.filter (· != id) } }
  match current with
  | none =>
    let s := { s with pass := { s.pass with stale := s.pass.stale + 1 } }
    if s.pass.members.contains id && !s.pass.completed.contains id then s.finish id .discarded else s
  | some c =>
    if again then
      let pending := (Names.ofList s.pass.remaining).insert id
      { s with pass := { s.pass with
        stale := s.pass.stale + 1
        seeds := s.pass.seeds.insert id
        completed := s.pass.completed.filter (· != id)
        remaining := s.engine.graph.order pending } }
    else
      let (result, logs) := settle a.run
      let s := s.modifyCell id fun c => { c with logs }
      match result with
      | .ok exports => s.accept c exports
      | .error message => s.fail c (.execution id message)

/-- The result that arrives first: of the earliest ones the one dispatched first. -/
def earliest? : List Arrival → Option Arrival
  | [] => none
  | a :: rest =>
    match earliest? rest with
    | none => some a
    | some b => if b.due < a.due then some b else some a

/-- Removes the first result with the given cell and time from those on their way. -/
def withoutArrival (as : List Arrival) (a : Arrival) : List Arrival :=
  as.eraseP fun b => b.cell == a.cell && b.due == a.due

/-- Takes over the results that have arrived. The fuel bounds their number. -/
def drainFor : Nat → Stage → Stage
  | 0, s => s
  | fuel + 1, s =>
    match earliest? s.engine.arriving with
    | none => s
    | some a =>
      if s.engine.workTime < a.due then s
      else
        let s := { s with engine := { s.engine with arriving := withoutArrival s.engine.arriving a } }
        drainFor fuel (s.receive a)

/-- Takes over the results that have arrived. -/
def drain (s : Stage) : Stage := drainFor s.engine.arriving.length s

/-- Waits for the next result and takes over all that have arrived then. -/
def await (s : Stage) : Stage :=
  match earliest? s.engine.arriving with
  | none => s
  | some a => drain { s with engine := { s.engine with workTime := max s.engine.workTime a.due } }

end Stage

end ReactiveNotebook
