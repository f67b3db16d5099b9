import ReactiveNotebook.Engine.Step

/-!
# Running a notebook

A tick takes over a settled burst of host writes, starts a pass if there is a reason for one, and moves the
pass on as far as it goes without waiting. A run ticks, waits for scripts and for bursts to settle, and ends
when nothing is left to do.
-/
namespace ReactiveNotebook

namespace Engine

/-- Commits one host write and seeds the readers of a variable that changed. -/
def takeWrite (e : Engine) (w : PendingWrite) : Engine :=
  let (store, changed) := e.store.commit w.name (.value w.value) e.clock.now
  let e := { e with store }
  if changed || w.forced then e.seedAll (e.graph.readersOf w.name) else e

/-- Commits the waiting burst if it has settled. -/
def collect (e : Engine) : Engine :=
  if e.store.queue.isSettled e.clock.now e.config.settleWindow then
    let writes := e.store.queue.pending
    let e := { e with phase := .collecting, store := { e.store with queue := e.store.queue.drained } }
    writes.foldl takeWrite e
  else e

/-- Starts a pass from the seeded cells. Cells on cycles are marked and take no part. -/
def beginPass (e : Engine) : Stage :=
  let seeds := e.seeds.filter e.graph.contains
  let generation := e.generation + 1
  let pass := Pass.start generation seeds e.store.snapshot
  let reached := e.graph.closure seeds.toList
  let isBlocked (id : CellId) : Bool := (e.graph.cycleOf? id).isSome
  let blocked := (e.graph.nodes.map (·.id)).filter fun id => reached.contains id && isBlocked id
  let e := { e with phase := .executing, generation, seeds := ∅ }
  let s := blocked.foldl Stage.block ⟨e, pass⟩
  let members := reached.filter fun id => !s.pass.completed.contains id
  let order := e.graph.order members
  { s with pass := { s.pass with members, order, remaining := order } }

def endPass (s : Stage) : Engine × Option Report :=
  let e := s.engine
  let phase := if e.seeds.toList.isEmpty && !e.store.hasPending then .idle else .collecting
  ({ e with pass := none, phase }, some s.pass.report)

/-- Moves a pass on without waiting. -/
def advance (l : Language) (s : Stage) : Except Panic (Engine × Option Report) := do
  let s ← s.drain.runReady l
  if s.pass.remaining.isEmpty && s.engine.inFlight.isEmpty then return endPass s
  return ({ s.engine with pass := some s.pass }, none)

/-- One step of the scheduler. It yields a report if it completes a pass. -/
def tick (l : Language) (e : Engine) : Except Panic (Engine × Option Report) :=
  match e.pass with
  | some pass => advance l ⟨{ e with pass := none }, pass⟩
  | none =>
    let e := e.collect
    if e.seeds.toList.isEmpty then
      .ok ({ e with phase := if e.store.hasPending then .collecting else .idle }, none)
    else advance l e.beginPass

/-- Waits for a script in flight and takes over its result. -/
def awaitScript (e : Engine) : Engine :=
  match e.pass with
  | none => e
  | some pass =>
    let s := Stage.await ⟨{ e with pass := none }, pass⟩
    { s.engine with pass := some s.pass }

/-- Why a run has no result. -/
inductive Stop where
  /-- The scheduler was stopped. -/
  | panic (cause : Panic)
  /-- The run did not end within the given number of steps. -/
  | outOfFuel

/-- Runs until nothing is left to do. `reports` holds the reports so far, latest first. -/
def drive (l : Language) : Nat → Engine → List Report → Except Stop (Engine × List Report)
  | 0, _, _ => .error .outOfFuel
  | fuel + 1, e, reports =>
    match e.tick l with
    | .error cause => .error (.panic cause)
    | .ok (e, some report) => drive l fuel e (report :: reports)
    | .ok (e, none) =>
      if e.pass.isSome then drive l fuel (if e.inFlight.isEmpty then e else e.awaitScript) reports
      else if !e.store.hasPending then .ok ({ e with phase := .idle }, reports.reverse)
      else
        match e.store.queue.wait? e.clock.now e.config.settleWindow with
        | some time => drive l fuel (e.sleep time) reports
        | none => drive l fuel e reports

/-- The number of steps after which a run is given up. -/
def runFuel : Nat := 1000000

/-- Lets all scripts that were dispatched before arrive. -/
def arriveAll (e : Engine) : Engine :=
  { e with workTime := e.arriving.foldl (fun t a => max t a.due) e.workTime }

/-- Runs until no writes, seeds or scripts in flight remain. -/
def runUntilIdle (l : Language) (e : Engine) : Except Stop (Engine × List Report) :=
  drive l runFuel e.arriveAll []

/-- Seeds every cell and runs until nothing is left to do. -/
def runAll (l : Language) (e : Engine) : Except Stop (Engine × List Report) :=
  (e.seedAll (e.cells.map (·.id))).runUntilIdle l

end Engine

end ReactiveNotebook
