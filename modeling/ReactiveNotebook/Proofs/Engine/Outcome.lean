import ReactiveNotebook.Proofs.Engine.Arrival

/-!
# What an evaluation comes to

What the evaluation of a cell leaves in the cell and commits depends on the cell and on the slots of the
variables it reads, once the run of a script is taken to be known. Commits act on every variable by themselves:
what it holds afterwards follows from what it held before.
-/
namespace ReactiveNotebook

open Script (Fields)

variable {l : Language}

/-- What becomes of a slot, and of whether its variable counts as changed, when commits are made. -/
def replay (commits : List (String × Slot)) (name : String) (held : Slot × Bool) : Slot × Bool :=
  commits.foldl (fun held p => if name = p.1 then (p.2, held.2 || !held.1.same p.2) else held) held

lemma replay_of_not_mem {commits : List (String × Slot)} {name : String} {held : Slot × Bool}
    (h : ∀ p ∈ commits, p.1 ≠ name) : replay commits name held = held := by
  induction commits generalizing held with
  | nil => rfl
  | cons p ps ih =>
    rw [replay, List.foldl_cons, if_neg (h p List.mem_cons_self).symm]
    exact ih fun q hq => h q (List.mem_cons_of_mem _ hq)

namespace Stage

variable {s t : Stage} {c : Cell} {id : CellId} {fault : Fault} {name v : String} {slot : Slot} {outcome : Outcome}

/-- The committed slot of a variable, and whether the variable counts as changed in the pass. -/
def holds (s : Stage) (name : String) : Slot × Bool := (s.engine.get name, s.pass.changed.contains name)

def commitAll (s : Stage) (commits : List (String × Slot)) : Stage :=
  commits.foldl (fun s p => s.commit p.1 p.2) s

lemma holds_commit : (s.commit name slot).holds v =
    if v = name then (slot, (s.holds v).2 || !(s.holds v).1.same slot) else s.holds v := by
  simp only [holds, get_commit, changed_commit]
  by_cases hv : v = name
  · subst hv
    simp only [if_true, Prod.mk.injEq, true_and]
    cases hsame : (s.engine.get v).same slot with
    | true => simp
    | false => simp [Names.contains_iff, Names.mem_insert]
  · simp only [if_neg hv, Prod.mk.injEq, true_and]
    split
    · rfl
    · rw [Bool.eq_iff_iff, Names.contains_iff, Names.contains_iff, Names.mem_insert]
      simp [hv]

/-- Commits act on each variable by themselves. -/
lemma holds_commitAll (commits : List (String × Slot)) (s : Stage) :
    (s.commitAll commits).holds v = replay commits v (s.holds v) := by
  induction commits generalizing s with
  | nil => rfl
  | cons p ps ih =>
    change ((s.commit p.1 p.2).commitAll ps).holds v = replay ps v _
    rw [ih, holds_commit]

@[simp] lemma holds_modifyCell {f : Cell → Cell} : (s.modifyCell id f).holds v = s.holds v := rfl
@[simp] lemma holds_finish : (s.finish id outcome).holds v = s.holds v := rfl
@[simp] lemma holds_succeed : (s.succeed id).holds v = s.holds v := rfl

lemma silent_commitAll (commits : List (String × Slot)) (s : Stage) :
    s.engine.store.Silent (s.commitAll commits).engine.store := by
  induction commits generalizing s with
  | nil => exact .refl _
  | cons p ps ih => exact Store.silent_commit.trans (ih (s.commit p.1 p.2))

end Stage

namespace Cell

variable {c : Cell} {view view' : String → Slot} {p : Cell × List (String × Slot)}

/-- The commits that pass a fault on to all that a cell writes. -/
def faults (c : Cell) (fault : Fault) : List (String × Slot) :=
  c.writes.names.toList.map fun name => (name, .error fault)

/-- What the run of its script leaves in a cell, and what it commits. -/
def withRun (c : Cell) : Except String Fields × List String → Cell × List (String × Slot)
  | (.ok exports, logs) =>
    ({ c with logs, writes := .confirmed (Names.ofList (exports.map (·.1))), status := .ok },
      exports.map fun p => (p.1, .value p.2))
  | (.error message, logs) =>
    (({ c with logs } : Cell).withVerdict (.fault (.execution c.id message)), c.faults (.execution c.id message))

/-- What a verdict leaves in a cell, and what it commits. A script is run. -/
def afterVerdict (l : Language) (c : Cell) : Verdict → Cell × List (String × Slot)
  | .fault fault => (c.withVerdict (.fault fault), c.faults fault)
  | .value output value => (c.withVerdict (.value output value), [(output, .value value)])
  | .text text => (c.withVerdict (.text text), [])
  | .script source inputs => c.withRun (Stage.settle (l.run source inputs []))

/-- What the evaluation of a cell leaves in it, and what it commits. -/
def outcome (l : Language) (view : String → Slot) (c : Cell) : Except Panic (Cell × List (String × Slot)) :=
  (c.verdict l view).map (c.afterVerdict l)

lemma outcome_congr (h : ∀ x ∈ c.reads, view x = view' x) : c.outcome l view = c.outcome l view' := by
  rw [outcome, outcome, verdict_congr h]

lemma id_withRun {r : Except String Fields × List String} : (c.withRun r).1.id = c.id := by
  rcases r with ⟨_ | _, _⟩ <;> rfl

lemma id_of_outcome (h : c.outcome l view = .ok p) : p.1.id = c.id := by
  unfold outcome at h
  cases hv : c.verdict l view with
  | error _ => rw [hv] at h; cases h
  | ok v =>
    rw [hv] at h
    cases h
    cases v with
    | script source inputs => exact id_withRun
    | _ => rfl

end Cell

namespace Stage

variable {s s' t : Stage} {a : Arrival} {c d : Cell} {id : CellId} {fault : Fault} {v : String} {verdict : Verdict}
variable {exports : Fields} {logs : List String} {names : Names}

lemma mark_eq : s.mark c fault = (s.modifyCell c.id (Cell.withVerdict (.fault fault))).commitAll (c.faults fault) := by
  rw [commitAll, Cell.faults, List.foldl_map]
  rfl

lemma holds_fail : (s.fail c fault).holds v = replay (c.faults fault) v (s.holds v) := by
  rw [fail, holds_finish, mark_eq, holds_commitAll, holds_modifyCell]

/-- A verdict that runs no script makes its commits. -/
lemma holds_conclude (h : ∀ source inputs, verdict ≠ .script source inputs) :
    (s.conclude l c verdict).holds v = replay (c.afterVerdict l verdict).2 v (s.holds v) := by
  cases verdict with
  | fault fault => exact holds_fail
  | value output value => exact holds_commit
  | text text => rfl
  | script source inputs => exact absurd rfl (h source inputs)

lemma inFlight_conclude (h : ∀ source inputs, verdict ≠ .script source inputs) :
    (s.conclude l c verdict).engine.inFlight = s.engine.inFlight := by
  cases verdict with
  | fault fault => exact congrArg (·.engine.inFlight) (control_fail (s := s))
  | value output value => rfl
  | text text => rfl
  | script source inputs => exact absurd rfl (h source inputs)

/-- A script that exports exactly what it was known to write drops nothing. -/
lemma adopt_eq (h : c.writes.names = Names.ofList (exports.map (·.1))) :
    s.adopt c exports = ((s.commitAll (exports.map fun p => (p.1, .value p.2))).modifyCell c.id fun d =>
      { d with writes := .confirmed (Names.ofList (exports.map (·.1))) }).succeed c.id := by
  have hnone : (c.writes.names.toList.filter fun name => !(Names.ofList (exports.map (·.1))).contains name) = [] := by
    refine List.filter_eq_nil_iff.mpr fun name hname => ?_
    have hmem : name ∈ c.writes.names := hname
    rw [h] at hmem
    simp [Names.contains_iff.mpr hmem]
  unfold adopt
  dsimp only
  rw [hnone, commitAll, List.foldl_map]
  rfl

lemma toList_novel (h : c.writes.names = Names.ofList (exports.map (·.1))) : (novel c exports).toList = [] := by
  refine List.eq_nil_iff_forall_not_mem.mpr fun name hname => ?_
  obtain ⟨hmem, hnew⟩ := mem_novel.mp hname
  exact hnew (h ▸ hmem)

lemma downstream_eq_nil (hn : names.toList = []) : s.downstream id names = [] := by
  unfold downstream
  rw [hn]
  rfl

/-- Without new names no cell is marked, and all that the pass knows of values stays as it is. -/
lemma extend_eq_enlarge (hs : s.Tidy) (hacyclic : ∀ x ∈ s.pass.remaining, ¬ s.engine.graph.OnCycle x)
    (hn : names.toList = []) : s.extend id names = s.enlarge id names := by
  have hnone : ((s.pending id names).toList.filter fun x => (s.engine.graph.cycleOf? x).isSome) = [] := by
    refine List.filter_eq_nil_iff.mpr fun x hx hsome => ?_
    have hwaits : x ∈ s.pass.remaining := by
      refine (mem_pending.mp hx).resolve_right fun hx => ?_
      rw [downstream_eq_nil hn] at hx
      cases hx.1
    exact hacyclic x hwaits (hs.cycleOf?_isSome_iff.mp hsome)
  rw [extend_eq, hnone]
  rfl

end Stage

/-- Deriving the graph anew changes nothing if the graph is right and so are all marks. -/
lemma Engine.rebuild_eq {e : Engine} (hg : Graph.build e.cells = e.graph)
    (hm : ∀ c ∈ e.cells, c.status.isCycle = (e.graph.cycleOf? c.id).isSome) : e.rebuild = e := by
  have hnone : (e.cells.filter fun c => c.status.isCycle != (e.graph.cycleOf? c.id).isSome) = [] := by
    refine List.filter_eq_nil_iff.mpr fun c hc => ?_
    simp [hm c hc]
  unfold rebuild
  dsimp only
  rw [hg, hnone]
  rfl

end ReactiveNotebook
