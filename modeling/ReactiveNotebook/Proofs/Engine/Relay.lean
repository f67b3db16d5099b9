import ReactiveNotebook.Proofs.Engine.Begin
import ReactiveNotebook.Proofs.Engine.Tick
import ReactiveNotebook.Proofs.Store.Notices

/-!
# What reaches the queue during a tick

A pass commits and clears variables, and so do edits. While they work, the queue of host writes receives what
subscribers write who are told, and nothing is taken from it. The clock stands still meanwhile, and the number of
passes grows only where a pass begins.
-/
namespace ReactiveNotebook

variable {l : Language}

namespace Engine

/-- The queue has received what subscribers write, and nothing else; no pass has begun. -/
structure Relays (e e' : Engine) : Prop where
  clock : e'.clock = e.clock
  generation : e'.generation = e.generation
  notices : ∃ notices, Store.Echoes e.clock.now notices e.store e'.store

variable {e e' e'' : Engine} {w : PendingWrite}

lemma Relays.of_store (hclock : e'.clock = e.clock) (hgeneration : e'.generation = e.generation)
    (hstore : e'.store = e.store) : e.Relays e' :=
  ⟨hclock, hgeneration, [], hstore ▸ .refl _ _⟩

@[refl] lemma Relays.refl (e : Engine) : e.Relays e := .of_store rfl rfl rfl

lemma Relays.trans (h : e.Relays e') (h' : e'.Relays e'') : e.Relays e'' where
  clock := h'.clock.trans h.clock
  generation := h'.generation.trans h.generation
  notices := by
    obtain ⟨notices, hfirst⟩ := h.notices
    obtain ⟨notices', hsecond⟩ := h'.notices
    exact ⟨_, hfirst.trans (h.clock ▸ hsecond)⟩

lemma Relays.mute (h : e.Relays e') (he : e.store.Mute) : e'.store.Mute ∧ e'.store.queue = e.store.queue := by
  obtain ⟨notices, hechoes⟩ := h.notices
  exact hechoes.mute he

lemma relays_takeWrite (e : Engine) (w : PendingWrite) : e.Relays (e.takeWrite w) := by
  have hcommit : ∃ notices, Store.Echoes e.clock.now notices e.store
      (e.store.commit w.name (.value w.value) e.clock.now).1 := Store.echoes_commit
  unfold takeWrite
  dsimp only
  split <;> exact ⟨rfl, rfl, hcommit⟩

lemma relays_foldl_takeWrite (ws : List PendingWrite) (e : Engine) : e.Relays (ws.foldl takeWrite e) := by
  induction ws generalizing e with
  | nil => rfl
  | cons w ws ih => exact (relays_takeWrite e w).trans (ih _)

/-- Unless subscribers write, the queue is empty after a burst has been taken over. -/
lemma mute_collect (he : e.store.Mute) : e.collect.store.Mute ∧
    e.collect.store.queue = if e.store.queue.isSettled e.clock.now e.config.settleWindow = true then
      e.store.queue.drained else e.store.queue := by
  unfold collect
  split
  · exact (relays_foldl_takeWrite _ _).mute he
  · exact ⟨he, rfl⟩

lemma relays_clearVariable (e : Engine) (name : String) (drop : Bool) : e.Relays (e.clearVariable name drop).1 :=
  ⟨rfl, rfl, Store.echoes_clear⟩

lemma relays_vacate (drop : Bool) (id : CellId) (e : Engine) (name : String) : e.Relays (vacate drop id e name) := by
  unfold vacate
  split
  · rfl
  · refine Relays.trans ?_ (relays_clearVariable _ name drop)
    exact .of_store rfl rfl rfl

lemma relays_foldl_vacate (drop : Bool) (id : CellId) (names : List String) (e : Engine) :
    e.Relays (names.foldl (vacate drop id) e) := by
  induction names generalizing e with
  | nil => rfl
  | cons name names ih => exact (relays_vacate drop id e name).trans (ih _)

lemma Edit.relays (h : Edit e e') : e.Relays e' := by
  cases h with
  | add h =>
    obtain ⟨-, -, -, rfl⟩ := addCell_ok h
    exact .of_store rfl rfl rfl
  | remove h =>
    obtain ⟨c, -, -, rfl⟩ := removeCell_ok h
    refine Relays.trans ?_ (relays_foldl_vacate true _ _ _)
    exact .of_store rfl rfl rfl
  | content h =>
    obtain ⟨c, -, ⟨-, rfl⟩ | ⟨-, rfl⟩⟩ := setContent_ok h <;> exact .of_store rfl rfl rfl
  | move h =>
    obtain ⟨old, c, -, -, -, ⟨-, rfl⟩ | ⟨-, rfl⟩⟩ := moveCell_ok h <;> exact .of_store rfl rfl rfl
  | @rename id name e' h =>
    obtain ⟨c, old, -, -, -, ⟨-, rfl⟩ | ⟨-, rfl⟩⟩ := renameVariable_ok h
    · rfl
    · have hrename : e.Relays ((e.withOutput id name).seed id) := .of_store rfl rfl rfl
      exact (hrename.trans (relays_vacate false id _ old)).trans (.of_store rfl rfl rfl)

end Engine

namespace Stage

variable {s s' : Stage} {a : Arrival} {c : Cell} {id source : CellId} {name : String} {slot : Slot} {fault : Fault}
variable {v : Verdict} {names : Names} {fuel : ℕ}

lemma relays_commit : s.engine.Relays (s.commit name slot).engine := ⟨rfl, rfl, Store.echoes_commit⟩

/-- What each operation of a sequence relays the sequence relays. -/
lemma relays_foldl {α : Type} {f : Stage → α → Stage} (hf : ∀ (s : Stage) a, s.engine.Relays (f s a).engine) (xs : List α)
    (s : Stage) : s.engine.Relays (xs.foldl f s).engine := by
  induction xs generalizing s with
  | nil => rfl
  | cons x xs ih => exact (hf s x).trans (ih _)

lemma relays_mark : s.engine.Relays (s.mark c fault).engine := by
  have hcommit : ∀ (s : Stage) name, s.engine.Relays (s.commit name (.error fault)).engine := fun _ _ => relays_commit
  unfold mark
  refine Engine.Relays.trans ?_ (relays_foldl hcommit _ _)
  exact .of_store rfl rfl rfl

lemma relays_block (s : Stage) (id : CellId) : s.engine.Relays (s.block id).engine := by
  unfold block
  split
  · rfl
  · exact relays_mark

lemma relays_conclude : s.engine.Relays (s.conclude l c v).engine := by
  cases v with
  | fault f => exact relays_mark
  | value output value => exact relays_commit.trans (.of_store rfl rfl rfl)
  | text text => exact .of_store rfl rfl rfl
  | script source inputs => exact .of_store rfl rfl rfl

lemma relays_runCell (h : s.runCell l id = .ok s') : s.engine.Relays s'.engine := by
  cases turn_of_runCell h with
  | gone _ => rfl
  | unchanged _ _ => rfl
  | evaluated _ _ _ => exact relays_conclude

lemma relays_retract : s.engine.Relays (retract id s name).engine := by
  unfold retract
  split
  · rfl
  · exact s.engine.relays_clearVariable name false

lemma relays_adopt {exports : Script.Fields} : s.engine.Relays (s.adopt c exports).engine :=
  (relays_foldl (fun _ _ => relays_commit) exports s).trans
    ((relays_foldl (fun _ _ => relays_retract) _ _).trans (.of_store rfl rfl rfl))

lemma relays_extend (s : Stage) (source : CellId) (names : Names) :
    s.engine.Relays (s.extend source names).engine :=
  relays_foldl relays_block (s.looped source names) (s.enlarge source names)

lemma relays_accept {exports : Script.Fields} : s.engine.Relays (s.accept c exports).engine := by
  rcases accept_cases s c exports with ⟨-, heq⟩ | heq <;> rw [heq]
  · exact relays_adopt
  · have hrebuild : (s.adopt c exports).engine.Relays (s.readopt c exports).engine := .of_store rfl rfl rfl
    exact relays_adopt.trans (hrebuild.trans (relays_extend _ c.id (novel c exports)))

lemma relays_receive (s : Stage) (a : Arrival) : s.engine.Relays (s.receive a).engine := by
  have hland : s.engine.Relays (s.land a.cell).engine := .of_store rfl rfl rfl
  have hkeep : ∀ logs, s.engine.Relays ((s.land a.cell).keepLogs a.cell logs).engine :=
    fun _ => .of_store rfl rfl rfl
  have hlanding := landing_receive s a
  generalize s.receive a = t at hlanding
  cases hlanding with
  | stale _ =>
    obtain ⟨completed, results, heq⟩ := dismiss_shape (s.land a.cell) a.cell
    rw [heq]
    exact hland
  | again _ _ => exact hland
  | failed _ _ _ => exact (hkeep _).trans relays_mark
  | accepted _ _ _ => exact (hkeep _).trans relays_accept

lemma Move.relays (h : s.Move l s') : s.engine.Relays s'.engine := by
  cases h with
  | @start i id s' _ _ _ hrun =>
    have hwithdraw : s.engine.Relays (s.withdraw i).engine := .refl _
    exact hwithdraw.trans (relays_runCell hrun)
  | @receive a rest _ =>
    have hdeliver : s.engine.Relays (s.deliver rest).engine := .of_store rfl rfl rfl
    exact hdeliver.trans (relays_receive _ a)

lemma relays_drainFor (fuel : ℕ) (s : Stage) : s.engine.Relays (s.drainFor fuel).engine := by
  induction fuel generalizing s with
  | zero => rfl
  | succ fuel ih =>
    rw [drainFor]
    split
    · rfl
    · split
      · rfl
      · next a _ _ =>
        have hdeliver : s.engine.Relays (s.deliver (withoutArrival s.engine.arriving a)).engine :=
          .of_store rfl rfl rfl
        exact hdeliver.trans ((relays_receive _ a).trans (ih _))

lemma relays_runReadyFor (h : s.runReadyFor l fuel = .ok s') : s.engine.Relays s'.engine := by
  induction fuel generalizing s with
  | zero =>
    cases h
    rfl
  | succ fuel ih =>
    rcases runReadyFor_succ l fuel s with ⟨hstop, -⟩ | ⟨i, id, -, -, -, hstart⟩
    · cases hstop.symm.trans h
      rfl
    · rw [hstart] at h
      cases hrun : (s.withdraw i).runCell l id with
      | error cause => rw [hrun] at h; cases h
      | ok t =>
        have hwithdraw : s.engine.Relays (s.withdraw i).engine := .refl _
        exact hwithdraw.trans ((relays_runCell hrun).trans (ih (by rwa [hrun] at h)))

end Stage

namespace Engine

variable {e e' : Engine} {s : Stage} {report : Option Report}

lemma relays_beginPass (e : Engine) : e.openPass.engine.Relays e.beginPass.engine :=
  Stage.relays_foldl Stage.relays_block e.blocked e.openPass

lemma mute_beginPass (he : e.store.Mute) :
    e.beginPass.engine.store.Mute ∧ e.beginPass.engine.store.queue = e.store.queue :=
  (relays_beginPass e).mute he

lemma relays_advance (h : advance l s = .ok (e', report)) : s.engine.Relays e' := by
  obtain ⟨t, hrun, hcase⟩ := advance_cases h
  have hwork : s.engine.Relays t.engine := (Stage.relays_drainFor _ s).trans (Stage.relays_runReadyFor hrun)
  rcases hcase with ⟨-, -, rfl, -⟩ | ⟨-, rfl, -⟩ <;> exact hwork.trans (.of_store rfl rfl rfl)

/-- Waiting for a script takes over results that have arrived then. -/
lemma relays_awaitScript (e : Engine) : e.Relays e.awaitScript := by
  unfold awaitScript
  split
  · rfl
  · next p _ =>
    change e.Relays (Stage.await (e.resume p)).suspend
    unfold Stage.await
    split
    · exact .of_store rfl rfl rfl
    · next a _ =>
      have hwait : e.Relays { (e.resume p).engine with workTime := max (e.resume p).engine.workTime a.due } :=
        .of_store rfl rfl rfl
      exact (hwait.trans (Stage.relays_drainFor _ ⟨_, p⟩)).trans (.of_store rfl rfl rfl)

/-- Moves the pass on. Without a pass one begins if there are seeds. -/
def proceed (l : Language) (e : Engine) : Except Panic (Engine × Option Report) :=
  match e.pass with
  | some pass => advance l (e.resume pass)
  | none =>
    if e.seeds.toList.isEmpty then .ok ({ e with phase := if e.store.hasPending then .collecting else .idle }, none)
    else advance l e.beginPass

/-- A tick takes a burst over if no pass is in progress and one has settled, and then proceeds. -/
lemma tick_eq (l : Language) (e : Engine) : e.tick l = (if e.pass.isNone then e.collect else e).proceed l := by
  unfold tick proceed
  cases hp : e.pass with
  | some p => simp only [Option.isNone_some, Bool.false_eq_true, if_false, hp, resume]
  | none => simp only [Option.isNone_none, if_true, pass_collect, hp]

/-- While the scheduler proceeds, the queue receives what subscribers write, and one pass begins at most. -/
theorem echoes_of_proceed (h : e.proceed l = .ok (e', report)) : e'.clock = e.clock ∧
    e'.generation ≤ e.generation + 1 ∧ ∃ notices, Store.Echoes e.clock.now notices e.store e'.store := by
  unfold proceed at h
  split at h
  · next p hp =>
    have hwork := relays_advance h
    exact ⟨hwork.clock, hwork.generation.trans_le (Nat.le_succ _), hwork.notices⟩
  · split at h
    · cases h
      exact ⟨rfl, Nat.le_succ _, [], .refl _ _⟩
    · have hwork := (relays_beginPass e).trans (relays_advance h)
      exact ⟨hwork.clock, hwork.generation.le, hwork.notices⟩

end Engine

end ReactiveNotebook
