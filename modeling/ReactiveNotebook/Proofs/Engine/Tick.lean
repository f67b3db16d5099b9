import ReactiveNotebook.Proofs.Engine.Step

/-!
# Ticks and runs are sequences of steps

What a tick or a run does is made of the steps of an engine, so all that holds along steps holds along calls
of the engine, in whatever order they are made.
-/
namespace ReactiveNotebook

open Relation (ReflTransGen TransGen)

variable {l : Language}

namespace Stage

variable {s s' : Stage} {a : Arrival} {as : List Arrival} {fuel : ℕ}

lemma earliest?_mem (h : earliest? as = some a) : a ∈ as := by
  induction as generalizing a with
  | nil => simp [earliest?] at h
  | cons b as ih =>
    rw [earliest?] at h
    split at h
    · cases h
      exact List.mem_cons_self
    · next c hc =>
      split at h <;> cases h
      · exact List.mem_cons_of_mem _ (ih hc)
      · exact List.mem_cons_self

/-- Taking one result from those under way. -/
lemma perm_withoutArrival (hn : (as.map (·.cell)).Nodup) (ha : a ∈ as) :
    as.Perm (a :: withoutArrival as a) := by
  obtain ⟨b, before, after, -, hb, heq, herase⟩ :=
    List.exists_of_eraseP (p := fun b : Arrival => b.cell == a.cell && b.due == a.due) ha (by simp)
  simp only [Bool.and_eq_true, beq_iff_eq] at hb
  have hba : b = a := List.inj_on_of_nodup_map hn (heq ▸ by simp) ha hb.1
  rw [withoutArrival, herase, heq, hba]
  exact List.perm_middle

lemma Tidy.nodup_arriving (h : s.Tidy) : (s.engine.arriving.map (·.cell)).Nodup := by
  have hn := (h.flights.map Prod.fst).nodup_iff.mpr h.single
  simpa [Function.comp_def] using hn

lemma moves_drainFor (h : s.Tidy) : ReflTransGen (Move l) s (s.drainFor fuel) := by
  induction fuel generalizing s with
  | zero => exact .refl
  | succ fuel ih =>
    rw [drainFor]
    split
    · exact .refl
    · next a ha =>
      split
      · exact .refl
      · have hmove : s.Move l ((s.deliver (withoutArrival s.engine.arriving a)).receive a) :=
          .receive (perm_withoutArrival h.nodup_arriving (earliest?_mem ha))
        exact .head hmove (ih (h.move hmove))

/-- A result that has arrived is taken over first. -/
lemma exists_drain_eq (ha : earliest? s.engine.arriving = some a) (hdue : a.due ≤ s.engine.workTime) :
    ∃ n, s.drain = drainFor n ((s.deliver (withoutArrival s.engine.arriving a)).receive a) := by
  obtain ⟨n, hn⟩ := Nat.exists_eq_succ_of_ne_zero (List.length_pos_of_mem (earliest?_mem ha)).ne'
  refine ⟨n, ?_⟩
  rw [drain, hn, drainFor]
  simp only [ha]
  exact if_neg (Nat.not_lt.mpr hdue)

/-- Either no cell can be started, or one is started and then others. -/
lemma runReadyFor_succ (l : Language) (fuel : ℕ) (s : Stage) :
    s.runReadyFor l (fuel + 1) = .ok s ∧ (s.pass.remaining = [] ∨ s.engine.inFlight ≠ []) ∨
      ∃ i id, (s.engine.config.parallelScripts = true ∨ s.engine.inFlight = []) ∧ s.next? = some i ∧
        s.pass.remaining[i]? = some id ∧
        s.runReadyFor l (fuel + 1) = ((s.withdraw i).runCell l id).bind (runReadyFor l fuel) := by
  rw [runReadyFor]
  split
  · next hbusy => exact .inl ⟨rfl, .inr (by simp_all)⟩
  · next hfree =>
    split
    · next hnone =>
      refine .inl ⟨rfl, ?_⟩
      by_contra! hleft
      obtain ⟨i, id, hi, hid⟩ := exists_next hleft.2 hleft.1
      simp [hi, hid] at hnone
    · next i id hnext =>
      obtain ⟨j, hj, hid⟩ := Option.bind_eq_some_iff.mp hnext
      obtain ⟨x, hx, hpair⟩ := Option.map_eq_some_iff.mp hid
      cases hpair
      exact .inr ⟨i, id, by simpa [imp_iff_not_or] using hfree, hj, hx, rfl⟩

lemma moves_runReadyFor (h : s.runReadyFor l fuel = .ok s') : ReflTransGen (Move l) s s' := by
  induction fuel generalizing s with
  | zero =>
    cases h
    exact .refl
  | succ fuel ih =>
    rcases runReadyFor_succ l fuel s with ⟨hstop, -⟩ | ⟨i, id, hfree, hi, hid, hstart⟩
    · cases hstop.symm.trans h
      exact .refl
    · rw [hstart] at h
      cases hrun : (s.withdraw i).runCell l id with
      | error cause => rw [hrun] at h; cases h
      | ok t => exact .head (.start hfree hi hid hrun) (ih (by rwa [hrun] at h))

/-- When no more cells are started, a script is in flight or no cell waits. -/
lemma exhausted_of_runReadyFor (h : s.runReadyFor l fuel = .ok s') (hfuel : s.pass.remaining.length ≤ fuel) :
    s'.pass.remaining = [] ∨ s'.engine.inFlight ≠ [] := by
  induction fuel generalizing s with
  | zero =>
    cases h
    exact .inl (List.length_eq_zero_iff.mp (Nat.le_zero.mp hfuel))
  | succ fuel ih =>
    rcases runReadyFor_succ l fuel s with ⟨hstop, hleft⟩ | ⟨i, id, -, -, hid, hstart⟩
    · cases hstop.symm.trans h
      exact hleft
    · rw [hstart] at h
      cases hrun : (s.withdraw i).runCell l id with
      | error cause => rw [hrun] at h; cases h
      | ok t =>
        refine ih (by rwa [hrun] at h) ?_
        obtain ⟨hlt, -⟩ := List.getElem?_eq_some_iff.mp hid
        have hlength : (s.withdraw i).pass.remaining.length = s.pass.remaining.length - 1 :=
          List.length_eraseIdx_of_lt hlt
        rw [remaining_of_runCell hrun]
        omega

lemma engine_pass_of_moves (h : ReflTransGen (Move l) s s') : s'.engine.pass = s.engine.pass := by
  induction h with
  | refl => rfl
  | tail _ hm ih => exact hm.engine_pass.trans ih

end Stage

namespace Engine

variable {e e' f : Engine} {s s' : Stage} {report : Option Report} {reports reports' : List Report} {fuel : ℕ}

/-- A step of a run. Within a pass any cell may be started and any result may arrive that the scheduler admits,
whatever time the scripts take. -/
inductive Proceeds (l : Language) (e : Engine) : Engine → Prop
  /-- A pass begins, after a burst of host writes has been taken over if one has settled. -/
  | begin (hp : e.pass = none) (hs : e.collect.seeds.toList ≠ []) : Proceeds l e e.collect.beginPass.suspend
  /-- A burst is taken over that no cell reads. -/
  | collect {phase : Phase} (hp : e.pass = none)
      (hq : e.store.queue.isSettled e.clock.now e.config.settleWindow = true) (hs : e.collect.seeds.toList = []) :
      Proceeds l e { e.collect with phase }
  /-- Time passes until the burst has settled. -/
  | wait {phase : Phase} {time : ℕ} (hp : e.pass = none) (hs : e.seeds.toList = [])
      (hw : e.store.queue.wait? e.clock.now e.config.settleWindow = some time) :
      Proceeds l e (sleep { e with phase } time)
  | move {p : Pass} {s : Stage} {time : ℕ} (hp : e.pass = some p)
      (hm : (resume { e with workTime := time } p).Move l s) : Proceeds l e s.suspend
  | finish {p : Pass} (hp : e.pass = some p) (hr : p.remaining = []) (hf : e.inFlight = []) :
      Proceeds l e (endPass (e.resume p)).1

/-- Nothing is left to do. -/
structure AtRest (e : Engine) : Prop where
  rest : e.pass = none
  seeds : e.seeds.toList = []
  pending : e.store.queue.pending = []

lemma collect_of_not_settled (hq : e.store.queue.isSettled e.clock.now e.config.settleWindow = false) :
    e.collect = e := by
  unfold Engine.collect
  rw [hq]
  rfl

lemma exists_wait?_of_not_settled {now window : ℕ} {q : WriteQueue} (hp : q.pending ≠ [])
    (h : q.isSettled now window = false) : ∃ time, q.wait? now window = some time := by
  cases hw : q.wait? now window with
  | none => simp [WriteQueue.isSettled, hw, hp] at h
  | some time => exact ⟨time, rfl⟩

/-- What a run does the engine may do, and nothing of it is an edit. -/
lemma Proceeds.ongoing (h : Proceeds l e f) : ReflTransGen (Ongoing l) e f := by
  cases h with
  | begin hp _ => exact .tail (.single (.collect hp)) (.begin (pass_collect.trans hp))
  | @collect phase hp _ _ => exact .tail (.single (.collect hp)) (.host (.phase phase))
  | @wait phase time _ _ _ => exact .tail (.single (.host (.phase phase))) (.host (.sleep time))
  | @move p s time hp hm => exact .tail (.single (.host (.work time))) (.move hp hm)
  | finish hp hr hf => exact .single (.finish hp hr hf)

lemma ongoing_of_proceeds (h : ReflTransGen (Proceeds l) e f) : ReflTransGen (Ongoing l) e f := by
  induction h with
  | refl => exact .refl
  | tail _ hp ih => exact ih.trans hp.ongoing

lemma steps_of_ongoing (h : ReflTransGen (Ongoing l) e f) : ReflTransGen (Step l) e f :=
  ReflTransGen.mono (fun _ _ => Ongoing.step) _ _ h

lemma steps_of_proceeds (h : ReflTransGen (Proceeds l) e f) : ReflTransGen (Step l) e f :=
  steps_of_ongoing (ongoing_of_proceeds h)

lemma tidy_of_proceeds (h : ReflTransGen (Proceeds l) e f) (ht : e.Tidy) : f.Tidy :=
  steps_tidy (steps_of_proceeds h) ht

lemma Proceeds.of_move (hm : s.Move l s') (hp : s.engine.pass = none) : Proceeds l s.suspend s'.suspend := by
  have hresume : resume { s.suspend with workTime := s.engine.workTime } s.pass = s := resume_suspend hp
  rw [← hresume] at hm
  exact .move rfl hm

lemma proceeds_of_moves (h : ReflTransGen (Stage.Move l) s s') (hp : s.engine.pass = none) :
    ReflTransGen (Proceeds l) s.suspend s'.suspend := by
  induction h with
  | refl => exact .refl
  | tail hst hm ih => exact ih.tail (.of_move hm ((Stage.engine_pass_of_moves hst).trans hp))

lemma suspend_resume {p : Pass} (hp : e.pass = some p) : (e.resume p).suspend = e := by
  unfold resume Stage.suspend
  rw [← hp]

/-- What moves a pass on either completes it or leaves the engine with it. -/
lemma advance_cases (h : advance l s = .ok (e', report)) : ∃ t, s.drain.runReady l = .ok t ∧
    (t.pass.remaining = [] ∧ t.engine.inFlight = [] ∧ e' = (endPass t).1 ∧ report.isSome = true ∨
      ¬ (t.pass.remaining = [] ∧ t.engine.inFlight = []) ∧ e' = t.suspend ∧ report = none) := by
  unfold advance at h
  cases hrun : s.drain.runReady l with
  | error cause => simp [hrun, bind, Except.bind] at h
  | ok t =>
    refine ⟨t, rfl, ?_⟩
    simp only [hrun, bind, Except.bind, pure, Except.pure, Bool.and_eq_true, List.isEmpty_iff] at h
    split at h
    · next hdone =>
      cases h
      exact .inl ⟨hdone.1, hdone.2, rfl, rfl⟩
    · next hopen =>
      cases h
      exact .inr ⟨hopen, rfl, rfl⟩

lemma moves_runReady {t : Stage} (hs : s.Tidy) (h : s.drain.runReady l = .ok t) : ReflTransGen (Stage.Move l) s t :=
  (Stage.moves_drainFor hs).trans (Stage.moves_runReadyFor h)

/-- What completes a pass takes at least the step that ends it. -/
lemma completes_advance {r : Report} (hs : s.Tidy) (hp : s.engine.pass = none)
    (h : advance l s = .ok (e', some r)) : TransGen (Proceeds l) s.suspend e' := by
  obtain ⟨t, hrun, ⟨hr, hf, rfl, -⟩ | ⟨-, -, hnone⟩⟩ := advance_cases h
  · have hmoves := moves_runReady hs hrun
    have ht : t.engine.pass = none := (Stage.engine_pass_of_moves hmoves).trans hp
    have hfinish : Proceeds l t.suspend (endPass (t.suspend.resume t.pass)).1 := .finish rfl hr hf
    rw [resume_suspend ht] at hfinish
    exact .tail' (proceeds_of_moves hmoves hp) hfinish
  · cases hnone

lemma proceeds_advance (hs : s.Tidy) (hp : s.engine.pass = none) (h : advance l s = .ok (e', report)) :
    ReflTransGen (Proceeds l) s.suspend e' := by
  cases report with
  | some r => exact (completes_advance hs hp h).to_reflTransGen
  | none =>
    obtain ⟨t, hrun, ⟨-, -, -, hreport⟩ | ⟨-, rfl, -⟩⟩ := advance_cases h
    · cases hreport
    · exact proceeds_of_moves (moves_runReady hs hrun) hp

/-- What moves a pass on without completing it leaves the engine with the pass. -/
lemma pass_of_advance (h : advance l s = .ok (e', none)) : e'.pass ≠ none := by
  obtain ⟨t, -, ⟨-, -, -, hreport⟩ | ⟨-, rfl, -⟩⟩ := advance_cases h
  · cases hreport
  · exact Option.some_ne_none t.pass

/-- A pass that is left waits for a script. -/
lemma inFlight_of_advance (h : advance l s = .ok (e', none)) : e'.inFlight ≠ [] := by
  obtain ⟨t, hrun, ⟨-, -, -, hreport⟩ | ⟨hopen, rfl, -⟩⟩ := advance_cases h
  · cases hreport
  · have hstop := Stage.exhausted_of_runReadyFor hrun le_rfl
    exact fun hf => hopen ⟨hstop.resolve_right (not_not_intro hf), hf⟩

/-- A tick moves a pass on, which it begins if there is none, unless no cell has a reason for one. -/
lemma tick_cases (l : Language) (ht : e.Tidy) :
    (e.pass = none ∧ e.collect.seeds.toList = [] ∧ ∃ phase, e.tick l = .ok ({ e.collect with phase }, none)) ∨
      ∃ s, ReflTransGen (Proceeds l) e s.suspend ∧ s.engine.pass = none ∧ s.Tidy ∧ e.tick l = advance l s := by
  unfold tick
  cases hp : e.pass with
  | some p =>
    refine .inr ⟨e.resume p, ?_, rfl, ht.pass p hp, rfl⟩
    rw [suspend_resume hp]
  | none =>
    have hpass : e.collect.pass = none := pass_collect.trans hp
    by_cases hs : e.collect.seeds.toList = []
    · refine .inl ⟨rfl, hs, if e.collect.store.hasPending then .collecting else .idle, ?_⟩
      dsimp only
      rw [if_pos (List.isEmpty_iff.mpr hs)]
    · refine .inr ⟨e.collect.beginPass, .single (.begin hp hs), engine_pass_beginPass.trans hpass,
        beginPass_tidy (collect_tidy ht) hpass, ?_⟩
      dsimp only
      rw [if_neg (mt List.isEmpty_iff.mp hs)]

lemma inFlight_of_tick {p : Pass} (ht : e.Tidy) (h : e.tick l = .ok (e', none)) (hp : e'.pass = some p) :
    e'.inFlight ≠ [] := by
  rcases tick_cases l ht with ⟨hnone, -, phase, htick⟩ | ⟨s, -, -, -, htick⟩
  · rw [htick] at h
    cases h
    rw [show Engine.pass _ = _ from pass_collect.trans hnone] at hp
    cases hp
  · exact inFlight_of_advance (htick ▸ h)

lemma completes_tick {r : Report} (ht : e.Tidy) (h : e.tick l = .ok (e', some r)) : TransGen (Proceeds l) e e' := by
  rcases tick_cases l ht with ⟨-, -, phase, htick⟩ | ⟨s, hruns, hpass, htidy, htick⟩
  · rw [htick] at h
    cases h
  · exact .trans_right hruns (completes_advance htidy hpass (htick ▸ h))

/-- A tick takes steps of a run, unless there is nothing to do but to wait. -/
theorem proceeds_tick (ht : e.Tidy) (h : e.tick l = .ok (e', report)) : ReflTransGen (Proceeds l) e e' ∨
    report = none ∧ e.pass = none ∧ e.seeds.toList = [] ∧
      e.store.queue.isSettled e.clock.now e.config.settleWindow = false ∧ ∃ phase, e' = { e with phase } := by
  rcases tick_cases l ht with ⟨hp, hs, phase, htick⟩ | ⟨s, hruns, hpass, htidy, htick⟩
  · rw [htick] at h
    cases h
    cases hq : e.store.queue.isSettled e.clock.now e.config.settleWindow with
    | true => exact .inl (.single (.collect hp hq hs))
    | false =>
      rw [collect_of_not_settled hq] at hs ⊢
      exact .inr ⟨rfl, hp, hs, rfl, _, rfl⟩
  · exact .inl (hruns.trans (proceeds_advance htidy hpass (htick ▸ h)))

lemma earliest?_ne_none {as : List Arrival} (h : as ≠ []) : Stage.earliest? as ≠ none := by
  obtain ⟨a, as, rfl⟩ := List.exists_cons_of_ne_nil h
  rw [Stage.earliest?]
  split
  · exact Option.some_ne_none a
  · split <;> exact Option.some_ne_none _

/-- Waiting for a script takes over the result that comes first. -/
lemma proceeds_awaitScript {p : Pass} (ht : e.Tidy) (hp : e.pass = some p) (hf : e.inFlight ≠ []) :
    TransGen (Proceeds l) e e.awaitScript := by
  have harr : e.arriving ≠ [] := fun hnil => by
    have hperm := (ht.pass p hp).flights
    rw [show (e.resume p).engine.arriving = [] from hnil] at hperm
    exact hf hperm.symm.eq_nil
  obtain ⟨a, ha⟩ := Option.ne_none_iff_exists'.mp (earliest?_ne_none harr)
  have hawait : e.awaitScript = (Stage.drain (resume { e with workTime := max e.workTime a.due } p)).suspend := by
    unfold awaitScript
    rw [hp]
    change (e.resume p).await.suspend = _
    unfold Stage.await
    rw [show Stage.earliest? (e.resume p).engine.arriving = some a from ha]
    rfl
  have hwork : Step l e { e with workTime := max e.workTime a.due } := .host (.work _)
  have htidy : (resume { e with workTime := max e.workTime a.due } p).Tidy := (hwork.tidy ht).pass p hp
  have hmove : (resume { e with workTime := max e.workTime a.due } p).Move l _ :=
    .receive (Stage.perm_withoutArrival htidy.nodup_arriving (Stage.earliest?_mem ha))
  obtain ⟨n, hn⟩ := Stage.exists_drain_eq (s := resume { e with workTime := max e.workTime a.due } p) ha
    (Nat.le_max_right ..)
  have hrest : ReflTransGen (Stage.Move l) _ (Stage.drainFor n _) := Stage.moves_drainFor (htidy.move hmove)
  rw [hawait, hn]
  exact .head' (.move hp hmove) (proceeds_of_moves hrest (hmove.engine_pass.trans rfl))

/-- One round of a run: its tick fails, or nothing is left to do, or it takes steps and another round follows. -/
lemma drive_succ (ht : e.Tidy) (fuel : ℕ) (reports : List Report) :
    (∃ cause, e.tick l = .error cause ∧ e.drive l (fuel + 1) reports = .error (.panic cause)) ∨
    (∃ u phase, ReflTransGen (Proceeds l) e u ∧ u.AtRest ∧
      e.drive l (fuel + 1) reports = .ok ({ u with phase }, reports.reverse)) ∨
    ∃ f reports', TransGen (Proceeds l) e f ∧ e.drive l (fuel + 1) reports = f.drive l fuel reports' := by
  rcases htick : e.tick l with cause | ⟨t, _ | r⟩
  · exact .inl ⟨cause, rfl, by rw [drive, htick]⟩
  · cases hp : t.pass with
    | some p =>
      have hruns : ReflTransGen (Proceeds l) e t := (proceeds_tick ht htick).resolve_right
        fun ⟨_, hnone, _, _, phase, heq⟩ => by rw [heq, hnone] at hp; cases hp
      have hf : t.inFlight ≠ [] := inFlight_of_tick ht htick hp
      refine .inr (.inr ⟨t.awaitScript, reports, .trans_right hruns (proceeds_awaitScript (tidy_of_proceeds hruns ht) hp hf), ?_⟩)
      rw [drive, htick]
      simp [hp, hf]
    | none =>
      obtain ⟨hnone, hs, phase, ht'⟩ := (tick_cases l ht).resolve_right fun ⟨s, _, _, _, h⟩ =>
        pass_of_advance (h.symm.trans htick) hp
      have hidle : t.pass.isSome = false := by rw [hp]; rfl
      rw [drive, htick]
      simp only [hidle, Bool.false_eq_true, if_false]
      cases ht'.symm.trans htick
      cases hq : e.store.queue.isSettled e.clock.now e.config.settleWindow with
      | true =>
        have hcollect : Proceeds l e { e.collect with phase } := .collect hnone hq hs
        split
        · next hpending =>
          exact .inr (.inl ⟨_, .idle, .single hcollect, ⟨hp, hs, by simpa [Store.hasPending] using hpending⟩, rfl⟩)
        · split
          · next time hw => exact .inr (.inr ⟨_, reports, .tail (.single hcollect) (.wait hp hs hw), rfl⟩)
          · exact .inr (.inr ⟨_, reports, .single hcollect, rfl⟩)
      | false =>
        -- no burst is taken over, so there is nothing to do but to wait for one that has not settled
        rw [collect_of_not_settled hq] at hs ⊢
        split
        · next hpending =>
          exact .inr (.inl ⟨e, .idle, .refl, ⟨hnone, hs, by simpa [Store.hasPending] using hpending⟩, rfl⟩)
        · next hpending =>
          have hpending : e.store.queue.pending ≠ [] := by simpa [Store.hasPending] using hpending
          obtain ⟨time, hw⟩ := exists_wait?_of_not_settled hpending hq
          simp only [hw]
          exact .inr (.inr ⟨_, reports, .single (.wait hnone hs hw), rfl⟩)
  · exact .inr (.inr ⟨t, r :: reports, completes_tick ht htick, by rw [drive, htick]⟩)

/-- A run that returns has taken steps until nothing is left to do. -/
theorem proceeds_drive (ht : e.Tidy) (h : e.drive l fuel reports = .ok (e', reports')) :
    ∃ u phase, ReflTransGen (Proceeds l) e u ∧ u.AtRest ∧ e' = { u with phase } := by
  induction fuel generalizing e reports with
  | zero => cases h
  | succ fuel ih =>
    rcases drive_succ ht fuel reports with ⟨cause, -, hdrive⟩ | ⟨u, phase, hu, hrest, hdrive⟩ | ⟨f, reports, hf, hdrive⟩
    · rw [hdrive] at h
      cases h
    · rw [hdrive] at h
      cases h
      exact ⟨u, phase, hu, hrest, rfl⟩
    · rw [hdrive] at h
      obtain ⟨u, phase, hu, hrest, rfl⟩ := ih (tidy_of_proceeds hf.to_reflTransGen ht) h
      exact ⟨u, phase, hf.to_reflTransGen.trans hu, hrest, rfl⟩

theorem steps_tick (ht : e.Tidy) (h : e.tick l = .ok (e', report)) : ReflTransGen (Step l) e e' := by
  rcases proceeds_tick ht h with hruns | ⟨-, -, -, -, phase, rfl⟩
  · exact steps_of_proceeds hruns
  · exact .single (.host (.phase phase))

lemma ongoing_runUntilIdle (ht : e.Tidy) (h : e.runUntilIdle l = .ok (e', reports)) :
    ReflTransGen (Ongoing l) e e' := by
  have hwork : Ongoing l e e.arriveAll := .host (.work _)
  obtain ⟨u, phase, hruns, -, rfl⟩ := proceeds_drive (hwork.step.tidy ht) h
  exact .head hwork ((ongoing_of_proceeds hruns).tail (.host (.phase phase)))

theorem steps_runUntilIdle (ht : e.Tidy) (h : e.runUntilIdle l = .ok (e', reports)) :
    ReflTransGen (Step l) e e' :=
  steps_of_ongoing (ongoing_runUntilIdle ht h)

/-- A run that returns leaves the engine at rest. -/
lemma atRest_of_runUntilIdle (ht : e.Tidy) (h : e.runUntilIdle l = .ok (e', reports)) : e'.AtRest := by
  have hwork : Host e e.arriveAll := .work _
  obtain ⟨u, phase, -, hrest, rfl⟩ := proceeds_drive (hwork.tidy ht) h
  exact ⟨hrest.rest, hrest.seeds, hrest.pending⟩

theorem steps_runAll (ht : e.Tidy) (h : e.runAll l = .ok (e', reports)) :
    ReflTransGen (Step l) e e' := by
  have hseed : Step l e (e.seedAll (e.cells.map (·.id))) := .host (.seed _)
  exact .head hseed (steps_runUntilIdle (hseed.tidy ht) h)

end Engine

end ReactiveNotebook
