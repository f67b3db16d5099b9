import ReactiveNotebook.Proofs.Scheduling.Rounds
import ReactiveNotebook.Proofs.Scheduling.StaleResult

/-!
# Scripts side by side and one after the other

A notebook whose scripts are predictable comes to the same whether scripts run side by side, in whatever order
their results arrive, or one after the other. Nothing that happens before the first run depends on the way in
which scripts are run, so the two notebooks agree then, and they go through the same bursts and passes.
-/
namespace ReactiveNotebook

open Relation (ReflTransGen)

variable {l : Language}

/-- What the run of a text comes to depends on the text and the inputs, and a run that succeeds exports what the
text lets expect. -/
structure Language.Transparent (l : Language) (source : String) : Prop where
  pure : ∀ inputs storage storage',
    Stage.settle (l.run source inputs storage) = Stage.settle (l.run source inputs storage')
  exact : ∀ inputs storage exports, (l.run source inputs storage).result = .ok exports →
    Names.ofList (exports.map (·.1)) = Analysis.exportEstimate source

namespace Engine

variable {e e' : Engine} {c : Cell} {d : Definition} {w : PendingWrite} {ws : List PendingWrite} {parallel : Bool}

/-- A notebook to which cells have been added and values given, and whose variables nobody is subscribed to. -/
inductive Prepared : Engine → Prop
  | new (config : Config) (manual : Bool) : Prepared (new config manual)
  | push {e e' : Engine} {d : Definition} (h : Prepared e) (hd : e.pushCell d = .ok e') : Prepared e'
  | host {e e' : Engine} (h : Prepared e) (hh : Host e e') (hq : e'.store.Quiet) : Prepared e'
  | collect {e : Engine} (h : Prepared e) : Prepared e.collect

/-- A notebook between two passes, none of whose cells has been evaluated. -/
structure Fresh (e : Engine) : Prop where
  tidy : e.Tidy
  rest : e.pass = none
  quiet : e.store.Quiet
  made : ∀ c ∈ e.cells, ∃ d, c = .ofDefinition d

namespace Fresh

lemma push (h : e.Fresh) (hd : e.pushCell d = .ok e') : e'.Fresh := by
  have ht := Edit.tidy (.add hd) h.tidy
  obtain ⟨hi, -, -, rfl⟩ := addCell_ok hd
  refine ⟨ht, h.rest, h.quiet, fun c hc => ?_⟩
  rcases (List.mem_insertIdx hi).mp hc with rfl | hc
  · exact ⟨d, rfl⟩
  · exact h.made c hc

lemma host (h : e.Fresh) (hh : Host e e') (hq : e'.store.Quiet) : e'.Fresh where
  tidy := hh.tidy h.tidy
  rest := by cases hh <;> exact h.rest
  quiet := hq
  made := hh.cells_eq ▸ h.made

lemma collect (h : e.Fresh) : e.collect.Fresh :=
  ⟨collect_tidy h.tidy, pass_collect.trans h.rest, quiet_collect h.quiet, cells_collect e ▸ h.made⟩

end Fresh

lemma Prepared.fresh (h : e.Prepared) : e.Fresh := by
  induction h with
  | new config manual => exact ⟨new_tidy config manual, rfl, fun v hv => (by cases hv), fun c hc => (by cases hc)⟩
  | push _ hd ih => exact ih.push hd
  | host _ hh hq ih => exact ih.host hh hq
  | collect _ ih => exact ih.collect

/-- The notebook with scripts that run side by side, or one after the other. -/
def withParallel (e : Engine) (parallel : Bool) : Engine :=
  { e with config := { e.config with parallelScripts := parallel } }

lemma pushCell_withParallel : (e.withParallel parallel).pushCell d = (e.pushCell d).map (withParallel · parallel) := by
  unfold pushCell addCell
  change (if e.cells.length < e.cells.length then _ else _) = _
  rw [if_neg (lt_irrefl _), if_neg (lt_irrefl _)]
  cases hhas : e.hasCell d.id with
  | true =>
    have hhas' : (e.withParallel parallel).hasCell d.id = true := hhas
    simp [hhas', bind, Except.bind, throw, throwThe, MonadExceptOf.throw, Except.map]
  | false =>
    have hhas' : (e.withParallel parallel).hasCell d.id = false := hhas
    cases hcheck : d.check with
    | error cause => simp [hhas', bind, Except.bind, Except.map]
    | ok _ =>
      simp [hhas', bind, Except.bind, Except.map, pure, Except.pure]
      rfl

lemma takeWrite_withParallel : (e.withParallel parallel).takeWrite w = (e.takeWrite w).withParallel parallel := by
  unfold takeWrite
  split
  next store changed hcommit =>
  have hcommit : e.store.commit w.name (.value w.value) e.clock.now = (store, changed) := hcommit
  rw [hcommit]
  dsimp only
  split <;> rfl

lemma foldl_takeWrite_withParallel :
    ws.foldl takeWrite (e.withParallel parallel) = (ws.foldl takeWrite e).withParallel parallel := by
  induction ws generalizing e with
  | nil => rfl
  | cons w ws ih => rw [List.foldl_cons, takeWrite_withParallel, ih, List.foldl_cons]

lemma Host.withParallel (h : Host e e') : Host (e.withParallel parallel) (e'.withParallel parallel) := by
  cases h with
  | set name value => exact .set name value
  | setForced name value => exact .setForced name value
  | setImmediate name value => exact .setImmediate name value
  | flush => exact .flush
  | sleep nanos => exact .sleep nanos
  | subscribe name forward => exact .subscribe name forward
  | unsubscribe h => exact .unsubscribe h
  | storage fields => exact .storage fields
  | seed ids => exact .seed ids
  | work time => exact .work time
  | phase phase => exact .phase phase

/-- What is done before the first run does not depend on how scripts are run. -/
theorem Prepared.withParallel (h : e.Prepared) : (e.withParallel parallel).Prepared := by
  induction h with
  | new config manual => exact .new _ manual
  | @push e e' d _ hd ih => exact ih.push (by rw [pushCell_withParallel, hd]; rfl)
  | host _ hh hq ih => exact ih.host hh.withParallel hq
  | @collect e _ ih =>
    have hcollect : (e.withParallel parallel).collect = e.collect.withParallel parallel := by
      unfold Engine.collect
      change (if e.store.queue.isSettled e.clock.now e.config.settleWindow then _ else _) = _
      split
      · exact foldl_takeWrite_withParallel (e := { e with
          phase := .collecting, store := { e.store with queue := e.store.queue.drained } })
      · rfl
    exact hcollect ▸ ih.collect

/-- The notebook with all cells seeded, as `runAll` starts. -/
def primed (e : Engine) : Engine := (e.seedAll (e.cells.map (·.id))).arriveAll

/-- Runs all cells in a number of rounds. With `runFuel` rounds this is `runAll`. -/
def runAllWithin (l : Language) (fuel : ℕ) (e : Engine) : Except Stop (Engine × List Report) :=
  e.primed.drive l fuel []

lemma runAll_eq (l : Language) (e : Engine) : e.runAll l = e.runAllWithin l runFuel := rfl

lemma Fresh.predictable (h : e.Fresh)
    (hdisjoint : ∀ c ∈ e.cells, ∀ d ∈ e.cells, c.id ≠ d.id → ∀ v ∈ c.writes.names, v ∉ d.writes.names)
    (hforeign : ∀ c ∈ e.cells, ∀ v ∈ c.writes.names, v ∉ c.reads)
    (hscripts : ∀ c ∈ e.cells, ∀ source, c.content = .script source → l.Transparent source) :
    Predictable l e.cells where
  single c hc d hd v hv hv' := by
    by_contra hne
    exact hdisjoint c hc d hd hne v hv hv'
  foreign := hforeign
  declared c hc v hv := by
    obtain ⟨d, rfl⟩ := h.made c hc
    cases hcontent : d.content <;>
      simp_all [Cell.ofDefinition, Cell.reanalyze, Content.analyze, Content.output?, WriteSet.names]
  pure c hc source hsource := (hscripts c hc source hsource).pure
  exact c hc source hsource inputs storage exports hrun := by
    rw [(hscripts c hc source hsource).exact inputs storage exports hrun]
    obtain ⟨d, rfl⟩ := h.made c hc
    have hcontent : d.content = .script source := hsource
    simp only [Cell.ofDefinition, Cell.reanalyze, hcontent]
    rfl

lemma Fresh.ready (h : e.Fresh) (hp : Predictable l e.cells) : e.primed.Ready l where
  tidy := Host.tidy (.work _) (Host.tidy (.seed _) h.tidy)
  rest := h.rest
  predictable := hp
  quiet := h.quiet
  marked c hc hmark := by
    obtain ⟨d, rfl⟩ := h.made c hc
    cases hmark
  seeded c hc _ := .inr (Names.mem_insertAll.mpr (.inl (List.mem_map_of_mem hc)))

/-- Wherever a run has come to, it may still come to what the other one comes to, and to nothing else. -/
lemma Agree.outcome {f : Engine} {fuel : ℕ} (hagree : e.Agree e') (h : e.Ready l) (h' : e'.Ready l)
    (hfuel : e'.effort < fuel) (hruns : ReflTransGen (Proceeds l) e f) :
    match e'.drive l fuel [] with
    | .ok (e₀, _) => ¬ f.Jams l ∧ ¬ f.Stalled ∧
        ((∃ g, f.Proceeds l g) ∨ f.AtRest ∧ f.cells = e₀.cells ∧ ∀ v, f.get v = e₀.get v)
    | .error (.panic _) => ¬ f.Stalled ∧ ((∃ g, f.Proceeds l g) ∨ f.Jams l)
    | .error .outOfFuel => ¬ f.Jams l ∧ ∃ g, f.Proceeds l g := by
  have horderly : f.Orderly l := Orderly.of_reflTransGen (.between h) hruns
  split
  · next e₀ reports hdrive =>
    obtain ⟨u, phase, hu, hrest, rfl⟩ := proceeds_drive h'.tidy hdrive
    have hinstep : InStep l u f := InStep.of_reflTransGen (.between h h' hagree hu) (.inl hrest) hruns
    refine ⟨hinstep.not_jams, hinstep.not_stalled hrest, ?_⟩
    rcases horderly.progress with hstop | hgoes | hjams
    · exact .inr ⟨hstop, hinstep.eq_of_atRest hrest hstop⟩
    · exact .inl hgoes
    · exact absurd hjams hinstep.not_jams
  · next cause hdrive =>
    obtain ⟨u, hu, hjams⟩ := jams_of_drive h'.tidy hdrive
    have hopen : ¬ f.Final := fun hend => by
      have hinstep : InStep l f u := InStep.of_reflTransGen (.between h' h hagree.symm hruns) hend hu
      exact hinstep.not_jams hjams
    exact ⟨fun hstalled => hopen (.inr hstalled), horderly.progress.resolve_left fun hstop => hopen (.inl hstop)⟩
  · next hdrive =>
    obtain ⟨u, hu, hstalled⟩ := Orderly.stalled_of_drive (.between h') hfuel hdrive
    have hinstep : InStep l u f := InStep.of_reflTransGen (.between h h' hagree hu) (.inr hstalled) hruns
    refine ⟨hinstep.not_jams, ?_⟩
    rcases horderly.progress with hstop | hgoes | hjams
    · have hback : InStep l f u := InStep.of_reflTransGen (.between h' h hagree.symm hruns) (.inl hstop) hu
      exact absurd hstalled (hback.not_stalled hstop)
    · exact hgoes
    · exact absurd hjams hinstep.not_jams

section Modes

variable (he : e.Prepared)
  (hdisjoint : ∀ c ∈ e.cells, ∀ d ∈ e.cells, c.id ≠ d.id → ∀ v ∈ c.writes.names, v ∉ d.writes.names)
  (hforeign : ∀ c ∈ e.cells, ∀ v ∈ c.writes.names, v ∉ c.reads)
  (hscripts : ∀ c ∈ e.cells, ∀ source, c.content = .script source → l.Transparent source)

include he hdisjoint hforeign hscripts

lemma ready_primed (parallel : Bool) : (e.withParallel parallel).primed.Ready l :=
  he.withParallel.fresh.ready (he.fresh.predictable hdisjoint hforeign hscripts)

lemma outcome_primed {fuel : ℕ} {f : Engine} (hfuel : 6 * e.cells.length + 8 < fuel)
    (hruns : ReflTransGen (Proceeds l) (e.withParallel true).primed f) :
    match (e.withParallel false).runAllWithin l fuel with
    | .ok (e₀, _) => ¬ f.Jams l ∧ ¬ f.Stalled ∧
        ((∃ g, f.Proceeds l g) ∨ f.AtRest ∧ f.cells = e₀.cells ∧ ∀ v, f.get v = e₀.get v)
    | .error (.panic _) => ¬ f.Stalled ∧ ((∃ g, f.Proceeds l g) ∨ f.Jams l)
    | .error .outOfFuel => ¬ f.Jams l ∧ ∃ g, f.Proceeds l g := by
  have hready := ready_primed he hdisjoint hforeign hscripts
  have hagree : (e.withParallel true).primed.Agree (e.withParallel false).primed :=
    ⟨rfl, rfl, rfl, fun _ => rfl, rfl, rfl, rfl⟩
  have heffort : (e.withParallel false).primed.effort ≤ 6 * e.cells.length + 8 := effort_le (hready false).rest
  exact hagree.outcome (hready true) (hready false) (heffort.trans_lt hfuel) hruns

/-- With scripts side by side a notebook comes to the same as with scripts one after the other, in whatever order
cells are started and results arrive. The number of steps is bounded. The notebook can go on until nothing is left
to do, and then all cells and variables are as after the other run. If the scheduler is stopped in one of the two
runs, then it is in the other one too; and if one waits for ever for a burst that a manual clock cannot see settle,
so does the other one. -/
theorem parallel_run_agrees_with_serial {fuel n : ℕ} {σ : ℕ → Engine} (hfuel : 6 * e.cells.length + 8 < fuel)
    (hstart : σ 0 = (e.withParallel true).primed) (hsteps : ∀ k < n, (σ k).Proceeds l (σ (k + 1))) :
    (n ≤ 6 * e.cells.length + 8 ∨ (σ n).Stalled) ∧
      match (e.withParallel false).runAllWithin l fuel with
      | .ok (e₀, _) => ¬ (σ n).Jams l ∧ ¬ (σ n).Stalled ∧ ((∃ f, (σ n).Proceeds l f) ∨
          (σ n).AtRest ∧ (σ n).cells = e₀.cells ∧ ∀ v, (σ n).get v = e₀.get v)
      | .error (.panic _) => ¬ (σ n).Stalled ∧ ((∃ f, (σ n).Proceeds l f) ∨ (σ n).Jams l)
      | .error .outOfFuel => ¬ (σ n).Jams l ∧ ∃ f, (σ n).Proceeds l f := by
  have hready := ready_primed he hdisjoint hforeign hscripts true
  have hfirst : (σ 0).Orderly l := hstart ▸ .between hready
  have hbound : (σ 0).effort ≤ 6 * e.cells.length + 8 := hstart ▸ effort_le hready.rest
  obtain ⟨hruns, hleft⟩ := hfirst.run hsteps
  exact ⟨hleft.imp_left fun hle => by omega, outcome_primed he hdisjoint hforeign hscripts hfuel (hstart ▸ hruns)⟩

/-- So it is in particular if each result is taken over when it comes due. -/
theorem runAllWithin_parallel_agrees {fuel : ℕ} (hfuel : 6 * e.cells.length + 8 < fuel) :
    match (e.withParallel true).runAllWithin l fuel, (e.withParallel false).runAllWithin l fuel with
    | .ok (e₁, _), .ok (e₀, _) => e₁.cells = e₀.cells ∧ ∀ v, e₁.get v = e₀.get v
    | .error (.panic _), .error (.panic _) => True
    | .error .outOfFuel, .error .outOfFuel => True
    | _, _ => False := by
  have hready := ready_primed he hdisjoint hforeign hscripts true
  have heffort : (e.withParallel true).primed.effort ≤ 6 * e.cells.length + 8 := effort_le hready.rest
  -- where the one run has come to, the other one cannot come to anything else
  have houtcome {f : Engine} (hruns : ReflTransGen (Proceeds l) (e.withParallel true).primed f) :=
    outcome_primed he hdisjoint hforeign hscripts hfuel hruns
  rcases hdrive : (e.withParallel true).runAllWithin l fuel with (cause | _) | ⟨e₁, reports₁⟩
  · obtain ⟨u, hu, hjams⟩ := jams_of_drive hready.tidy hdrive
    have hserial := houtcome hu
    rcases hrun : (e.withParallel false).runAllWithin l fuel with (cause' | _) | ⟨e₀, reports₀⟩ <;> rw [hrun] at hserial
    · trivial
    · exact absurd hjams hserial.1
    · exact absurd hjams hserial.1
  · obtain ⟨u, hu, hstalled⟩ := Orderly.stalled_of_drive (.between hready) (heffort.trans_lt hfuel) hdrive
    have hserial := houtcome hu
    rcases hrun : (e.withParallel false).runAllWithin l fuel with (cause' | _) | ⟨e₀, reports₀⟩ <;> rw [hrun] at hserial
    · exact absurd hstalled hserial.1
    · trivial
    · exact absurd hstalled hserial.2.1
  · obtain ⟨u, phase, hu, hrest, rfl⟩ := proceeds_drive hready.tidy hdrive
    have hstop : ¬ ∃ g, u.Proceeds l g := fun ⟨_, hstep⟩ => hrest.not_proceeds hstep
    have hserial := houtcome hu
    rcases hrun : (e.withParallel false).runAllWithin l fuel with (cause' | _) | ⟨e₀, reports₀⟩ <;> rw [hrun] at hserial
    · exact absurd (hserial.2.resolve_left hstop) hrest.not_jams
    · exact absurd hserial.2 hstop
    · exact (hserial.2.2.resolve_left hstop).2

end Modes

def twoScripts : Engine :=
  ((new .standard true).grow ⟨"s", .script "exports.x = 1;"⟩).grow ⟨"t", .script "exports.y = 1;"⟩

/-- Both scripts are in flight at once, and their results arrive in reverse order. -/
def reverseRun : ℕ → Engine
  | 0 => (twoScripts.withParallel true).primed
  | 1 => begun.suspend
  | 2 => first.suspend
  | 3 => second.suspend
  | 4 => third.suspend
  | 5 => fourth.suspend
  | _ => (endPass fourth).1
where
  arrival (id source : String) : Arrival := ⟨id, 0, exportingEstimate.run source [] [], 0⟩
  begun : Stage := (twoScripts.withParallel true).primed.collect.beginPass
  first : Stage := (begun.withdraw 0).launch exportingEstimate
    (.ofDefinition ⟨"s", .script "exports.x = 1;"⟩) "exports.x = 1;" []
  second : Stage := (first.withdraw 0).launch exportingEstimate
    (.ofDefinition ⟨"t", .script "exports.y = 1;"⟩) "exports.y = 1;" []
  third : Stage := (second.deliver [arrival "s" "exports.x = 1;"]).receive (arrival "t" "exports.y = 1;")
  fourth : Stage := (third.deliver []).receive (arrival "s" "exports.x = 1;")

open reverseRun in
lemma moves_reverseRun : begun.Move exportingEstimate first ∧ first.Move exportingEstimate second ∧
    second.Move exportingEstimate third ∧ third.Move exportingEstimate fourth := by
  have hnext : begun.next? = some 0 ∧ first.next? = some 0 := by decide +kernel
  have hwaits : begun.pass.remaining[0]? = some "s" ∧ first.pass.remaining[0]? = some "t" := by decide +kernel
  refine ⟨.start (.inl rfl) hnext.1 hwaits.1 rfl, .start (.inl rfl) hnext.2 hwaits.2 rfl, .receive ?_, .receive ?_⟩
  · exact .swap ..
  · exact .rfl

lemma prepared_twoScripts : twoScripts.Prepared := by
  have hs : (new .standard true).pushCell ⟨"s", .script "exports.x = 1;"⟩ =
      .ok ((new .standard true).grow ⟨"s", .script "exports.x = 1;"⟩) := rfl
  have ht : ((new .standard true).grow ⟨"s", .script "exports.x = 1;"⟩).pushCell
      ⟨"t", .script "exports.y = 1;"⟩ = .ok twoScripts := rfl
  exact .push (.push (.new .standard true) hs) ht

open reverseRun in
lemma proceeds_reverseRun (k : ℕ) (hk : k < 6) : (reverseRun k).Proceeds exportingEstimate (reverseRun (k + 1)) := by
  obtain ⟨hfirst, hsecond, hthird, hfourth⟩ := moves_reverseRun
  interval_cases k
  · have hseeds : (twoScripts.withParallel true).primed.collect.seeds.toList ≠ [] := by decide +kernel
    exact .begin rfl hseeds
  · exact .of_move hfirst rfl
  · exact .of_move hsecond rfl
  · exact .of_move hthird rfl
  · exact .of_move hfourth rfl
  · have hdone : fourth.pass.remaining = [] ∧ fourth.engine.inFlight = [] := by decide +kernel
    exact .finish (p := fourth.pass) rfl hdone.1 hdone.2

/-- The results of the two scripts arrive in reverse order, and all is as after a run of one script after the other. -/
theorem reverse_run_agrees : ∃ e₀ reports, (twoScripts.withParallel false).runAll exportingEstimate = .ok (e₀, reports) ∧
    (reverseRun 6).AtRest ∧ (reverseRun 6).cells = e₀.cells ∧ ∀ v, (reverseRun 6).get v = e₀.get v := by
  have hcells : (twoScripts.cells.all fun c => c.writes.names.toList.all fun v => !c.reads.contains v &&
      twoScripts.cells.all fun d => c.id == d.id || !d.writes.names.contains v) = true := by decide +kernel
  have hexact : (twoScripts.cells.all fun c => Names.ofList (Analysis.exportEstimate c.content.text).toList ==
      Analysis.exportEstimate c.content.text) = true := by decide +kernel
  have hstop : (reverseRun 6).AtRest := ⟨rfl, by decide +kernel, by decide +kernel⟩
  have hreturns : ((twoScripts.withParallel false).runAll exportingEstimate).toOption.isSome = true := by decide +kernel
  simp only [List.all_eq_true, Bool.and_eq_true, Bool.not_eq_true', Names.contains_eq_false_iff, Bool.or_eq_true,
    beq_iff_eq] at hcells hexact
  have hfuel : 6 * twoScripts.cells.length + 8 < runFuel := by decide +kernel
  have hscripts : ∀ c ∈ twoScripts.cells, ∀ source, c.content = .script source → exportingEstimate.Transparent source :=
    fun c hc source hsource => ⟨fun _ _ _ => rfl, fun inputs storage exports hrun => by
      have hnames := hexact c hc
      rw [hsource, Content.text] at hnames
      cases hrun
      rw [List.map_map]
      simpa [Function.comp_def] using hnames⟩
  obtain ⟨-, hagree⟩ := parallel_run_agrees_with_serial (n := 6) prepared_twoScripts
    (fun c hc d hd hne v hv => ((hcells c hc v hv).2 d hd).resolve_left hne) (fun c hc v hv => (hcells c hc v hv).1)
    hscripts hfuel (rfl : reverseRun 0 = _) proceeds_reverseRun
  rw [runAll_eq] at hreturns ⊢
  cases hrun : (twoScripts.withParallel false).runAllWithin exportingEstimate runFuel with
  | error stop => rw [hrun] at hreturns; cases hreturns
  | ok r =>
    rw [hrun] at hagree
    obtain ⟨-, -, ⟨f, hstep⟩ | ⟨-, hsame⟩⟩ := hagree
    · exact absurd hstep hstop.not_proceeds
    · exact ⟨r.1, r.2, rfl, hstop, hsame⟩

end Engine

end ReactiveNotebook
