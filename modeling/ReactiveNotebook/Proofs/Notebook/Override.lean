import ReactiveNotebook.CommandLine
import ReactiveNotebook.Proofs.Notebook.Unsaved
import ReactiveNotebook.Proofs.Scheduling.History
import ReactiveNotebook.Proofs.Scheduling.Offer

/-!
# Overridden variables

A variable is overridden by rewriting the first input cell that declares it, or by a host write where there is none.
The next run of everything gives the variable the value of the text, and its readers see that value last. Two things
keep an override from taking effect: another input cell that declares the variable, which is not rewritten, and a host
write whose burst has not settled when the run begins, which is taken over after the input cell has been evaluated.
-/
namespace ReactiveNotebook

open Relation (ReflTransGen)
open Script (Value)

variable {l : Language}

lemma exists_trace {α : Type*} {r : α → α → Prop} {a b : α} (h : ReflTransGen r a b) :
    ∃ (n : ℕ) (σ : ℕ → α), σ 0 = a ∧ σ n = b ∧ ∀ k < n, r (σ k) (σ (k + 1)) := by
  induction h using ReflTransGen.head_induction_on with
  | refl => exact ⟨0, fun _ => b, rfl, rfl, nofun⟩
  | @head a c hac _ ih =>
    obtain ⟨n, σ, rfl, hend, hsteps⟩ := ih
    refine ⟨n + 1, fun k => k.casesOn a σ, rfl, hend, fun k hk => ?_⟩
    cases k with
    | zero => exact hac
    | succ k => exact hsteps k (by omega)

lemma Content.isInputOf_iff {content : Content} {n : String} :
    content.isInputOf n = true ↔ ∃ text, content = .input text n := by
  cases content <;> simp [isInputOf]

namespace Definition

variable {m n text : String} {ds : List Definition} {d : Definition}

/-- The first input that declares the variable has the text. -/
lemma content_of_overridden (h : (overridden n text ds).find? (·.content.isInputOf n) = some d) :
    d.content = .input text n := by
  induction ds with
  | nil => cases h
  | cons a ds ih =>
    rw [overridden] at h
    cases ha : a.content.isInputOf n with
    | true =>
      obtain ⟨old, hcontent⟩ := Content.isInputOf_iff.mp ha
      have hnew : (a.content.withText text).isInputOf n = true := by
        simp [hcontent, Content.withText, Content.isInputOf]
      simp only [ha, if_true, List.find?_cons, hnew] at h
      cases h
      rw [hcontent]
      rfl
    | false =>
      simp only [ha, Bool.false_eq_true, if_false, List.find?_cons] at h
      exact ih h

/-- An input that declares the variable is rewritten, not removed. -/
lemma find?_overridden_eq_none_iff : (overridden n text ds).find? (·.content.isInputOf n) = none ↔
    ds.find? (·.content.isInputOf n) = none := by
  induction ds with
  | nil => rfl
  | cons a ds ih =>
    rw [overridden]
    cases ha : a.content.isInputOf n with
    | true =>
      obtain ⟨old, hcontent⟩ := Content.isInputOf_iff.mp ha
      have hnew : (a.content.withText text).isInputOf n = true := by
        simp [hcontent, Content.withText, Content.isInputOf]
      simp [ha, hnew]
    | false => simp only [Bool.false_eq_true, if_false, List.find?_cons, ha, ih]

/-- The inputs that declare another variable are left alone. -/
lemma find?_overridden_of_ne (hne : m ≠ n) :
    (overridden m text ds).find? (·.content.isInputOf n) = ds.find? (·.content.isInputOf n) := by
  induction ds with
  | nil => rfl
  | cons a ds ih =>
    rw [overridden]
    split
    · next ha =>
      obtain ⟨old, hcontent⟩ := Content.isInputOf_iff.mp ha
      have hold : a.content.isInputOf n = false := by simp [hcontent, Content.isInputOf, hne]
      have hnew : (a.content.withText text).isInputOf n = false := by
        simp [hcontent, Content.withText, Content.isInputOf, hne]
      simp only [List.find?_cons, hold, hnew]
    · simp only [List.find?_cons, ih]

end Definition

namespace Engine

variable {e : Engine} {n : String} {c d : Cell}

/-- Whatever writes the variable is an input cell that declares it, and such cells count as writing it. -/
def WrittenByInputs (e : Engine) (n : String) : Prop :=
  ∀ c ∈ e.cells, n ∈ c.writes.names ∨ c.content.output? = some n → n ∈ c.writes.names ∧ c.content.isInputOf n = true

/-- The reads of a cell are those of its text. -/
lemma Reachable.reads_eq (h : Reachable l e) : ∀ c ∈ e.cells, c.reads = c.content.analyze.reads := by
  obtain ⟨config, manual, hsteps⟩ := h
  induction hsteps with
  | refl => exact fun c hc => by cases hc
  | @tail b c hsteps hstep ih =>
    have hongoing : Ongoing l b c → ∀ d ∈ c.cells, d.reads = d.content.analyze.reads := fun hongoing d hd => by
      obtain ⟨a, ha, hrevision, -⟩ := hongoing.exists_mem hd
      have hcontent : d.content = a.content := congrArg (·.2.1) hrevision
      have hreads : d.reads = a.reads := congrArg (·.2.2.2) hrevision
      rw [hcontent, hreads]
      exact ih a ha
    cases hstep with
    | edit hedit =>
      intro d hd
      rcases hedit.mem_cells (steps_tidy hsteps (new_tidy config manual)).ids hd with hd | ⟨b, rfl, -⟩
      · exact ih d hd
      · rfl
    | host h => exact hongoing (.host h)
    | collect h => exact hongoing (.collect h)
    | begin h => exact hongoing (.begin h)
    | move h hm => exact hongoing (.move h hm)
    | finish h hr hf => exact hongoing (.finish h hr hf)

end Engine

namespace Document

variable {d d' : Document} {m n text other : String} {reports : List Report}

/-- The first input cell that declares the variable has the text, or a released host write of its value waits. -/
structure Overridden (d : Document) (n text : String) : Prop where
  input : ∀ a, d.definitions.find? (·.content.isInputOf n) = some a → a.content = .input text n
  write : d.definitions.find? (·.content.isInputOf n) = none → d.engine.store.queue.immediate = true ∧
    (∃ w ∈ d.engine.store.queue.pending, w.name = n) ∧
      ∀ w ∈ d.engine.store.queue.pending, w.name = n → w.value = readLiteral text

lemma find?_definitions (d : Document) (n : String) :
    d.definitions.find? (·.content.isInputOf n) = (d.inputOf? n).map Cell.definition := by
  rw [definitions, List.find?_map, inputOf?_eq]
  rfl

/-- Either an input cell is edited, and the store stays as it is, or the host writes. -/
lemma overrideVariable_cases (h : d.overrideVariable n text = .ok d') :
    (∃ c, d.inputOf? n = some c ∧ d.engine.setContent c.id text = .ok d'.engine ∧ d'.engine.store = d.engine.store) ∨
      d.inputOf? n = none ∧ d' = d.setVariable n text := by
  unfold overrideVariable at h
  cases hc : d.inputOf? n with
  | none =>
    rw [hc] at h
    cases h
    exact .inr ⟨rfl, rfl⟩
  | some c =>
    rw [hc] at h
    cases hset : d.engine.setContent c.id text with
    | error cause =>
      simp only [hset] at h
      cases h
    | ok e =>
      simp only [hset] at h
      cases h
      refine .inl ⟨c, rfl, hset, ?_⟩
      obtain ⟨-, -, ⟨-, rfl⟩ | ⟨-, rfl⟩⟩ := Engine.setContent_ok hset <;> rfl

lemma step_overrideVariable (h : d.overrideVariable n text = .ok d') : Engine.Step l d.engine d'.engine := by
  rcases overrideVariable_cases h with ⟨c, -, hset, -⟩ | ⟨-, rfl⟩
  · exact .edit (.content hset)
  · exact .host (.setImmediate n (readLiteral text))

/-- A host write that is released waits together with the others. -/
lemma queue_setVariable (d : Document) (n text : String) : (d.setVariable n text).engine.store.queue.immediate = true ∧
    (d.setVariable n text).engine.store.queue.pending =
      (d.engine.store.queue.push ⟨n, readLiteral text, false⟩ d.engine.clock.now).pending := by
  obtain ⟨w, hw, -⟩ :=
    Engine.exists_mem_push d.engine.store.queue ⟨n, readLiteral text, false⟩ d.engine.clock.now
  refine ⟨?_, Engine.pending_settle _⟩
  change ((d.engine.store.queue.push ⟨n, readLiteral text, false⟩ d.engine.clock.now).settle).immediate = true
  rw [WriteQueue.settle, if_neg fun hempty => by rw [List.isEmpty_iff.mp hempty] at hw; cases hw]

lemma overridden_of_ok (ht : d.engine.Tidy) (h : d.overrideVariable n text = .ok d') : d'.Overridden n text := by
  have hdefinitions := (definitions_overrideVariable ht h).1
  refine ⟨fun a ha => Definition.content_of_overridden (hdefinitions ▸ ha), fun hnone => ?_⟩
  rw [hdefinitions, Definition.find?_overridden_eq_none_iff, find?_definitions, Option.map_eq_none_iff] at hnone
  rcases overrideVariable_cases h with ⟨c, hc, -⟩ | ⟨-, rfl⟩
  · cases hnone.symm.trans hc
  · obtain ⟨himmediate, hpending⟩ := queue_setVariable d n text
    rw [hpending]
    refine ⟨himmediate, Engine.exists_mem_push .., fun w hw hwn => ?_⟩
    rcases Engine.mem_push hw with ⟨-, hne⟩ | ⟨-, hvalue⟩
    · exact absurd hwn hne
    · exact hvalue

/-- Overriding another variable leaves the override in place. -/
lemma Overridden.of_other (h : d.Overridden n text) (ht : d.engine.Tidy) (hne : m ≠ n)
    (hover : d.overrideVariable m other = .ok d') : d'.Overridden n text := by
  have hfind : d'.definitions.find? (·.content.isInputOf n) = d.definitions.find? (·.content.isInputOf n) := by
    rw [(definitions_overrideVariable ht hover).1, Definition.find?_overridden_of_ne hne]
  refine ⟨fun a ha => h.input a (hfind ▸ ha), fun hnone => ?_⟩
  obtain ⟨himmediate, ⟨w, hw, hwn⟩, hvalue⟩ := h.write (hfind ▸ hnone)
  rcases overrideVariable_cases hover with ⟨-, -, -, hstore⟩ | ⟨-, rfl⟩
  · rw [hstore]
    exact ⟨himmediate, ⟨w, hw, hwn⟩, hvalue⟩
  · obtain ⟨himmediate', hpending⟩ := queue_setVariable d m other
    rw [hpending]
    refine ⟨himmediate', ⟨w, Engine.mem_push_of_ne hw fun heq => hne (heq.symm.trans hwn), hwn⟩, fun u hu hun => ?_⟩
    rcases Engine.mem_push hu with ⟨hu, -⟩ | ⟨hname, -⟩
    · exact hvalue u hu hun
    · exact absurd (hname.symm.trans hun) hne

section OverrideAll

variable {before after : List (String × String)}

open CommandLine (overrideAll)

lemma overrideAll_cons {o : String × String} (h : overrideAll d (o :: after) = .ok d') :
    ∃ d₁, d.overrideVariable o.1 o.2 = .ok d₁ ∧ overrideAll d₁ after = .ok d' := by
  rw [overrideAll] at h
  cases hover : d.overrideVariable o.1 o.2 with
  | error cause =>
    rw [hover] at h
    cases h
  | ok d₁ =>
    rw [hover] at h
    exact ⟨d₁, rfl, h⟩

lemma steps_overrideAll (h : overrideAll d after = .ok d') : ReflTransGen (Engine.Step l) d.engine d'.engine := by
  induction after generalizing d with
  | nil =>
    cases h
    exact .refl
  | cons o after ih =>
    obtain ⟨d₁, hfirst, hrest⟩ := overrideAll_cons h
    exact .head (step_overrideVariable hfirst) (ih hrest)

lemma Overridden.overrideAll (h : d.Overridden n text) (ht : d.engine.Tidy) (hlast : ∀ o ∈ after, o.1 ≠ n)
    (hover : overrideAll d after = .ok d') : d'.Overridden n text := by
  induction after generalizing d with
  | nil =>
    cases hover
    exact h
  | cons o after ih =>
    obtain ⟨d₁, hfirst, hrest⟩ := overrideAll_cons hover
    exact ih (h.of_other ht (hlast o List.mem_cons_self) hfirst) (definitions_overrideVariable ht hfirst).2.2
      (fun p hp => hlast p (List.mem_cons_of_mem _ hp)) hrest

/-- The last override of a variable is the one that counts. -/
lemma overridden_of_last (ht : d.engine.Tidy) (hlast : ∀ o ∈ after, o.1 ≠ n)
    (hover : overrideAll d (before ++ (n, text) :: after) = .ok d') : d'.Overridden n text := by
  induction before generalizing d with
  | nil =>
    obtain ⟨d₁, hfirst, hrest⟩ := overrideAll_cons hover
    exact (overridden_of_ok ht hfirst).overrideAll (definitions_overrideVariable ht hfirst).2.2 hlast hrest
  | cons o before ih =>
    obtain ⟨d₁, hfirst, hrest⟩ := overrideAll_cons hover
    exact ih (definitions_overrideVariable ht hfirst).2.2 hrest

end OverrideAll

/-- A run of everything, step by step. -/
structure IsCourse (l : Language) (d : Document) (N : ℕ) (σ : ℕ → Engine) : Prop where
  start : σ 0 = (d.engine.seedAll (d.engine.cells.map (·.id))).arriveAll
  step : ∀ k < N, Engine.Proceeds l (σ k) (σ (k + 1))
  rest : (σ N).AtRest

lemma IsCourse.proceeds {N k : ℕ} {σ : ℕ → Engine} (h : d.IsCourse l N σ) (hk : k ≤ N) :
    ReflTransGen (Engine.Proceeds l) (σ 0) (σ k) := by
  induction k with
  | zero => exact .refl
  | succ k ih => exact (ih (by omega)).tail (h.step k hk)

lemma IsCourse.steps {N k : ℕ} {σ : ℕ → Engine} (h : d.IsCourse l N σ) (hk : k ≤ N) :
    ReflTransGen (Engine.Step l) d.engine (σ k) := by
  have hstart : ReflTransGen (Engine.Step l) d.engine (σ 0) := by
    rw [h.start]
    exact .tail (.single (.host (.seed _))) (.host (.work _))
  exact hstart.trans (Engine.steps_of_proceeds (h.proceeds hk))

/-- A run that returns a result takes such a course. -/
lemma exists_course (ht : d.engine.Tidy) (h : d.run l = .ok (d', reports)) :
    ∃ N σ phase, d.IsCourse l N σ ∧ d'.engine = { σ N with phase } := by
  obtain ⟨⟨e, reports'⟩, hrun, heq⟩ := of_bind_ok h
  cases heq
  have hstart : ((d.engine.seedAll (d.engine.cells.map (·.id))).arriveAll).Tidy :=
    (Engine.Host.work _).tidy ((Engine.Host.seed _).tidy ht)
  obtain ⟨u, phase, hruns, hrest, rfl⟩ := Engine.proceeds_drive hstart hrun
  obtain ⟨N, σ, hfirst, rfl, hsteps⟩ := exists_trace hruns
  exact ⟨N, σ, phase, ⟨hfirst, hsteps, hrest⟩, rfl⟩

lemma isSettled_of_immediate {q : WriteQueue} {now window : ℕ} (h : q.immediate = true) (hq : q.pending ≠ []) :
    q.isSettled now window = true := by
  simp [WriteQueue.isSettled, WriteQueue.wait?, h, hq]

/-- No host write to the variable waits for its burst to settle. -/
def Released (d : Document) (n : String) : Prop := ∀ w ∈ d.engine.store.queue.pending, w.name = n →
  d.engine.store.queue.isSettled d.engine.clock.now d.engine.config.settleWindow = true

lemma Overridden.offers (h : d.Overridden n text) (hreleased : d.inputOf? n ≠ none → d.Released n) :
    ((d.engine.seedAll (d.engine.cells.map (·.id))).arriveAll).Offers n (readLiteral text) where
  seeds c hc := Names.mem_insertAll.mpr (.inl (List.mem_map_of_mem hc))
  settled w hw hwn := by
    by_cases hfind : d.inputOf? n = none
    · have hnone : d.definitions.find? (·.content.isInputOf n) = none := by
        rw [find?_definitions, hfind]
        rfl
      exact isSettled_of_immediate (h.write hnone).1 (List.ne_nil_of_mem hw)
    · exact hreleased hfind w hw hwn
  source := by
    cases hfind : d.definitions.find? (·.content.isInputOf n) with
    | none => exact .inr (h.write hfind).2
    | some a =>
      obtain ⟨c, hc, rfl⟩ := List.mem_map.mp (List.mem_of_find?_eq_some hfind)
      have hcontent : c.content = .input text n := h.input _ hfind
      exact .inl ⟨c, hc, by rw [hcontent]; rfl⟩

/-- The input cells that declare the variable give it the value of the text. -/
lemma Overridden.supplied {e : Engine} (h : d.Overridden n text)
    (hothers : ∀ c ∈ d.engine.cells, ∀ other, c.content = .input other n →
      d.inputOf? n = some c ∨ readLiteral other = readLiteral text)
    (hrevisions : e.cells.map Cell.revision = d.engine.cells.map Cell.revision) (he : Engine.Reachable l e)
    (hwritten : e.WrittenByInputs n) : e.Supplied n (readLiteral text) := fun c hc hn => by
  obtain ⟨hwrites, hinput⟩ := hwritten c hc hn
  obtain ⟨other, hcontent⟩ := Content.isInputOf_iff.mp hinput
  refine ⟨hwrites, ?_, other, hcontent, ?_⟩
  · rw [he.reads_eq c hc, hcontent]
    exact Names.not_mem_empty
  · obtain ⟨b, hb, heq⟩ := Cell.exists_revision hrevisions hc
    have hsame : b.content = c.content := congrArg (·.2.1) heq
    rcases hothers b hb other (hsame.trans hcontent) with hfirst | hvalue
    · have hfound : d.definitions.find? (·.content.isInputOf n) = some b.definition := by
        rw [find?_definitions, hfirst]
        rfl
      have htext : b.content = .input text n := h.input _ hfound
      rw [hsame, hcontent] at htext
      cases htext
      rfl
    · exact hvalue

/-- The last override of a variable takes effect in the next run of everything, if the other input cells that declare
the variable hold a text of the same value, and nothing that the host has written to the variable before has to settle
where an input cell is edited. At the end of the run the variable has the value, and every reader that is on no cycle
has been evaluated last with it. -/
theorem override_takes_effect {before after : List (String × String)} (hreach : Engine.Reachable l d.engine)
    (hover : CommandLine.overrideAll d (before ++ (n, text) :: after) = .ok d') (hlast : ∀ o ∈ after, o.1 ≠ n)
    (hmute : d'.engine.store.Mute)
    (hothers : ∀ c ∈ d'.engine.cells, ∀ other, c.content = .input other n →
      d'.inputOf? n = some c ∨ readLiteral other = readLiteral text)
    (hreleased : d'.inputOf? n ≠ none → d'.Released n) :
    (∀ N σ, d'.IsCourse l N σ → (∀ k ≤ N, (σ k).WrittenByInputs n) →
      (σ N).get n = .value (readLiteral text) ∧
        ∀ c ∈ (σ N).cells, n ∈ c.reads → ¬ (σ N).graph.OnCycle c.id →
          Engine.LastSaw l σ N c.id n (.value (readLiteral text))) ∧
    ∀ d'' reports, d'.run l = .ok (d'', reports) →
      ∃ N σ phase, d'.IsCourse l N σ ∧ d''.engine = { σ N with phase } := by
  have hoverridden := overridden_of_last hreach.tidy hlast hover
  obtain ⟨config, manual, hbefore⟩ := hreach
  have hsteps : ReflTransGen (Engine.Step l) (.new config manual) d'.engine := hbefore.trans (steps_overrideAll hover)
  have ht : d'.engine.Tidy := Engine.steps_tidy hsteps (Engine.new_tidy config manual)
  refine ⟨fun N σ hcourse hwritten => ?_, fun d'' reports hrun => exists_course ht hrun⟩
  have hreach : ∀ k ≤ N, Engine.Reachable l (σ k) := fun k hk => ⟨config, manual, hsteps.trans (hcourse.steps hk)⟩
  refine Engine.supplied_of_run (hreach 0 (by omega)) ?_ ?_ hcourse.step (fun k hk => ?_) hcourse.rest
  · rw [hcourse.start]
    exact hmute
  · rw [hcourse.start]
    exact hoverridden.offers hreleased
  · have hrevisions : (σ k).cells.map Cell.revision = d'.engine.cells.map Cell.revision := by
      rw [Engine.revisions_of_proceeds (hcourse.proceeds hk), hcourse.start]
      rfl
    exact hoverridden.supplied hothers hrevisions (hreach k hk) (hwritten k hk)

/-- Two input cells declare `v`. -/
def twoInputs : Engine :=
  ((Engine.new .standard true).grow ⟨"a", .input "1" "v"⟩).grow ⟨"b", .input "2" "v"⟩

/-- The host has written `v`, which an input cell declares, and its burst has not settled. -/
def recentWrite : Engine :=
  ((Engine.new .standard true).grow ⟨"i", .input "1" "v"⟩).set "v" (.int 5)

lemma reachable_twoInputs : Engine.Reachable l twoInputs :=
  ⟨.standard, true, (Engine.steps_grow _ _).trans (Engine.steps_grow _ _)⟩

lemma reachable_recentWrite : Engine.Reachable l recentWrite :=
  ⟨.standard, true, (Engine.steps_grow _ _).tail (.host (.set "v" (.int 5)))⟩

lemma exists_run_of_override {slot : Slot} (h : ((d.overrideVariable n text).toOption.bind fun d' =>
      (d'.run l).toOption.map fun r => (r.1.engine.get n).same slot) = some true) :
    ∃ d' d'' reports, d.overrideVariable n text = .ok d' ∧ d'.run l = .ok (d'', reports) ∧
      d''.engine.get n = slot := by
  cases hover : d.overrideVariable n text with
  | error cause => simp [hover, Except.toOption] at h
  | ok d' =>
    cases hrun : d'.run l with
    | error stop => simp [hover, hrun, Except.toOption] at h
    | ok r =>
      simp only [hover, hrun, Except.toOption, Option.bind_some, Option.map_some, Option.some.injEq] at h
      exact ⟨d', r.1, r.2, rfl, hrun, Slot.eq_of_same h⟩

/-- Only input cells write `v`, which is overridden, and after the run it has the value of the input cell that was not
rewritten, or the one that the host had written before. -/
theorem override_outdone :
    (Engine.Reachable (.ofConfig .standard) twoInputs ∧ twoInputs.WrittenByInputs "v" ∧
      ∃ d' d'' reports, (ofEngine twoInputs).overrideVariable "v" "9" = .ok d' ∧
        d'.run (.ofConfig .standard) = .ok (d'', reports) ∧ d''.engine.get "v" = .value (.int 2)) ∧
    (Engine.Reachable (.ofConfig .standard) recentWrite ∧ recentWrite.WrittenByInputs "v" ∧
      ∃ d' d'' reports, (ofEngine recentWrite).overrideVariable "v" "9" = .ok d' ∧
        d'.run (.ofConfig .standard) = .ok (d'', reports) ∧ d''.engine.get "v" = .value (.int 5)) ∧
    readLiteral "9" = .int 9 := by
  have hwritten : twoInputs.WrittenByInputs "v" ∧ recentWrite.WrittenByInputs "v" := by
    unfold Engine.WrittenByInputs
    decide +kernel
  exact ⟨⟨reachable_twoInputs, hwritten.1, exists_run_of_override (by decide +kernel)⟩,
    ⟨reachable_recentWrite, hwritten.2, exists_run_of_override (by decide +kernel)⟩,
    Value.eq_of_same (by decide +kernel)⟩

/-- The formula `f` reads what the input cell `i` declares. -/
def readInput : Engine :=
  ((Engine.new .standard true).grow ⟨"i", .input "1" "v"⟩).grow ⟨"f", .formula "v + 1" "y"⟩

lemma reachable_readInput : Engine.Reachable l readInput :=
  ⟨.standard, true, (Engine.steps_grow _ _).trans (Engine.steps_grow _ _)⟩

/-- The document after `v` has been overridden. -/
def inputRead : Document := ((ofEngine readInput).overrideVariable "v" "9").toOption.getD (ofEngine readInput)

lemma overrideAll_readInput : CommandLine.overrideAll (ofEngine readInput) [("v", "9")] = .ok inputRead := by
  have hok : ((ofEngine readInput).overrideVariable "v" "9").toOption.isSome = true := by decide +kernel
  unfold inputRead CommandLine.overrideAll
  cases hover : (ofEngine readInput).overrideVariable "v" "9" with
  | error cause => rw [hover] at hok; cases hok
  | ok d => rfl

/-- The only pass of the run, in which `i` is evaluated and then `f`. -/
def inputReadPass : ℕ → Stage :=
  ((inputRead.engine.seedAll (inputRead.engine.cells.map (·.id))).arriveAll).collect.beginPass.route
    (.ofConfig .standard) [none, none]

/-- The run after the override. -/
def inputReadCourse : ℕ → Engine
  | 0 => (inputRead.engine.seedAll (inputRead.engine.cells.map (·.id))).arriveAll
  | 1 => (inputReadPass 0).suspend
  | 2 => (inputReadPass 1).suspend
  | 3 => (inputReadPass 2).suspend
  | _ => (Engine.endPass (inputReadPass 2)).1

/-- How the run goes, as far as it can be computed. -/
lemma inputRead_trace :
    (inputReadCourse 0).collect.beginPass.isRoute (.ofConfig .standard) [none, none] = true ∧
    ((inputReadCourse 0).pass.isNone && !(inputReadCourse 0).collect.seeds.toList.isEmpty &&
      (inputReadPass 2).pass.remaining.isEmpty && (inputReadPass 2).engine.inFlight.isEmpty &&
      (inputReadCourse 4).seeds.toList.isEmpty && (inputReadCourse 4).store.queue.pending.isEmpty) = true ∧
    (∀ k < 5, ∀ c ∈ (inputReadCourse k).cells, "v" ∈ c.writes.names ∨ c.content.output? = some "v" →
      "v" ∈ c.writes.names ∧ c.content.isInputOf "v" = true) ∧
    (inputRead.engine.store.entries.isEmpty && inputRead.engine.store.queue.pending.isEmpty &&
      inputRead.engine.cells.all fun c => !c.content.isInputOf "v" || c.id == "i" && c.content.text == "9") = true ∧
    ((inputReadCourse 4).cells.any fun c => c.id == "f" && c.reads.contains "v" &&
      ((inputReadCourse 4).graph.cycleOf? c.id).isNone) = true := by
  decide +kernel

lemma isCourse_inputRead : inputRead.IsCourse (.ofConfig .standard) 4 inputReadCourse := by
  obtain ⟨hroute, hrun, -⟩ := inputRead_trace
  simp only [Bool.and_eq_true, Option.isNone_iff_eq_none, Bool.not_eq_true', List.isEmpty_iff,
    List.isEmpty_eq_false_iff] at hrun
  obtain ⟨⟨⟨⟨⟨hidle, hseeds⟩, hremaining⟩, hflights⟩, hseedless⟩, hpending⟩ := hrun
  have hfirst : (inputReadPass 0).Move (.ofConfig .standard) (inputReadPass 1) :=
    Stage.move_of_move? (Stage.move?_route hroute rfl)
  have hsecond : (inputReadPass 1).Move (.ofConfig .standard) (inputReadPass 2) :=
    Stage.move_of_move? (Stage.move?_route hroute rfl)
  have hbegun : (inputReadPass 0).engine.pass = none :=
    (Engine.engine_pass_beginPass.trans Engine.pass_collect).trans hidle
  have hmoved : (inputReadPass 1).engine.pass = none := hfirst.engine_pass.trans hbegun
  refine ⟨rfl, fun k hk => ?_, rfl, hseedless, hpending⟩
  match k, hk with
  | 0, _ => exact .begin hidle hseeds
  | 1, _ => exact .of_move hfirst hbegun
  | 2, _ => exact .of_move hsecond hmoved
  | 3, _ =>
    have hfinish : Engine.Proceeds (.ofConfig .standard) (inputReadPass 2).suspend
        (Engine.endPass ((inputReadPass 2).suspend.resume (inputReadPass 2).pass)).1 :=
      .finish rfl hremaining hflights
    rwa [Engine.resume_suspend (hsecond.engine_pass.trans hmoved)] at hfinish

/-- After the override the formula has seen the new value. -/
theorem overridden_input_read : (inputReadCourse 4).get "v" = .value (readLiteral "9") ∧
    Engine.LastSaw (.ofConfig .standard) inputReadCourse 4 "f" "v" (.value (readLiteral "9")) := by
  obtain ⟨-, -, hwritten, hbefore, hreader⟩ := inputRead_trace
  simp only [Bool.and_eq_true, List.isEmpty_iff, List.all_eq_true, Bool.or_eq_true, Bool.not_eq_true', beq_iff_eq]
    at hbefore
  obtain ⟨⟨hentries, hqueue⟩, hinputs⟩ := hbefore
  obtain ⟨c, hc, hcase⟩ := List.any_eq_true.mp hreader
  simp only [Bool.and_eq_true, beq_iff_eq, Names.contains_iff, Option.isNone_iff_eq_none] at hcase
  obtain ⟨⟨hid, hread⟩, hcycle⟩ := hcase
  have hmute : inputRead.engine.store.Mute := fun name sub hsub => by
    rw [Store.subscribersOf, Store.find?, hentries] at hsub
    cases hsub
  have hothers : ∀ c ∈ inputRead.engine.cells, ∀ other, c.content = .input other "v" →
      inputRead.inputOf? "v" = some c ∨ readLiteral other = readLiteral "9" := fun c hc other hcontent => by
    rcases hinputs c hc with hno | ⟨-, htext⟩
    · rw [hcontent] at hno
      cases hno
    · rw [hcontent] at htext
      exact .inr (congrArg readLiteral htext)
  have hreleased : inputRead.inputOf? "v" ≠ none → inputRead.Released "v" := fun _ w hw => by
    rw [hqueue] at hw
    cases hw
  have honly : CommandLine.overrideAll (ofEngine readInput) ([] ++ ("v", "9") :: []) = .ok inputRead :=
    overrideAll_readInput
  obtain ⟨hvalue, hreaders⟩ := (override_takes_effect reachable_readInput honly nofun hmute hothers hreleased).1
    4 inputReadCourse isCourse_inputRead fun k hk => hwritten k (Nat.lt_succ_of_le hk)
  refine ⟨hvalue, hid ▸ hreaders c hc hread fun hon => ?_⟩
  have ht : inputRead.engine.Tidy :=
    Engine.steps_tidy (l := .ofConfig .standard) (steps_overrideAll overrideAll_readInput)
      (reachable_readInput (l := .ofConfig .standard)).tidy
  have hsome := (Engine.cycleOf?_isSome_iff (Engine.steps_tidy (isCourse_inputRead.steps le_rfl) ht)).mpr hon
  rw [hcycle] at hsome
  cases hsome

end Document

end ReactiveNotebook
