import ReactiveNotebook.Proofs.Scheduling.Incremental

/-!
# Histories of a notebook

The owner of a notebook edits it, writes variables and lets it run, in any order. If at every point of such a
history the cells are ones that are evaluated at once, each the only writer of its variable, then the notebook
is in order all along.
-/
namespace ReactiveNotebook

open Script (Value)

variable {l : Language}

/-- A call of the owner of a notebook. -/
inductive Call where
  | add (d : Definition) (index : ℕ)
  | remove (id : CellId)
  | edit (id : CellId) (text : String)
  | move (id : CellId) (index : ℕ)
  | rename (id : CellId) (name : String)
  | set (name : String) (value : Value)
  | setForced (name : String) (value : Value)
  | setImmediate (name : String) (value : Value)
  | flush
  | advance (nanos : ℕ)
  | tick
  | run
  | runAll

namespace Call

def write? : Call → Option (String × Value)
  | .set name value | .setForced name value | .setImmediate name value => some (name, value)
  | _ => none

/-- The last writes to the variables, after one more call. -/
def record (last : String → Option Value) (c : Call) : String → Option Value :=
  match c.write? with
  | some (name, value) => Function.update last name (some value)
  | none => last

end Call

def lastWrite (calls : List Call) : String → Option Value := calls.foldl Call.record fun _ => none

def hostNames (calls : List Call) : List String := (calls.filterMap Call.write?).map (·.1)

namespace Engine

/-- What a call makes of the engine. An edit that is refused changes nothing. -/
def perform (l : Language) (e : Engine) : Call → Except Stop Engine
  | .add d index => .ok ((e.addCell d index).toOption.getD e)
  | .remove id => .ok (((e.removeCell id).toOption.map (·.1)).getD e)
  | .edit id text => .ok ((e.setContent id text).toOption.getD e)
  | .move id index => .ok ((e.moveCell id index).toOption.getD e)
  | .rename id name => .ok ((e.renameVariable id name).toOption.getD e)
  | .set name value => .ok (e.set name value)
  | .setForced name value => .ok (e.setForced name value)
  | .setImmediate name value => .ok (e.setImmediate name value)
  | .flush => .ok e.flush
  | .advance nanos => .ok (e.advanceClock nanos)
  | .tick =>
    match e.tick l with
    | .ok (e, _) => .ok e
    | .error cause => .error (.panic cause)
  | .run => (e.runUntilIdle l).map (·.1)
  | .runAll => (e.runAll l).map (·.1)

def performAll (l : Language) (e : Engine) (calls : List Call) : Except Stop Engine :=
  calls.foldlM (perform l) e

/-- The cells are no scripts, each variable that is declared is declared by one cell, which does not read it,
and is none of the host's. -/
structure Allowed (hosts : List String) (e : Engine) : Prop where
  atOnce : ∀ c ∈ e.cells, c.content.isScript = false
  single : ∀ c ∈ e.cells, ∀ d ∈ e.cells, ∀ x, c.content.output? = some x → d.content.output? = some x → c.id = d.id
  foreign : ∀ c ∈ e.cells, ∀ x, c.content.output? = some x → x ∉ c.content.analyze.reads
  host : ∀ c ∈ e.cells, ∀ x, c.content.output? = some x → x ∉ hosts

variable {e e' : Engine} {c : Cell} {hosts : List String} {last : String → Option Value} {x : String}

/-- What is kept of a cell is what its text says, and the variable it declares is a good one. -/
structure Derived (c : Cell) : Prop where
  reads : c.reads = c.content.analyze.reads
  writes : c.content.isScript = false → c.writes = c.content.analyze.writes
  check : c.definition.check = .ok ()

lemma derived_reanalyze (h : c.definition.check = .ok ()) : Derived c.reanalyze where
  reads := rfl
  writes hs := by
    change c.content.isScript = false at hs
    cases hcontent : c.content with
    | script source => simp [hcontent, Content.isScript] at hs
    | _ => simp [Cell.reanalyze, hcontent]
  check := h

lemma check_withText (c : Cell) (text : String) :
    (⟨c.id, c.content.withText text⟩ : Definition).check = c.definition.check := by
  unfold Definition.check Cell.definition
  cases c.content <;> rfl

lemma isEmpty_eq_false_of_isVariableName (h : Analysis.isVariableName x = true) : x.isEmpty = false := by
  by_contra hne
  have hempty : x = "" := by simpa using hne
  subst hempty
  revert h
  decide

lemma check_withOutput (c : Cell) (h : Analysis.isVariableName x = true) :
    (⟨c.id, c.content.withOutput x⟩ : Definition).check = .ok () := by
  unfold Definition.check
  cases c.content <;> simp [Content.withOutput, Content.output?, h, isEmpty_eq_false_of_isVariableName h]

lemma isVariableName_of_check (h : c.definition.check = .ok ()) (hout : c.content.output? = some x) :
    Analysis.isVariableName x = true := by
  unfold Definition.check Cell.definition at h
  simp only [hout] at h
  split at h
  · cases h
  · split at h
    · assumption
    · cases h

/-- Edits refuse declared variables that are not good ones. -/
lemma Edit.checked (h : Edit e e') (hn : (e.cells.map (·.id)).Nodup)
    (hcheck : ∀ c ∈ e.cells, c.definition.check = .ok ()) (hc : c ∈ e'.cells) :
    c ∈ e.cells ∨ ∃ b : Cell, c = b.reanalyze ∧ b.definition.check = .ok () := by
  cases h with
  | add h =>
    obtain ⟨hi, -, hgood, rfl⟩ := addCell_ok h
    rcases (List.mem_insertIdx hi).mp hc with rfl | hc
    · exact .inr ⟨_, rfl, hgood⟩
    · exact .inl hc
  | @remove id d e' h =>
    obtain ⟨b, -, -, rfl⟩ := removeCell_ok h
    rw [(vacates_foldl _).cells] at hc
    exact .inl (List.mem_filter.mp hc).1
  | @content id text e' h =>
    obtain ⟨b, -, ⟨-, rfl⟩ | ⟨-, rfl⟩⟩ := setContent_ok h
    · exact .inl hc
    · rcases mem_modifyCell hc with ⟨hc, -⟩ | ⟨d, hd, -, rfl⟩
      · exact .inl hc
      · exact .inr ⟨_, rfl, (check_withText d text).trans (hcheck d hd)⟩
  | move h =>
    obtain ⟨old, b, ho, hb, hi, ⟨-, rfl⟩ | ⟨-, rfl⟩⟩ := moveCell_ok h
    · exact .inl hc
    · exact .inl ((mem_move_iff hn ho hb hi).mp hc)
  | @rename id name e' h =>
    obtain ⟨b, old, -, -, hname, ⟨-, rfl⟩ | ⟨-, rfl⟩⟩ := renameVariable_ok h
    · exact .inl hc
    · change c ∈ (vacate false id ((e.withOutput id name).seed id) old).cells at hc
      rw [vacates_vacate.cells] at hc
      rcases mem_modifyCell hc with ⟨hc, -⟩ | ⟨d, -, -, rfl⟩
      · exact .inl hc
      · exact .inr ⟨_, rfl, check_withOutput d hname⟩

/-- Edits keep what is derived from the texts. -/
lemma Edit.derived (h : Edit e e') (hn : (e.cells.map (·.id)).Nodup) (hd : ∀ c ∈ e.cells, Derived c) :
    ∀ c ∈ e'.cells, Derived c := by
  intro c hc
  rcases h.checked hn (fun c hc => (hd c hc).check) hc with hold | ⟨b, rfl, hcheck⟩
  · exact hd c hold
  · exact derived_reanalyze hcheck

/-- Where the cells are as they should be, they are tame. -/
lemma Allowed.tame (h : e.Allowed hosts) (hd : ∀ c ∈ e.cells, Derived c) : Tame e.cells := by
  have hout : ∀ c ∈ e.cells, ∀ x ∈ c.writes.names, c.content.output? = some x := fun c hc x hx => by
    have hscript := h.atOnce c hc
    rw [(hd c hc).writes hscript] at hx
    cases hcontent : c.content <;>
      simp_all [Content.analyze, WriteSet.names, Content.output?, Content.isScript]
  exact
    { atOnce := h.atOnce
      reads := fun c hc => (hd c hc).reads
      writes := fun c hc => (hd c hc).writes (h.atOnce c hc)
      single := fun c hc d hd' x hx hx' => h.single c hc d hd' x (hout c hc x hx) (hout d hd' x hx')
      foreign := fun c hc x hx => by
        rw [(hd c hc).reads]
        exact h.foreign c hc x (hout c hc x hx) }

/-- Evaluation changes nothing that is derived from the texts. -/
lemma derived_of_blank (h : e'.cells.map Cell.blank = e.cells.map Cell.blank) (hd : ∀ c ∈ e.cells, Derived c) :
    ∀ c ∈ e'.cells, Derived c := by
  intro c hc
  have hblank : c.blank ∈ e.cells.map Cell.blank := h ▸ List.mem_map_of_mem hc
  obtain ⟨d, hde, hdc⟩ := List.mem_map.mp hblank
  have hderived := hd d hde
  have hcontent : d.content = c.content := show d.blank.content = c.blank.content from congrArg _ hdc
  have hreads : d.reads = c.reads := show d.blank.reads = c.blank.reads from congrArg _ hdc
  have hwrites : d.writes = c.writes := show d.blank.writes = c.blank.writes from congrArg _ hdc
  have hdefinition : d.definition = c.definition :=
    show d.blank.definition = c.blank.definition from congrArg _ hdc
  exact ⟨hcontent ▸ hreads ▸ hderived.reads, hcontent ▸ hwrites ▸ hderived.writes,
    hdefinition ▸ hderived.check⟩

/-- What is kept of the cells of a notebook in order, with the texts they are derived from. -/
structure Kept (l : Language) (hosts : List String) (last : String → Option Value) (e : Engine) : Prop where
  inOrder : e.InOrder l hosts last
  derived : ∀ c ∈ e.cells, Derived c

lemma Kept.edit (h : e.Kept l hosts last) (hedit : Edit e e') (ha : e'.Allowed hosts) : e'.Kept l hosts last := by
  have hderived := hedit.derived h.inOrder.sound.tidy.ids h.derived
  have htame := ha.tame hderived
  have hforeign : ∀ c ∈ e'.cells, ∀ x ∈ c.writes.names, x ∉ hosts := fun c hc x hx =>
    ha.host c hc x ((htame.mem_writes_iff hc).mp hx)
  exact ⟨⟨h.inOrder.sound.edit hedit htame,
    h.inOrder.keeps.edit h.inOrder.sound.tidy h.inOrder.sound.tame htame hedit hforeign⟩, hderived⟩

lemma Kept.of_blank (h : e.Kept l hosts last) (he : e'.InOrder l hosts last)
    (hb : e'.cells.map Cell.blank = e.cells.map Cell.blank) : e'.Kept l hosts last :=
  ⟨he, derived_of_blank hb h.derived⟩

/-- A host write is queued whatever way it is made. -/
lemma Kept.push (h : e.Kept l hosts last) {w : PendingWrite} (hw : w.name ∈ hosts) (hhost : Host e e')
    (hp : e'.pass = e.pass) (hc : e'.cells = e.cells) (hs : e'.seeds = e.seeds)
    (hentries : e'.store.entries = e.store.entries)
    (hpending : e'.store.queue.pending = (e.store.queue.push w e.clock.now).pending) :
    e'.Kept l hosts (Function.update last w.name (some w.value)) :=
  ⟨⟨h.inOrder.sound.congr (hhost.tidy h.inOrder.sound.tidy) (hp.trans h.inOrder.sound.rest) hc
      (fun _ => Store.get_congr hentries) fun _ hx => hs ▸ hx,
    h.inOrder.keeps.push hw hc hentries hpending⟩, hc ▸ h.derived⟩

lemma pending_settle (q : WriteQueue) : q.settle.pending = q.pending := by
  unfold WriteQueue.settle
  split <;> rfl

lemma Kept.of_host (h : e.Kept l hosts last) (hhost : Host e e') (hp : e'.pass = e.pass)
    (hc : e'.cells = e.cells) (hs : ∀ x ∈ e.seeds, x ∈ e'.seeds) (hentries : e'.store.entries = e.store.entries)
    (hpending : e'.store.queue.pending = e.store.queue.pending) : e'.Kept l hosts last :=
  ⟨h.inOrder.of_host hhost hp hc hs hentries hpending, hc ▸ h.derived⟩

lemma Kept.runUntilIdle {reports : List Report} (h : e.Kept l hosts last)
    (hrun : e.runUntilIdle l = .ok (e', reports)) :
    e'.Kept l hosts last ∧ e'.cells.map Cell.blank = e.cells.map Cell.blank ∧ e'.seeds = ∅ ∧
      e'.store.queue.pending = [] := by
  have harrive : e.arriveAll.Kept l hosts last := h.of_host (.work _) rfl rfl (fun _ hx => hx) rfl rfl
  obtain ⟨he', hb, hs, hq⟩ := harrive.inOrder.drive hrun
  exact ⟨harrive.of_blank he' hb, hb, hs, hq⟩

lemma Kept.of_runAll {reports : List Report} (h : e.Kept l hosts last) (hrun : e.runAll l = .ok (e', reports)) :
    e'.Kept l hosts last := by
  have hseed : (e.seedAll (e.cells.map (·.id))).Kept l hosts last :=
    h.of_host (.seed _) rfl rfl (fun _ hx => Names.mem_insertAll.mpr (.inr hx)) rfl rfl
  exact (hseed.runUntilIdle hrun).1

/-- An edit that is refused changes nothing. -/
lemma Kept.attempt {r : Except EditError Engine} (h : e.Kept l hosts last) (hedit : ∀ t, r = .ok t → Edit e t)
    (ha : (r.toOption.getD e).Allowed hosts) : (r.toOption.getD e).Kept l hosts last := by
  cases r with
  | error _ => exact h
  | ok t => exact h.edit (hedit t rfl) ha

/-- Every call keeps the notebook in order. -/
theorem Kept.perform {call : Call} (h : e.Kept l hosts last) (hrun : e.perform l call = .ok e')
    (ha : e'.Allowed hosts) (hw : ∀ name value, call.write? = some (name, value) → name ∈ hosts) :
    e'.Kept l hosts (call.record last) := by
  cases call with
  | add d index =>
    cases hrun
    exact h.attempt (fun _ hadd => .add hadd) ha
  | remove id =>
    cases hrun
    cases hremove : e.removeCell id with
    | error _ => exact h
    | ok t =>
      rw [hremove] at ha
      exact h.edit (.remove hremove) ha
  | edit id text =>
    cases hrun
    exact h.attempt (fun _ hedit => .content hedit) ha
  | move id index =>
    cases hrun
    exact h.attempt (fun _ hmove => .move hmove) ha
  | rename id name =>
    cases hrun
    exact h.attempt (fun _ hrename => .rename hrename) ha
  | set name value =>
    cases hrun
    exact h.push (w := ⟨name, value, false⟩) (hw name value rfl) (.set name value) rfl rfl rfl rfl rfl
  | setForced name value =>
    cases hrun
    exact h.push (w := ⟨name, value, true⟩) (hw name value rfl) (.setForced name value) rfl rfl rfl rfl rfl
  | setImmediate name value =>
    cases hrun
    exact h.push (w := ⟨name, value, false⟩) (hw name value rfl) (.setImmediate name value) rfl rfl rfl rfl
      (pending_settle _)
  | flush =>
    cases hrun
    exact h.of_host .flush rfl rfl (fun _ hx => hx) rfl (pending_settle _)
  | advance nanos =>
    cases hrun
    unfold advanceClock
    split
    · exact h.of_host (.sleep nanos) rfl rfl (fun _ hx => hx) rfl rfl
    · exact h
  | tick =>
    simp only [Engine.perform] at hrun
    split at hrun
    · next t report htick =>
      cases hrun
      obtain ⟨ht, hb, -, -⟩ := h.inOrder.tick htick
      exact h.of_blank ht hb
    · cases hrun
  | run =>
    obtain ⟨⟨t, reports⟩, hidle, rfl⟩ := of_map_ok hrun
    exact (h.runUntilIdle hidle).1
  | runAll =>
    obtain ⟨⟨t, reports⟩, hall, rfl⟩ := of_map_ok hrun
    exact h.of_runAll hall

lemma kept_new {config : Config} {manual : Bool} : (new config manual).Kept l hosts fun _ => none where
  inOrder :=
    { sound :=
        { tidy := new_tidy config manual
          rest := rfl
          tame := by constructor <;> intro c hc <;> cases hc
          current := fun c hc => by cases hc }
      keeps :=
        { quiet := fun v hv => by cases hv
          foreign := fun c hc => by cases hc
          known := fun w hw => by cases hw
          distinct := List.nodup_nil
          unwritten := fun _ _ => rfl
          value := fun x _ => .inr ⟨(fun w hw => by cases hw), rfl⟩ } }
  derived c hc := by cases hc

lemma performAll_concat {calls : List Call} {call : Call} :
    performAll l e (calls ++ [call]) = (performAll l e calls).bind fun e => e.perform l call := by
  rw [performAll, List.foldlM_append]
  cases h : performAll l e calls with
  | error _ =>
    rw [performAll] at h
    rw [h]
    rfl
  | ok t =>
    rw [performAll] at h
    rw [h]
    change (t.perform l call).bind pure = t.perform l call
    cases t.perform l call <;> rfl

/-- Along every history the notebook stays in order. -/
theorem kept_of_calls {config : Config} {manual : Bool} {calls : List Call}
    (hallowed : ∀ before, before <+: calls → ∀ e, performAll l (new config manual) before = .ok e →
      e.Allowed hosts)
    (hwrites : ∀ call ∈ calls, ∀ name value, call.write? = some (name, value) → name ∈ hosts)
    (h : performAll l (new config manual) calls = .ok e) : e.Kept l hosts (lastWrite calls) := by
  induction calls using List.reverseRecOn generalizing e with
  | nil =>
    cases h
    exact kept_new
  | append_singleton calls call ih =>
    rw [performAll_concat] at h
    cases hbefore : performAll l (new config manual) calls with
    | error _ => simp [hbefore, Except.bind] at h
    | ok t =>
      have hlast : performAll l (new config manual) (calls ++ [call]) = .ok e := by
        rw [performAll_concat]
        exact h
      rw [hbefore] at h
      have ht := ih (fun before hp => hallowed before (hp.trans (List.prefix_append ..)))
        (fun c hc => hwrites c (List.mem_append_left _ hc)) hbefore
      rw [lastWrite, List.foldl_append]
      exact ht.perform h (hallowed _ List.prefix_rfl e hlast) (hwrites call (List.mem_append_right _ List.mem_cons_self))

end Engine

end ReactiveNotebook
