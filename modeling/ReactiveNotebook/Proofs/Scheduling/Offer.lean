import ReactiveNotebook.Proofs.Engine.Relay
import ReactiveNotebook.Proofs.Scheduling.Incremental
import ReactiveNotebook.Proofs.Scheduling.Overflow
import ReactiveNotebook.Proofs.Scheduling.Supply

/-!
# Values that are offered to a run

A run that evaluates every cell gives a variable the value that its input cells offer, or that the host has written
where there is none, and every reader sees that value last. A pass may be in progress when the run begins. It may
evaluate readers with an old value, but every cell is seeded for the pass after it. That pass begins with the host
write taken over, or evaluates an input cell before any reader. From then on the variable keeps the value.
-/
namespace ReactiveNotebook

open Relation (ReflTransGen)
open Script (Value)

variable {l : Language}

namespace Stage

variable {s s' : Stage} {x : CellId}

lemma Move.config_eq (h : s.Move l s') : s'.engine.config = s.engine.config := by
  cases h with
  | start _ _ _ hrun =>
    rcases runCell_cases hrun with hcontrol | ⟨c, source, -, -, -, -, rfl⟩
    · exact congrArg (·.engine.config) hcontrol
    · rfl
  | @receive a rest _ => exact (landing_receive (s.deliver rest) a).config_eq

lemma Move.mem_seeds (h : s.Move l s') (hs : s.Tidy) (hx : x ∈ s.engine.seeds) : x ∈ s'.engine.seeds := by
  cases h with
  | start _ _ hid hrun => exact (starts_of_runCell hs hid hrun).seeds ▸ hx
  | @receive a rest _ => exact (landing_receive (s.deliver rest) a).seeds hx

end Stage

namespace Engine

variable {e f : Engine} {c d : Cell} {x : CellId} {n : String} {v : Value} {p : Pass} {σ : ℕ → Engine} {k : ℕ}
variable {inputs : Inputs} {ws : List PendingWrite}

/-- A variable whose writes in a burst agree has the value when the burst has been taken over. -/
lemma get_foldl_takeWrite_of_agree (hagree : ∀ w ∈ ws, w.name = n → w.value = v)
    (hsome : e.get n = .value v ∨ ∃ w ∈ ws, w.name = n) : (ws.foldl takeWrite e).get n = .value v := by
  induction ws generalizing e with
  | nil => exact hsome.resolve_right fun ⟨w, hw, _⟩ => by cases hw
  | cons w ws ih =>
    refine ih (fun u hu => hagree u (List.mem_cons_of_mem _ hu)) ?_
    rw [get_takeWrite]
    by_cases hn : n = w.name
    · rw [if_pos hn, hagree w List.mem_cons_self hn.symm]
      exact .inl rfl
    · rw [if_neg hn]
      refine hsome.imp_right fun ⟨u, hu, hun⟩ => ⟨u, (List.mem_cons.mp hu).resolve_left ?_, hun⟩
      rintro rfl
      exact hn hun.symm

/-- A run adds no host writes as long as no subscriber does. -/
lemma mute_proceeds (h : Proceeds l e f) (he : e.store.Mute) :
    f.store.Mute ∧ ∀ w ∈ f.store.queue.pending, w ∈ e.store.queue.pending := by
  have hcollect : e.collect.store.Mute ∧ ∀ w ∈ e.collect.store.queue.pending, w ∈ e.store.queue.pending := by
    obtain ⟨hmute, hqueue⟩ := mute_collect he
    refine ⟨hmute, fun w hw => ?_⟩
    rw [hqueue] at hw
    split at hw
    · cases hw
    · exact hw
  cases h with
  | begin _ _ =>
    obtain ⟨hmute, hqueue⟩ := mute_beginPass hcollect.1
    exact ⟨hmute, fun w hw => hcollect.2 w (hqueue ▸ hw)⟩
  | collect _ _ _ => exact hcollect
  | wait _ _ _ => exact ⟨he, fun w hw => hw⟩
  | @move p s time _ hm =>
    obtain ⟨hmute, hqueue⟩ := hm.relays.mute he
    exact ⟨hmute, fun w hw => hqueue ▸ hw⟩
  | finish _ _ _ => exact ⟨he, fun w hw => hw⟩

lemma exists_of_proceeds (h : Proceeds l e f) (hd : d ∈ f.cells) : ∃ c ∈ e.cells, c.revision = d.revision :=
  Cell.exists_revision h.revisions_eq hd

/-- Only scripts are in flight. -/
def Scripted (e : Engine) : Prop := ∀ c ∈ e.cells, c.id ∈ e.inFlight.map (·.1) → c.content.isScript = true

lemma scripted_of_rest (ht : e.Tidy) (hp : e.pass = none) : e.Scripted := fun c _ hfly => by
  rw [(ht.idle hp).1] at hfly
  cases hfly

lemma Scripted.ongoing (h : e.Scripted) (ht : e.Tidy) (hstep : Ongoing l e f) : f.Scripted := fun d hd hfly => by
  obtain ⟨c, hc, hrevision, -⟩ := hstep.exists_mem hd
  have hid : d.id = c.id := congrArg (·.1) hrevision
  have hcontent : d.content = c.content := congrArg (·.2.1) hrevision
  rw [hcontent]
  rcases hstep.step.mem_flying ht hfly with hfly | ⟨-, b, hb, hbid, hscript⟩
  · exact h c hc (hid ▸ hfly)
  · rwa [List.inj_on_of_nodup_map ht.ids hc hb (hid.symm.trans hbid.symm)]

lemma Scripted.steps (h : e.Scripted) (ht : e.Tidy) (hsteps : ReflTransGen (Ongoing l) e f) : f.Scripted := by
  induction hsteps with
  | refl => exact h
  | tail hsteps hstep ih => exact ih.ongoing (steps_tidy (steps_of_ongoing hsteps) ht) hstep

/-- Nothing that the host wrote to the variable waits, only scripts are in flight, and no cell is lost. -/
structure Undisturbed (e : Engine) (n : String) : Prop where
  pending : ∀ w ∈ e.store.queue.pending, w.name ≠ n
  scripted : e.Scripted
  attentive : e.Attentive

lemma Undisturbed.proceeds (h : e.Undisturbed n) (ht : e.Tidy) (he : e.store.Mute) (hstep : Proceeds l e f) :
    f.Undisturbed n where
  pending w hw := h.pending w ((mute_proceeds hstep he).2 w hw)
  scripted := h.scripted.steps ht hstep.ongoing
  attentive := attentive_of_ongoing hstep.ongoing ht h.attentive

lemma Supplied.congr (h : e.Supplied n v) (hcells : f.cells = e.cells) : f.Supplied n v := by
  rwa [Supplied, hcells]

/-- A pass begins with the value that the variable has. -/
lemma carries_beginPass (ht : e.Tidy) (hsupplied : e.Supplied n v) : e.beginPass.Carries n (e.get n) := by
  have hopen : e.openPass.Carries n (e.get n) := ⟨rfl, Pass.slot_start⟩
  refine hopen.of_replaces (replaces_beginPass ht) ?_
  rintro ⟨c, hc, -, hcycle, hwrites⟩
  rw [ht.graph] at hcycle
  exact (hsupplied c hc (.inl hwrites)).not_onCycle ht.ids hc hcycle

/-- All cells are seeded. An input cell declares the variable, or the host has written the value to it. -/
structure Offers (e : Engine) (n : String) (v : Value) : Prop where
  seeds : ∀ c ∈ e.cells, c.id ∈ e.seeds
  settled : ∀ w ∈ e.store.queue.pending, w.name = n →
    e.store.queue.isSettled e.clock.now e.config.settleWindow = true
  source : (∃ c ∈ e.cells, c.content.output? = some n) ∨
    (∃ w ∈ e.store.queue.pending, w.name = n) ∧ ∀ w ∈ e.store.queue.pending, w.name = n → w.value = v

/-- A pass is in progress that is going to evaluate an input cell which declares the variable. -/
structure Prepares (e : Engine) (n : String) : Prop extends Undisturbed e n where
  poised : ∃ p, e.pass = some p ∧ ∃ c ∈ e.cells, n ∈ c.writes.names ∧ (e.resume p).Poises c.id

/-- The variable has the value, and a pass in progress sees it. -/
structure Provides (e : Engine) (n : String) (v : Value) : Prop extends Undisturbed e n where
  value : e.get n = .value v
  seen : ∀ p, e.pass = some p → p.slot n = .value v

/-- Every reader of the variable is owed an evaluation. -/
def OwesReaders (e : Engine) (n : String) : Prop := ∀ c ∈ e.cells, n ∈ c.reads → e.Owes c.id

namespace Offers

/-- A cell that is seeded is owed an evaluation. -/
lemma owes (h : e.Offers n v) (hc : c ∈ e.cells) : e.Owes c.id where
  resting _ := .inl (h.seeds c hc)
  running _ _ := .inl (h.seeds c hc)

lemma attentive (h : e.Offers n v) (hp : e.pass = none) : e.Attentive where
  resting _ c hc _ := h.seeds c hc
  running p hp' := by cases hp.symm.trans hp'

/-- The burst is taken over as a whole when no pass is in progress. -/
lemma pending_collect (h : e.Offers n v) (he : e.store.Mute) : ∀ w ∈ e.collect.store.queue.pending, w.name ≠ n := by
  intro w hw hwn
  rw [(mute_collect he).2] at hw
  split at hw
  · cases hw
  · next hq => exact hq (h.settled w hw hwn)

/-- Where no input cell declares the variable, the host write is taken over. -/
lemma get_collect (h : e.Offers n v) (hno : ∀ c ∈ e.cells, c.content.output? ≠ some n) :
    e.collect.get n = .value v := by
  obtain ⟨⟨w, hw, hwn⟩, hvalue⟩ := h.source.resolve_left fun ⟨c, hc, hout⟩ => hno c hc hout
  unfold Engine.collect
  rw [if_pos (h.settled w hw hwn)]
  exact get_foldl_takeWrite_of_agree hvalue (.inr ⟨w, hw, hwn⟩)

/-- The offer stands while a pass is in progress. -/
lemma of_kept (h : e.Offers n v) (hrevisions : f.cells.map Cell.revision = e.cells.map Cell.revision)
    (hseeds : ∀ x ∈ e.seeds, x ∈ f.seeds) (hqueue : f.store.queue = e.store.queue) (hclock : f.clock = e.clock)
    (hconfig : f.config = e.config) : f.Offers n v where
  seeds d hd := by
    obtain ⟨c, hc, heq⟩ := Cell.exists_revision hrevisions hd
    have hid : c.id = d.id := congrArg (·.1) heq
    exact hid ▸ hseeds _ (h.seeds c hc)
  settled := by
    rw [hqueue, hclock, hconfig]
    exact h.settled
  source := by
    rw [hqueue]
    refine h.source.imp_left fun ⟨c, hc, hout⟩ => ?_
    obtain ⟨d, hd, heq⟩ := Cell.exists_revision hrevisions.symm hc
    have hcontent : d.content = c.content := congrArg (·.2.1) heq
    exact ⟨d, hd, hcontent ▸ hout⟩

/-- When the pass begins, an input cell that declares the variable is poised, or the host write has been taken over. -/
lemma begin (h : e.Offers n v) (ht : e.Tidy) (hsupplied : e.Supplied n v) :
    (∃ c ∈ e.collect.beginPass.engine.cells, n ∈ c.writes.names ∧ e.collect.beginPass.Poises c.id) ∨
      e.collect.beginPass.Carries n (.value v) := by
  have ht' : e.collect.Tidy := collect_tidy ht
  have hsupplied' : e.collect.Supplied n v := hsupplied.congr (cells_collect e)
  by_cases hdeclared : ∃ c ∈ e.cells, c.content.output? = some n
  · obtain ⟨c, hc, hout⟩ := hdeclared
    have hc' : c ∈ e.collect.cells := cells_collect e ▸ hc
    have hsupplies := hsupplied c hc (.inr hout)
    have hoff : ¬ e.collect.graph.OnCycle c.id := ht'.graph ▸ hsupplies.not_onCycle ht'.ids hc'
    have hk : c.id ∈ e.collect.cells.map (·.id) := List.mem_map_of_mem hc'
    have hseed : c.id ∈ e.collect.seeds := mem_seeds_collect (h.seeds c hc)
    have hwaits := (mem_remaining_beginPass ht').mpr ⟨reached_of_seed ht' hseed hk, hoff⟩
    obtain ⟨hmember, hundone⟩ := active_beginPass hwaits
    obtain ⟨d, hd, hid, hwrites⟩ : ∃ d ∈ e.collect.beginPass.engine.cells, d.id = c.id ∧ d.writes = c.writes := by
      have hmem : c.blank ∈ e.collect.beginPass.engine.cells.map Cell.blank :=
        Stage.cells_blank_of_control (control_blockCycles e.collect) ▸ List.mem_map_of_mem hc'
      obtain ⟨d, hd, heq⟩ := List.mem_map.mp hmem
      exact ⟨d, hd, congrArg (·.id) heq, congrArg (·.writes) heq⟩
    exact .inl ⟨d, hd, hwrites ▸ hsupplies.writes, hid ▸ ⟨hwaits, mem_roots ht' hseed hk, hmember, hundone⟩⟩
  · refine .inr ?_
    rw [← h.get_collect fun c hc hout => hdeclared ⟨c, hc, hout⟩]
    exact carries_beginPass ht' hsupplied'

/-- Without seeds there are no cells either. -/
lemma output?_ne (h : e.Offers n v) (hs : e.seeds.toList = []) (c : Cell) (hc : c ∈ e.cells) :
    c.content.output? ≠ some n := fun _ => by
  have hseed : c.id ∈ e.seeds.toList := h.seeds c hc
  rw [hs] at hseed
  cases hseed

lemma undisturbed (h : e.Offers n v) (ht : e.Tidy) (hp : e.pass = none) (hstep : Proceeds l e f)
    (hpending : ∀ w ∈ f.store.queue.pending, w.name ≠ n) : f.Undisturbed n where
  pending := hpending
  scripted := (scripted_of_rest ht hp).steps ht hstep.ongoing
  attentive := attentive_of_ongoing hstep.ongoing ht (h.attentive hp)

/-- The offer stands until the pass begins that evaluates every cell. -/
theorem step (h : e.Offers n v) (ht : e.Tidy) (he : e.store.Mute) (hsupplied : e.Supplied n v)
    (hstep : Proceeds l e f) : f.Offers n v ∨ (f.Prepares n ∨ f.Provides n v) ∧ f.OwesReaders n := by
  have howes : e.pass = none → f.OwesReaders n := fun hp d hd _ => by
    obtain ⟨c, hc, hrevision⟩ := exists_of_proceeds hstep hd
    have hid : c.id = d.id := congrArg (·.1) hrevision
    refine (hid ▸ h.owes hc).proceeds ht (h.attentive hp) hstep fun b inputs _ => ?_
    rintro ⟨p, -, -, hp', -⟩
    cases hp.symm.trans hp'
  have hundisturbed := fun hp => h.undisturbed ht hp hstep
  cases hstep with
  | begin hp hs =>
    have hpass : e.collect.beginPass.engine.pass = none := (engine_pass_beginPass.trans pass_collect).trans hp
    have hpending : ∀ w ∈ e.collect.beginPass.suspend.store.queue.pending, w.name ≠ n := fun w hw => by
      refine h.pending_collect he w ?_
      rwa [← (mute_beginPass (mute_collect he).1).2]
    refine .inr ⟨?_, howes hp⟩
    rcases h.begin ht hsupplied with ⟨c, hc, hwrites, hpoised⟩ | hcarries
    · refine .inl ⟨hundisturbed hp hpending, e.collect.beginPass.pass, rfl, c, hc, hwrites, ?_⟩
      rwa [resume_suspend hpass]
    · refine .inr ⟨hundisturbed hp hpending, hcarries.value, fun p hp' => ?_⟩
      obtain rfl : e.collect.beginPass.pass = p := Option.some.inj hp'
      exact hcarries.seen
  | @collect phase hp hq hs =>
    have hs' : e.seeds.toList = [] := List.eq_nil_iff_forall_not_mem.mpr fun x hx => by
      have hx' : x ∈ e.collect.seeds.toList := mem_seeds_collect hx
      rw [hs] at hx'
      cases hx'
    refine .inr ⟨.inr ⟨hundisturbed hp (h.pending_collect he), h.get_collect (h.output?_ne hs'), ?_⟩, howes hp⟩
    intro p hp'
    cases ((pass_collect.trans hp).symm.trans hp' : none = some p)
  | @wait phase time hp hs hw =>
    -- the host write that the offer stands on has been released, so nothing is waited for
    obtain ⟨⟨w, hwm, hwn⟩, -⟩ := h.source.resolve_left fun ⟨c, hc, hout⟩ => h.output?_ne hs c hc hout
    have hsettled := h.settled w hwm hwn
    rw [WriteQueue.isSettled, hw] at hsettled
    simp at hsettled
  | @move p s time hp hm =>
    obtain ⟨-, hqueue⟩ := hm.relays.mute he
    exact .inl (h.of_kept hm.revisions_eq (fun x => hm.mem_seeds (((Host.work time).tidy ht).pass p hp)) hqueue
      hm.relays.clock hm.config_eq)
  | @finish p hp hr hf => exact .inl (h.of_kept rfl (fun x hx => hx) rfl rfl rfl)

end Offers

/-- An evaluated cell is a cell of the pass, and what it sees are the slots that the pass holds. -/
lemma mem_of_presents (h : Presents l e f c inputs) : c ∈ e.cells ∧
    ∃ p, e.pass = some p ∧ inputs = c.inputs p.slot ∧
      ∃ i, (e.resume p).next? = some i ∧ p.remaining[i]? = some c.id := by
  obtain ⟨p, time, s, hp, ⟨i, verdict, hi, hid, hc, -⟩, -, hinputs⟩ := h
  exact ⟨List.mem_of_find?_eq_some hc, p, hp, hinputs, i, hi, hid⟩

namespace Prepares

/-- No reader is evaluated before the input cell. -/
lemma not_presents (h : e.Prepares n) (ht : e.Tidy) (hsupplied : e.Supplied n v) (hd : d ∈ e.cells)
    (hread : n ∈ d.reads) (hid : c.id = d.id) : ¬ Presents l e f c inputs := fun hpresents => by
  obtain ⟨p, hp, b, hb, hwrites, hpoised⟩ := h.poised
  obtain ⟨-, p', hp', -, i, hi, hci⟩ := mem_of_presents hpresents
  cases hp.symm.trans hp'
  have hs := ht.pass p hp
  have hsupplies := hsupplied b hb (.inl hwrites)
  have hne : b.id ≠ d.id := fun heq => by
    rw [← List.inj_on_of_nodup_map ht.ids hb hd heq] at hread
    exact hsupplies.deaf n hread
  refine hpoised.not_edge hs (fun y hedge => ?_) hi hci ?_
  · rw [hs.graph] at hedge
    exact hsupplies.not_edge hs.ids hb hedge
  · exact hs.edge_iff.mpr ⟨b, hb, d, hd, rfl, hid.symm, hne, n, hwrites, hread⟩

/-- The input cell stays poised until it is evaluated, which provides the value. -/
theorem step (h : e.Prepares n) (ht : e.Tidy) (he : e.store.Mute) (hsupplied : e.Supplied n v)
    (hsupplied' : f.Supplied n v) (hstep : Proceeds l e f) : f.Prepares n ∨ f.Provides n v := by
  have hundisturbed := h.toUndisturbed.proceeds ht he hstep
  have hexists := fun d => exists_of_proceeds (d := d) hstep
  obtain ⟨p, hp, c, hc, hwrites, hpoised⟩ := h.poised
  cases hstep with
  | begin hp' _ => cases hp'.symm.trans hp
  | collect hp' _ _ => cases hp'.symm.trans hp
  | wait hp' _ _ => cases hp'.symm.trans hp
  | @finish p' hp' hr _ =>
    cases hp.symm.trans hp'
    have hwaits := hpoised.waits
    change c.id ∈ p.remaining at hwaits
    rw [hr] at hwaits
    cases hwaits
  | @move p' s time hp' hm =>
    cases hp.symm.trans hp'
    have hwork : Calm l e { e with workTime := time } := .ongoing (.host (.work time))
    have hs : (resume { e with workTime := time } p).Tidy := ((Host.work time).tidy ht).pass p hp
    have ha : (resume { e with workTime := time } p).Attentive := (hwork.attentive ht h.attentive).running p hp
    have hpoised : (resume { e with workTime := time } p).Poises c.id :=
      ⟨hpoised.waits, hpoised.root, hpoised.member, hpoised.undone⟩
    have hpass : s.engine.pass = none := hm.engine_pass
    have hsupplies := hsupplied c hc (.inl hwrites)
    obtain ⟨d, hd, hrevision⟩ : ∃ d ∈ s.engine.cells, d.revision = c.revision :=
      Cell.exists_revision hm.revisions_eq.symm hc
    have hid : d.id = c.id := congrArg (·.1) hrevision
    have hsupplies' : d.Supplies n v := by
      obtain ⟨text, hcontent, -⟩ := hsupplies.text
      have hsame : d.content = c.content := congrArg (·.2.1) hrevision
      exact hsupplied' d hd (.inr (by rw [hsame, hcontent]; rfl))
    rcases hpoised.move hs ha hc hsupplies hd hid hsupplies' hm with hpoised' | hcarries
    · refine .inl ⟨hundisturbed, s.pass, rfl, d, hd, hsupplies'.writes, ?_⟩
      rwa [resume_suspend hpass]
    · refine .inr ⟨hundisturbed, hcarries.value, fun p hp => ?_⟩
      obtain rfl : s.pass = p := Option.some.inj hp
      exact hcarries.seen

end Prepares

/-- Nothing takes the value away once it is provided. -/
theorem Provides.step (h : e.Provides n v) (ht : e.Tidy) (he : e.store.Mute) (hsupplied : e.Supplied n v)
    (hsupplied' : f.Supplied n v) (hstep : Proceeds l e f) : f.Provides n v := by
  have hundisturbed := h.toUndisturbed.proceeds ht he hstep
  have hcollect : e.pass = none → e.collect.get n = .value v := fun hp => by
    rw [← h.value]
    refine (get_collect_or_hosts n hp).resolve_right ?_
    rintro ⟨-, -, ⟨w, hw, hwn⟩, -⟩
    exact h.pending w hw hwn
  cases hstep with
  | begin hp _ =>
    have hcarries := carries_beginPass (collect_tidy ht) (hsupplied.congr (cells_collect e))
    rw [hcollect hp] at hcarries
    refine ⟨hundisturbed, hcarries.value, fun p hp' => ?_⟩
    obtain rfl : e.collect.beginPass.pass = p := Option.some.inj hp'
    exact hcarries.seen
  | @collect phase hp _ _ =>
    refine ⟨hundisturbed, hcollect hp, fun p hp' => ?_⟩
    cases ((pass_collect.trans hp).symm.trans hp' : none = some p)
  | wait _ _ _ => exact ⟨hundisturbed, h.value, h.seen⟩
  | @move p s time hp hm =>
    have hs : (resume { e with workTime := time } p).Tidy := ((Host.work time).tidy ht).pass p hp
    have hcarries : (resume { e with workTime := time } p).Carries n (.value v) := ⟨h.value, h.seen p hp⟩
    have hcarries' := hcarries.move hs hm hsupplied hsupplied' h.scripted
    refine ⟨hundisturbed, hcarries'.value, fun p hp => ?_⟩
    obtain rfl : s.pass = p := Option.some.inj hp
    exact hcarries'.seen
  | finish _ _ _ => exact ⟨hundisturbed, h.value, fun p hp => by cases hp⟩

/-- Whatever is evaluated while the value is provided sees it. -/
lemma Provides.mem_inputs (h : e.Provides n v) (hpresents : Presents l e f c inputs) (hread : n ∈ c.reads) :
    (n, .value v) ∈ inputs := by
  obtain ⟨-, p, hp, rfl, -⟩ := mem_of_presents hpresents
  refine List.mem_map.mpr ⟨n, hread, ?_⟩
  simp [h.seen p hp, Slot.isError]

/-- Every reader of the variable has seen the value when it was evaluated last, or is owed an evaluation. -/
def Informs (l : Language) (σ : ℕ → Engine) (k : ℕ) (n : String) (v : Value) : Prop :=
  ∀ c ∈ (σ k).cells, n ∈ c.reads → (σ k).Owes c.id ∨ LastSaw l σ k c.id n (.value v)

lemma OwesReaders.step (h : e.OwesReaders n) (ht : e.Tidy) (ha : e.Attentive) (hstep : Proceeds l e f)
    (hno : ∀ d ∈ e.cells, n ∈ d.reads → ∀ c inputs, c.id = d.id → ¬ Presents l e f c inputs) : f.OwesReaders n := by
  intro d hd hread
  obtain ⟨c, hc, hrevision⟩ := exists_of_proceeds hstep hd
  have hid : c.id = d.id := congrArg (·.1) hrevision
  have hreads : c.reads = d.reads := congrArg (·.2.2.2) hrevision
  have hread' : n ∈ c.reads := hreads ▸ hread
  exact hid ▸ (h c hc hread').proceeds ht ha hstep (hno c hc hread')

lemma Informs.step (h : Informs l σ k n v) (hprovides : (σ k).Provides n v) (ht : (σ k).Tidy)
    (hstep : Proceeds l (σ k) (σ (k + 1))) : Informs l σ (k + 1) n v := by
  intro d hd hread
  obtain ⟨c, hc, hrevision⟩ := exists_of_proceeds hstep hd
  have hid : c.id = d.id := congrArg (·.1) hrevision
  have hreads : c.reads = d.reads := congrArg (·.2.2.2) hrevision
  rw [← hid]
  rw [← hreads] at hread
  by_cases hpresents : ∃ b inputs, b.id = c.id ∧ Presents l (σ k) (σ (k + 1)) b inputs
  · obtain ⟨b, inputs, hbid, hpresents⟩ := hpresents
    obtain rfl : b = c := List.inj_on_of_nodup_map ht.ids (mem_of_presents hpresents).1 hc hbid
    exact .inr (lastSaw_of_presents rfl hpresents (hprovides.mem_inputs hpresents hread))
  · simp only [not_exists, not_and] at hpresents
    refine (h c hc hread).imp (fun howes => ?_) fun hsaw => hsaw.succ hpresents
    exact howes.proceeds ht hprovides.attentive hstep hpresents

/-- How far the value has come. -/
def Advances (l : Language) (σ : ℕ → Engine) (k : ℕ) (n : String) (v : Value) : Prop :=
  (σ k).Offers n v ∨ (σ k).Prepares n ∧ (σ k).OwesReaders n ∨ (σ k).Provides n v ∧ Informs l σ k n v

lemma Advances.step (h : Advances l σ k n v) (ht : (σ k).Tidy) (he : (σ k).store.Mute) (hsupplied : (σ k).Supplied n v)
    (hsupplied' : (σ (k + 1)).Supplied n v) (hstep : Proceeds l (σ k) (σ (k + 1))) : Advances l σ (k + 1) n v := by
  rcases h with hoffers | ⟨hprepares, howes⟩ | ⟨hprovides, hinforms⟩
  · refine (hoffers.step ht he hsupplied hstep).imp_right fun ⟨hcase, howes⟩ => ?_
    exact hcase.imp (⟨·, howes⟩) fun hprovides => ⟨hprovides, fun c hc hread => .inl (howes c hc hread)⟩
  · have howes' := howes.step ht hprepares.attentive hstep fun d hd hread c inputs hid =>
      hprepares.not_presents ht hsupplied hd hread hid
    refine .inr ((hprepares.step ht he hsupplied hsupplied' hstep).imp (⟨·, howes'⟩) fun hprovides => ?_)
    exact ⟨hprovides, fun c hc hread => .inl (howes' c hc hread)⟩
  · exact .inr (.inr ⟨hprovides.step ht he hsupplied hsupplied' hstep, hinforms.step hprovides ht hstep⟩)

/-- At the end of a run that evaluates every cell the variable has the value that the input cells give it, or that the
host has written where there is none, and every reader that is on no cycle has seen that value last. -/
theorem supplied_of_run {N : ℕ} (hreach : Reachable l (σ 0)) (hmute : (σ 0).store.Mute) (hoffers : (σ 0).Offers n v)
    (hsteps : ∀ k < N, Proceeds l (σ k) (σ (k + 1))) (hsupplied : ∀ k ≤ N, (σ k).Supplied n v) (hrest : (σ N).AtRest) :
    (σ N).get n = .value v ∧ ∀ c ∈ (σ N).cells, n ∈ c.reads → ¬ (σ N).graph.OnCycle c.id →
      LastSaw l σ N c.id n (.value v) := by
  have hrun : ∀ k ≤ N, Reachable l (σ k) ∧ (σ k).store.Mute ∧ Advances l σ k n v := by
    intro k hk
    induction k with
    | zero => exact ⟨hreach, hmute, .inl hoffers⟩
    | succ k ih =>
      obtain ⟨hr, hm, hadvances⟩ := ih (by omega)
      have hstep := hsteps k hk
      obtain ⟨config, manual, hbefore⟩ := hr
      have ht : (σ k).Tidy := steps_tidy hbefore (new_tidy config manual)
      refine ⟨⟨config, manual, hbefore.trans (steps_of_proceeds (.single hstep))⟩, (mute_proceeds hstep hm).1, ?_⟩
      exact hadvances.step ht hm (hsupplied k (by omega)) (hsupplied (k + 1) hk) hstep
  obtain ⟨hr, -, hoffers | ⟨hprepares, -⟩ | ⟨hprovides, hinforms⟩⟩ := hrun N le_rfl
  · obtain ⟨⟨w, hw, -⟩, -⟩ := hoffers.source.resolve_left fun ⟨c, hc, hout⟩ => hoffers.output?_ne hrest.seeds c hc hout
    rw [hrest.pending] at hw
    cases hw
  · obtain ⟨p, hp, -⟩ := hprepares.poised
    cases hrest.rest.symm.trans hp
  · refine ⟨hprovides.value, fun c hc hread hoff => (hinforms c hc hread).resolve_left fun howes => ?_⟩
    exact hoff (howes.onCycle_of_atRest hr hrest hc)

end Engine

end ReactiveNotebook
