import ReactiveNotebook.Proofs.Scheduling.Determined
import ReactiveNotebook.Proofs.Scheduling.History
import ReactiveNotebook.Script.Run

/-!
# Incremental evaluation is evaluation from scratch

When a run of a notebook without scripts returns, every variable and every cell is as if a new notebook had
been given the cells and the last writes of the host and then been run. In both notebooks all cells are up to
date, and that determines what they show. The run from scratch returns as well: each of its cells comes to
what it has come to before, so no template is rendered that was not.
-/
namespace ReactiveNotebook

open Script (Value)

variable {l : Language}

namespace Engine

variable {e e' t : Engine} {c : Cell} {hosts : List String} {last : String → Option Value}

/-- A notebook in which all cells are up to date. -/
structure Finished (l : Language) (e : Engine) : Prop where
  sound : e.Sound l
  upToDate : ∀ c ∈ e.cells, c.UpToDate l e.graph e.get

/-- The engine has the cells of a notebook that is finished, and the same variables of the host. -/
structure Models (l : Language) (e t : Engine) : Prop where
  finished : e.Finished l
  definitions : t.cells.map Cell.definition = e.cells.map Cell.definition
  free : ∀ x, (∀ c ∈ e.cells, x ∉ c.writes.names) → e.get x = t.get x

lemma InOrder.finished (h : e.InOrder l hosts last) (hs : e.seeds = ∅) : e.Finished l :=
  ⟨h.sound, fun c hc => (h.sound.current c hc).resolve_right fun hseed => by
    rw [hs] at hseed
    exact absurd hseed (Names.not_mem_empty _)⟩

end Engine

namespace Stage

variable {s s' : Stage} {e : Engine} {i : ℕ} {id : CellId}

lemma definitions_of_blank {cells cells' : List Cell} (h : cells'.map Cell.blank = cells.map Cell.blank) :
    cells'.map Cell.definition = cells.map Cell.definition := by
  have hb := congrArg (List.map Cell.definition) h
  rw [List.map_map, List.map_map] at hb
  exact hb

lemma Evaluates.models (h : s.Evaluates s') (hm : e.Models l s.engine) (ht : Tame s.engine.cells) :
    e.Models l s'.engine where
  finished := hm.finished
  definitions := (definitions_of_blank h.cells).trans hm.definitions
  free x hx := by
    rw [hm.free x hx]
    refine (h.get x fun d hd hxd => ?_).symm
    obtain ⟨c, hc, hcd⟩ := Tame.exists_of_definition hm.definitions.symm hd
    obtain ⟨-, -, hwrites⟩ := hm.finished.sound.tame.eq_of_id ht hm.finished.sound.tidy.ids hm.definitions hc hd
      hcd.symm
    exact hx c hc (hwrites ▸ hxd)

/-- The next cell comes to what it came to in the finished notebook, so no template overflows. -/
lemma Sound.runCell_ok (h : s.Sound l) (hm : e.Models l s.engine) (hnext : s.next? = some i)
    (hid : s.pass.remaining[i]? = some id) : ∃ s', (s.withdraw i).runCell l id = .ok s' := by
  have he := hm.finished
  have htame := he.sound.tame
  have hn := he.sound.tidy.ids
  have hbuild : s.engine.graph = Graph.build e.cells := by
    rw [h.graph_eq, htame.build_eq h.tame hm.definitions]
  cases hcell : s.engine.cell? id with
  | none => exact ⟨(s.withdraw i).finish id .skipped, by simp only [Stage.runCell, withdraw, hcell]⟩
  | some d =>
    have hcell' : (s.withdraw i).engine.cell? id = some d := hcell
    cases htrigger : (s.withdraw i).isTriggered d with
    | false => exact ⟨_, by simp only [Stage.runCell, hcell', htrigger]; rfl⟩
    | true =>
      obtain ⟨hd, hdid⟩ := (Engine.cell?_eq_some_iff h.tidy.ids).mp hcell
      obtain ⟨c, hc, hcd⟩ := Tame.exists_of_definition hm.definitions.symm hd
      obtain ⟨hdefinition, hreads, hwrites⟩ := htame.eq_of_id h.tame hn hm.definitions hc hd hcd.symm
      have hoff : ¬ e.graph.OnCycle c.id := by
        rw [he.sound.tidy.graph, ← hbuild, hcd, hdid]
        exact h.acyclic id (List.mem_of_getElem? hid)
      obtain ⟨v, hv, -⟩ := ((he.upToDate c hc).resolve_left fun hcycle => hoff hcycle.1).2
      -- what the cell reads comes from the host or from cells that do not wait
      have hread : ∀ x ∈ d.reads, (s.pass.slot x).pathless = (e.get x).pathless := by
        intro x hx
        rw [h.synced]
        by_cases hfree : ∀ b ∈ e.cells, x ∉ b.writes.names
        · rw [hm.free x hfree]
        · push Not at hfree
          obtain ⟨b, hb, hxb⟩ := hfree
          obtain ⟨b', hb', hbid⟩ := Tame.exists_of_definition hm.definitions hb
          have hedge : s.engine.graph.Edge b.id id := by
            rw [hbuild, ← hdid, ← hcd]
            exact htame.edge hn hb hc hxb (hreads ▸ hx)
          have hwaits : b.id ∉ s.pass.remaining := fun hw => h.not_edge_next hnext hid hw hedge
          have hlike := like_of_upToDate (l := l) (U := (· ∉ s.pass.remaining)) htame h.tame hn hm.definitions
            hm.free (fun a b hb hno hab ha => ?_) (fun c hc _ => ?_) (fun d hd hU => ?_) hb hb' hbid hwaits
          · exact (hlike.value x hxb).symm
          · rw [← hbuild] at hno hab
            exact (h.closed a ha b hab).elim hno hb
          · rw [← he.sound.tidy.graph]
            exact he.upToDate c hc
          · rw [← hbuild]
            exact (h.current d hd).resolve_right fun hw => hU hw.1
      have hverdict : d.verdict l (s.withdraw i).pass.slot = .ok v := by
        rw [← Cell.verdict_eq_of_definition (htame.atOnce c hc) hdefinition hreads hwrites]
        change c.verdict l s.pass.slot = .ok v
        rw [Cell.verdict_pathless fun x hx => hread x (hreads ▸ hx), hv]
      refine ⟨(s.withdraw i).conclude l d v, ?_⟩
      rw [runCell_eq hcell' htrigger, hverdict]
      rfl

/-- Every pass over the cells of a finished notebook can be gone through with. -/
lemma Sound.runReadyFor_ok {fuel : ℕ} (h : s.Sound l) (hm : e.Models l s.engine) :
    ∃ s', s.runReadyFor l fuel = .ok s' := by
  induction fuel generalizing s with
  | zero => exact ⟨s, rfl⟩
  | succ fuel ih =>
    rw [Stage.runReadyFor, h.alone]
    simp only [List.isEmpty_nil, Bool.not_true, Bool.and_false, Bool.false_eq_true, if_false]
    by_cases hr : s.pass.remaining = []
    · exact ⟨s, by simp only [next?_eq_none hr, Option.bind_none]⟩
    · obtain ⟨i, id, hnext, hid⟩ := exists_next h.alone hr
      obtain ⟨t, hturn⟩ := h.runCell_ok hm hnext hid
      obtain ⟨s', hs'⟩ := ih (h.start hnext hid hturn) ((h.evaluates_runCell hturn).models hm h.tame)
      refine ⟨s', ?_⟩
      simp only [hnext, Option.bind_some, hid, Option.map_some]
      change ((s.withdraw i).runCell l id).bind _ = _
      simp only [hturn, Except.bind]
      exact hs'

end Stage

namespace Engine

variable {e e' t : Engine} {c : Cell} {hosts : List String} {last : String → Option Value}

/-- A tick over the cells of a finished notebook goes through. -/
lemma InOrder.tick_ok (h : t.InOrder l hosts last) (hm : e.Models l t.collect) :
    ∃ t' report, t.tick l = .ok (t', report) := by
  have hcollect := h.collect
  unfold Engine.tick
  simp only [h.sound.rest]
  split
  · exact ⟨_, _, rfl⟩
  · have hsound := hcollect.sound.beginPass
    have hopen : e.Models l t.collect.openPass.engine := ⟨hm.finished, hm.definitions, hm.free⟩
    have hmodels := (evaluates_beginPass hcollect.sound).models hopen hcollect.sound.tame
    obtain ⟨s', hready⟩ : ∃ s', t.collect.beginPass.runReady l = .ok s' := hsound.runReadyFor_ok hmodels
    unfold advance
    simp only [hsound.drain_eq, hready, bind, Except.bind]
    split
    · exact ⟨_, _, rfl⟩
    · exact ⟨_, _, rfl⟩

/-- Without a seed and a write that waits a tick finds nothing to do. -/
lemma InOrder.tick_idle (h : t.InOrder l hosts last) (hs : t.seeds = ∅) (hp : t.store.queue.pending = []) :
    ∃ t', t.tick l = .ok (t', none) ∧ t'.pass = none ∧ t'.store = t.store := by
  have hcollect : t.collect = t := by
    unfold Engine.collect WriteQueue.isSettled
    simp [hp]
  unfold Engine.tick
  simp only [h.sound.rest, hcollect, hs]
  exact ⟨_, rfl, rfl, rfl⟩

/-- A run over the cells of a finished notebook returns once all writes of the host are released. -/
lemma InOrder.drive_ok (h : t.InOrder l hosts last) (hm : e.Models l t.collect)
    (hp : t.collect.store.queue.pending = []) (fuel : ℕ) (reports : List Report) :
    ∃ t' reports', t.drive l (fuel + 2) reports = .ok (t', reports') := by
  obtain ⟨u, report, htick⟩ := h.tick_ok hm
  obtain ⟨hu, -, hseeds, hpending⟩ := h.tick htick
  have hdone : u.store.hasPending = false := by
    rw [Store.hasPending, hpending, hp]
    rfl
  rw [Engine.drive, htick]
  cases report with
  | none =>
    simp only [hu.sound.rest, hdone]
    exact ⟨_, _, rfl⟩
  | some report =>
    obtain ⟨v, hidle, hrest, hstore⟩ := hu.tick_idle hseeds (hpending.trans hp)
    simp only [Engine.drive, hidle, hrest, hstore, hdone]
    exact ⟨_, _, rfl⟩

end Engine

/-- The calls that give a new notebook cells and values of variables, and then run it. -/
def fromScratch (cells : List Definition) (writes : List (String × Value)) : List Call :=
  cells.zipIdx.map (fun p => .add p.1 p.2) ++ writes.map (fun p => .setImmediate p.1 p.2) ++ [.runAll]

/-- The variables that calls have written, each with the last value. -/
def finalWrites (calls : List Call) : List (String × Value) :=
  (hostNames calls).dedup.filterMap fun name => (lastWrite calls name).map (name, ·)

lemma mem_finalWrites {calls : List Call} {name : String} {value : Value}
    (hw : lastWrite calls name = some value → name ∈ hostNames calls) :
    (name, value) ∈ finalWrites calls ↔ lastWrite calls name = some value := by
  constructor
  · intro h
    obtain ⟨name', -, hname⟩ := List.mem_filterMap.mp h
    obtain ⟨value', hvalue, heq⟩ := Option.map_eq_some_iff.mp hname
    cases heq
    exact hvalue
  · intro h
    exact List.mem_filterMap.mpr ⟨name, List.mem_dedup.mpr (hw h), by rw [h]; rfl⟩

lemma nodup_finalWrites (calls : List Call) : ((finalWrites calls).map (·.1)).Nodup := by
  have hsub : List.Sublist ((finalWrites calls).map (·.1)) (hostNames calls).dedup := by
    unfold finalWrites
    generalize (hostNames calls).dedup = names
    induction names with
    | nil => exact List.Sublist.slnil
    | cons name names ih =>
      cases hlast : lastWrite calls name with
      | none =>
        rw [List.filterMap_cons_none (by rw [hlast]; rfl)]
        exact ih.cons _
      | some value =>
        rw [List.filterMap_cons_some (by rw [hlast]; rfl)]
        exact ih.cons_cons _
  exact hsub.nodup (List.nodup_dedup _)

/-- Writing each variable once leaves it with its value. -/
lemma foldl_record_setImmediate {writes : List (String × Value)} (last : String → Option Value)
    (hn : (writes.map (·.1)).Nodup) :
    (∀ p ∈ writes, (writes.map fun p => Call.setImmediate p.1 p.2).foldl Call.record last p.1 = some p.2) ∧
      ∀ x, (∀ p ∈ writes, p.1 ≠ x) →
        (writes.map fun p => Call.setImmediate p.1 p.2).foldl Call.record last x = last x := by
  induction writes generalizing last with
  | nil => exact ⟨(fun p hp => by cases hp), fun _ _ => rfl⟩
  | cons q writes ih =>
    rw [List.map_cons, List.nodup_cons] at hn
    obtain ⟨hset, hkeep⟩ := ih (Function.update last q.1 (some q.2)) hn.2
    refine ⟨fun p hp => ?_, fun x hx => ?_⟩
    · rcases List.mem_cons.mp hp with rfl | hp
      · exact (hkeep p.1 fun r hr hne => hn.1 (hne ▸ List.mem_map_of_mem hr)).trans (Function.update_self ..)
      · exact hset p hp
    · exact (hkeep x fun p hp => hx p (List.mem_cons_of_mem _ hp)).trans
        (Function.update_of_ne (hx q List.mem_cons_self).symm ..)

namespace Engine

variable {e e' t : Engine} {c : Cell} {hosts : List String} {last : String → Option Value}

lemma performAll_append {calls calls' : List Call} (h : performAll l e calls = .ok t) :
    performAll l e (calls ++ calls') = performAll l t calls' := by
  rw [performAll] at h
  rw [performAll, List.foldlM_append, h]
  rfl

/-- Whether the cells are allowed depends on their definitions. -/
lemma Allowed.of_definitions (h : e.Allowed hosts)
    (hd : ∀ c ∈ t.cells, c.definition ∈ e.cells.map Cell.definition) : t.Allowed hosts := by
  have hcell : ∀ c ∈ t.cells, ∃ d ∈ e.cells, d.id = c.id ∧ d.content = c.content := fun c hc => by
    obtain ⟨d, hde, hdc⟩ := List.mem_map.mp (hd c hc)
    exact ⟨d, hde, congrArg Definition.id hdc, congrArg Definition.content hdc⟩
  refine ⟨fun c hc => ?_, fun c hc d hd x hx hx' => ?_, fun c hc x hx => ?_, fun c hc x hx => ?_⟩
  · obtain ⟨b, hb, -, hcontent⟩ := hcell c hc
    exact hcontent ▸ h.atOnce b hb
  · obtain ⟨b, hb, hid, hcontent⟩ := hcell c hc
    obtain ⟨b', hb', hid', hcontent'⟩ := hcell d hd
    exact hid.symm.trans ((h.single b hb b' hb' x (hcontent ▸ hx) (hcontent' ▸ hx')).trans hid')
  · obtain ⟨b, hb, -, hcontent⟩ := hcell c hc
    exact hcontent ▸ h.foreign b hb x (hcontent ▸ hx)
  · obtain ⟨b, hb, -, hcontent⟩ := hcell c hc
    exact h.host b hb x (hcontent ▸ hx)

/-- A cell with a new id and a good variable can be added at the end. -/
lemma addCell_length {d : Definition} (hid : d.id ∉ e.cells.map (·.id)) (hcheck : d.check = .ok ()) :
    e.addCell d e.cells.length =
      .ok (rebuild { (e.seed d.id) with cells := e.cells ++ [.ofDefinition d] }) := by
  have hnew : e.hasCell d.id = false := Bool.eq_false_iff.mpr (mt hasCell_iff.mp hid)
  unfold addCell
  simp only [lt_irrefl, if_false, hnew, hcheck, Bool.false_eq_true, List.insertIdx_length_self]
  rfl

/-- The cells of a notebook in order can be added to a new one, one after the other. -/
lemma performAll_add (l : Language) (config : Config) (manual : Bool) {cells : List Definition} (ha : e.Allowed hosts)
    (hsub : ∀ d ∈ cells, d ∈ e.cells.map Cell.definition) (hn : (cells.map (·.id)).Nodup)
    (hcheck : ∀ d ∈ cells, d.check = .ok ()) :
    ∃ t, performAll l (new config manual) (cells.zipIdx.map fun p => .add p.1 p.2) = .ok t ∧
      t.Kept l hosts (fun _ => none) ∧ t.cells.map Cell.definition = cells ∧ t.store.queue.pending = [] := by
  induction cells using List.reverseRecOn with
  | nil => exact ⟨_, rfl, kept_new, rfl, rfl⟩
  | append_singleton cells d ih =>
    rw [List.map_append, List.map_singleton, List.nodup_append] at hn
    obtain ⟨t, ht, hkept, hdef, hpending⟩ := ih (fun d hd => hsub d (List.mem_append_left _ hd)) hn.1
      fun d hd => hcheck d (List.mem_append_left _ hd)
    have hlast : d ∈ cells ++ [d] := List.mem_append_right _ List.mem_cons_self
    have hids : t.cells.map (·.id) = cells.map (·.id) := by
      rw [← hdef, List.map_map]
      rfl
    have hnew : d.id ∉ t.cells.map (·.id) := by
      rw [hids]
      exact fun hmem => hn.2.2 _ hmem _ List.mem_cons_self rfl
    have hlength : t.cells.length = cells.length := by rw [← hdef, List.length_map]
    have hadd := addCell_length hnew (hcheck d hlast)
    set u := rebuild { (t.seed d.id) with cells := t.cells ++ [.ofDefinition d] } with hu
    have hcells : u.cells.map Cell.definition = cells ++ [d] := by
      change (t.cells ++ [Cell.ofDefinition d]).map Cell.definition = _
      rw [List.map_append, hdef]
      rfl
    have hperform : t.perform l (.add d cells.length) = .ok u := by
      rw [Engine.perform, ← hlength, hadd]
      rfl
    refine ⟨u, ?_, ?_, hcells, hpending⟩
    · rw [List.zipIdx_append, List.map_append, performAll_append ht]
      simp only [List.zipIdx_singleton, List.map_singleton, Nat.zero_add, performAll, List.foldlM_cons,
        List.foldlM_nil]
      rw [hperform]
      rfl
    · have hallowed : u.Allowed hosts := ha.of_definitions fun c hc => by
        refine hsub c.definition ?_
        rw [← hcells]
        exact List.mem_map_of_mem hc
      exact hkept.perform hperform hallowed fun _ _ hw => by cases hw

/-- Writes that are released at once can follow, and wait to be taken over. -/
lemma performAll_setImmediate (writes : List (String × Value)) (h : t.Kept l hosts last)
    (ha : t.Allowed hosts) (hw : ∀ p ∈ writes, p.1 ∈ hosts)
    (hp : t.store.queue.pending = [] ∨ t.store.queue.immediate = true) :
    ∃ u, performAll l t (writes.map fun p => .setImmediate p.1 p.2) = .ok u ∧
      u.Kept l hosts ((writes.map fun p => Call.setImmediate p.1 p.2).foldl Call.record last) ∧
      u.cells = t.cells ∧ (u.store.queue.pending = [] ∨ u.store.queue.immediate = true) := by
  induction writes generalizing t last with
  | nil => exact ⟨t, rfl, h, rfl, hp⟩
  | cons p writes ih =>
    have hperform : t.perform l (.setImmediate p.1 p.2) = .ok (t.setImmediate p.1 p.2) := rfl
    have hallowed : (t.setImmediate p.1 p.2).Allowed hosts := ⟨ha.atOnce, ha.single, ha.foreign, ha.host⟩
    have hnext := h.perform hperform hallowed fun name value hc => by
      cases hc
      exact hw p List.mem_cons_self
    have hreleased : (t.setImmediate p.1 p.2).store.queue.pending = [] ∨
        (t.setImmediate p.1 p.2).store.queue.immediate = true := by
      change (WriteQueue.settle _).pending = [] ∨ (WriteQueue.settle _).immediate = true
      unfold WriteQueue.settle
      split
      · next hempty => exact .inl (List.isEmpty_iff.mp hempty)
      · exact .inr rfl
    obtain ⟨u, hu, hkept, hcells, hpending⟩ := ih hnext hallowed
      (fun q hq => hw q (List.mem_cons_of_mem _ hq)) hreleased
    exact ⟨u, hu, hkept, hcells, hpending⟩

/-- Two notebooks have the same cells in the same order, which show the same, and the same variables, up to the
paths of cycles. -/
structure Same (e e' : Engine) : Prop where
  value : ∀ x, (e.get x).pathless = (e'.get x).pathless
  cells : List.Forall₂ (fun c d => c.definition = d.definition ∧ c.status.pathless = d.status.pathless ∧
    ∀ template, c.content = .markdown template → c.rendered = d.rendered) e.cells e'.cells

/-- Two notebooks that are finished are the same if their cells and the variables of the host are. -/
lemma Finished.same (h : e.Finished l) (h' : t.Finished l)
    (hdef : t.cells.map Cell.definition = e.cells.map Cell.definition)
    (hfree : ∀ x, (∀ c ∈ e.cells, x ∉ c.writes.names) → e.get x = t.get x) : e.Same t := by
  have hbuild : t.graph = Graph.build e.cells := by
    rw [h'.sound.tidy.graph, h.sound.tame.build_eq h'.sound.tame hdef]
  have hlike : ∀ c ∈ e.cells, ∀ d ∈ t.cells, d.id = c.id → c.Like e.get t.get d := fun c hc d hd hid =>
    like_of_upToDate (l := l) (U := fun _ => True) h.sound.tame h'.sound.tame h.sound.tidy.ids hdef hfree
      (fun _ _ _ _ _ => trivial) (fun c hc _ => h.sound.tidy.graph ▸ h.upToDate c hc)
      (fun d hd _ => hbuild ▸ h'.upToDate d hd) hc hd hid trivial
  refine ⟨fun x => ?_, ?_⟩
  · by_cases hx : ∀ c ∈ e.cells, x ∉ c.writes.names
    · rw [hfree x hx]
    · push Not at hx
      obtain ⟨c, hc, hxc⟩ := hx
      obtain ⟨d, hd, hid⟩ := Tame.exists_of_definition hdef hc
      exact (hlike c hc d hd hid).value x hxc
  · have hpairs : List.Forall₂ Eq (e.cells.map Cell.definition) (t.cells.map Cell.definition) := by
      rw [List.forall₂_eq_eq_eq]
      exact hdef.symm
    obtain ⟨hlength, hpair⟩ :=
      List.forall₂_iff_zip.mp (List.forall₂_map_right_iff.mp (List.forall₂_map_left_iff.mp hpairs))
    refine List.forall₂_iff_zip.mpr ⟨hlength, fun {c d} hcd => ?_⟩
    obtain ⟨hc, hd⟩ := List.of_mem_zip hcd
    have hdefinition := hpair hcd
    have hcell := hlike c hc d hd (congrArg Definition.id hdefinition).symm
    exact ⟨hdefinition, hcell.status, hcell.rendered⟩

/-- Where no write waits, a variable that no cell writes holds what the host wrote last. -/
lemma Keeps.get_eq (h : e.Keeps hosts last) (hp : e.store.queue.pending = [])
    (hx : ∀ c ∈ e.cells, x ∉ c.writes.names) : e.get x = hostSlot (last x) := by
  rcases h.value x hx with ⟨w, hw, -⟩ | ⟨-, hget⟩
  · rw [hp] at hw
    cases hw
  · exact hget

/-- A notebook that is in order with the cells and the host variables of a finished one can be run, and is
then the same. -/
lemma Kept.runAll_same (h : e.Kept l hosts last) (hs : e.seeds = ∅) (hq : e.store.queue.pending = [])
    (ht : t.Kept l hosts last) (hdef : t.cells.map Cell.definition = e.cells.map Cell.definition)
    (hp : t.store.queue.pending = [] ∨ t.store.queue.immediate = true) :
    ∃ t', t.perform l .runAll = .ok t' ∧ e.Same t' := by
  have hseed : (t.seedAll (t.cells.map (·.id))).Kept l hosts last :=
    ht.of_host (.seed _) rfl rfl (fun _ hx => Names.mem_insertAll.mpr (.inr hx)) rfl rfl
  have hstart : (t.seedAll (t.cells.map (·.id))).arriveAll.Kept l hosts last :=
    hseed.of_host (.work _) rfl rfl (fun _ hx => hx) rfl rfl
  set u := (t.seedAll (t.cells.map (·.id))).arriveAll with hu
  have hrelease : u.collect.store.queue.pending = [] := hstart.inOrder.keeps.pending_collect hp
  have hfinished := h.inOrder.finished hs
  -- a variable that no cell writes is the host's in both
  have hfree : ∀ t' : Engine, t'.Keeps hosts last → t'.store.queue.pending = [] →
      t'.cells.map Cell.definition = e.cells.map Cell.definition → Tame t'.cells →
      ∀ x, (∀ c ∈ e.cells, x ∉ c.writes.names) → e.get x = t'.get x := by
    intro t' hkeeps hnone hdef' htame x hx
    rw [h.inOrder.keeps.get_eq hq hx, hkeeps.get_eq hnone fun d hd hxd => ?_]
    obtain ⟨c, hc, hid⟩ := Tame.exists_of_definition hdef'.symm hd
    obtain ⟨-, -, hwrites⟩ := hfinished.sound.tame.eq_of_id htame hfinished.sound.tidy.ids hdef' hc hd hid.symm
    exact hx c hc (hwrites ▸ hxd)
  have hcollect := hstart.inOrder.collect
  have hcells : u.collect.cells.map Cell.definition = e.cells.map Cell.definition := by
    rw [cells_collect]
    exact hdef
  have hmodels : e.Models l u.collect :=
    ⟨hfinished, hcells, hfree _ hcollect.keeps hrelease hcells hcollect.sound.tame⟩
  obtain ⟨t', reports, hdrive⟩ := hstart.inOrder.drive_ok hmodels hrelease 999998 []
  have hrun : (t.seedAll (t.cells.map (·.id))).runUntilIdle l = .ok (t', reports) := hdrive
  obtain ⟨hkept, hblank, hseeds, hnone⟩ := hseed.runUntilIdle hrun
  have hdef' : t'.cells.map Cell.definition = e.cells.map Cell.definition :=
    (Stage.definitions_of_blank hblank).trans hdef
  refine ⟨t', ?_, hfinished.same (hkept.inOrder.finished hseeds) hdef'
    (hfree t' hkept.inOrder.keeps hnone hdef' hkept.inOrder.sound.tame)⟩
  rw [Engine.perform, runAll, hrun]
  rfl

/-- When a run returns, the notebook is the same as a new one that is given its cells and the last writes of the
host and is then run. -/
theorem incremental_eq_from_scratch {config : Config} {manual : Bool} {calls : List Call}
    (hallowed : ∀ before, before <+: calls ++ [.run] → ∀ t, performAll l (new config manual) before = .ok t →
      t.Allowed (hostNames calls))
    (hrun : performAll l (new config manual) (calls ++ [.run]) = .ok e) :
    ∃ e', performAll l (new config manual)
        (fromScratch (e.cells.map Cell.definition) (finalWrites calls)) = .ok e' ∧ e.Same e' := by
  have hnames : ∀ call ∈ calls, ∀ name value, call.write? = some (name, value) → name ∈ hostNames calls :=
    fun call hcall name value hw => List.mem_map.mpr ⟨(name, value), List.mem_filterMap.mpr ⟨call, hcall, hw⟩, rfl⟩
  have hfinal : e.Allowed (hostNames calls) := hallowed _ List.prefix_rfl e hrun
  rw [performAll_concat] at hrun
  cases hbefore : performAll l (new config manual) calls with
  | error _ => simp [hbefore, Except.bind] at hrun
  | ok t =>
    have ht : t.Kept l (hostNames calls) (lastWrite calls) :=
      kept_of_calls (fun before hp => hallowed before (hp.trans (List.prefix_append ..))) hnames hbefore
    rw [hbefore] at hrun
    obtain ⟨result, hidle, rfl⟩ := of_map_ok hrun
    obtain ⟨he, -, hseeds, hpending⟩ := ht.runUntilIdle hidle
    have hunwritten : ∀ x, lastWrite calls x ≠ none → x ∈ hostNames calls := fun x hx => by
      by_contra hno
      exact hx (he.inOrder.keeps.unwritten x hno)
    have hmem : ∀ {x v}, (x, v) ∈ finalWrites calls ↔ lastWrite calls x = some v :=
      mem_finalWrites fun h => hunwritten _ (by simp [h])
    -- the cells are added, and the variables written
    obtain ⟨u, hu, hkept, hdef, hnone⟩ := performAll_add l config manual hfinal
      (fun d hd => hd) (by rw [List.map_map]; exact he.inOrder.sound.tidy.ids) fun d hd => by
        obtain ⟨c, hc, rfl⟩ := List.mem_map.mp hd
        exact (he.derived c hc).check
    have hallowed' : u.Allowed (hostNames calls) := hfinal.of_definitions fun c hc => by
      rw [← hdef]
      exact List.mem_map_of_mem hc
    obtain ⟨v, hv, hkept', hcells, hrelease⟩ := performAll_setImmediate (finalWrites calls) hkept
      hallowed' (fun p hp => hunwritten p.1 (by simp [hmem.mp hp])) (.inl hnone)
    have hlast : ((finalWrites calls).map fun p => Call.setImmediate p.1 p.2).foldl Call.record (fun _ => none) =
        lastWrite calls := by
      obtain ⟨hset, hkeep⟩ := foldl_record_setImmediate (fun _ => none) (nodup_finalWrites calls)
      funext x
      cases hx : lastWrite calls x with
      | none => exact hkeep x fun p hp heq => by simp [hmem.mp (heq ▸ hp : (x, p.2) ∈ _)] at hx
      | some value => exact hset (x, value) (hmem.mpr hx)
    rw [hlast] at hkept'
    obtain ⟨e', hrun, hsame⟩ := he.runAll_same hseeds hpending hkept' (hcells ▸ hdef) hrelease
    refine ⟨e', ?_, hsame⟩
    rw [fromScratch, List.append_assoc, performAll_append hu, performAll_append hv]
    rw [performAll, List.foldlM_cons, hrun]
    rfl

instance : Decidable (e.Allowed hosts) :=
  decidable_of_iff
    ((∀ c ∈ e.cells, c.content.isScript = false) ∧
      (∀ c ∈ e.cells, ∀ d ∈ e.cells, ∀ x ∈ c.content.output?, d.content.output? = some x → c.id = d.id) ∧
      (∀ c ∈ e.cells, ∀ x ∈ c.content.output?, x ∉ c.content.analyze.reads) ∧
      ∀ c ∈ e.cells, ∀ x ∈ c.content.output?, x ∉ hosts)
    ⟨fun ⟨h, h', h'', h'''⟩ => ⟨h, h', h'', h'''⟩, fun h => ⟨h.atOnce, h.single, h.foreign, h.host⟩⟩

instance {x : Except Stop Engine} {P : Engine → Prop} [DecidablePred P] : Decidable (∀ t, x = .ok t → P t) :=
  match x with
  | .ok t => decidable_of_iff (P t) ⟨fun h _ heq => Except.ok.inj heq ▸ h, fun h => h t rfl⟩
  | .error _ => isTrue fun _ h => nomatch h

/-- A price is entered, the host writes how many, and both change again after a run. -/
def orderHistory : List Call :=
  [.add ⟨"price", .input "3" "p"⟩ 0, .add ⟨"note", .markdown "total {{ t }}"⟩ 1,
    .add ⟨"total", .formula "p * n" "t"⟩ 1, .set "n" (.int 2), .run, .edit "price" "5", .setForced "n" (.int 4),
    .tick, .flush]

/-- The run after these calls shows what a run from scratch shows. -/
theorem order_history_eq_from_scratch :
    ∃ e e', performAll (.ofConfig .standard) (new .standard true) (orderHistory ++ [.run]) = .ok e ∧
      performAll (.ofConfig .standard) (new .standard true)
        (fromScratch (e.cells.map Cell.definition) (finalWrites orderHistory)) = .ok e' ∧ e.Same e' := by
  have hallowed : ∀ before ∈ (orderHistory ++ [Call.run]).inits, ∀ t,
      performAll (.ofConfig .standard) (new .standard true) before = .ok t →
        t.Allowed (hostNames orderHistory) := by decide +kernel
  have hreturns : (performAll (.ofConfig .standard) (new .standard true) (orderHistory ++ [.run])).toOption.isSome =
      true := by decide +kernel
  obtain ⟨e, he⟩ := Option.isSome_iff_exists.mp hreturns
  have hrun : performAll (.ofConfig .standard) (new .standard true) (orderHistory ++ [.run]) = .ok e := by
    cases hcalls : performAll (.ofConfig .standard) (new .standard true) (orderHistory ++ [.run]) with
    | error _ => simp [hcalls, Except.toOption] at he
    | ok t => simpa [hcalls, Except.toOption] using he
  obtain ⟨e', he', hsame⟩ :=
    incremental_eq_from_scratch (fun before hp => hallowed before ((List.mem_inits _ _).mpr hp)) hrun
  exact ⟨e, e', hrun, he', hsame⟩

end Engine

end ReactiveNotebook
