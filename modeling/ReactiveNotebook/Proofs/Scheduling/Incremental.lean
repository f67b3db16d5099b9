import ReactiveNotebook.Proofs.Engine.Effect
import ReactiveNotebook.Proofs.Engine.Tick
import ReactiveNotebook.Proofs.Scheduling.UpToDate

/-!
# Cells stay up to date or are seeded

Whatever happens to a notebook without scripts, in which every variable has one writer, each cell is up to
date or among the seeds of the next pass: edits and host writes seed the cells whose results they may change,
and a tick that runs a pass leaves no seed behind. The variables that no cell writes hold what the host wrote
last, unless that still waits.
-/
namespace ReactiveNotebook

open Script (Value)

variable {l : Language}

namespace Engine

variable {e e' : Engine} {c d : Cell} {x name : String} {w : PendingWrite} {report : Option Report}

/-- A cell stays up to date when the graph is derived anew, unless its mark is wrong then. -/
lemma upToDate_of_mark (hn : (e'.cells.map (·.id)).Nodup) (hg : e'.graph = Graph.build e'.cells)
    (h : c.UpToDate l e.graph e.get) (hmark : c.status.isCycle = (e'.graph.cycleOf? c.id).isSome)
    (hw : ∀ x ∈ c.writes.names, e'.get x = e.get x) (hr : ∀ x ∈ c.reads, e'.get x = e.get x) :
    c.UpToDate l e'.graph e'.get := by
  refine h.congr ?_ hw fun _ => hr
  rw [← h.isCycle_iff, hmark, hg, Graph.cycleOf?_isSome_iff hn]

/-- Edits seed what they do not leave up to date. -/
theorem Sound.edit (h : e.Sound l) (hedit : Edit e e') (htame : Tame e'.cells) : e'.Sound l := by
  have hstep : Step l e e' := .edit hedit
  have htidy := hstep.tidy h.tidy
  refine ⟨htidy, ?_, htame, ?_⟩
  · rcases hedit.shape with rfl | ⟨_, _, _, rfl⟩ <;> exact h.rest
  · rcases hedit.effect h.tidy.ids h.tidy.graph with rfl | heffect
    · exact h.current
    · intro c hc
      rcases heffect.cells c hc with hce | hseed
      · rcases h.current c hce with hup | hseed
        · rcases heffect.marks c hc with hmark | hseed
          · by_cases hr : ∀ x ∈ c.reads, e'.get x = e.get x
            · refine .inl (upToDate_of_mark htidy.ids htidy.graph hup hmark (fun x hx => ?_) hr)
              exact (heffect.value x).resolve_right fun hcleared => hcleared.free c hc hx
            · push Not at hr
              obtain ⟨x, hx, hne⟩ := hr
              exact .inr (((heffect.value x).resolve_left hne).readers c hc hx)
          · exact .inr hseed
        · exact .inr (heffect.seeds c hc hseed)
      · exact .inr hseed

lemma get_takeWrite : (e.takeWrite w).get x = if x = w.name then .value w.value else e.get x := by
  have hget : (e.store.commit w.name (.value w.value) e.clock.now).1.get x =
      if x = w.name then .value w.value else e.get x := Store.get_commit
  rcases hc : e.store.commit w.name (.value w.value) e.clock.now with ⟨store, changed⟩
  rw [hc] at hget
  unfold takeWrite
  simp only [hc]
  split <;> exact hget

lemma silent_takeWrite : e.store.Silent (e.takeWrite w).store := by
  have hsilent : e.store.Silent (e.store.commit w.name (.value w.value) e.clock.now).1 := Store.silent_commit
  rcases hc : e.store.commit w.name (.value w.value) e.clock.now with ⟨store, changed⟩
  rw [hc] at hsilent
  unfold takeWrite
  simp only [hc]
  split <;> exact hsilent

/-- The readers of a variable that a host write changes are seeded. -/
lemma seeds_takeWrite {id : CellId} (hr : id ∈ e.graph.readersOf w.name)
    (hne : (e.takeWrite w).get w.name ≠ e.get w.name) : id ∈ (e.takeWrite w).seeds := by
  have hchanged : (e.store.commit w.name (.value w.value) e.clock.now).2 = true := by
    by_contra hno
    have heq := Store.get_eq_of_unchanged (by simpa using hno)
    rw [get_takeWrite, if_pos rfl] at hne
    exact hne heq.symm
  rcases hc : e.store.commit w.name (.value w.value) e.clock.now with ⟨store, changed⟩
  rw [hc] at hchanged
  cases hchanged
  unfold takeWrite
  simp only [hc, Bool.true_or, if_true]
  exact Names.mem_insertAll.mpr (.inl hr)

/-- The readers of a variable that a burst of host writes changes are seeded. -/
lemma seeds_foldl_takeWrite {ws : List PendingWrite} {id : CellId} {x : String} (hr : id ∈ e.graph.readersOf x)
    (hne : (ws.foldl takeWrite e).get x ≠ e.get x) : id ∈ (ws.foldl takeWrite e).seeds := by
  induction ws generalizing e with
  | nil => exact absurd rfl hne
  | cons w ws ih =>
    rw [List.foldl_cons] at hne ⊢
    by_cases hw : (e.takeWrite w).get x = e.get x
    · obtain ⟨store, seeds, -, heq⟩ := sameButSeeds_takeWrite e w
      refine ih ?_ (hw ▸ hne)
      rw [heq]
      exact hr
    · have hxw : x = w.name := by
        by_contra hno
        exact hw (by rw [get_takeWrite, if_neg hno])
      subst hxw
      obtain ⟨store, seeds, hseeds, heq⟩ := sameButSeeds_foldl_takeWrite ws (e.takeWrite w)
      rw [heq]
      exact hseeds _ (seeds_takeWrite hr hw)

/-- The readers of a variable that changes when a burst is taken over are seeded. -/
lemma seeds_collect {id : CellId} {x : String} (hr : id ∈ e.graph.readersOf x)
    (hne : e.collect.get x ≠ e.get x) : id ∈ e.collect.seeds := by
  revert hne
  unfold Engine.collect
  split
  · exact seeds_foldl_takeWrite (e := { e with
      phase := .collecting, store := { e.store with queue := e.store.queue.drained } }) hr
  · exact fun hne => absurd rfl hne

/-- A host write to a variable that no cell writes seeds what it does not leave up to date. -/
lemma Sound.takeWrite (h : e.Sound l) (hw : ∀ c ∈ e.cells, w.name ∉ c.writes.names) :
    (e.takeWrite w).Sound l := by
  obtain ⟨store, seeds, hseeds, heq⟩ := sameButSeeds_takeWrite e w
  have hcells : (e.takeWrite w).cells = e.cells := by rw [heq]
  have hgraph : (e.takeWrite w).graph = e.graph := by rw [heq]
  have htidy : (e.takeWrite w).Tidy := by
    rw [heq]
    exact { h.tidy with pass := fun p hp => { h.tidy.pass p hp with } }
  refine ⟨htidy, by rw [heq]; exact h.rest, hcells ▸ h.tame, fun c hc => ?_⟩
  rw [hcells] at hc
  have hgrow : ∀ x ∈ e.seeds, x ∈ (e.takeWrite w).seeds := by
    rw [heq]
    exact hseeds
  rcases h.current c hc with hup | hseed
  · by_cases hr : ∀ x ∈ c.reads, (e.takeWrite w).get x = e.get x
    · refine .inl (hup.congr (by rw [hgraph]) (fun x hx => ?_) fun _ => hr)
      rw [get_takeWrite, if_neg]
      rintro rfl
      exact hw c hc hx
    · push Not at hr
      obtain ⟨x, hx, hne⟩ := hr
      have hxw : x = w.name := by
        by_contra hno
        exact hne (by rw [get_takeWrite, if_neg hno])
      subst hxw
      refine .inr (seeds_takeWrite ?_ hne)
      rw [h.tidy.graph]
      exact Graph.mem_readersOf_build.mpr ⟨c, hc, rfl, hx⟩
  · exact .inr (hgrow _ hseed)

lemma cells_takeWrite : (e.takeWrite w).cells = e.cells := by
  obtain ⟨store, seeds, -, heq⟩ := sameButSeeds_takeWrite e w
  rw [heq]

lemma Sound.foldl_takeWrite (h : e.Sound l) (ws : List PendingWrite)
    (hw : ∀ w ∈ ws, ∀ c ∈ e.cells, w.name ∉ c.writes.names) : (ws.foldl Engine.takeWrite e).Sound l := by
  induction ws generalizing e with
  | nil => exact h
  | cons w ws ih =>
    refine ih (h.takeWrite (hw w List.mem_cons_self)) fun v hv c hc => ?_
    rw [cells_takeWrite] at hc
    exact hw v (List.mem_cons_of_mem _ hv) c hc

/-- Soundness is about the cells, the variables and the seeds. -/
lemma Sound.congr (h : e.Sound l) (ht : e'.Tidy) (hp : e'.pass = none) (hc : e'.cells = e.cells)
    (hget : ∀ x, e'.get x = e.get x) (hs : ∀ x ∈ e.seeds, x ∈ e'.seeds) : e'.Sound l := by
  have hgraph : e'.graph = e.graph := by rw [ht.graph, h.tidy.graph, hc]
  refine ⟨ht, hp, hc ▸ h.tame, fun c hce => ?_⟩
  rw [hc] at hce
  rcases h.current c hce with hup | hseed
  · exact .inl (hup.congr (by rw [hgraph]) (fun x _ => hget x) fun _ x _ => hget x)
  · exact .inr (hs _ hseed)

/-- Taking over the waiting burst keeps the notebook sound if it writes to no variable of a cell. -/
lemma Sound.collect (h : e.Sound l)
    (hw : ∀ w ∈ e.store.queue.pending, ∀ c ∈ e.cells, w.name ∉ c.writes.names) : e.collect.Sound l := by
  unfold Engine.collect
  split
  · refine Sound.foldl_takeWrite ?_ _ hw
    exact h.congr { h.tidy with pass := fun p hp => { h.tidy.pass p hp with } } h.rest rfl (fun _ => rfl)
      fun _ hx => hx
  · exact h

/-- A pass in a notebook without scripts ends within the tick that starts it, with all cells up to date. -/
lemma advance_sound {s : Stage} (h : s.Sound l) (hp : s.engine.pass = none) (hs : s.engine.seeds = ∅)
    (hrun : advance l s = .ok (e', report)) :
    e'.Sound l ∧ e'.seeds = ∅ ∧
      ∃ t : Stage, s.Evaluates t ∧ e'.cells = t.engine.cells ∧ e'.store = t.engine.store := by
  unfold advance at hrun
  rw [h.drain_eq] at hrun
  cases hready : s.runReady l with
  | error cause => simp [hready, bind, Except.bind] at hrun
  | ok t =>
    obtain ⟨ht, hnil, heval⟩ := h.runReadyFor le_rfl hready
    have hpt : t.engine.pass = none := (Stage.engine_pass_of_moves (Stage.moves_runReadyFor hready)).trans hp
    simp only [hready, bind, Except.bind, hnil, ht.alone, List.isEmpty_nil, Bool.and_self, if_true, pure,
      Except.pure, Except.ok.injEq] at hrun
    have hshape : ∃ phase, e' = { t.engine with pass := none, phase } := by
      unfold endPass at hrun
      simp only [Prod.mk.injEq] at hrun
      exact ⟨_, hrun.1.symm⟩
    obtain ⟨phase, rfl⟩ := hshape
    exact ⟨⟨⟨ht.tidy.ids, ht.tidy.graph, (fun p hp => by cases hp), fun _ => ⟨ht.alone, ht.arriving_eq⟩⟩, rfl,
      ht.tame, fun c hc => .inl (ht.upToDate_of_remaining_nil hnil hc)⟩, heval.seeds.trans hs, t, heval, rfl, rfl⟩

/-- What a host wrote to a variable last, as a slot. -/
def hostSlot : Option Value → Slot
  | none => .undefined
  | some v => .value v

/-- The host writes only `hosts`, no variable of a cell is among them, and a variable that no cell writes holds
what the host wrote to it last, unless that still waits. -/
structure Keeps (hosts : List String) (last : String → Option Value) (e : Engine) : Prop where
  quiet : e.store.Quiet
  foreign : ∀ c ∈ e.cells, ∀ x ∈ c.writes.names, x ∉ hosts
  known : ∀ w ∈ e.store.queue.pending, w.name ∈ hosts
  distinct : (e.store.queue.pending.map (·.name)).Nodup
  unwritten : ∀ x, x ∉ hosts → last x = none
  value : ∀ x, (∀ c ∈ e.cells, x ∉ c.writes.names) →
    (∃ w ∈ e.store.queue.pending, w.name = x ∧ last x = some w.value) ∨
      (∀ w ∈ e.store.queue.pending, w.name ≠ x) ∧ e.get x = hostSlot (last x)

variable {hosts : List String} {last : String → Option Value}

/-- No write of the host that waits is to a variable of a cell. -/
lemma Keeps.pending_foreign (h : e.Keeps hosts last) :
    ∀ w ∈ e.store.queue.pending, ∀ c ∈ e.cells, w.name ∉ c.writes.names :=
  fun w hw c hc hx => h.foreign c hc w.name hx (h.known w hw)

/-- What is evaluated changes variables of cells only. -/
lemma Keeps.congr (h : e.Keeps hosts last) (hc : ∀ c ∈ e'.cells, ∃ d ∈ e.cells, d.writes = c.writes)
    (hc' : ∀ d ∈ e.cells, ∃ c ∈ e'.cells, c.writes = d.writes) (hq : e.store.Silent e'.store)
    (hget : ∀ x, (∀ c ∈ e.cells, x ∉ c.writes.names) → e'.get x = e.get x) : e'.Keeps hosts last := by
  obtain ⟨hquiet, hqueue⟩ := hq h.quiet
  refine ⟨hquiet, fun c hce x hx => ?_, hqueue ▸ h.known, hqueue ▸ h.distinct, h.unwritten, fun x hx => ?_⟩
  · obtain ⟨d, hd, heq⟩ := hc c hce
    exact h.foreign d hd x (heq ▸ hx)
  · have hxe : ∀ d ∈ e.cells, x ∉ d.writes.names := fun d hd => by
      obtain ⟨c, hce, heq⟩ := hc' d hd
      exact heq ▸ hx c hce
    rw [hqueue, hget x hxe]
    exact h.value x hxe

/-- A cell that no longer writes a variable has left it undefined. -/
lemma undefined_of_given_up (ht : e.Tidy) (htame : Tame e.cells) (htame' : Tame e'.cells) (h : Edit e e')
    (hc : c ∈ e.cells) (hx : x ∈ c.writes.names) (hfree : ∀ d ∈ e'.cells, x ∉ d.writes.names) :
    e'.get x = .undefined := by
  have hout := (htame.mem_writes_iff hc).mp hx
  have habsent : ∀ d ∈ e'.cells, d.content.output? ≠ some x := fun d hd hdx =>
    hfree d hd ((htame'.mem_writes_iff hd).mpr hdx)
  cases h with
  | @add d index e' h =>
    obtain ⟨hi, -, -, rfl⟩ := addCell_ok h
    exact absurd hout (habsent c ((List.mem_insertIdx hi).mpr (.inr hc)))
  | @remove id d e' h =>
    obtain ⟨b, hb, -, rfl⟩ := removeCell_ok h
    obtain ⟨hbm, hbid⟩ := (cell?_eq_some_iff ht.ids).mp hb
    have hv : Vacates b.writes.names.toList id _ (b.writes.names.toList.foldl (vacate true id) (rebuild { e with
      cells := e.cells.filter (·.id != id), seeds := e.seeds.filter (· != id) })) := vacates_foldl _
    have hin : ∀ d ∈ e.cells, d.id ≠ id → d ∈ (b.writes.names.toList.foldl (vacate true id) (rebuild { e with
        cells := e.cells.filter (·.id != id), seeds := e.seeds.filter (· != id) })).cells := fun d hd hne => by
      rw [hv.cells]
      exact List.mem_filter.mpr ⟨hd, by simpa using hne⟩
    by_cases hcid : c.id = id
    · have hcb : c = b := List.inj_on_of_nodup_map ht.ids hc hbm (hcid.trans hbid.symm)
      subst hcb
      refine hv.clears x hx (isWrittenElsewhere_eq_false_iff.mpr fun d hd _ => ?_)
      exact hfree d (hv.cells ▸ hd)
    · exact absurd hx (hfree c (hin c hc hcid))
  | @content id text e' h =>
    obtain ⟨b, -, ⟨-, rfl⟩ | ⟨-, rfl⟩⟩ := setContent_ok h
    · exact absurd hx (hfree c hc)
    · have hmem := List.mem_map_of_mem (f := fun c : Cell => if c.id == id then
        Cell.reanalyze { c with content := c.content.withText text, version := c.version + 1 } else c) hc
      have hout' : ∀ t, (c.content.withText t).output? = some x := fun t => by
        rw [← hout]
        cases c.content <;> rfl
      refine absurd ?_ (habsent _ hmem)
      split
      · exact hout' text
      · exact hout
  | move h =>
    obtain ⟨old, b, ho, hb, hi, ⟨-, rfl⟩ | ⟨-, rfl⟩⟩ := moveCell_ok h
    · exact absurd hx (hfree c hc)
    · exact absurd hx (hfree c ((mem_move_iff ht.ids ho hb hi).mpr hc))
  | @rename id name e' h =>
    obtain ⟨b, old, hb, hold, -, ⟨-, rfl⟩ | ⟨-, rfl⟩⟩ := renameVariable_ok h
    · exact absurd hx (hfree c hc)
    · obtain ⟨hbm, hbid⟩ := (cell?_eq_some_iff ht.ids).mp hb
      have hv : Vacates [old] id _ (vacate false id ((e.withOutput id name).seed id) old) := vacates_vacate
      have hcells : ∀ d ∈ e.cells, d.id ≠ id → d ∈ (e.withOutput id name).cells :=
        fun d hd hne => List.mem_map.mpr ⟨d, hd, by simp [hne]⟩
      by_cases hcid : c.id = id
      · have hcb : c = b := List.inj_on_of_nodup_map ht.ids hc hbm (hcid.trans hbid.symm)
        have hxo : x = old := Option.some.inj (hout.symm.trans (hcb ▸ hold))
        subst hxo
        refine hv.clears x List.mem_cons_self (isWrittenElsewhere_eq_false_iff.mpr fun d hd _ => ?_)
        exact hfree d (hv.cells ▸ hd)
      · exact absurd hx (hfree c (hv.cells ▸ hcells c hc hcid))

/-- An edit leaves the variables alone that no cell writes. -/
lemma Keeps.edit (h : e.Keeps hosts last) (ht : e.Tidy) (htame : Tame e.cells) (htame' : Tame e'.cells)
    (hedit : Edit e e') (hforeign : ∀ c ∈ e'.cells, ∀ x ∈ c.writes.names, x ∉ hosts) :
    e'.Keeps hosts last := by
  rcases hedit.effect ht.ids ht.graph with rfl | heffect
  · exact h
  · obtain ⟨hquiet, hqueue⟩ := heffect.silent h.quiet
    refine ⟨hquiet, hforeign, hqueue ▸ h.known, hqueue ▸ h.distinct, h.unwritten, fun x hx => ?_⟩
    rw [hqueue]
    by_cases hfree : ∀ c ∈ e.cells, x ∉ c.writes.names
    · have hget : e'.get x = e.get x := by
        refine (heffect.value x).resolve_right fun hcleared => ?_
        obtain ⟨c, hc, hx | hx⟩ := hcleared.before
        · exact hfree c hc hx
        · exact hfree c hc ((htame.mem_writes_iff hc).mpr hx)
      rw [hget]
      exact h.value x hfree
    · push Not at hfree
      obtain ⟨c, hc, hxc⟩ := hfree
      have hhost := h.foreign c hc x hxc
      refine .inr ⟨fun w hw hwx => hhost (hwx ▸ h.known w hw), ?_⟩
      rw [h.unwritten x hhost, undefined_of_given_up ht htame htame' hedit hc hxc hx]
      rfl

/-- A waiting write to another variable stays, and the new one waits with its value. -/
lemma mem_push {q : WriteQueue} {v : PendingWrite} {now : ℕ} (h : v ∈ (q.push w now).pending) :
    v ∈ q.pending ∧ v.name ≠ w.name ∨ v.name = w.name ∧ v.value = w.value := by
  unfold WriteQueue.push at h
  split at h
  · obtain ⟨u, hu, rfl⟩ := List.mem_map.mp h
    by_cases huw : u.name = w.name
    · exact .inr (by simp [huw])
    · exact .inl (by simpa [huw] using hu)
  · next hany =>
    rcases List.mem_append.mp h with hv | hv
    · refine .inl ⟨hv, fun heq => hany (List.any_eq_true.mpr ⟨v, hv, by simpa using heq⟩)⟩
    · rw [List.mem_singleton.mp hv]
      exact .inr ⟨rfl, rfl⟩

lemma mem_push_of_ne {q : WriteQueue} {v : PendingWrite} {now : ℕ} (hv : v ∈ q.pending)
    (hne : v.name ≠ w.name) : v ∈ (q.push w now).pending := by
  unfold WriteQueue.push
  split
  · exact List.mem_map.mpr ⟨v, hv, by simp [hne]⟩
  · exact List.mem_append_left _ hv

lemma exists_mem_push (q : WriteQueue) (w : PendingWrite) (now : ℕ) :
    ∃ v ∈ (q.push w now).pending, v.name = w.name := by
  unfold WriteQueue.push
  split
  · next hany =>
    obtain ⟨v, hv, hvw⟩ := List.any_eq_true.mp hany
    exact ⟨_, List.mem_map_of_mem hv, by simp [hvw]⟩
  · exact ⟨w, List.mem_append_right _ List.mem_cons_self, rfl⟩

lemma nodup_push {q : WriteQueue} {now : ℕ} (h : (q.pending.map (·.name)).Nodup) :
    ((q.push w now).pending.map (·.name)).Nodup := by
  unfold WriteQueue.push
  split
  · have hsame : (WriteQueue.overwrite q.pending w).map (·.name) = q.pending.map (·.name) := by
      rw [WriteQueue.overwrite, List.map_map]
      refine List.map_congr_left fun v _ => ?_
      by_cases hv : v.name = w.name <;> simp [hv]
    exact hsame ▸ h
  · next hany =>
    rw [List.map_append, List.map_singleton]
    refine List.nodup_append.mpr ⟨h, List.nodup_singleton _, fun a ha b hb => ?_⟩
    obtain ⟨v, hv, rfl⟩ := List.mem_map.mp ha
    rw [List.mem_singleton.mp hb]
    exact fun heq => hany (List.any_eq_true.mpr ⟨v, hv, by simpa using heq⟩)

/-- A write that is queued is the last one to its variable. -/
lemma Keeps.push (h : e.Keeps hosts last) {now : ℕ} (hw : w.name ∈ hosts) (hc : e'.cells = e.cells)
    (hentries : e'.store.entries = e.store.entries)
    (hpending : e'.store.queue.pending = (e.store.queue.push w now).pending) :
    e'.Keeps hosts (Function.update last w.name (some w.value)) where
  quiet := by
    unfold Store.Quiet
    rw [hentries]
    exact h.quiet
  foreign := hc ▸ h.foreign
  known v hv := by
    rw [hpending] at hv
    rcases mem_push hv with ⟨hv, -⟩ | ⟨hv, -⟩
    · exact h.known v hv
    · exact hv ▸ hw
  distinct := hpending ▸ nodup_push h.distinct
  unwritten x hx := by
    have hxw : x ≠ w.name := fun heq => hx (heq ▸ hw)
    rw [Function.update_of_ne hxw]
    exact h.unwritten x hx
  value x hx := by
    rw [hc] at hx
    have hget : e'.get x = e.get x := Store.get_congr hentries
    rw [hpending, hget]
    by_cases hxw : x = w.name
    · obtain ⟨v, hv, hvw⟩ := exists_mem_push e.store.queue w now
      refine .inl ⟨v, hv, hvw.trans hxw.symm, ?_⟩
      rcases mem_push hv with ⟨-, hne⟩ | ⟨-, hvalue⟩
      · exact absurd hvw hne
      · rw [hxw, Function.update_self, hvalue]
    · rw [Function.update_of_ne hxw]
      rcases h.value x hx with ⟨v, hv, hvx, hlast⟩ | ⟨hnone, hlast⟩
      · exact .inl ⟨v, mem_push_of_ne hv (hvx ▸ hxw), hvx, hlast⟩
      · refine .inr ⟨fun v hv hvx => ?_, hlast⟩
        rcases mem_push hv with ⟨hv, -⟩ | ⟨hvw, -⟩
        · exact hnone v hv hvx
        · exact hxw (hvx ▸ hvw)

/-- Nothing but the cells and the store matters. -/
lemma Keeps.of_store (h : e.Keeps hosts last) (hc : e'.cells = e.cells)
    (hentries : e'.store.entries = e.store.entries)
    (hpending : e'.store.queue.pending = e.store.queue.pending) : e'.Keeps hosts last where
  quiet := by
    unfold Store.Quiet
    rw [hentries]
    exact h.quiet
  foreign := hc ▸ h.foreign
  known := hpending ▸ h.known
  distinct := hpending ▸ h.distinct
  unwritten := h.unwritten
  value x hx := by
    have hget : e'.get x = e.get x := Store.get_congr hentries
    rw [hpending, hget]
    exact h.value x (hc ▸ hx)

/-- The writes of a burst take effect, each on its variable. -/
lemma get_foldl_takeWrite {ws : List PendingWrite} (hn : (ws.map (·.name)).Nodup) :
    (∀ w ∈ ws, (ws.foldl takeWrite e).get w.name = .value w.value) ∧
      ∀ x, (∀ w ∈ ws, w.name ≠ x) → (ws.foldl takeWrite e).get x = e.get x := by
  induction ws generalizing e with
  | nil => exact ⟨(fun w hw => by cases hw), fun _ _ => rfl⟩
  | cons v ws ih =>
    rw [List.map_cons, List.nodup_cons] at hn
    obtain ⟨hset, hkeep⟩ := ih (e := e.takeWrite v) hn.2
    rw [List.foldl_cons]
    refine ⟨fun w hw => ?_, fun x hx => ?_⟩
    · rcases List.mem_cons.mp hw with rfl | hw
      · rw [hkeep w.name fun u hu hne => hn.1 (hne ▸ List.mem_map_of_mem hu), get_takeWrite, if_pos rfl]
      · exact hset w hw
    · rw [hkeep x fun u hu => hx u (List.mem_cons_of_mem _ hu), get_takeWrite,
        if_neg fun heq => hx v List.mem_cons_self heq.symm]

lemma silent_foldl_takeWrite (ws : List PendingWrite) (e : Engine) :
    e.store.Silent (ws.foldl takeWrite e).store := by
  induction ws generalizing e with
  | nil => exact .refl _
  | cons w ws ih => exact silent_takeWrite.trans (ih _)

lemma quiet_collect (h : e.store.Quiet) : e.collect.store.Quiet := by
  unfold Engine.collect
  split
  · exact (silent_foldl_takeWrite e.store.queue.pending
      { e with phase := .collecting, store := { e.store with queue := e.store.queue.drained } } h).1
  · exact h

/-- A burst that has settled leaves nothing waiting. -/
lemma pending_collect (h : e.store.Quiet) (hq : e.store.queue.isSettled e.clock.now e.config.settleWindow = true) :
    e.collect.store.queue.pending = [] := by
  unfold Engine.collect
  rw [if_pos hq]
  have hqueue := (silent_foldl_takeWrite e.store.queue.pending
    { e with phase := .collecting, store := { e.store with queue := e.store.queue.drained } } h).2
  rw [hqueue]
  rfl

/-- A burst that is released leaves nothing waiting. -/
lemma Keeps.pending_collect (h : e.Keeps hosts last)
    (hi : e.store.queue.pending = [] ∨ e.store.queue.immediate = true) :
    e.collect.store.queue.pending = [] := by
  by_cases hp : e.store.queue.pending = []
  · unfold Engine.collect WriteQueue.isSettled
    simp [hp]
  · have hsettled : e.store.queue.isSettled e.clock.now e.config.settleWindow = true := by
      simp [WriteQueue.isSettled, WriteQueue.wait?, hp, hi.resolve_left hp]
    exact Engine.pending_collect h.quiet hsettled

lemma Keeps.collect (h : e.Keeps hosts last) : e.collect.Keeps hosts last := by
  have hcells := cells_collect e
  unfold Engine.collect at hcells ⊢
  split
  · next hsettled =>
    rw [if_pos hsettled] at hcells
    set e₀ : Engine := { e with phase := .collecting, store := { e.store with queue := e.store.queue.drained } }
    obtain ⟨hquiet, hqueue⟩ := silent_foldl_takeWrite e.store.queue.pending e₀ h.quiet
    obtain ⟨hset, hkeep⟩ := get_foldl_takeWrite (e := e₀) h.distinct
    have hnil : (e.store.queue.pending.foldl takeWrite e₀).store.queue.pending = [] := by
      rw [hqueue]
      rfl
    refine ⟨hquiet, ?_, ?_, ?_, h.unwritten, fun x hx => .inr ⟨?_, ?_⟩⟩
    · exact hcells ▸ h.foreign
    · exact fun w hw => by simp [hnil] at hw
    · rw [hnil]
      exact List.nodup_nil
    · exact fun w hw => by simp [hnil] at hw
    · rcases h.value x (hcells ▸ hx) with ⟨w, hw, rfl, hlast⟩ | ⟨hnone, hlast⟩
      · rw [hset w hw, hlast]
        rfl
      · rw [hkeep x hnone, ← hlast]
        rfl
  · exact h

/-- A notebook without scripts that is in order: its cells are up to date or seeded, and its other variables
hold what the host wrote. -/
structure InOrder (l : Language) (hosts : List String) (last : String → Option Value) (e : Engine) : Prop where
  sound : e.Sound l
  keeps : e.Keeps hosts last

/-- What becomes of the clock, of the phase and of the seeds that are added does not matter. -/
lemma InOrder.of_host (h : e.InOrder l hosts last) (hhost : Host e e') (hp : e'.pass = e.pass)
    (hc : e'.cells = e.cells) (hs : ∀ x ∈ e.seeds, x ∈ e'.seeds) (hentries : e'.store.entries = e.store.entries)
    (hpending : e'.store.queue.pending = e.store.queue.pending) : e'.InOrder l hosts last :=
  ⟨h.sound.congr (hhost.tidy h.sound.tidy) (hp.trans h.sound.rest) hc (fun _ => Store.get_congr hentries) hs,
    h.keeps.of_store hc hentries hpending⟩

lemma InOrder.collect (h : e.InOrder l hosts last) : e.collect.InOrder l hosts last :=
  ⟨h.sound.collect h.keeps.pending_foreign, h.keeps.collect⟩

lemma exists_cell_of_blank (h : e'.cells.map Cell.blank = e.cells.map Cell.blank) (hc : c ∈ e'.cells) :
    ∃ d ∈ e.cells, d.writes = c.writes := by
  have hblank : c.blank ∈ e.cells.map Cell.blank := h ▸ List.mem_map_of_mem hc
  obtain ⟨d, hd, hdc⟩ := List.mem_map.mp hblank
  exact ⟨d, hd, show d.blank.writes = c.blank.writes from congrArg _ hdc⟩

/-- A tick keeps the notebook in order and its definitions as they are, and leaves no seed behind. -/
theorem InOrder.tick (h : e.InOrder l hosts last) (hrun : e.tick l = .ok (e', report)) :
    e'.InOrder l hosts last ∧ e'.cells.map Cell.blank = e.cells.map Cell.blank ∧ e'.seeds = ∅ ∧
      e'.store.queue.pending = e.collect.store.queue.pending := by
  have hcollect := h.collect
  have hcells := cells_collect e
  unfold Engine.tick at hrun
  simp only [h.sound.rest] at hrun
  split at hrun
  · next hempty =>
    cases hrun
    have hseeds : e.collect.seeds = ∅ := by
      have hnil : e.collect.seeds.toList = [] := List.isEmpty_iff.mp hempty
      cases hs : e.collect.seeds with
      | mk toList sorted =>
        rw [hs] at hnil
        subst hnil
        rfl
    refine ⟨hcollect.of_host (.phase _) rfl rfl (fun _ hx => hx) rfl rfl, ?_, hseeds, rfl⟩
    change e.collect.cells.map _ = _
    rw [hcells]
  · have hbegin := evaluates_beginPass hcollect.sound
    obtain ⟨hsound, hseeds, t, heval, hct, hst⟩ := advance_sound hcollect.sound.beginPass
      (engine_pass_beginPass.trans hcollect.sound.rest) hbegin.seeds hrun
    have hall : e.collect.openPass.Evaluates t := hbegin.trans heval
    have hblank : e'.cells.map Cell.blank = e.collect.cells.map Cell.blank := by
      rw [hct]
      exact hall.cells
    refine ⟨⟨hsound, hcollect.keeps.congr (fun c hc => exists_cell_of_blank hblank hc)
      (fun d hd => exists_cell_of_blank hblank.symm hd) ?_ fun x hx => ?_⟩, ?_, hseeds, ?_⟩
    · rw [hst]
      exact hall.silent
    · change e'.store.get x = _
      rw [hst]
      exact hall.get x hx
    · rw [hblank, hcells]
    · rw [hst, (hall.silent hcollect.keeps.quiet).2]
      rfl

/-- A run that ends has left no seed and no write waiting. -/
theorem InOrder.drive {fuel : ℕ} {reports reports' : List Report} (h : e.InOrder l hosts last)
    (hrun : e.drive l fuel reports = .ok (e', reports')) :
    e'.InOrder l hosts last ∧ e'.cells.map Cell.blank = e.cells.map Cell.blank ∧ e'.seeds = ∅ ∧
      e'.store.queue.pending = [] := by
  induction fuel generalizing e reports with
  | zero => cases hrun
  | succ fuel ih =>
    rw [Engine.drive] at hrun
    split at hrun
    · cases hrun
    · next t report htick =>
      obtain ⟨ht, hcells, -, -⟩ := h.tick htick
      obtain ⟨he', hcells', hdone⟩ := ih ht hrun
      exact ⟨he', hcells'.trans hcells, hdone⟩
    · next t htick =>
      obtain ⟨ht, hcells, hseeds, -⟩ := h.tick htick
      have hrest : t.pass.isSome = false := by rw [ht.sound.rest, Option.isSome_none]
      simp only [hrest, Bool.false_eq_true, if_false] at hrun
      split at hrun
      · next hpending =>
        cases hrun
        refine ⟨ht.of_host (.phase .idle) rfl rfl (fun _ hx => hx) rfl rfl, hcells, hseeds, ?_⟩
        simpa [Store.hasPending] using hpending
      · split at hrun
        · next time _ =>
          obtain ⟨he', hcells', hdone⟩ :=
            ih (ht.of_host (.sleep time) rfl rfl (fun _ hx => hx) rfl rfl) hrun
          exact ⟨he', hcells'.trans hcells, hdone⟩
        · obtain ⟨he', hcells', hdone⟩ := ih ht hrun
          exact ⟨he', hcells'.trans hcells, hdone⟩

end Engine

end ReactiveNotebook
