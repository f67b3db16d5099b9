import ReactiveNotebook.Proofs.Scheduling.Acts
import ReactiveNotebook.Proofs.Scheduling.Attended
import ReactiveNotebook.Proofs.Scheduling.CycleMark
import ReactiveNotebook.Proofs.Scheduling.Parallel

/-!
# Cycles that the texts no longer show

A script counts as writing all that its texts have let expect since the last of its runs that was taken over. So
an edit that breaks a cycle in the texts may leave the cells on a cycle of the graph, and since a cell on a cycle
is not run, it stays there. A cell that lies on no cycle of what the texts have let expect since then is on no
cycle of the graph either, whatever its scripts export, and is evaluated.
-/
namespace ReactiveNotebook

open Relation (TransGen ReflTransGen)

variable {l : Language}

/-- A run of the script that succeeds exports names only that its text lets expect. -/
def Language.Estimates (l : Language) (source : String) : Prop :=
  ∀ inputs storage exports, (l.run source inputs storage).result = .ok exports →
    ∀ p ∈ exports, p.1 ∈ Analysis.exportEstimate source

/-- What a step that is no edit may do to a cell: it keeps all that edits change, and where it changes what the cell
counts as writing, it confirms names that the text lets expect. -/
def Cell.Settles (c c' : Cell) : Prop :=
  c'.revision = c.revision ∧ (c'.writes = c.writes ∨
    c'.writes.isConfirmed = true ∧ ∀ name ∈ c'.writes.names, name ∈ c'.content.analyze.writes.names)

namespace Cell

variable {c c' c'' : Cell} {name : String}

@[refl] lemma Settles.refl (c : Cell) : c.Settles c := ⟨rfl, .inl rfl⟩

lemma Settles.content (h : c.Settles c') : c'.content = c.content := congrArg (·.2.1) h.1

lemma Settles.trans (h : c.Settles c') (h' : c'.Settles c'') : c.Settles c'' := by
  refine ⟨h'.1.trans h.1, ?_⟩
  rcases h'.2 with hsame | hnew
  · rw [hsame, h'.content]
    exact h.2
  · exact .inr hnew

lemma settles_of_blank (h : c'.blank = c.blank) : c.Settles c' := by
  have hrevision : c'.blank.revision = c.blank.revision := congrArg _ h
  have hwrites : c'.blank.writes = c.blank.writes := congrArg _ h
  exact ⟨hrevision, .inl hwrites⟩

lemma Settles.mem_or (h : c.Settles c') (hname : name ∈ c'.writes.names) :
    name ∈ c.writes.names ∨ name ∈ c.content.analyze.writes.names := by
  rcases h.2 with hsame | ⟨-, htext⟩
  · exact .inl (hsame ▸ hname)
  · exact .inr (h.content ▸ htext name hname)

end Cell

namespace Engine

variable {e e' e'' : Engine} {c c' : Cell} {s s' : Stage} {a : Arrival} {name : String}

/-- All scripts export only what their texts let expect. -/
def Estimated (l : Language) (e : Engine) : Prop :=
  ∀ c ∈ e.cells, ∀ source, c.content = .script source → l.Estimates source

/-- No cell is edited from one engine to the other. -/
def Settles (e e' : Engine) : Prop := ∀ c' ∈ e'.cells, ∃ c ∈ e.cells, c.Settles c'

@[refl] lemma Settles.refl (e : Engine) : e.Settles e := fun c hc => ⟨c, hc, .refl c⟩

lemma Settles.trans (h : e.Settles e') (h' : e'.Settles e'') : e.Settles e'' := fun c'' hc'' => by
  obtain ⟨c', hc', hs'⟩ := h' c'' hc''
  obtain ⟨c, hc, hs⟩ := h c' hc'
  exact ⟨c, hc, hs.trans hs'⟩

lemma settles_of_blank (h : e'.cells.map Cell.blank = e.cells.map Cell.blank) : e.Settles e' := fun c' hc' => by
  obtain ⟨c, hc, heq⟩ := List.mem_map.mp (h ▸ List.mem_map_of_mem hc' : c'.blank ∈ e.cells.map Cell.blank)
  exact ⟨c, hc, Cell.settles_of_blank heq.symm⟩

lemma Settles.estimated (h : e.Settles e') (he : e.Estimated l) : e'.Estimated l := fun c' hc' source hsource => by
  obtain ⟨c, hc, hs⟩ := h c' hc'
  exact he c hc source (hs.content ▸ hsource)

/-- What is kept of the cells agrees with their texts, and each result under way is of the text of its cell. -/
structure Sourced (l : Language) (e : Engine) : Prop where
  reads : ∀ c ∈ e.cells, c.reads = c.content.analyze.reads
  confirmed : ∀ c ∈ e.cells, c.writes.isConfirmed = true →
    ∀ name ∈ c.writes.names, name ∈ c.content.analyze.writes.names
  runs : ∀ a ∈ e.arriving, ∀ c ∈ e.cells, c.id = a.cell → c.version = a.version →
    ∃ source inputs storage, c.content = .script source ∧ a.run = l.run source inputs storage

lemma Sourced.of_settles (h : e.Sourced l) (hs : e.Settles e') (harr : ∀ a ∈ e'.arriving, a ∈ e.arriving) :
    e'.Sourced l where
  reads c' hc' := by
    obtain ⟨c, hc, hsettles⟩ := hs c' hc'
    have hreads : c'.reads = c.reads := congrArg (·.2.2.2) hsettles.1
    rw [hreads, hsettles.content]
    exact h.reads c hc
  confirmed c' hc' hconfirmed name hname := by
    obtain ⟨c, hc, hsettles⟩ := hs c' hc'
    rcases hsettles.2 with hsame | ⟨-, htext⟩
    · rw [hsettles.content]
      rw [hsame] at hconfirmed hname
      exact h.confirmed c hc hconfirmed name hname
    · exact htext name hname
  runs a ha c' hc' hid hversion := by
    obtain ⟨c, hc, hsettles⟩ := hs c' hc'
    have hrevision := hsettles.1
    simp only [Cell.revision, Prod.mk.injEq] at hrevision
    rw [hrevision.2.1]
    exact h.runs a (harr a ha) c hc (hrevision.1 ▸ hid) (hrevision.2.2.1 ▸ hversion)

end Engine

namespace Stage

open Engine (Sourced Settles Estimated)

variable {s s' t : Stage} {a : Arrival} {c d : Cell} {id : CellId} {i : ℕ} {exports : Script.Fields}
variable {logs : List String} {rest : List Arrival}

lemma settles_of_control (h : t.control = s.control) : s.engine.Settles t.engine :=
  Engine.settles_of_blank (cells_blank_of_control h)

/-- The start of a cell settles nothing yet; a script that is dispatched is run on its present text. -/
lemma sourced_start (h : s.engine.Sourced l) (hs : s.Tidy) (hrun : (s.withdraw i).runCell l id = .ok s') :
    s.engine.Settles s'.engine ∧ s'.engine.Sourced l := by
  rcases runCell_cases hrun with hcontrol | ⟨c, source, hc, hsource, -, -, rfl⟩
  · have hsettles : s.engine.Settles s'.engine := settles_of_control (s := (s.withdraw i).finish id .success) hcontrol
    have harr : s'.engine.arriving = s.engine.arriving := congrArg (·.engine.arriving) hcontrol
    exact ⟨hsettles, h.of_settles hsettles fun a ha => harr ▸ ha⟩
  · refine ⟨.refl _, h.reads, h.confirmed, fun a ha d hd hid hversion => ?_⟩
    rcases List.mem_append.mp ha with ha | ha
    · exact h.runs a ha d hd hid hversion
    · obtain rfl := List.mem_singleton.mp ha
      obtain ⟨hcm, -⟩ := (Engine.cell?_eq_some_iff hs.ids).mp hc
      obtain rfl : d = c := List.inj_on_of_nodup_map hs.ids hd hcm hid
      exact ⟨source, _, _, hsource, rfl⟩

/-- What a run of its present text has exported is confirmed for a cell. -/
lemma settles_adopt (hids : (s.engine.cells.map (·.id)).Nodup) (hc : c ∈ s.engine.cells)
    (htext : ∀ p ∈ exports, p.1 ∈ c.content.analyze.writes.names) : s.engine.Settles (s.adopt c exports).engine :=
  fun d hd => by
    rcases mem_cells_adopt hd with ⟨hd, -⟩ | ⟨b, hb, hbid, rfl⟩
    · exact ⟨d, hd, .refl d⟩
    · obtain rfl : b = c := List.inj_on_of_nodup_map hids hb hc hbid
      refine ⟨b, hb, rfl, .inr ⟨rfl, fun name hname => ?_⟩⟩
      obtain ⟨p, hp, rfl⟩ := List.mem_map.mp (Names.mem_ofList.mp hname)
      exact htext p hp

lemma settles_accept (hids : (s.engine.cells.map (·.id)).Nodup) (hc : c ∈ s.engine.cells)
    (htext : ∀ p ∈ exports, p.1 ∈ c.content.analyze.writes.names) : s.engine.Settles (s.accept c exports).engine := by
  have hadopt := settles_adopt hids hc htext
  rcases accept_cases s c exports with ⟨-, heq⟩ | heq
  · exact heq ▸ hadopt
  · rw [heq]
    have hcells := cells_blank_of_control (control_extend (s.readopt c exports) c.id (novel c exports))
    exact hadopt.trans (Engine.settles_of_blank hcells)

lemma sourced_receive (h : s.engine.Sourced l) (hs : s.Tidy) (he : s.engine.Estimated l)
    (hperm : s.engine.arriving.Perm (a :: rest)) :
    s.engine.Settles ((s.deliver rest).receive a).engine ∧ ((s.deliver rest).receive a).engine.Sourced l := by
  have hlanding := landing_receive (s.deliver rest) a
  have harr : ∀ b ∈ ((s.deliver rest).receive a).engine.arriving, b ∈ s.engine.arriving := fun b hb => by
    rw [hlanding.arriving] at hb
    exact hperm.mem_iff.mpr (List.mem_cons_of_mem a hb)
  suffices hsettles : s.engine.Settles ((s.deliver rest).receive a).engine from ⟨hsettles, h.of_settles hsettles harr⟩
  generalize (s.deliver rest).receive a = t at hlanding
  cases hlanding with
  | stale _ =>
    unfold dismiss
    dsimp only
    split <;> exact .refl s.engine
  | again _ _ => exact .refl s.engine
  | @failed c message logs _ _ _ =>
    have hcells := cells_blank_of_control (control_failed (s.deliver rest) a c logs message)
    have hkept : ((s.deliver rest).landed a logs).control = ((s.deliver rest).land a.cell).control := control_keepLogs
    exact Settles.trans (settles_of_control (s := (s.deliver rest).land a.cell) hkept)
      (Engine.settles_of_blank hcells)
  | @accepted c exports logs hc _ hsettle =>
    obtain ⟨hcm, hcid, -⟩ := flight_of_addressee? hs hperm hc
    obtain ⟨source, inputs, storage, hsource, hrun⟩ :=
      h.runs a (hperm.mem_iff.mpr List.mem_cons_self) c hcm hcid (version_of_addressee? hc)
    have hkept : ((s.deliver rest).landed a logs).control = ((s.deliver rest).land a.cell).control := control_keepLogs
    have hlanded : { c with logs } ∈ ((s.deliver rest).landed a logs).engine.cells := mem_landed hcm hcid
    refine Settles.trans (settles_of_control (s := (s.deliver rest).land a.cell) hkept)
      (settles_accept (s := (s.deliver rest).landed a logs) (c := { c with logs }) ?_ hlanded fun p hp => ?_)
    · rw [ids_of_control hkept]
      exact hs.ids
    · have hexport := he c hcm source hsource inputs storage exports (hrun ▸ result_of_settle hsettle) p hp
      change p.1 ∈ c.content.analyze.writes.names
      rw [hsource]
      exact hexport

lemma sourced_move (h : s.engine.Sourced l) (hs : s.Tidy) (he : s.engine.Estimated l) (hm : s.Move l s') :
    s.engine.Settles s'.engine ∧ s'.engine.Sourced l := by
  cases hm with
  | start _ _ _ hrun => exact sourced_start h hs hrun
  | receive hperm => exact sourced_receive h hs he hperm

end Stage

namespace Engine

variable {e e' : Engine} {c c' : Cell} {x : CellId} {name : String} {k n : ℕ} {σ : ℕ → Engine}
variable {reports : List Report}

lemma Ongoing.sourced (h : Ongoing l e e') (ht : e.Tidy) (hs : e.Sourced l) (he : e.Estimated l) :
    e.Settles e' ∧ e'.Sourced l := by
  have hkeep : e'.cells.map Cell.blank = e.cells.map Cell.blank → e'.arriving = e.arriving →
      e.Settles e' ∧ e'.Sourced l := fun hcells harr =>
    ⟨settles_of_blank hcells, hs.of_settles (settles_of_blank hcells) fun a ha => harr ▸ ha⟩
  cases h with
  | host hh => cases hh <;> exact hkeep rfl rfl
  | collect _ =>
    obtain ⟨store, seeds, phase, -, heq⟩ := collect_shape e
    rw [heq] at hkeep ⊢
    exact hkeep rfl rfl
  | begin _ =>
    have hcontrol := control_blockCycles e
    exact hkeep (Stage.cells_blank_of_control hcontrol) (congrArg (·.engine.arriving) hcontrol)
  | @move p s hp hm =>
    obtain ⟨hsettles, hsourced⟩ := Stage.sourced_move (s := e.resume p) ⟨hs.reads, hs.confirmed, hs.runs⟩
      (ht.pass p hp) he hm
    exact ⟨hsettles, hsourced.reads, hsourced.confirmed, hsourced.runs⟩
  | finish _ _ _ => exact hkeep rfl rfl

lemma settles_of_ongoing (h : ReflTransGen (Ongoing l) e e') (ht : e.Tidy) (hs : e.Sourced l) (he : e.Estimated l) :
    e.Settles e' := by
  suffices hboth : e.Settles e' ∧ e'.Sourced l from hboth.1
  induction h with
  | refl => exact ⟨.refl e, hs⟩
  | tail hsteps hstep ih =>
    have ht' := steps_tidy (steps_of_ongoing hsteps) ht
    obtain ⟨hsettles, hsourced⟩ := hstep.sourced ht' ih.2 (ih.1.estimated he)
    exact ⟨ih.1.trans hsettles, hsourced⟩

/-- An edit between passes finds no result under way. -/
lemma Sourced.edit (h : e.Sourced l) (ht : e.Tidy) (hp : e.pass = none) (hedit : Edit e e') : e'.Sourced l := by
  have harr : e'.arriving = [] := by
    rcases hedit.shape with rfl | ⟨cells, store, seeds, rfl⟩ <;> exact (ht.idle hp).2
  refine ⟨fun c hc => ?_, fun c hc hconfirmed name hname => ?_, fun a ha => ?_⟩
  · rcases hedit.mem_cells ht.ids hc with hc | ⟨b, rfl, -⟩
    · exact h.reads c hc
    · rfl
  · rcases hedit.mem_cells ht.ids hc with hc | ⟨b, rfl, -⟩
    · exact h.confirmed c hc hconfirmed name hname
    · rcases writes_reanalyze b with hsame | ⟨source, -, hprovisional⟩
      · exact hsame ▸ hname
      · rw [hprovisional] at hconfirmed
        cases hconfirmed
  · rw [harr] at ha
    cases ha

lemma Calm.sourced (h : Calm l e e') (ht : e.Tidy) (hs : e.Sourced l) (he : e.Estimated l) : e'.Sourced l := by
  cases h with
  | edit hp hedit => exact hs.edit ht hp hedit
  | ongoing h => exact (h.sourced ht hs he).2

/-- A history of a notebook from its beginning. It is edited between passes only. -/
structure IsHistory (l : Language) (n : ℕ) (σ : ℕ → Engine) : Prop where
  start : ∃ config manual, σ 0 = new config manual
  step : ∀ k < n, Calm l (σ k) (σ (k + 1))

namespace IsHistory

lemma reachable (h : IsHistory l n σ) (hk : k ≤ n) : Reachable l (σ k) := by
  induction k with
  | zero =>
    obtain ⟨config, manual, hstart⟩ := h.start
    exact ⟨config, manual, hstart ▸ .refl⟩
  | succ k ih =>
    obtain ⟨config, manual, hsteps⟩ := ih (by omega)
    exact ⟨config, manual, hsteps.tail (h.step k hk).step⟩

lemma attentive (h : IsHistory l n σ) (hk : k ≤ n) : (σ k).Attentive := by
  induction k with
  | zero =>
    obtain ⟨config, manual, hstart⟩ := h.start
    exact hstart ▸ attentive_new
  | succ k ih => exact (h.step k hk).attentive (h.reachable (by omega)).tidy (ih (by omega))

lemma sourced (h : IsHistory l n σ) (he : ∀ k ≤ n, (σ k).Estimated l) (hk : k ≤ n) : (σ k).Sourced l := by
  induction k with
  | zero =>
    obtain ⟨config, manual, hstart⟩ := h.start
    rw [hstart]
    exact ⟨(fun c hc => by cases hc), (fun c hc => by cases hc), fun a ha => by cases ha⟩
  | succ k ih => exact (h.step k hk).sourced (h.reachable (by omega)).tidy (ih (by omega)) (he k (by omega))

end IsHistory

/-- The text that a cell has, or one that it has had since its written names were confirmed last, lets a name
expect. -/
def Holds (σ : ℕ → Engine) (n : ℕ) (x : CellId) (name : String) : Prop :=
  ∃ m ≤ n, (∃ c ∈ (σ m).cells, c.id = x ∧ name ∈ c.content.analyze.writes.names) ∧
    ∀ j, m < j → j ≤ n → ∃ c ∈ (σ j).cells, c.id = x ∧ c.writes.isConfirmed = false

/-- The second cell reads what the texts of the first one have let expect. -/
def HeldFeeds (σ : ℕ → Engine) (n : ℕ) (x y : CellId) : Prop :=
  x ≠ y ∧ ∃ name, Holds σ n x name ∧ ∃ d ∈ (σ n).cells, d.id = y ∧ name ∈ d.content.analyze.reads

lemma holds_of_text (hc : c ∈ (σ n).cells) (hname : name ∈ c.content.analyze.writes.names) : Holds σ n c.id name :=
  ⟨n, le_rfl, ⟨c, hc, rfl, hname⟩, fun j hj hjn => absurd hj (by omega)⟩

lemma Holds.succ (h : Holds σ n c.id name) (hc : c ∈ (σ (n + 1)).cells) (hopen : c.writes.isConfirmed = false) :
    Holds σ (n + 1) c.id name := by
  obtain ⟨m, hm, htext, hsince⟩ := h
  refine ⟨m, by omega, htext, fun j hj hjn => ?_⟩
  rcases Nat.le_succ_iff.mp hjn with hjn | rfl
  · exact hsince j hj hjn
  · exact ⟨c, hc, rfl, hopen⟩

/-- What a cell counts as writing is what its texts have let expect. -/
theorem IsHistory.holds (h : IsHistory l n σ) (he : ∀ k ≤ n, (σ k).Estimated l) (hk : k ≤ n) (hc : c ∈ (σ k).cells)
    (hname : name ∈ c.writes.names) : Holds σ k c.id name := by
  induction k generalizing c with
  | zero =>
    obtain ⟨config, manual, hstart⟩ := h.start
    rw [hstart] at hc
    cases hc
  | succ k ih =>
    have ht := (h.reachable (by omega : k ≤ n)).tidy
    have hk' : k ≤ n := by omega
    cases hconfirmed : c.writes.isConfirmed with
    | true => exact holds_of_text hc ((h.sourced he hk).confirmed c hc hconfirmed name hname)
    | false =>
      cases h.step k hk with
      | edit hp hedit =>
        rcases hedit.mem_cells ht.ids hc with hold | ⟨b, rfl, hbefore⟩
        · exact (ih hk' hold hname).succ hc hconfirmed
        · rcases writes_reanalyze b with hsame | ⟨source, hsource, hprovisional⟩
          · exact holds_of_text hc (hsame ▸ hname)
          · rw [hprovisional] at hname
            rcases Names.mem_union.mp hname with hname | hname
            · obtain ⟨d, hd, hid, hname⟩ := hbefore name hname
              exact Holds.succ (hid ▸ ih hk' hd hname) hc hconfirmed
            · refine holds_of_text hc ?_
              change name ∈ b.content.analyze.writes.names
              rw [hsource]
              exact hname
      | ongoing hgoes =>
        obtain ⟨d, hd, hsettles⟩ := (hgoes.sourced ht (h.sourced he hk') (he k hk')).1 c hc
        have hid : c.id = d.id := congrArg (·.1) hsettles.1
        rcases hsettles.mem_or hname with hname | hname
        · exact Holds.succ (hid ▸ ih hk' hd hname) hc hconfirmed
        · exact holds_of_text hc (hsettles.content ▸ hname)

/-- During a run the graph has edges only between cells of which the second reads what the texts of the first have
let expect when the run began. -/
lemma IsHistory.heldFeeds (h : IsHistory l n σ) (he : ∀ k ≤ n, (σ k).Estimated l)
    (hruns : ReflTransGen (Ongoing l) (σ n) e') {y : CellId} (hedge : e'.graph.Edge x y) : HeldFeeds σ n x y := by
  have ht := (h.reachable le_rfl).tidy
  have hsourced := h.sourced he le_rfl
  have hsettles := settles_of_ongoing hruns ht hsourced (he n le_rfl)
  have ht' := steps_tidy (steps_of_ongoing hruns) ht
  rw [ht'.graph, Graph.edge_build_iff ht'.ids] at hedge
  obtain ⟨c', hc', d', hd', rfl, rfl, hne, name, hwrite, hread⟩ := hedge
  obtain ⟨c, hc, hcs⟩ := hsettles c' hc'
  obtain ⟨d, hd, hds⟩ := hsettles d' hd'
  have hcid : c'.id = c.id := congrArg (·.1) hcs.1
  have hdid : d'.id = d.id := congrArg (·.1) hds.1
  have hdreads : d'.reads = d.reads := congrArg (·.2.2.2) hds.1
  refine ⟨hne, name, ?_, d, hd, hdid.symm, ?_⟩
  · rw [hcid]
    rcases hcs.mem_or hwrite with hold | htext
    · exact h.holds he le_rfl hc hold
    · exact holds_of_text hc htext
  · rw [← hsourced.reads d hd, ← hdreads]
    exact hread

/-- When a run ends, every cell is evaluated that lies on no cycle of what the texts have let expect, provided that
the scripts export only what their texts let expect and the notebook was edited between passes only. -/
theorem evaluated_of_held_acyclic (h : IsHistory l n σ) (he : ∀ k ≤ n, (σ k).Estimated l)
    (hrun : (σ n).runUntilIdle l = .ok (e', reports)) (hc : c ∈ e'.cells)
    (hfree : ¬ TransGen (HeldFeeds σ n) c.id c.id) :
    c.status = .ok ∨ ∃ fault, c.status = .failed fault ∧ fault.isCycle = false := by
  have hreach := h.reachable le_rfl
  have hongoing := ongoing_runUntilIdle hreach.tidy hrun
  obtain ⟨hpass, hseeds, -⟩ := atRest_of_runUntilIdle hreach.tidy hrun
  have hno : ∀ x, x ∉ e'.seeds := fun x hx => by
    have hx' : x ∈ e'.seeds.toList := hx
    rw [hseeds] at hx'
    cases hx'
  have hoff : ¬ e'.graph.OnCycle c.id := fun hcycle =>
    hfree (TransGen.mono (fun _ _ hedge => h.heldFeeds he hongoing hedge) _ _ hcycle)
  have hmarked : e'.Marked := by
    obtain ⟨config, manual, hsteps⟩ := hreach
    exact Reachable.marked ⟨config, manual, hsteps.trans (steps_of_ongoing hongoing)⟩
  have hattentive : e'.Attentive := attentive_of_ongoing hongoing hreach.tidy (h.attentive le_rfl)
  cases hstatus : c.status with
  | pending => exact absurd (hattentive.resting hpass c hc hstatus) (hno c.id)
  | ok => exact .inl rfl
  | failed fault =>
    refine .inr ⟨fault, rfl, ?_⟩
    rcases hmarked.resting hpass c hc with hmark | hseed | ⟨hcycle, -⟩
    · have hunmarked : ¬ c.status.isCycle = true := fun hm => hoff (hmark.mp hm)
      rw [hstatus] at hunmarked
      exact Bool.eq_false_iff.mpr hunmarked
    · exact absurd hseed (hno c.id)
    · exact absurd hcycle hoff

/-- The engine after an act that does not edit the notebook during a pass. -/
def calmAct? (l : Language) (e : Engine) (act : Act) : Option Engine :=
  if act.isEdit && e.pass.isSome then none else e.act? l act

lemma calm_of_calmAct? {act : Act} (h : e.calmAct? l act = some e') : Calm l e e' := by
  unfold calmAct? at h
  split at h
  · cases h
  · next hcalm =>
    rcases edit_or_schedules_of_act? h with ⟨hedits, hedit⟩ | hschedules
    · refine .edit ?_ hedit
      simpa [hedits] using hcalm
    · exact .ongoing hschedules.ongoing

lemma isHistory_along {config : Config} {manual : Bool} {acts : List Act}
    (h : leads (calmAct? l) (new config manual) acts = true) :
    IsHistory l acts.length (along (calmAct? l) (new config manual) acts) where
  start := ⟨config, manual, rfl⟩
  step _ hk := calm_of_calmAct? (step_along h (List.getElem?_eq_getElem hk))

lemma estimated_exportingEstimate (e : Engine) : e.Estimated exportingEstimate := by
  rintro c - source - inputs storage exports hrun p hp
  cases hrun
  obtain ⟨name, hname, rfl⟩ := List.mem_map.mp hp
  exact hname

/-- Edges that all lead to one cell close no cycle. -/
lemma not_transGen_of_target {r : CellId → CellId → Prop} {y : CellId} (hne : ∀ a b, r a b → a ≠ b)
    (h : ∀ a b, r a b → b = y) : ¬ TransGen r x x := fun hcycle => by
  obtain ⟨b, hxb, -⟩ := TransGen.head'_iff.mp hcycle
  obtain ⟨a, -, hax⟩ := TransGen.tail'_iff.mp hcycle
  exact hne x b hxb ((h a x hax).trans (h x b hxb).symm)

/-- The acts that set up a script and a formula which read each other's variables, with others to follow. -/
def facing (acts : List Act) : List Act :=
  .push ⟨"s", .script "exports.x = y;"⟩ :: .push ⟨"f", .formula "x" "y"⟩ :: acts

/-- A pass marks both cells, and then the formula is edited so that it reads nothing. -/
def formulaEdited : ℕ → Engine :=
  along (calmAct? exportingEstimate) (new .standard true) (facing [.begin, .finish, .content "f" "1"])

/-- How the history goes, as far as it can be computed. -/
lemma formulaEdited_trace :
    leads (calmAct? exportingEstimate) (new .standard true) (facing [.begin, .finish, .content "f" "1"]) = true ∧
    ((formulaEdited 4).cells.map fun c => (c.id, c.status.isCycle)) = [("s", true), ("f", true)] ∧
    ((formulaEdited 5).cells.all fun d => d.id == "s" || d.content.analyze.reads.toList.isEmpty) = true ∧
    (((formulaEdited 5).runUntilIdle exportingEstimate).toOption.any fun r => r.1.cells.map (·.id) == ["s", "f"]) =
      true := by
  decide +kernel

/-- Once the formula has been edited both cells are evaluated. -/
theorem evaluated_after_formula_edit :
    ((formulaEdited 4).cells.map fun c => (c.id, c.status.isCycle)) = [("s", true), ("f", true)] ∧
    ∃ e' reports, (formulaEdited 5).runUntilIdle exportingEstimate = .ok (e', reports) ∧
      e'.cells.map (·.id) = ["s", "f"] ∧
        ∀ c ∈ e'.cells, c.status = .ok ∨ ∃ fault, c.status = .failed fault ∧ fault.isCycle = false := by
  obtain ⟨hleads, hmarks, hreads, hrun⟩ := formulaEdited_trace
  refine ⟨hmarks, ?_⟩
  cases hresult : (formulaEdited 5).runUntilIdle exportingEstimate with
  | error _ => rw [hresult] at hrun; cases hrun
  | ok r =>
    rw [hresult] at hrun
    have hids : r.1.cells.map (·.id) = ["s", "f"] := beq_iff_eq.mp hrun
    -- only the script reads anything, so nothing that has been held closes a cycle
    have htarget : ∀ a b, HeldFeeds formulaEdited 5 a b → b = "s" := by
      rintro a b ⟨-, name, -, d, hd, rfl, hread⟩
      have hd := List.all_eq_true.mp hreads d hd
      rw [Bool.or_eq_true, beq_iff_eq, List.isEmpty_iff] at hd
      refine hd.resolve_right fun hempty => ?_
      have hmem : name ∈ d.content.analyze.reads.toList := hread
      rw [hempty] at hmem
      cases hmem
    exact ⟨r.1, r.2, rfl, hids, fun c hc =>
      evaluated_of_held_acyclic (isHistory_along hleads) (fun _ _ => estimated_exportingEstimate _) hresult hc
        (not_transGen_of_target (fun a b hab => hab.1) htarget)⟩

/-- The graph that the present texts alone give. -/
def textGraph (e : Engine) : Graph := Graph.build (e.cells.map fun c => .ofDefinition c.definition)

/-- The script is edited so that it writes nothing that the formula reads. -/
def scriptEdited : ℕ → Engine :=
  along (calmAct? exportingEstimate) (new .standard true) (facing [.content "s" "exports.z = y;"])

/-- After the edit of the script no cycle is left in the texts, but the run marks the cells on the old one. -/
theorem cycle_outlives_script_edit : IsHistory exportingEstimate 3 scriptEdited ∧
    (∀ k ≤ 3, (scriptEdited k).Estimated exportingEstimate) ∧ (∀ x, ¬ (scriptEdited 3).textGraph.OnCycle x) ∧
    ∃ e' reports, (scriptEdited 3).runUntilIdle exportingEstimate = .ok (e', reports) ∧
      ∃ c ∈ e'.cells, c.content = .script "exports.z = y;" ∧ c.status.isCycle = true := by
  have hleads : leads (calmAct? exportingEstimate) (new .standard true) (facing [.content "s" "exports.z = y;"]) =
      true := by decide +kernel
  have htexts : ((scriptEdited 3).cells.map (·.id)).Nodup ∧ (scriptEdited 3).textGraph.hasCycles = false := by
    decide +kernel
  have hrun : (((scriptEdited 3).runUntilIdle exportingEstimate).toOption.any fun r =>
      r.1.cells.any fun c => c.content == .script "exports.z = y;" && c.status.isCycle) = true := by decide +kernel
  refine ⟨isHistory_along hleads, fun _ _ => estimated_exportingEstimate _, fun x =>
    Graph.not_onCycle_of_not_hasCycles ?_ htexts.2, ?_⟩
  · rw [List.map_map]
    exact htexts.1
  · cases hresult : (scriptEdited 3).runUntilIdle exportingEstimate with
    | error _ => rw [hresult] at hrun; cases hrun
    | ok r =>
      rw [hresult] at hrun
      obtain ⟨c, hc, hmark⟩ := List.any_eq_true.mp hrun
      rw [Bool.and_eq_true, beq_iff_eq] at hmark
      exact ⟨r.1, r.2, rfl, c, hc, hmark.1, hmark.2⟩

end Engine

end ReactiveNotebook
