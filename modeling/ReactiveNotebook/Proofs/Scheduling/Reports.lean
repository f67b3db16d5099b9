import ReactiveNotebook.Proofs.Scheduling.Bookkeeping
import ReactiveNotebook.Proofs.Scheduling.Inherited

/-!
# Reports of passes

The report of a pass lists what happened to the cells, one entry after the other. What a cell shows is what its latest
entry says, for an entry is made whenever a cell is given a status, and then only. A cell has a single entry unless it
was done already when a script turned out to export something that it depends on: then it is done once more, and the
entry that is found first tells what it came to before.
-/
namespace ReactiveNotebook

variable {l : Language}

/-- What a cell may show after an outcome, if it showed `before`. -/
def Outcome.Leads (before : Status) : Outcome → Status → Prop
  | .success, after => after = .ok
  | .failed fault, after => after = .failed fault
  | .skipped, after => after.isCycle = true
  | .unchanged, after | .discarded, after => after = before

/-- What a cell may show after some outcomes, one after the other. -/
def Outcome.Follows (before : Status) : List Outcome → Status → Prop
  | [], after => after = before
  | outcome :: outcomes, after => ∃ between, outcome.Leads before between ∧ Follows between outcomes after

/-- What an outcome claims of the status of its cell. -/
def Outcome.Agrees (status : Status) : Outcome → Prop
  | .success => status = .ok
  | .failed fault => status = .failed fault
  | .skipped => status.isCycle = true
  | .unchanged | .discarded => True

namespace Outcome

variable {before between after : Status} {outcome : Outcome} {outcomes outcomes' : List Outcome}

lemma Follows.append (h : Follows before outcomes between) (h' : Follows between outcomes' after) :
    Follows before (outcomes ++ outcomes') after := by
  induction outcomes generalizing before with
  | nil => exact h ▸ h'
  | cons outcome outcomes ih =>
    obtain ⟨mid, hlead, hrest⟩ := h
    exact ⟨mid, hlead, ih hrest⟩

/-- The latest outcome decides. -/
lemma Follows.agrees (h : Follows before (outcomes ++ [outcome]) after) : outcome.Agrees after := by
  induction outcomes generalizing before with
  | nil =>
    obtain ⟨mid, hlead, rfl⟩ := h
    cases outcome with
    | success | failed fault | skipped => exact hlead
    | unchanged | discarded => trivial
  | cons first outcomes ih =>
    obtain ⟨mid, -, hrest⟩ := h
    exact ih hrest

end Outcome

/-- The outcomes of a cell in the order in which they came about. -/
def Report.outcomes (r : Report) (id : CellId) : List Outcome := (r.results.filter (·.1 == id)).map (·.2)

namespace Report

variable {r : Report} {x : CellId}

lemma outcome?_eq_head? : r.outcome? x = (r.outcomes x).head? := by
  rw [outcome?, outcomes, List.head?_map, List.head?_filter]

/-- A cell counts as evaluated once for each outcome of an evaluation. -/
lemma count_executed_le : r.executed.count x ≤ (r.outcomes x).length := by
  rw [executed, outcomes, List.length_map, ← List.countP_eq_length_filter, List.count, List.countP_map,
    List.countP_filter]
  exact List.countP_mono_left fun p _ hp => by simpa using And.left (by simpa using hp)

end Report

namespace Stage

variable {s s' t u : Stage} {a : Arrival} {c d : Cell} {id x : CellId} {i n : ℕ} {fault : Fault}
variable {os os' : List Outcome}

/-- From one stage to the other outcomes of a cell have been reported, and they say what it shows. -/
structure Recounts (x : CellId) (os : List Outcome) (s t : Stage) : Prop where
  outcomes : t.pass.report.outcomes x = s.pass.report.outcomes x ++ os
  status : ∀ d ∈ t.engine.cells, d.id = x →
    ∃ c ∈ s.engine.cells, c.id = x ∧ Outcome.Follows c.status os d.status

namespace Recounts

lemma trans (h : Recounts x os s t) (h' : Recounts x os' t u) : Recounts x (os ++ os') s u where
  outcomes := by rw [h'.outcomes, h.outcomes, List.append_assoc]
  status d hd hid := by
    obtain ⟨b, hb, hbid, hlater⟩ := h'.status d hd hid
    obtain ⟨c, hc, hcid, hearlier⟩ := h.status b hb hbid
    exact ⟨c, hc, hcid, hearlier.append hlater⟩

/-- What reports nothing and gives no cell another status. -/
lemma of_keeps (hresults : t.pass.results = s.pass.results)
    (hcells : ∀ d ∈ t.engine.cells, ∃ c ∈ s.engine.cells, c.id = d.id ∧ c.status = d.status) :
    Recounts x [] s t where
  outcomes := by
    rw [List.append_nil]
    exact congrArg (fun results => (results.filter (·.1 == x)).map Prod.snd) hresults
  status d hd hid := by
    obtain ⟨c, hc, hcid, hstatus⟩ := hcells d hd
    exact ⟨c, hc, hcid.trans hid, hstatus.symm⟩

lemma refl (s : Stage) : Recounts x [] s s := .of_keeps rfl fun d hd => ⟨d, hd, rfl, rfl⟩

/-- What reports one outcome of a cell and gives no other cell another status. -/
lemma of_entry {outcome : Outcome} (hresults : t.pass.results = s.pass.results ++ [(id, outcome)])
    (hcells : ∀ d ∈ t.engine.cells, ∃ c ∈ s.engine.cells, c.id = d.id ∧
      (d.id = id → outcome.Leads c.status d.status) ∧ (d.id ≠ id → c.status = d.status)) :
    Recounts x (if x = id then [outcome] else []) s t where
  outcomes := by
    change (t.pass.results.filter _).map _ = (s.pass.results.filter _).map _ ++ _
    rw [hresults]
    by_cases hx : x = id
    · simp [hx]
    · simp [hx, Ne.symm hx]
  status d hd hdx := by
    obtain ⟨c, hc, hcid, hsame, hother⟩ := hcells d hd
    refine ⟨c, hc, hcid.trans hdx, ?_⟩
    split
    · next hx => exact ⟨d.status, hsame (hdx.trans hx), rfl⟩
    · next hx => exact (hother (hdx ▸ hx)).symm

/-- What carries an outcome out on a cell. -/
lemma of_conclusion {outcome : Outcome} {v : Verdict} (hresults : t.pass.results = s.pass.results ++ [(id, outcome)])
    (hcells : t.engine.cells = conclusion id v s.engine.cells)
    (hleads : ∀ c : Cell, outcome.Leads c.status (c.withVerdict v).status) :
    Recounts x (if x = id then [outcome] else []) s t := by
  refine of_entry hresults fun d hd => ?_
  rw [hcells] at hd
  rcases mem_conclusion.mp hd with ⟨hd, hne⟩ | ⟨c, hc, hcid, rfl⟩
  · exact ⟨d, hd, rfl, fun heq => absurd heq hne, fun _ => rfl⟩
  · rw [Cell.id_withVerdict]
    exact ⟨c, hc, rfl, fun _ => hleads c, fun hne => absurd hcid hne⟩

end Recounts

/-- A cell that is left as it is. -/
lemma recounts_finish {outcome : Outcome} (hleads : ∀ c ∈ s.engine.cells, c.id = id → outcome.Leads c.status c.status) :
    Recounts x (if x = id then [outcome] else []) s (s.finish id outcome) :=
  .of_entry rfl fun d hd => ⟨d, hd, rfl, hleads d hd, fun _ => rfl⟩

lemma recounts_fail : Recounts x (if x = c.id then [.failed fault] else []) s (s.fail c fault) :=
  .of_conclusion failsWith_fail.results cells_fail fun _ => rfl

lemma recounts_block (s : Stage) (id x : CellId) :
    ∃ os, Recounts x os s (s.block id) ∧ (os = [] ∨ os.length = 1 ∧ x = id) := by
  cases hc : s.engine.cell? id with
  | none =>
    have hblock : s.block id = s := by simp only [block, hc]
    refine ⟨[], ?_, .inl rfl⟩
    rw [hblock]
    exact .refl s
  | some c =>
    have hresults : (s.block id).pass.results = s.pass.results ++ [(id, .skipped)] := by
      simp only [block, hc]
      exact congrArg (· ++ _) results_mark
    refine ⟨_, .of_conclusion hresults cells_block fun _ => rfl, ?_⟩
    split
    · next hx => exact .inr ⟨rfl, hx⟩
    · exact .inl rfl

/-- Marking cells reports one outcome of each. -/
lemma recounts_foldl_block {ids : List CellId} (hnodup : ids.Nodup) (s : Stage) (x : CellId) :
    ∃ os, Recounts x os s (ids.foldl block s) ∧ (os = [] ∨ os.length = 1 ∧ x ∈ ids) := by
  induction ids generalizing s with
  | nil => exact ⟨[], .refl s, .inl rfl⟩
  | cons id ids ih =>
    obtain ⟨hid, hrest⟩ := List.nodup_cons.mp hnodup
    obtain ⟨os, hfirst, hos⟩ := recounts_block s id x
    obtain ⟨os', hlater, hos'⟩ := ih hrest (s.block id)
    refine ⟨os ++ os', hfirst.trans hlater, ?_⟩
    rcases hos with rfl | ⟨hone, rfl⟩
    · exact hos'.imp_right fun ⟨hone, hmem⟩ => ⟨hone, List.mem_cons_of_mem _ hmem⟩
    · rcases hos' with rfl | ⟨-, hmem⟩
      · exact .inr ⟨by simpa using hone, List.mem_cons_self⟩
      · exact absurd hmem hid

lemma results_retract {name : String} : (retract id s name).pass.results = s.pass.results := by
  unfold retract
  split
  · rfl
  · dsimp only
    split <;> rfl

lemma results_adopt {exports : Script.Fields} :
    (s.adopt c exports).pass.results = s.pass.results ++ [(c.id, .success)] := by
  unfold adopt
  simp only [succeed, finish, Pass.finish, modifyCell]
  rw [foldl_keeps (·.pass.results) fun _ _ => results_retract]
  have hcommits := foldl_keeps (f := fun s (p : String × Script.Value) => s.commit p.1 (.value p.2))
    (·.pass.results) (fun _ _ => rfl) exports s
  exact congrArg (· ++ _) hcommits

lemma recounts_adopt {exports : Script.Fields} :
    Recounts x (if x = c.id then [.success] else []) s (s.adopt c exports) := by
  refine .of_entry results_adopt fun d hd => ?_
  rcases mem_cells_adopt hd with ⟨hd, hne⟩ | ⟨b, hb, hid, rfl⟩
  · exact ⟨d, hd, rfl, fun heq => absurd heq hne, fun _ => rfl⟩
  · exact ⟨b, hb, rfl, fun _ => rfl, fun hne => absurd hid hne⟩

/-- Enlarging the pass reports the cells that turn out to lie on a cycle. -/
lemma recounts_extend (s : Stage) (source : CellId) (names : Names) (x : CellId) :
    ∃ os, Recounts x os s (s.extend source names) ∧ (os = [] ∨ os.length = 1 ∧ x ∈ s.looped source names) := by
  obtain ⟨os, hblock, hos⟩ := recounts_foldl_block (Names.nodup (s.pending source names) |>.filter _)
    (s.enlarge source names) x
  have henlarge : Recounts x [] s (s.enlarge source names) := .of_keeps rfl fun d hd => ⟨d, hd, rfl, rfl⟩
  exact ⟨os, henlarge.trans hblock, hos⟩

/-- Whatever waits or is in flight is not done. -/
def Active (s : Stage) : Prop := ∀ x, x ∈ s.pass.remaining ∨ x ∈ s.flying → x ∉ s.pass.completed

/-- A script turns out to export a name that it has not been known to write and that another cell depends on. -/
def Surprises (s s' : Stage) (x : CellId) : Prop :=
  ∃ c ∈ s.engine.cells, ∃ d ∈ s'.engine.cells, d.id = c.id ∧ x ≠ c.id ∧
    ∃ name ∈ d.writes.names, name ∉ c.writes.names ∧
      ∃ reader ∈ s'.engine.graph.readersOf name, reader ≠ c.id ∧ s'.engine.graph.Reaches reader x

/-- A cell that is done depends on what a script turns out to export. -/
def Reopens (s s' : Stage) (x : CellId) : Prop := x ∈ s.pass.completed ∧ Surprises s s' x

/-- A step reports at most one outcome of a cell, and only of one that waits or is in flight or that depends on what a
script turns out to export. Afterwards the cell is done. -/
def Reported (x : CellId) (s s' : Stage) : Prop :=
  ∃ os, Recounts x os s s' ∧
    (os = [] ∨ os.length = 1 ∧ x ∈ s'.pass.completed ∧ (x ∈ s.pass.remaining ∨ x ∈ s.flying ∨ Surprises s s' x))

lemma recounts_conclude {v : Verdict} : ∃ os, Recounts x os s (s.conclude l c v) ∧
    (os = [] ∨ os.length = 1 ∧ x = c.id ∧ x ∈ (s.conclude l c v).pass.completed) := by
  have hentry : ∀ {outcome : Outcome}, (s.conclude l c v).pass.results = s.pass.results ++ [(c.id, outcome)] →
      (∀ b : Cell, outcome.Leads b.status (b.withVerdict v).status) → c.id ∈ (s.conclude l c v).pass.completed →
      ∃ os, Recounts x os s (s.conclude l c v) ∧
        (os = [] ∨ os.length = 1 ∧ x = c.id ∧ x ∈ (s.conclude l c v).pass.completed) := by
    intro outcome hresults hleads hdone
    refine ⟨_, .of_conclusion hresults cells_conclude hleads, ?_⟩
    split
    · next hx => exact .inr ⟨rfl, hx, hx ▸ hdone⟩
    · exact .inl rfl
  cases v with
  | fault f => exact hentry failsWith_fail.results (fun _ => rfl) (Names.mem_insert.mpr (.inl rfl))
  | value output value => exact hentry rfl (fun _ => rfl) (Names.mem_insert.mpr (.inl rfl))
  | text text => exact hentry rfl (fun _ => rfl) (Names.mem_insert.mpr (.inl rfl))
  | script source inputs => exact ⟨[], .of_keeps rfl fun d hd => ⟨d, hd, rfl, rfl⟩, .inl rfl⟩

lemma recounts_turn (h : Turn l s id s') : ∃ os, Recounts x os s s' ∧
    (os = [] ∨ os.length = 1 ∧ x = id ∧ x ∈ s'.pass.completed) := by
  cases h with
  | gone hc =>
    have hnone : ∀ d ∈ s.engine.cells, d.id = id → Outcome.skipped.Leads d.status d.status := fun d hd hid => by
      have hhas : s.engine.hasCell id = true := Engine.hasCell_iff.mpr (hid ▸ List.mem_map_of_mem hd)
      rw [Engine.hasCell, hc] at hhas
      cases hhas
    refine ⟨_, recounts_finish hnone, ?_⟩
    split
    · next hx => exact .inr ⟨rfl, hx, Names.mem_insert.mpr (.inl hx)⟩
    · exact .inl rfl
  | unchanged hc ht =>
    refine ⟨_, recounts_finish fun _ _ _ => rfl, ?_⟩
    split
    · next hx => exact .inr ⟨rfl, hx, Names.mem_insert.mpr (.inl hx)⟩
    · exact .inl rfl
  | @evaluated c v hc ht hv =>
    obtain rfl : c.id = id := id_eq_of_cell? hc
    exact recounts_conclude

lemma reported_start (hid : s.pass.remaining[i]? = some id) (hrun : (s.withdraw i).runCell l id = .ok s') :
    Reported x s s' := by
  obtain ⟨os, hturn, hos⟩ := recounts_turn (x := x) (turn_of_runCell hrun)
  have hwithdraw : Recounts x [] s (s.withdraw i) := .of_keeps rfl fun d hd => ⟨d, hd, rfl, rfl⟩
  refine ⟨os, hwithdraw.trans hturn, hos.imp_right fun ⟨hone, hx, hdone⟩ => ?_⟩
  exact ⟨hone, hdone, .inl (hx ▸ List.mem_of_getElem? hid)⟩

section Accept

variable {rest : List Arrival} {logs : List String} {exports : Script.Fields}

/-- The script of a result lands, and its lines are kept. -/
lemma recounts_landed : Recounts x [] s ((s.deliver rest).landed a logs) := by
  refine .of_keeps rfl fun d hd => ?_
  rcases Engine.mem_modifyCell hd with ⟨hd, -⟩ | ⟨b, hb, -, rfl⟩
  · exact ⟨d, hd, rfl, rfl⟩
  · exact ⟨b, hb, rfl, rfl⟩

lemma remaining_readopt : (((s.deliver rest).landed a logs).readopt c exports).pass.remaining = s.pass.remaining :=
  congrArg (·.pass.remaining) (control_adopt ((s.deliver rest).landed a logs) c exports)

lemma completed_adopt : (((s.deliver rest).landed a logs).adopt c exports).pass.completed =
    s.pass.completed.insert c.id :=
  congrArg (·.pass.completed) (control_adopt ((s.deliver rest).landed a logs) c exports)

/-- What comes into the pass anew depends on what the script turns out to export. -/
lemma surprises_of_downstream (hland : ((s.deliver rest).landed a logs).Tidy) (hc : c ∈ s.engine.cells)
    (hwait : c.id ∉ s.pass.remaining)
    (heq : ((s.deliver rest).landed a logs).accept c exports =
      (((s.deliver rest).landed a logs).readopt c exports).extend c.id (novel c exports))
    (hx : x ∈ (((s.deliver rest).landed a logs).readopt c exports).downstream c.id (novel c exports)) :
    Surprises s (((s.deliver rest).landed a logs).accept c exports) x := by
  have ht : (((s.deliver rest).landed a logs).readopt c exports).Tidy := hland.rebuild_adopt
  obtain ⟨hclosure, hne⟩ := List.mem_filter.mp hx
  obtain ⟨reader, hreader, -, hreaches⟩ := (Graph.mem_closure_iff ht.coherent).mp (Names.mem_toList.mp hclosure)
  obtain ⟨hflat, hother⟩ := List.mem_filter.mp hreader
  obtain ⟨name, hname, hread⟩ := List.mem_flatMap.mp hflat
  obtain ⟨hexport, hnovel⟩ := mem_novel.mp (Names.mem_toList.mp hname)
  obtain ⟨b, hb, hbid⟩ : ∃ b ∈ ((s.deliver rest).landed a logs).engine.cells, b.id = c.id := by
    have hids : ((s.deliver rest).landed a logs).engine.cells.map (·.id) = s.engine.cells.map (·.id) :=
      ids_modifyCell fun _ => rfl
    exact List.mem_map.mp (hids ▸ List.mem_map_of_mem hc)
  have hgraph : (((s.deliver rest).landed a logs).accept c exports).engine.graph =
      (((s.deliver rest).landed a logs).readopt c exports).engine.graph := by
    rw [heq, graph_extend]
  refine ⟨c, hc, _, mem_accept hb hbid hwait, hbid, by simpa using hne, name, hexport, hnovel, reader, ?_,
    by simpa using hother, ?_⟩
  · rwa [hgraph]
  · rwa [hgraph]

lemma reported_accept (hs : s.Tidy) (hland : ((s.deliver rest).landed a logs).Tidy) (hc : c ∈ s.engine.cells)
    (hfly : c.id ∈ s.flying) : Reported x s (((s.deliver rest).landed a logs).accept c exports) := by
  have hwait : c.id ∉ s.pass.remaining := fun hw => hs.grounded c.id hw hfly
  have hadopt : Recounts x (if x = c.id then [.success] else []) s
      (((s.deliver rest).landed a logs).adopt c exports) :=
    recounts_landed.trans recounts_adopt
  have hself : c.id ∈ (((s.deliver rest).landed a logs).adopt c exports).pass.completed := by
    rw [completed_adopt]
    exact Names.mem_insert.mpr (.inl rfl)
  rcases accept_cases ((s.deliver rest).landed a logs) c exports with ⟨-, heq⟩ | heq
  · rw [heq]
    refine ⟨_, hadopt, ?_⟩
    split
    · next hx => exact .inr ⟨rfl, hx ▸ hself, .inr (.inl (hx ▸ hfly))⟩
    · exact .inl rfl
  · have ht : (((s.deliver rest).landed a logs).readopt c exports).Tidy := hland.rebuild_adopt
    have hreadopt : Recounts x [] (((s.deliver rest).landed a logs).adopt c exports)
        (((s.deliver rest).landed a logs).readopt c exports) := .of_keeps rfl fun d hd => ⟨d, hd, rfl, rfl⟩
    obtain ⟨os, hextend, hos⟩ :=
      recounts_extend (((s.deliver rest).landed a logs).readopt c exports) c.id (novel c exports) x
    have hpending : ∀ y, y ∈ (((s.deliver rest).landed a logs).readopt c exports).pending c.id (novel c exports) →
        y ∈ s.pass.remaining ∨
          y ∈ (((s.deliver rest).landed a logs).readopt c exports).downstream c.id (novel c exports) := fun y hy => by
      rcases mem_pending.mp hy with hy | ⟨hy, -⟩
      · exact .inl (remaining_readopt (s := s) ▸ hy)
      · exact .inr hy
    have hsource : c.id ∉ (((s.deliver rest).landed a logs).readopt c exports).downstream c.id (novel c exports) :=
      fun hmem => by simpa using (List.mem_filter.mp hmem).2
    have hall := (hadopt.trans hreadopt).trans hextend
    rw [← heq] at hall
    refine ⟨_, hall, ?_⟩
    split
    · next hx =>
      subst hx
      rcases hos with rfl | ⟨-, hmem⟩
      · refine .inr ⟨rfl, ?_, .inr (.inl hfly)⟩
        rw [heq, mem_completed_extend ht]
        exact .inl ⟨hself, fun hmem => absurd hmem hsource⟩
      · exact absurd (hpending c.id ((mem_looped ht).mp hmem).1) (not_or.mpr ⟨hwait, hsource⟩)
    · rcases hos with rfl | ⟨hone, hmem⟩
      · exact .inl rfl
      · obtain ⟨hp, hcycle⟩ := (mem_looped ht).mp hmem
        refine .inr ⟨by simpa using hone, ?_, ?_⟩
        · rw [heq, mem_completed_extend ht]
          exact .inr ⟨hp, hcycle⟩
        · rcases hpending x hp with hw | hdown
          · exact .inl hw
          · exact .inr (.inr (surprises_of_downstream hland hc hwait heq hdown))

/-- What was done stays so when exports are taken over, or depends on one of them. -/
lemma completed_accept (hs : s.Tidy) (hland : ((s.deliver rest).landed a logs).Tidy) (hc : c ∈ s.engine.cells)
    (hfly : c.id ∈ s.flying) (hx : x ∈ s.pass.completed) :
    x ∈ (((s.deliver rest).landed a logs).accept c exports).pass.completed ∨
      Surprises s (((s.deliver rest).landed a logs).accept c exports) x := by
  have hadopt : x ∈ (((s.deliver rest).landed a logs).adopt c exports).pass.completed := by
    rw [completed_adopt]
    exact Names.mem_insert.mpr (.inr hx)
  rcases accept_cases ((s.deliver rest).landed a logs) c exports with ⟨-, heq⟩ | heq
  · exact .inl (heq ▸ hadopt)
  · have ht : (((s.deliver rest).landed a logs).readopt c exports).Tidy := hland.rebuild_adopt
    by_cases hdown : x ∈ (((s.deliver rest).landed a logs).readopt c exports).downstream c.id (novel c exports)
    · exact .inr (surprises_of_downstream hland hc (fun hw => hs.grounded c.id hw hfly) heq hdown)
    · rw [heq, mem_completed_extend ht]
      exact .inl (.inl ⟨hadopt, fun hmem => absurd hmem hdown⟩)

end Accept

namespace Active

lemma start (h : s.Active) (hs : s.Tidy) (hid : id ∈ s.pass.remaining) (hstarts : Starts id s s') : s'.Active := by
  intro x hx
  rcases hstarts.fate with ⟨hdone, hflight⟩ | ⟨hdone, c, -, -, -, hflight⟩
  · rw [hdone, Names.mem_insert, not_or]
    rcases hx with hx | hx
    · obtain ⟨hw, hne⟩ := (hstarts.waiting x).mp hx
      exact ⟨hne, h x (.inl hw)⟩
    · rw [flying, hflight] at hx
      exact ⟨fun heq => hs.grounded id hid (heq ▸ hx), h x (.inr hx)⟩
  · rw [hdone]
    rcases hx with hx | hx
    · exact h x (.inl ((hstarts.waiting x).mp hx).1)
    · rcases hstarts.mem_flying hx with hx | rfl
      · exact h x (.inr hx)
      · exact h x (.inl hid)

/-- A script that lands is done. -/
lemma land (h : s.Active) (hs : s.Tidy) (hid : id ∈ s.flying)
    (hflying : ∀ x, x ∈ s'.flying → x ∈ s.flying ∧ x ≠ id) (hremaining : s'.pass.remaining = s.pass.remaining)
    (hcompleted : ∀ x ∈ s'.pass.completed, x = id ∨ x ∈ s.pass.completed) : s'.Active := by
  intro x hx hdone
  have hold : (x ∈ s.pass.remaining ∨ x ∈ s.flying) ∧ x ≠ id := by
    rcases hx with hx | hx
    · have hw : x ∈ s.pass.remaining := hremaining ▸ hx
      exact ⟨.inl hw, fun heq => hs.grounded x hw (heq ▸ hid)⟩
    · exact ⟨.inr (hflying x hx).1, (hflying x hx).2⟩
  exact h x hold.1 ((hcompleted x hdone).resolve_left hold.2)

lemma extend (h : s.Active) (hs : s.Tidy) {source : CellId} {names : Names} : (s.extend source names).Active := by
  intro x hx hdone
  rw [mem_completed_extend hs] at hdone
  rw [mem_remaining_extend hs, flying_extend] at hx
  rcases hx with ⟨hp, -, hno⟩ | hf
  · rcases hdone with ⟨hdone, hin⟩ | ⟨-, hcycle⟩
    · rcases mem_pending.mp hp with hw | ⟨hdown, hfly⟩
      · exact h x (.inl hw) hdone
      · exact h x (.inl ((hin hdown).resolve_right hfly)) hdone
    · exact hno hcycle
  · rcases hdone with ⟨hdone, -⟩ | ⟨hp, -⟩
    · exact h x (.inr hf) hdone
    · rcases mem_pending.mp hp with hw | ⟨-, hfly⟩
      · exact hs.grounded x hw hf
      · exact hfly hf

lemma requeue (h : s.Active) {rest : List Arrival} : (((s.deliver rest).land id).requeue id).Active := by
  intro x hx hdone
  change x ∈ s.pass.completed.filter (· != id) at hdone
  rw [Names.mem_filter, bne_iff_ne] at hdone
  rcases hx with hx | hx
  · have hmem := (Graph.mem_order hx).1
    rw [Names.mem_insert, Names.mem_ofList] at hmem
    exact h x (.inl (hmem.resolve_left hdone.2)) hdone.1
  · exact h x (.inr (mem_flying_land (s := s.deliver rest) |>.mp hx).1) hdone.1

end Active

/-- What a result does to the report and to what is done. -/
lemma landing_reported {rest : List Arrival} (hs : s.Tidy) (h : s.Active)
    (hperm : s.engine.arriving.Perm (a :: rest)) (hlanding : Landing (s.deliver rest) a t) :
    t.Active ∧ Reported x s t ∧ (x ∈ s.pass.completed → x ∈ t.pass.completed ∨ Surprises s t x) := by
  have hland := hs.land hperm
  have hid : a.cell ∈ s.flying := flying_of_arriving hs hperm
  have hflying : ∀ y, y ∈ t.flying → y ∈ s.flying ∧ y ≠ a.cell := fun y hy => hlanding.mem_flying.mp hy
  cases hlanding with
  | stale _ =>
    have hkept : ∀ u : Stage, u.pass.results = s.pass.results → u.engine.cells = s.engine.cells →
        Recounts x [] s u := fun u hresults hcells => .of_keeps hresults fun d hd => ⟨d, hcells ▸ hd, rfl, rfl⟩
    have hdiscarded : ∀ u : Stage, u.pass.results = s.pass.results → u.engine.cells = s.engine.cells →
        Recounts x (if x = a.cell then [.discarded] else []) s (u.finish a.cell .discarded) := fun u hresults hcells =>
      (hkept u hresults hcells).trans (recounts_finish fun _ _ _ => rfl)
    generalize hdismiss : ((s.deliver rest).land a.cell).dismiss a.cell = t at hflying
    unfold dismiss at hdismiss
    dsimp only at hdismiss
    split at hdismiss <;> subst hdismiss
    · refine ⟨h.land hs hid hflying rfl fun y hy => Names.mem_insert.mp hy,
        ⟨_, hdiscarded _ rfl rfl, ?_⟩,
        fun hx => .inl (Names.mem_insert.mpr (.inr hx))⟩
      split
      · next hx => exact .inr ⟨rfl, Names.mem_insert.mpr (.inl hx), .inr (.inl (hx ▸ hid))⟩
      · exact .inl rfl
    · exact ⟨h.land hs hid hflying rfl fun y hy => .inr hy, ⟨[], hkept _ rfl rfl, .inl rfl⟩, .inl⟩
  | again _ _ =>
    refine ⟨h.requeue, ⟨[], .of_keeps rfl fun d hd => ⟨d, hd, rfl, rfl⟩, .inl rfl⟩, fun hx => .inl ?_⟩
    change x ∈ s.pass.completed.filter (· != a.cell)
    rw [Names.mem_filter, bne_iff_ne]
    exact ⟨hx, fun heq => h x (.inr (heq ▸ hid)) hx⟩
  | @failed c message logs hc hr hsettle =>
    have hcid : c.id = a.cell := id_of_addressee? hc
    have hcontrol := control_failed (s.deliver rest) a c logs message
    have hcompleted : ∀ y, y ∈ (((s.deliver rest).landed a logs).fail c (.execution a.cell message)).pass.completed ↔
        y = a.cell ∨ y ∈ s.pass.completed := fun y => by
      have hset : (((s.deliver rest).landed a logs).fail c (.execution a.cell message)).pass.completed =
          s.pass.completed.insert c.id := congrArg (·.pass.completed) hcontrol
      rw [hset, Names.mem_insert, hcid]
    refine ⟨h.land hs hid hflying (congrArg (·.pass.remaining) hcontrol) fun y => (hcompleted y).mp,
      ⟨_, recounts_landed.trans recounts_fail, ?_⟩, fun hx => .inl ((hcompleted x).mpr (.inr hx))⟩
    split
    · next hx =>
      have hxa : x = a.cell := hx.trans hcid
      exact .inr ⟨rfl, (hcompleted x).mpr (.inl hxa), .inr (.inl (hxa ▸ hid))⟩
    · exact .inl rfl
  | @accepted c exports logs hc hr hsettle =>
    obtain ⟨hcs, hcid, -⟩ := flight_of_addressee? hs hperm hc
    have hlanded : ((s.deliver rest).landed a logs).Tidy := hland.keepLogs _ _
    have hfly : c.id ∈ s.flying := hcid ▸ hid
    refine ⟨?_, reported_accept hs hlanded hcs hfly, completed_accept hs hlanded hcs hfly⟩
    have hadopt : (((s.deliver rest).landed a logs).adopt c exports).Active := by
      refine h.land hs hid (fun y hy => ?_) (remaining_readopt (s := s)) fun y hy => ?_
      · rw [flying, inFlight_adopt] at hy
        exact mem_flying_land (s := s.deliver rest) |>.mp hy
      · rw [completed_adopt, Names.mem_insert, hcid] at hy
        exact hy
    rcases accept_cases ((s.deliver rest).landed a logs) c exports with ⟨-, heq⟩ | heq
    · exact heq ▸ hadopt
    · rw [heq]
      have hreadopt : (((s.deliver rest).landed a logs).readopt c exports).Active := hadopt
      exact hreadopt.extend hlanded.rebuild_adopt

/-- What any step of a pass does to the report and to what is done. -/
theorem Goes.reported (hgoes : s.Goes l s') (hs : s.Tidy) (h : s.Active) (x : CellId) :
    s'.Active ∧ Reported x s s' ∧ (x ∈ s.pass.completed → x ∈ s'.pass.completed ∨ Surprises s s' x) := by
  cases hgoes with
  | move hm =>
    cases hm with
    | @start i id s' hfree hi hid hrun =>
      have hstarts := starts_of_runCell hs hid hrun
      refine ⟨h.start hs (List.mem_of_getElem? hid) hstarts, reported_start hid hrun, fun hx => .inl ?_⟩
      rcases hstarts.fate with ⟨hdone, -⟩ | ⟨hdone, -⟩
      · exact hdone ▸ Names.mem_insert.mpr (.inr hx)
      · exact hdone ▸ hx
    | receive hperm => exact landing_reported hs h hperm (landing_receive _ _)
  | host hh =>
    cases hh <;> exact ⟨h, ⟨[], .of_keeps rfl fun d hd => ⟨d, hd, rfl, rfl⟩, .inl rfl⟩, .inl⟩

end Stage

namespace Engine

open Stage

variable {e : Engine} {x : CellId} {n k : ℕ} {σ : ℕ → Stage}

/-- At the start the cells on cycles are reported, and they are done. -/
lemma recounts_beginPass (ht : e.Tidy) (x : CellId) : ∃ os, Recounts x os e.openPass e.beginPass ∧
    (os = [] ∨ os.length = 1 ∧ x ∈ e.beginPass.pass.completed) := by
  have hids : e.graph.ids.Nodup := by
    rw [ht.graph, Graph.ids_build]
    exact ht.ids
  obtain ⟨os, hblock, hos⟩ := recounts_foldl_block (hids.filter _) e.openPass x
  have hbegin : Recounts x [] e.blockCycles e.beginPass := .of_keeps rfl fun d hd => ⟨d, hd, rfl, rfl⟩
  refine ⟨os ++ [], hblock.trans hbegin, ?_⟩
  rw [List.append_nil]
  refine hos.imp_right fun ⟨hone, hmem⟩ => ⟨hone, ?_⟩
  exact (mem_completed_blockCycles ht).mpr ((mem_blocked_iff ht).mp hmem)

lemma active_start (ht : e.Tidy) (hp : e.pass = none) : e.beginPass.Active := by
  intro x hx
  rw [flying_beginPass ht hp] at hx
  exact (active_beginPass (hx.resolve_right List.not_mem_nil)).2

namespace IsPass

lemma active (h : IsPass l e n σ) (hk : k ≤ n) : (σ k).Active := by
  induction k with
  | zero => exact h.start ▸ active_start h.reachable.tidy h.idle
  | succ k ih => exact ((h.goes k hk).reported (h.tidy (by omega)) (ih (by omega)) "").1

lemma reported (h : IsPass l e n σ) (hk : k < n) (x : CellId) :
    Reported x (σ k) (σ (k + 1)) ∧
      (x ∈ (σ k).pass.completed → x ∈ (σ (k + 1)).pass.completed ∨ Surprises (σ k) (σ (k + 1)) x) :=
  ((h.goes k hk).reported (h.tidy hk.le) (h.active hk.le) x).2

/-- All that has been reported of a cell since the notebook was at rest says what the cell shows. -/
lemma recounts (h : IsPass l e n σ) (hk : k ≤ n) (x : CellId) :
    Recounts x ((σ k).pass.report.outcomes x) e.openPass (σ k) := by
  induction k with
  | zero =>
    obtain ⟨os, hos, -⟩ := recounts_beginPass h.reachable.tidy x
    rw [h.start]
    have heq : e.beginPass.pass.report.outcomes x = os := hos.outcomes
    exact heq ▸ hos
  | succ k ih =>
    obtain ⟨os, hos, -⟩ := (h.reported hk x).1
    exact hos.outcomes ▸ (ih (by omega)).trans hos

/-- A cell of which anything has been reported is done, and only one thing has been, unless it has been reopened. -/
lemma outcomes_le_one (h : IsPass l e n σ) (hk : k ≤ n) (hno : ∀ j < k, ¬ Reopens (σ j) (σ (j + 1)) x) :
    (σ k).pass.report.outcomes x = [] ∨
      ((σ k).pass.report.outcomes x).length = 1 ∧ x ∈ (σ k).pass.completed := by
  induction k with
  | zero =>
    obtain ⟨os, hos, hcase⟩ := recounts_beginPass h.reachable.tidy x
    rw [h.start]
    have heq : e.beginPass.pass.report.outcomes x = os := hos.outcomes
    exact heq ▸ hcase
  | succ k ih =>
    obtain ⟨⟨os, hos, hnew⟩, hkept⟩ := h.reported hk x
    have hopen : x ∈ (σ k).pass.completed → ¬ Surprises (σ k) (σ (k + 1)) x := fun hdone hsurprise =>
      hno k k.lt_succ_self ⟨hdone, hsurprise⟩
    rw [hos.outcomes]
    rcases ih (by omega) fun j hj => hno j (by omega) with hnone | ⟨hone, hdone⟩
    · rw [hnone, List.nil_append]
      exact hnew.imp_right fun ⟨hlength, hdone, _⟩ => ⟨hlength, hdone⟩
    · rcases hnew with rfl | ⟨-, -, hwhy⟩
      · rw [List.append_nil]
        exact .inr ⟨hone, (hkept hdone).resolve_right (hopen hdone)⟩
      · rcases hwhy with hw | hf | hsurprise
        · exact absurd hdone (h.active (by omega) x (.inl hw))
        · exact absurd hdone (h.active (by omega) x (.inr hf))
        · exact absurd hsurprise (hopen hdone)

end IsPass

/-- At every moment of a pass, whatever the scripts export and in whatever order their results arrive, a cell shows what
the latest outcome in the report says. A cell that has not been done already when a script turns out to export a name
that it depends on is listed at most once among those executed, and the outcome found for it is what it shows. -/
theorem report_agrees (h : IsPass l e n σ) :
    (∀ c ∈ (σ n).engine.cells, ∀ outcome,
      ((σ n).pass.report.outcomes c.id).getLast? = some outcome → outcome.Agrees c.status) ∧
    ∀ x, (∀ k < n, ¬ Reopens (σ k) (σ (k + 1)) x) →
      (σ n).pass.report.executed.count x ≤ 1 ∧
        ∀ c ∈ (σ n).engine.cells, c.id = x → ∀ outcome,
          (σ n).pass.report.outcome? x = some outcome → outcome.Agrees c.status := by
  have hlatest : ∀ c ∈ (σ n).engine.cells, ∀ outcome,
      ((σ n).pass.report.outcomes c.id).getLast? = some outcome → outcome.Agrees c.status := by
    intro c hc outcome hlast
    obtain ⟨b, -, -, hfollows⟩ := (h.recounts le_rfl c.id).status c hc rfl
    obtain ⟨earlier, heq⟩ := List.getLast?_eq_some_iff.mp hlast
    rw [heq] at hfollows
    exact hfollows.agrees
  refine ⟨hlatest, fun x hno => ⟨?_, fun c hc hcx outcome hfirst => ?_⟩⟩
  · refine Report.count_executed_le.trans ?_
    rcases h.outcomes_le_one le_rfl hno with hnone | ⟨hone, -⟩
    · simp [hnone]
    · exact hone.le
  · -- the only outcome is both the first and the latest
    rw [Report.outcome?_eq_head?] at hfirst
    refine hlatest c hc outcome ?_
    rw [hcx]
    rcases h.outcomes_le_one le_rfl hno with hnone | ⟨hone, -⟩
    · rw [hnone] at hfirst
      cases hfirst
    · obtain ⟨only, honly⟩ := List.length_eq_one_iff.mp hone
      rw [honly] at hfirst ⊢
      exact hfirst

/-- The formula `f` reads what the script `s` turns out to export. -/
def unforeseen : Engine :=
  ((new .standard true).grow ⟨"f", .formula "x + 1" "y"⟩).grow ⟨"s", .script "#\x7b x: 41 \x7d"⟩

/-- The stages of the pass over this notebook: `f` is started, then `s`, whose result arrives, and `f` again. -/
def unforeseenPass : ℕ → Stage :=
  unforeseen.beginPass.route (.ofConfig .standard) [none, none, some 0, none]

lemma isPass_unforeseenPass : IsPass (.ofConfig .standard) unforeseen 4 unforeseenPass := by
  have hreach : Reachable (.ofConfig .standard) unforeseen := ⟨.standard, true, (steps_grow _ _).trans (steps_grow _ _)⟩
  have hroute : unforeseen.beginPass.isRoute (.ofConfig .standard) [none, none, some 0, none] = true := by
    decide +kernel
  exact isPass_route hreach rfl hroute

/-- The script is done when the formula is started again, and nothing new is exported by then. -/
lemma not_reopens_unforeseenPass (k : ℕ) (hk : k < 4) :
    ¬ Reopens (unforeseenPass k) (unforeseenPass (k + 1)) "s" := by
  have hbefore : ((List.range 3).all fun k => !(unforeseenPass k).pass.completed.contains "s") = true := by
    decide +kernel
  have hsame : ((unforeseenPass 3).engine.cells.all fun c => (unforeseenPass 4).engine.cells.all fun d =>
      d.id != c.id || d.writes.names.toList.all fun name => c.writes.names.contains name) = true := by decide +kernel
  rintro ⟨hdone, c, hc, d, hd, hid, -, name, hname, hnew, -⟩
  by_cases hlast : k = 3
  · rw [show k + 1 = 4 by omega] at hd
    rw [hlast] at hc
    have hall := List.all_eq_true.mp (List.all_eq_true.mp hsame c hc) d hd
    rw [hid, bne_self_eq_false, Bool.false_or, List.all_eq_true] at hall
    exact hnew (Names.contains_iff.mp (hall name hname))
  · have hwaits := List.all_eq_true.mp hbefore k (List.mem_range.mpr (by omega))
    rw [Names.contains_iff.mpr hdone] at hwaits
    cases hwaits

/-- The script is executed once and shows the outcome found for it; the formula shows its latest outcome. -/
theorem unforeseen_reported : (unforeseenPass 4).pass.report.executed.count "s" ≤ 1 ∧
    ∀ c ∈ (unforeseenPass 4).engine.cells, c.id = "s" ∨ c.id = "f" → c.status = .ok := by
  obtain ⟨hlatest, honce⟩ := report_agrees isPass_unforeseenPass
  obtain ⟨hcount, hfound⟩ := honce "s" not_reopens_unforeseenPass
  refine ⟨hcount, fun c hc hid => ?_⟩
  rcases hid with hid | hid
  · exact hfound c hc hid .success (by decide +kernel)
  · have hlast : ((unforeseenPass 4).pass.report.outcomes c.id).getLast? = some .success := by
      rw [hid]
      decide +kernel
    exact hlatest c hc .success hlast

/-- The formula is executed twice in a finished pass, and the outcome found for it is its failure although it shows
that all is well. -/
theorem reader_reported_as_failed :
    IsPass (.ofConfig .standard) unforeseen 4 unforeseenPass ∧
      (unforeseenPass 4).pass.remaining = [] ∧ (unforeseenPass 4).engine.inFlight = [] ∧
      (unforeseenPass 4).pass.report.executed = ["f", "s", "f"] ∧
      (unforeseenPass 4).pass.report.outcome? "f" = some (.failed (.execution "f"
        "Function not found: + ((), i64) (line 1, position 3)")) ∧
      ((unforeseenPass 4).engine.cell? "f").map (·.status) = some .ok := by
  refine ⟨isPass_unforeseenPass, ?_⟩
  decide +kernel

end Engine

end ReactiveNotebook
