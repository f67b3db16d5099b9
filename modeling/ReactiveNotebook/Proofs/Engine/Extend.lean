import ReactiveNotebook.Proofs.Engine.Move
import ReactiveNotebook.Proofs.Engine.Verdict
import ReactiveNotebook.Proofs.Graph.Cycle

/-!
# Enlarging a pass

When a script has exported new names, their readers and all that is downstream of them come into the pass. Of
these the cells in flight are to run again, the cells on cycles are marked, and the others wait, in order.
-/
namespace ReactiveNotebook

/-- What a cell shows once it has been marked: the closed walk that the graph has recorded for it. -/
def Graph.mark (g : Graph) (x : CellId) : Status := .failed (.cycle x ((g.cycleOf? x).getD []))

namespace Stage

open Relation (TransGen)

variable {s s' : Stage} {c d : Cell} {id source x y : CellId} {names : Names}

lemma Tidy.cycleOf?_isSome_iff (h : s.Tidy) :
    (s.engine.graph.cycleOf? x).isSome = true ↔ s.engine.graph.OnCycle x := by
  rw [h.graph]
  exact Graph.cycleOf?_isSome_iff h.ids

lemma Tidy.mem_ids_iff (h : s.Tidy) : x ∈ s.engine.graph.ids ↔ x ∈ s.engine.cells.map (·.id) := by
  rw [h.graph, Graph.ids_build]

lemma Tidy.edge_iff (h : s.Tidy) : s.engine.graph.Edge x y ↔
    ∃ c ∈ s.engine.cells, ∃ d ∈ s.engine.cells, c.id = x ∧ d.id = y ∧ Graph.Feeds c d := by
  rw [h.graph, Graph.edge_build_iff h.ids]

/-- After cells have been marked, each of them shows the walk that the graph has recorded for it, and the others
are as they were. -/
lemma mem_or_marked_foldl_block (ids : List CellId) (hd : d ∈ (ids.foldl block s).engine.cells) :
    d ∈ s.engine.cells ∧ d.id ∉ ids ∨ d.id ∈ ids ∧ d.status = s.engine.graph.mark d.id := by
  induction ids generalizing s with
  | nil => exact .inl ⟨hd, List.not_mem_nil⟩
  | cons id ids ih =>
    rcases ih hd with ⟨hd, hout⟩ | ⟨hin, hmark⟩
    · rw [cells_block] at hd
      rcases mem_conclusion.mp hd with ⟨hd, hne⟩ | ⟨c, -, rfl, rfl⟩
      · exact .inl ⟨hd, by simp [hne, hout]⟩
      · exact .inr ⟨by simp, by rw [Cell.id_withVerdict]; rfl⟩
    · have hgraph : (s.block id).engine.graph = s.engine.graph :=
        congrArg (·.engine.graph) (control_foldl_block [id] s)
      exact .inr ⟨List.mem_cons_of_mem _ hin, hgraph ▸ hmark⟩

/-- After cells have been marked, each of them shows a cycle, and the others are as they were. -/
lemma mem_cells_foldl_block (ids : List CellId) (hd : d ∈ (ids.foldl block s).engine.cells) :
    d ∈ s.engine.cells ∧ d.id ∉ ids ∨ d.id ∈ ids ∧ d.status.isCycle = true :=
  (mem_or_marked_foldl_block ids hd).imp_right fun ⟨hin, hmark⟩ => ⟨hin, hmark ▸ rfl⟩

/-- Marking cells replaces what they write. -/
lemma replaces_foldl_block {p : String → Prop} (ids : List CellId)
    (hc : ∀ c ∈ s.engine.cells, c.id ∈ ids → ∀ v ∈ c.writes.names, p v) :
    Replaces p s (ids.foldl block s) := by
  induction ids generalizing s with
  | nil => rfl
  | cons id ids ih =>
    refine (replaces_block fun c hcs hid => hc c hcs (hid ▸ List.mem_cons_self)).trans (ih fun c hcs hid => ?_)
    rw [cells_block] at hcs
    rcases mem_conclusion.mp hcs with ⟨hcs, -⟩ | ⟨d, hds, -, rfl⟩
    · exact hc c hcs (List.mem_cons_of_mem _ hid)
    · simp only [Cell.id_withVerdict, Cell.writes_withVerdict] at hid ⊢
      exact hc d hds (List.mem_cons_of_mem _ hid)

/-- What is downstream of names that a script writes is downstream of the script. -/
lemma transGen_of_mem_downstream (hs : s.Tidy) (hc : c ∈ s.engine.cells) (hid : c.id = id)
    (hn : ∀ name ∈ names, name ∈ c.writes.names) (hy : y ∈ s.downstream id names) :
    TransGen s.engine.graph.Edge id y := by
  have hclosure := Names.mem_toList.mp (List.mem_filter.mp hy).1
  obtain ⟨reader, hreader, -, hreaches⟩ := (Graph.mem_closure_iff hs.coherent).mp hclosure
  obtain ⟨hflat, hne⟩ := List.mem_filter.mp hreader
  obtain ⟨name, hname, hread⟩ := List.mem_flatMap.mp hflat
  rw [hs.graph] at hread
  obtain ⟨d, hd, rfl, hdr⟩ := Graph.mem_readersOf_build.mp hread
  have hne' : d.id ≠ id := by simpa using hne
  have hedge : s.engine.graph.Edge id d.id := by
    rw [hs.edge_iff]
    exact ⟨c, hc, d, hd, hid, rfl, hid ▸ hne'.symm, name, hn name hname, hdr⟩
  exact .head' hedge hreaches

/-- The readers of the names are downstream. -/
lemma mem_downstream_of_reads (hs : s.Tidy) (hd : d ∈ s.engine.cells) (hne : d.id ≠ source) {name : String}
    (hname : name ∈ names) (hread : name ∈ d.reads) : d.id ∈ s.downstream source names := by
  have hreader : d.id ∈ s.engine.graph.readersOf name := by
    rw [hs.graph]
    exact Graph.mem_readersOf_build.mpr ⟨d, hd, rfl, hread⟩
  have hmem : d.id ∈ (names.toList.flatMap s.engine.graph.readersOf).filter (· != source) :=
    List.mem_filter.mpr ⟨List.mem_flatMap.mpr ⟨name, hname, hreader⟩, by simpa using hne⟩
  have hknown : d.id ∈ s.engine.graph.ids := hs.mem_ids_iff.mpr (List.mem_map_of_mem hd)
  exact List.mem_filter.mpr ⟨Graph.subset_closure hs.coherent hmem hknown, by simpa using hne⟩

/-- What reads from a cell that is downstream is downstream, except for the script itself. -/
lemma mem_downstream_of_edge (hs : s.Tidy) (hx : x ∈ s.downstream source names)
    (hedge : s.engine.graph.Edge x y) (hne : y ≠ source) : y ∈ s.downstream source names :=
  List.mem_filter.mpr
    ⟨Graph.closure_closed hs.coherent (List.mem_filter.mp hx).1 hedge, by simpa using hne⟩

lemma contains_remaining_eq_false : s.pass.remaining.contains x = false ↔ x ∉ s.pass.remaining := by simp

lemma isFlying_eq_false : s.isFlying x = false ↔ x ∉ s.flying := by
  rw [← isFlying_iff, Bool.not_eq_true]

/-- What is fresh in the pass: downstream cells that neither wait nor are in flight. -/
lemma mem_fresh : x ∈ (s.downstream source names).filter (fun id =>
      !s.pass.remaining.contains id && !s.isFlying id) ↔
    x ∈ s.downstream source names ∧ x ∉ s.pass.remaining ∧ x ∉ s.flying := by
  rw [List.mem_filter, Bool.and_eq_true, Bool.not_eq_true', Bool.not_eq_true', contains_remaining_eq_false,
    isFlying_eq_false]

lemma mem_pending : x ∈ s.pending source names ↔
    x ∈ s.pass.remaining ∨ x ∈ s.downstream source names ∧ x ∉ s.flying := by
  rw [pending, Names.mem_insertAll, mem_fresh, Names.mem_ofList]
  tauto

/-- The cells that turn out to lie on a cycle when the pass is enlarged. -/
def looped (s : Stage) (source : CellId) (names : Names) : List CellId :=
  (s.pending source names).toList.filter fun id => (s.engine.graph.cycleOf? id).isSome

lemma mem_looped (hs : s.Tidy) :
    x ∈ s.looped source names ↔ x ∈ s.pending source names ∧ s.engine.graph.OnCycle x := by
  rw [looped, List.mem_filter, hs.cycleOf?_isSome_iff, Names.mem_toList]

lemma control_extend (s : Stage) (source : CellId) (names : Names) :
    (s.extend source names).control = ({ s.enlarge source names with pass := { (s.enlarge source names).pass with
      completed := (s.enlarge source names).pass.completed.insertAll
        ((s.looped source names).filter s.engine.hasCell) } } : Stage).control :=
  control_foldl_block _ _

lemma graph_extend (s : Stage) (source : CellId) (names : Names) :
    (s.extend source names).engine.graph = s.engine.graph :=
  (part_of_control (·.engine.graph) (fun _ => rfl) (control_extend s source names)).trans rfl

lemma remaining_extend : (s.extend source names).pass.remaining = s.engine.graph.order
    ((s.pending source names).filter fun id => (s.engine.graph.cycleOf? id).isNone) :=
  part_of_control (·.pass.remaining) (fun _ => rfl) (control_extend s source names)

/-- What waits after the pass has been enlarged: what is pending and lies on no cycle. -/
lemma mem_remaining_extend (hs : s.Tidy) : x ∈ (s.extend source names).pass.remaining ↔
    x ∈ s.pending source names ∧ x ∈ s.engine.graph.ids ∧ ¬ s.engine.graph.OnCycle x := by
  have hfilter : ∀ x, x ∈ (s.pending source names).filter (fun id => (s.engine.graph.cycleOf? id).isNone) ↔
      x ∈ s.pending source names ∧ ¬ s.engine.graph.OnCycle x := fun x => by
    rw [Names.mem_filter, ← hs.cycleOf?_isSome_iff]
    cases s.engine.graph.cycleOf? x <;> simp
  rw [remaining_extend]
  constructor
  · intro hx
    obtain ⟨hx, hk⟩ := Graph.mem_order hx
    obtain ⟨hp, hno⟩ := (hfilter x).mp hx
    exact ⟨hp, hk, hno⟩
  · rintro ⟨hp, hk, hno⟩
    exact Graph.mem_order_of_acyclic hs.coherent (fun y hy => ((hfilter y).mp hy).2) ((hfilter x).mpr ⟨hp, hno⟩) hk

lemma mem_rerun_extend : x ∈ (s.extend source names).pass.rerun ↔
    x ∈ s.downstream source names ∧ x ∈ s.flying ∨ x ∈ s.pass.rerun := by
  have hrerun : (s.extend source names).pass.rerun =
      s.pass.rerun.insertAll ((s.downstream source names).filter s.isFlying) :=
    part_of_control (·.pass.rerun) (fun _ => rfl) (control_extend s source names)
  rw [hrerun, Names.mem_insertAll, List.mem_filter, isFlying_iff]

lemma mem_members_extend : x ∈ (s.extend source names).pass.members ↔
    x ∈ s.downstream source names ∧ (x ∈ s.flying ∨ x ∉ s.pass.remaining) ∨ x ∈ s.pass.members := by
  have hmembers : (s.extend source names).pass.members =
      (s.pass.members.insertAll ((s.downstream source names).filter s.isFlying)).insertAll
        ((s.downstream source names).filter fun id => !s.pass.remaining.contains id && !s.isFlying id) :=
    part_of_control (·.pass.members) (fun _ => rfl) (control_extend s source names)
  rw [hmembers, Names.mem_insertAll, Names.mem_insertAll, mem_fresh, List.mem_filter, isFlying_iff]
  rw [← or_assoc, ← and_or_left]
  have hflying : x ∉ s.pass.remaining ∧ x ∉ s.flying ∨ x ∈ s.flying ↔ x ∈ s.flying ∨ x ∉ s.pass.remaining := by
    tauto
  rw [hflying]

/-- What is done after the pass has been enlarged was done and does not come in again, or is on a cycle. -/
lemma mem_completed_extend (hs : s.Tidy) : x ∈ (s.extend source names).pass.completed ↔
    x ∈ s.pass.completed ∧ (x ∈ s.downstream source names → x ∈ s.pass.remaining ∨ x ∈ s.flying) ∨
      x ∈ s.pending source names ∧ s.engine.graph.OnCycle x := by
  have hcompleted : (s.extend source names).pass.completed =
      (s.pass.completed.filter fun id => !((s.downstream source names).filter fun id =>
        !s.pass.remaining.contains id && !s.isFlying id).contains id).insertAll
          ((s.looped source names).filter s.engine.hasCell) :=
    part_of_control (·.pass.completed) (fun _ => rfl) (control_extend s source names)
  have hhas : s.engine.graph.OnCycle x → s.engine.hasCell x = true := fun hcycle => by
    obtain ⟨y, hedge, -⟩ := TransGen.head'_iff.mp hcycle
    exact Engine.hasCell_iff.mpr (hs.mem_ids_iff.mp hedge.known_source)
  rw [hcompleted, Names.mem_insertAll, List.mem_filter, mem_looped hs, Names.mem_filter, Bool.not_eq_true',
    ← Bool.not_eq_true, List.contains_iff_mem, mem_fresh,
    and_iff_left_of_imp fun h => hhas h.2, or_comm, not_and, not_and_or, not_not, not_not]

/-- After the pass has been enlarged the pending cells on cycles are marked, and the others are as they were. -/
lemma mem_cells_extend (hs : s.Tidy) (hd : d ∈ (s.extend source names).engine.cells) :
    d ∈ s.engine.cells ∧ ¬ (d.id ∈ s.pending source names ∧ s.engine.graph.OnCycle d.id) ∨
      d.id ∈ s.pending source names ∧ s.engine.graph.OnCycle d.id ∧ d.status.isCycle = true := by
  rw [← mem_looped hs, ← and_assoc, ← mem_looped hs]
  exact mem_cells_foldl_block (s := s.enlarge source names) (s.looped source names) hd

/-- After the pass has been enlarged every cell shows what it showed before, or lies on a cycle and is marked. -/
lemma mem_or_marked_extend (hs : s.Tidy) (hd : d ∈ (s.extend source names).engine.cells) :
    d ∈ s.engine.cells ∨ s.engine.graph.OnCycle d.id ∧ d.status = s.engine.graph.mark d.id := by
  have hd' := mem_or_marked_foldl_block (s := s.enlarge source names) (s.looped source names) hd
  rcases hd' with ⟨hd, -⟩ | ⟨hin, hmark⟩
  · exact .inl hd
  · exact .inr ⟨((mem_looped hs).mp hin).2, hmark⟩

/-- Enlarging the pass replaces what the cells write that turn out to lie on cycles. -/
lemma replaces_extend (hs : s.Tidy) : Replaces (fun v => ∃ c ∈ s.engine.cells,
    c.id ∈ s.pending source names ∧ s.engine.graph.OnCycle c.id ∧ v ∈ c.writes.names) s
    (s.extend source names) := by
  have henlarge : Replaces (fun v => ∃ c ∈ s.engine.cells,
      c.id ∈ s.pending source names ∧ s.engine.graph.OnCycle c.id ∧ v ∈ c.writes.names) s
      (s.enlarge source names) := .of_eq (fun _ => rfl) (fun _ => rfl) rfl
  refine henlarge.trans (replaces_foldl_block (s.looped source names) fun c hc hid v hv => ?_)
  obtain ⟨hp, hcycle⟩ := (mem_looped hs).mp hid
  exact ⟨c, hc, hp, hcycle, hv⟩

section Adopt

variable {exports : Script.Fields}

/-- The cell whose exports have been taken over shows them; the others are as they were. -/
lemma mem_cells_adopt (hd : d ∈ (s.adopt c exports).engine.cells) :
    d ∈ s.engine.cells ∧ d.id ≠ c.id ∨ ∃ b ∈ s.engine.cells, b.id = c.id ∧
      d = { b with writes := .confirmed (Names.ofList (exports.map (·.1))), status := .ok } := by
  unfold adopt at hd
  simp only [succeed, finish] at hd
  set t := (c.writes.names.toList.filter fun name =>
    !(Names.ofList (exports.map (·.1))).contains name).foldl (retract c.id)
      (exports.foldl (fun s x => s.commit x.1 (.value x.2)) s) with ht
  have hcells : t.engine.cells = s.engine.cells := by
    rw [ht, cells_foldl fun _ _ => cells_retract, cells_foldl fun _ _ => cells_commit]
  simp only [modifyCell, Engine.modifyCell, hcells, List.mem_map] at hd
  obtain ⟨_, ⟨b, hb, rfl⟩, rfl⟩ := hd
  by_cases hid : b.id = c.id
  · exact .inr ⟨b, hb, hid, by simp [hid]⟩
  · exact .inl ⟨by simpa [hid] using hb, by simp [hid]⟩

/-- Taking over exports replaces them, and what the script has written before. -/
lemma replaces_adopt :
    Replaces (fun v => v ∈ Names.ofList (exports.map (·.1)) ∨ v ∈ c.writes.names) s (s.adopt c exports) := by
  have hcommits : Replaces (fun v => v ∈ Names.ofList (exports.map (·.1)) ∨ v ∈ c.writes.names) s
      (exports.foldl (fun s x => s.commit x.1 (.value x.2)) s) := by
    refine .foldl_mem exports (fun t p hp => replaces_commit.mono fun v hv => ?_) s
    exact .inl (Names.mem_ofList.mpr (hv ▸ List.mem_map_of_mem hp))
  refine hcommits.trans ?_
  have hretracts : ∀ t : Stage, Replaces
      (fun v => v ∈ Names.ofList (exports.map (·.1)) ∨ v ∈ c.writes.names) t
      ((c.writes.names.toList.filter fun name =>
        !(Names.ofList (exports.map (·.1))).contains name).foldl (retract c.id) t) := by
    refine .foldl_mem _ fun t name hname => replaces_retract.mono fun v hv => ?_
    exact .inr (hv ▸ (List.mem_filter.mp hname).1)
  exact (hretracts _).trans (replaces_modifyCell.trans replaces_succeed)

/-- The stage whose graph has been derived anew after exports have been taken over. -/
def readopt (s : Stage) (c : Cell) (exports : Script.Fields) : Stage :=
  { s.adopt c exports with engine := (s.adopt c exports).engine.rebuild }

def novel (c : Cell) (exports : Script.Fields) : Names :=
  (Names.ofList (exports.map (·.1))).filter fun name => !c.writes.names.contains name

lemma mem_novel {v : String} :
    v ∈ novel c exports ↔ v ∈ Names.ofList (exports.map (·.1)) ∧ v ∉ c.writes.names := by
  rw [novel, Names.mem_filter, Bool.not_eq_true', Names.contains_eq_false_iff]

/-- Either a script writes what it was known to write, or the graph is derived anew and the pass enlarged. -/
lemma accept_cases (s : Stage) (c : Cell) (exports : Script.Fields) :
    c.writes.names = Names.ofList (exports.map (·.1)) ∧ s.accept c exports = s.adopt c exports ∨
      s.accept c exports = (s.readopt c exports).extend c.id (novel c exports) := by
  rw [accept_eq]
  split
  · exact .inr rfl
  · next hsame =>
    simp only [Bool.or_eq_true, bne_iff_ne, ne_eq, not_or, not_not] at hsame
    exact .inl ⟨hsame.1, rfl⟩

lemma replaces_readopt :
    Replaces (fun v => v ∈ Names.ofList (exports.map (·.1)) ∨ v ∈ c.writes.names) s (s.readopt c exports) :=
  replaces_adopt.trans (.of_eq (fun _ => rfl) (fun _ => rfl) rfl)

end Adopt

end Stage

end ReactiveNotebook
