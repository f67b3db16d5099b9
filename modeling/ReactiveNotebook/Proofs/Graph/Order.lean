import ReactiveNotebook.Proofs.Graph.Closure

/-!
# The order of evaluation

The order of a set of cells lists some of its members, each once, and no cell before one that it depends on.
A member is left out only if it depends on another member that is left out, so on a set that is free of
cycles the order is complete.
-/
namespace ReactiveNotebook.Graph

variable {g : Graph} {members : Names} {fuel : ℕ} {waiting : List Node} {released : List CellId}
variable {x y : CellId}

/-- Whether a node waits for no member that has not been released. -/
def Node.isReady (members : Names) (released : List CellId) (n : Node) : Bool :=
  n.dependencies.toList.all fun d => !members.contains d || released.contains d

lemma Node.isReady_iff {n : Node} :
    n.isReady members released = true ↔ ∀ d ∈ n.dependencies, d ∈ members → d ∈ released := by
  simp only [isReady, List.all_eq_true, Bool.or_eq_true, Bool.not_eq_true', Names.mem_toList,
    Names.contains_eq_false_iff, List.contains_iff_mem]
  refine forall₂_congr fun d _ => ?_
  tauto

/-- A wave: either nothing is ready, or what is ready is released before the rest. -/
lemma waves_succ (members : Names) (fuel : ℕ) (waiting : List Node) (released : List CellId) :
    waves members (fuel + 1) waiting released =
      if waiting.filter (Node.isReady members released) = [] then []
      else
        let ids := (waiting.filter (Node.isReady members released)).map (·.id)
        ids ++ waves members fuel (waiting.filter fun n => !n.isReady members released) (released ++ ids) := by
  rw [waves]
  split
  · next h => exact (if_pos h).symm
  · next h => exact (if_neg h).symm

lemma exists_of_mem_waves (h : x ∈ waves members fuel waiting released) : ∃ n ∈ waiting, n.id = x := by
  induction fuel generalizing waiting released with
  | zero => simp [waves] at h
  | succ fuel ih =>
    rw [waves_succ] at h
    split at h
    · simp at h
    · rcases List.mem_append.mp h with h | h
      · obtain ⟨n, hn, rfl⟩ := List.mem_map.mp h
        exact ⟨n, (List.mem_filter.mp hn).1, rfl⟩
      · obtain ⟨n, hn, rfl⟩ := ih h
        exact ⟨n, (List.mem_filter.mp hn).1, rfl⟩

lemma nodup_waves (hw : (waiting.map (·.id)).Nodup) : (waves members fuel waiting released).Nodup := by
  induction fuel generalizing waiting released with
  | zero => simp [waves]
  | succ fuel ih =>
    rw [waves_succ]
    split
    · exact List.nodup_nil
    · have hrest := (List.filter_sublist (p := fun n : Node => !n.isReady members released)
        (l := waiting)).map (·.id)
      have hready := (List.filter_sublist (p := Node.isReady members released) (l := waiting)).map (·.id)
      refine List.Nodup.append (hw.sublist hready) (ih (hw.sublist hrest)) ?_
      intro x hx hx'
      obtain ⟨n, hn, rfl⟩ := List.mem_map.mp hx
      obtain ⟨m, hm, hmn⟩ := exists_of_mem_waves hx'
      obtain ⟨hnw, hnr⟩ := List.mem_filter.mp hn
      obtain ⟨hmw, hmr⟩ := List.mem_filter.mp hm
      rw [List.inj_on_of_nodup_map hw hmw hnw hmn, hnr] at hmr
      simp at hmr

/-- What is released in a wave depends on nothing that is released in the same wave or later. -/
lemma pairwise_waves (hw : (waiting.map (·.id)).Nodup) (hm : ∀ n ∈ waiting, n.id ∈ members)
    (hdeps : ∀ n ∈ waiting, g.dependencies n.id = n.dependencies.toList)
    (hr : ∀ n ∈ waiting, n.id ∉ released) :
    (waves members fuel waiting released).Pairwise fun a b => b ∉ g.dependencies a := by
  induction fuel generalizing waiting released with
  | zero => simp [waves]
  | succ fuel ih =>
    rw [waves_succ]
    split
    · exact .nil
    · have hfree : ∀ n ∈ waiting, n.isReady members released = true → ∀ m ∈ waiting,
          m.id ∉ g.dependencies n.id := by
        intro n hn hready m hmw hdep
        rw [hdeps n hn] at hdep
        exact hr m hmw (Node.isReady_iff.mp hready _ hdep (hm m hmw))
      have hrest : ∀ n ∈ waiting.filter fun n => !n.isReady members released, n ∈ waiting :=
        fun n hn => (List.mem_filter.mp hn).1
      rw [List.pairwise_append]
      refine ⟨?_, ih ?_ (fun n hn => hm n (hrest n hn)) (fun n hn => hdeps n (hrest n hn)) ?_, ?_⟩
      · rw [List.pairwise_map]
        refine List.pairwise_of_forall_mem_list fun n hn m hm' => ?_
        obtain ⟨hnw, hnr⟩ := List.mem_filter.mp hn
        exact hfree n hnw hnr m (List.mem_filter.mp hm').1
      · exact hw.sublist ((List.filter_sublist ..).map _)
      · intro n hn hmem
        rcases List.mem_append.mp hmem with h | h
        · exact hr n (hrest n hn) h
        · obtain ⟨m, hmf, hmn⟩ := List.mem_map.mp h
          obtain ⟨hmw, hmr⟩ := List.mem_filter.mp hmf
          obtain ⟨hnw, hnr⟩ := List.mem_filter.mp hn
          rw [List.inj_on_of_nodup_map hw hmw hnw hmn] at hmr
          simp [hmr] at hnr
      · intro a ha b hb
        obtain ⟨n, hn, rfl⟩ := List.mem_map.mp ha
        obtain ⟨m, hmf, rfl⟩ := exists_of_mem_waves hb
        obtain ⟨hnw, hnr⟩ := List.mem_filter.mp hn
        exact hfree n hnw hnr m (hrest m hmf)

/-- With enough fuel a node is left out only if it waits for a member that is never released. -/
lemma waits_of_not_mem_waves (hfuel : waiting.length < fuel) {n : Node} (hn : n ∈ waiting)
    (hout : n.id ∉ waves members fuel waiting released) :
    ∃ d ∈ n.dependencies, d ∈ members ∧ d ∉ released ∧ d ∉ waves members fuel waiting released := by
  induction fuel generalizing waiting released with
  | zero => omega
  | succ fuel ih =>
    have hnot : n.isReady members released = false := by
      by_contra hready
      have hready : n.isReady members released = true := by simpa using hready
      have hmem : n ∈ waiting.filter (Node.isReady members released) := List.mem_filter.mpr ⟨hn, hready⟩
      rw [waves_succ, if_neg (List.ne_nil_of_mem hmem)] at hout
      exact hout (List.mem_append_left _ (List.mem_map_of_mem hmem))
    by_cases hnil : waiting.filter (Node.isReady members released) = []
    · rw [waves_succ, if_pos hnil]
      have hwaits : ¬ ∀ d ∈ n.dependencies, d ∈ members → d ∈ released := by
        rw [← Node.isReady_iff, hnot]
        simp
      push Not at hwaits
      obtain ⟨d, hd, hdm, hdr⟩ := hwaits
      exact ⟨d, hd, hdm, hdr, List.not_mem_nil⟩
    · rw [waves_succ, if_neg hnil] at hout ⊢
      have hsum := List.length_eq_length_filter_add (l := waiting) (Node.isReady members released)
      have hpos := List.length_pos_iff.mpr hnil
      have hrest : n ∈ waiting.filter fun n => !n.isReady members released :=
        List.mem_filter.mpr ⟨hn, by simp [hnot]⟩
      obtain ⟨d, hd, hdm, hdr, hdw⟩ := ih (by omega) hrest fun h => hout (List.mem_append_right _ h)
      rw [List.mem_append, not_or] at hdr
      exact ⟨d, hd, hdm, hdr.1, fun h => (List.mem_append.mp h).elim hdr.2 hdw⟩

lemma mem_order (h : x ∈ g.order members) : x ∈ members ∧ x ∈ g.ids := by
  obtain ⟨n, hn, rfl⟩ := exists_of_mem_waves h
  obtain ⟨hng, hnm⟩ := List.mem_filter.mp hn
  exact ⟨Names.contains_iff.mp hnm, List.mem_map_of_mem hng⟩

lemma nodup_order (hg : g.Coherent) : (g.order members).Nodup :=
  nodup_waves (hg.nodup.sublist ((List.filter_sublist ..).map _))

lemma dependencies_of_mem (hg : g.Coherent) {n : Node} (hn : n ∈ g.nodes) :
    g.dependencies n.id = n.dependencies.toList := by
  rw [dependencies, node?_eq_some hg.nodup hn]

/-- No cell stands before one that it reads from. -/
theorem pairwise_order (hg : g.Coherent) : (g.order members).Pairwise fun a b => ¬ g.Edge b a := by
  have h : (g.order members).Pairwise fun a b => b ∉ g.dependencies a := pairwise_waves
    (hg.nodup.sublist ((List.filter_sublist ..).map _))
    (fun n hn => Names.contains_iff.mp (List.mem_filter.mp hn).2)
    (fun n hn => dependencies_of_mem hg (List.mem_filter.mp hn).1)
    fun _ _ => List.not_mem_nil
  exact h.imp fun hab he => hab ((hg.edge_iff _ _).mp he)

/-- A member that is left out reads from another member that is left out. -/
lemma edge_of_not_mem_order (hg : g.Coherent) (hx : x ∈ members) (hk : x ∈ g.ids)
    (hout : x ∉ g.order members) : ∃ d ∈ members, d ∉ g.order members ∧ g.Edge d x := by
  obtain ⟨n, hn, rfl⟩ := List.mem_map.mp hk
  have hmem : n ∈ g.nodes.filter fun n => members.contains n.id :=
    List.mem_filter.mpr ⟨hn, Names.contains_iff.mpr hx⟩
  have hlen := List.length_filter_le (fun n : Node => members.contains n.id) g.nodes
  obtain ⟨d, hd, hdm, -, hdw⟩ := waits_of_not_mem_waves (by omega) hmem hout
  refine ⟨d, hdm, hdw, (hg.edge_iff _ _).mpr ?_⟩
  rw [dependencies_of_mem hg hn]
  exact hd

/-- If everything in a finite set has a predecessor in the set, then some member comes back to itself. -/
lemma exists_transGen_self {r : CellId → CellId → Prop} {left : Finset CellId} (hleft : left.Nonempty)
    (h : ∀ x ∈ left, ∃ d ∈ left, r d x) : ∃ x ∈ left, Relation.TransGen r x x := by
  by_contra hno
  push Not at hno
  have hwf : WellFounded fun a b : left => Relation.TransGen r a b := by
    have : Std.Irrefl fun a b : left => Relation.TransGen r a b := ⟨fun a ha => hno a a.2 ha⟩
    have : IsTrans left fun a b => Relation.TransGen r a b := ⟨fun _ _ _ hab hbc => hab.trans hbc⟩
    exact Finite.wellFounded_of_trans_of_irrefl _
  obtain ⟨a, ha⟩ := hleft
  obtain ⟨m, -, hmin⟩ := hwf.has_min Set.univ ⟨⟨a, ha⟩, trivial⟩
  obtain ⟨d, hd, hdm⟩ := h m m.2
  exact hmin ⟨d, hd⟩ trivial (.single hdm)

/-- If everything in a finite set has a predecessor in the set, then some member lies on a cycle. -/
lemma exists_onCycle {left : Finset CellId} (hleft : left.Nonempty)
    (h : ∀ x ∈ left, ∃ d ∈ left, g.Edge d x) : ∃ x ∈ left, g.OnCycle x :=
  exists_transGen_self hleft h

/-- An edge between two members. -/
def Inner (g : Graph) (members : Names) (a b : CellId) : Prop := g.Edge a b ∧ a ∈ members ∧ b ∈ members

/-- The cell is downstream, inside the set, of a cell on a cycle inside the set. -/
def Stuck (g : Graph) (members : Names) (x : CellId) : Prop :=
  ∃ y, g.OnCycleWithin (· ∈ members) y ∧ Relation.ReflTransGen (g.Inner members) y x

lemma Stuck.tail (h : g.Stuck members x) (hxy : g.Inner members x y) : g.Stuck members y := by
  obtain ⟨z, hcycle, hzx⟩ := h
  exact ⟨z, hcycle, hzx.tail hxy⟩

/-- A known member that is left out waits for a cycle inside the set. -/
lemma stuck_of_not_mem_order (hg : g.Coherent) (hx : x ∈ members) (hk : x ∈ g.ids)
    (hout : x ∉ g.order members) : g.Stuck members x := by
  classical
  by_contra hfree
  let left := members.toFinset.filter fun y => y ∉ g.order members ∧ y ∈ g.ids ∧ ¬ g.Stuck members y
  have hmem : ∀ y, y ∈ left ↔ y ∈ members ∧ y ∉ g.order members ∧ y ∈ g.ids ∧ ¬ g.Stuck members y := by
    simp [left]
  have hpred : ∀ y ∈ left, ∃ d ∈ left, g.Inner members d y := by
    intro y hy
    obtain ⟨hym, hyo, hyk, hyf⟩ := (hmem y).mp hy
    obtain ⟨d, hdm, hdo, hdy⟩ := edge_of_not_mem_order hg hym hyk hyo
    have hinner : g.Inner members d y := ⟨hdy, hdm, hym⟩
    exact ⟨d, (hmem d).mpr ⟨hdm, hdo, hdy.known_source, fun h => hyf (h.tail hinner)⟩, hinner⟩
  obtain ⟨y, hy, hcycle⟩ := exists_transGen_self ⟨x, (hmem x).mpr ⟨hx, hout, hk, hfree⟩⟩ hpred
  exact ((hmem y).mp hy).2.2.2 ⟨y, hcycle, .refl⟩

/-- If no cycle lies within the members, every member that is known has its place in the order. -/
theorem mem_order_of_unlooped (hg : g.Coherent) (hc : ∀ y, ¬ g.OnCycleWithin (· ∈ members) y) (hx : x ∈ members)
    (hk : x ∈ g.ids) : x ∈ g.order members := by
  by_contra hout
  obtain ⟨y, hcycle, -⟩ := stuck_of_not_mem_order hg hx hk hout
  exact hc y hcycle

/-- If no member lies on a cycle, every member that is known has its place in the order. -/
theorem mem_order_of_acyclic (hg : g.Coherent) (hc : ∀ y ∈ members, ¬ g.OnCycle y) (hx : x ∈ members)
    (hk : x ∈ g.ids) : x ∈ g.order members := by
  refine mem_order_of_unlooped hg (fun y hy => ?_) hx hk
  obtain ⟨-, ⟨-, hmem, -⟩, -⟩ := Relation.TransGen.head'_iff.mp hy
  exact hc y hmem hy.onCycle

/-- A set of known cells of which none lies on a cycle is ordered completely. -/
theorem mem_order_iff (hg : g.Coherent) (hk : ∀ x ∈ members, x ∈ g.ids)
    (hc : ∀ x ∈ members, ¬ g.OnCycle x) : x ∈ g.order members ↔ x ∈ members :=
  ⟨fun h => (mem_order h).1, fun hx => mem_order_of_acyclic hg hc hx (hk x hx)⟩

end ReactiveNotebook.Graph
