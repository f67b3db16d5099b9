import ReactiveNotebook.Proofs.Scheduling.UpToDate

/-!
# What cells that are up to date show

Cells that are up to date show what their texts and the variables of the host determine, up to the paths of
cycles: a first cell on which two notebooks differ would have to read a variable on which they differ.
-/
namespace ReactiveNotebook

open Script (Value)

variable {l : Language}

def Fault.pathless : Fault → Fault
  | .cycle cell _ => .cycle cell []
  | f => f

/-- The slot without the path of a cycle. -/
def Slot.pathless : Slot → Slot
  | .error f => .error f.pathless
  | s => s

/-- The status without the path of a cycle. -/
def Status.pathless : Status → Status
  | .failed f => .failed f.pathless
  | s => s

lemma Fault.origin_eq_of_pathless {f f' : Fault} (h : f.pathless = f'.pathless) : f.origin = f'.origin := by
  have horigin : ∀ f : Fault, f.pathless.origin = f.origin := fun f => by cases f <;> rfl
  rw [← horigin f, h, horigin]

/-- Slots that agree up to paths carry faults of one origin, or are equal. -/
lemma Slot.pathless_cases {a b : Slot} (h : a.pathless = b.pathless) :
    (∃ f f', a = .error f ∧ b = .error f' ∧ f.pathless = f'.pathless) ∨ a.fault? = none ∧ a = b := by
  cases a with
  | error f =>
    cases b with
    | error f' => exact .inl ⟨f, f', rfl, rfl, by simpa [pathless] using h⟩
    | _ => cases h
  | undefined => cases b <;> first | exact .inr ⟨rfl, rfl⟩ | cases h
  | value v =>
    cases b with
    | value w => exact .inr ⟨rfl, h⟩
    | _ => cases h

/-- Inputs that agree up to paths carry the first fault at one variable and of one origin, or are equal. -/
lemma firstFault_pathless {inputs inputs' : Inputs}
    (h : List.Forall₂ (fun p q : String × Slot => p.1 = q.1 ∧ p.2.pathless = q.2.pathless) inputs inputs') :
    (∃ name f f', Stage.firstFault inputs = some (name, f) ∧ Stage.firstFault inputs' = some (name, f') ∧
      f.origin = f'.origin) ∨ Stage.firstFault inputs = none ∧ inputs = inputs' := by
  have hcons : ∀ (name : String) (slot : Slot) (rest : Inputs), Stage.firstFault ((name, slot) :: rest) =
      (slot.fault?.map fun f => (name, f)).or (Stage.firstFault rest) := by
    intro name slot rest
    rw [Stage.firstFault, List.findSome?_cons]
    dsimp only
    cases slot.fault? <;> rfl
  induction h with
  | nil => exact .inr ⟨rfl, rfl⟩
  | @cons p q is is' hpq _ ih =>
    obtain ⟨name, slot⟩ := p
    obtain ⟨name', slot'⟩ := q
    obtain ⟨rfl, hslot⟩ : name = name' ∧ slot.pathless = slot'.pathless := hpq
    rw [hcons, hcons]
    rcases Slot.pathless_cases hslot with ⟨f, f', rfl, rfl, hff⟩ | ⟨hnone, rfl⟩
    · exact .inl ⟨name, f, f', rfl, rfl, Fault.origin_eq_of_pathless hff⟩
    · simp only [hnone, Option.map_none, Option.none_or]
      exact ih.imp_right (And.imp_right (congrArg _))

namespace Cell

variable {c d : Cell} {v : Verdict} {view view' : String → Slot}

/-- The path of a cycle makes no difference to the readers of its cells. -/
lemma verdict_pathless (h : ∀ x ∈ c.reads, (view x).pathless = (view' x).pathless) :
    c.verdict l view = c.verdict l view' := by
  have hinputs : List.Forall₂ (fun p q : String × Slot => p.1 = q.1 ∧ p.2.pathless = q.2.pathless)
      (c.inputs view) (c.inputs view') := by
    refine List.forall₂_map_left_iff.mpr (List.forall₂_map_right_iff.mpr (List.forall₂_same.mpr fun x hx => ?_))
    refine ⟨rfl, ?_⟩
    rcases Slot.pathless_cases (h x hx) with ⟨f, f', hf, hf', hff⟩ | ⟨-, heq⟩
    · rw [hf, hf']
      simp only [Slot.isError, Bool.true_and]
      split
      · rfl
      · rw [Slot.pathless, Slot.pathless, hff]
    · rw [heq]
  unfold verdict
  rcases firstFault_pathless hinputs with ⟨name, f, f', hf, hf', hff⟩ | ⟨-, heq⟩
  · rw [hf, hf']
    simp only [hff]
  · rw [heq]

/-- Cells with one definition that is no script, of which each is what its text says, come to one verdict. -/
lemma verdict_eq_of_definition (hs : c.content.isScript = false) (h : c.definition = d.definition)
    (hr : c.reads = d.reads) (hw : c.writes = d.writes) : c.verdict l view = d.verdict l view := by
  have hid : c.id = d.id := congrArg Definition.id h
  have hcontent : c.content = d.content := congrArg Definition.content h
  unfold verdict inputs
  rw [← hcontent, ← hid, ← hr, ← hw]
  cases hcase : c.content with
  | script source => rw [hcase] at hs; cases hs
  | _ => rfl

/-- Two cells show the same, and so do their variables. -/
structure Like (view view' : String → Slot) (c d : Cell) : Prop where
  status : c.status.pathless = d.status.pathless
  rendered : ∀ template, c.content = .markdown template → c.rendered = d.rendered
  value : ∀ x ∈ c.writes.names, (view x).pathless = (view' x).pathless

lemma like_of_shows (h : c.Shows view v) (h' : d.Shows view' v) (hcontent : c.content = d.content)
    (hw : c.writes = d.writes) (hv : ∀ template, c.content = .markdown template →
      (∃ f, v = .fault f) ∨ ∃ text, v = .text text) (ht : ∀ text, v = .text text → c.writes.names = ∅) :
    c.Like view view' d := by
  cases v with
  | fault f =>
    refine ⟨by rw [h.1, h'.1], fun template hm => ?_, fun x hx => ?_⟩
    · rw [h.2.1 template hm, h'.2.1 template (hcontent ▸ hm)]
    · rw [h.2.2 x hx, h'.2.2 x (hw ▸ hx)]
  | value output value =>
    refine ⟨by rw [h.1, h'.1], fun template hm => ?_, fun x hx => ?_⟩
    · rcases hv template hm with ⟨f, hf⟩ | ⟨text, hf⟩ <;> cases hf
    · rw [h.2 x hx, h'.2 x (hw ▸ hx)]
  | text text =>
    refine ⟨by rw [h.1, h'.1], fun _ _ => by rw [h.2, h'.2], fun x hx => ?_⟩
    rw [ht text rfl] at hx
    exact absurd hx (Names.not_mem_empty x)
  | script source inputs => exact h.elim

end Cell

section Boards

variable {cells cells' : List Cell} {c d : Cell} {view view' : String → Slot}

/-- Cells with the same definitions are what the same texts say. -/
lemma Tame.eq_of_id (ht : Tame cells) (ht' : Tame cells') (hn : (cells.map (·.id)).Nodup)
    (hdef : cells'.map Cell.definition = cells.map Cell.definition) (hc : c ∈ cells) (hd : d ∈ cells')
    (hid : d.id = c.id) : c.definition = d.definition ∧ c.reads = d.reads ∧ c.writes = d.writes := by
  have hmem : d.definition ∈ cells.map Cell.definition := hdef ▸ List.mem_map_of_mem hd
  obtain ⟨b, hb, hbd⟩ := List.mem_map.mp hmem
  have hbid : b.id = c.id := (congrArg Definition.id hbd).trans hid
  have hbc : b = c := List.inj_on_of_nodup_map hn hb hc hbid
  subst hbc
  have hcontent : b.content = d.content := congrArg Definition.content hbd
  refine ⟨hbd, ?_, ?_⟩
  · rw [ht.reads b hb, ht'.reads d hd, hcontent]
  · rw [ht.writes b hb, ht'.writes d hd, hcontent]

lemma Tame.exists_of_definition (hdef : cells'.map Cell.definition = cells.map Cell.definition)
    (hc : c ∈ cells) : ∃ d ∈ cells', d.id = c.id := by
  have hmem : c.definition ∈ cells'.map Cell.definition := hdef ▸ List.mem_map_of_mem hc
  obtain ⟨d, hd, hdc⟩ := List.mem_map.mp hmem
  exact ⟨d, hd, congrArg Definition.id hdc⟩

lemma Tame.build_eq (ht : Tame cells) (ht' : Tame cells')
    (hdef : cells'.map Cell.definition = cells.map Cell.definition) :
    Graph.build cells' = Graph.build cells := by
  have hsource : ∀ {cs : List Cell}, Tame cs → cs.map Graph.Source.ofCell = (cs.map Cell.definition).map
      fun d => ⟨d.id, d.content.analyze.reads, d.content.analyze.writes.names⟩ := by
    intro cs hcs
    rw [List.map_map]
    refine List.map_congr_left fun c hc => ?_
    simp only [Graph.Source.ofCell, Function.comp_apply, Cell.definition, hcs.reads c hc, hcs.writes c hc]
  refine Graph.build_congr ?_
  rw [hsource ht, hsource ht', hdef]

section
variable {g g' : Graph} (h : c.UpToDate l g view) (h' : d.UpToDate l g' view')
  (hdefinition : c.definition = d.definition) (hwrites : c.writes = d.writes)
include h h' hdefinition hwrites

/-- A cell on a cycle shows the cycle in both notebooks. -/
lemma Cell.UpToDate.like_of_onCycle (hcycle : g.OnCycle c.id) (hcycle' : g'.OnCycle d.id) : c.Like view view' d := by
  have hid : c.id = d.id := congrArg Definition.id hdefinition
  have hcontent : c.content = d.content := congrArg Definition.content hdefinition
  obtain ⟨-, path, hs⟩ := h.resolve_right fun h => h.1 hcycle
  obtain ⟨-, path', hs'⟩ := h'.resolve_right fun h => h.1 hcycle'
  refine ⟨?_, fun template hm => ?_, fun x hx => ?_⟩
  · rw [hs.1, hs'.1, hid]
    rfl
  · rw [hs.2.1 template hm, hs'.2.1 template (hcontent ▸ hm)]
  · rw [hs.2.2 x hx, hs'.2.2 x (hwrites ▸ hx), hid]
    rfl

/-- A cell off the cycles shows the same in both notebooks when it reads the same in both. -/
lemma Cell.UpToDate.like_of_reads (ht : Tame cells) (hc : c ∈ cells) (hreads : c.reads = d.reads)
    (hoff : ¬ g.OnCycle c.id) (hoff' : ¬ g'.OnCycle d.id)
    (hsame : ∀ x ∈ c.reads, (view x).pathless = (view' x).pathless) : c.Like view view' d := by
  obtain ⟨v, hv, hs⟩ := (h.resolve_left fun h => hoff h.1).2
  obtain ⟨v', hv', hs'⟩ := (h'.resolve_left fun h => hoff' h.1).2
  have hverdict : c.verdict l view = d.verdict l view' :=
    (Cell.verdict_pathless hsame).trans (Cell.verdict_eq_of_definition (ht.atOnce c hc) hdefinition hreads hwrites)
  obtain rfl : v = v' := Except.ok.inj (hv.symm.trans (hverdict.trans hv'))
  refine Cell.like_of_shows hs hs' (congrArg Definition.content hdefinition) hwrites (fun template hm => ?_)
    fun text htext => ?_
  · cases v with
    | fault f => exact .inl ⟨f, rfl⟩
    | text t => exact .inr ⟨t, rfl⟩
    | value output value =>
      have hout := Cell.output_of_verdict hv
      rw [hm] at hout
      cases hout
    | script source inputs => exact hs.elim
  · rw [htext] at hv
    obtain ⟨template, hm⟩ := Cell.markdown_of_verdict hv
    rw [ht.writes c hc, hm]
    rfl

end

/-- Two notebooks with the same definitions and the same variables of the host show the same at every cell of
a set that is closed under dependencies off the cycles, as long as the cells of the set are up to date. -/
theorem like_of_upToDate (ht : Tame cells) (ht' : Tame cells') (hn : (cells.map (·.id)).Nodup)
    (hdef : cells'.map Cell.definition = cells.map Cell.definition)
    (hfree : ∀ x, (∀ c ∈ cells, x ∉ c.writes.names) → view x = view' x) {U : CellId → Prop}
    (hclosed : ∀ a b, U b → ¬ (Graph.build cells).OnCycle b → (Graph.build cells).Edge a b → U a)
    (hup : ∀ c ∈ cells, U c.id → c.UpToDate l (Graph.build cells) view)
    (hup' : ∀ d ∈ cells', U d.id → d.UpToDate l (Graph.build cells) view')
    (hc : c ∈ cells) (hd : d ∈ cells') (hid : d.id = c.id) (hU : U c.id) : c.Like view view' d := by
  classical
  -- were there cells that differ, each would depend on another one, and some of them would lie on a cycle
  set left : Finset CellId := (cells.map (·.id)).toFinset.filter fun a =>
    U a ∧ ∃ c ∈ cells, ∃ d ∈ cells', c.id = a ∧ d.id = a ∧ ¬ c.Like view view' d with hleft
  by_contra hunlike
  have hnonempty : left.Nonempty := by
    refine ⟨c.id, Finset.mem_filter.mpr ⟨?_, hU, c, hc, d, hd, rfl, hid, hunlike⟩⟩
    exact List.mem_toFinset.mpr (List.mem_map_of_mem hc)
  have hoff : ∀ a ∈ left, ¬ (Graph.build cells).OnCycle a := by
    intro a ha hcycle
    obtain ⟨-, hUa, c, hc, d, hd, rfl, hda, hunlike⟩ := Finset.mem_filter.mp ha
    obtain ⟨hdefinition, -, hwrites⟩ := ht.eq_of_id ht' hn hdef hc hd hda
    exact hunlike ((hup c hc hUa).like_of_onCycle (hup' d hd (hda ▸ hUa)) hdefinition hwrites hcycle (hda ▸ hcycle))
  obtain ⟨a, ha, hcycle⟩ := Graph.exists_onCycle (g := Graph.build cells) hnonempty fun a ha => by
    have hno := hoff a ha
    obtain ⟨-, hUa, c, hc, d, hd, rfl, hda, hunlike⟩ := Finset.mem_filter.mp ha
    obtain ⟨hdefinition, hreads, hwrites⟩ := ht.eq_of_id ht' hn hdef hc hd hda
    have hread : ∃ x ∈ c.reads, (view x).pathless ≠ (view' x).pathless := by
      by_contra hsame
      push Not at hsame
      exact hunlike ((hup c hc hUa).like_of_reads (hup' d hd (hda ▸ hUa)) hdefinition hwrites ht hc hreads hno
        (hda ▸ hno) hsame)
    obtain ⟨x, hx, hne⟩ := hread
    have hwritten : ∃ b ∈ cells, x ∈ b.writes.names := by
      by_contra hno
      push Not at hno
      exact hne (by rw [hfree x hno])
    obtain ⟨b, hb, hxb⟩ := hwritten
    have hedge := ht.edge hn hb hc hxb hx
    obtain ⟨b', hb', hbid⟩ := Tame.exists_of_definition hdef hb
    refine ⟨b.id, Finset.mem_filter.mpr ⟨List.mem_toFinset.mpr (List.mem_map_of_mem hb),
      hclosed b.id c.id hUa hno hedge, b, hb, b', hb', rfl, hbid, fun hlike => hne (hlike.value x hxb)⟩, hedge⟩
  exact hoff a ha hcycle

end Boards

end ReactiveNotebook
