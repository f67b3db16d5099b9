import ReactiveNotebook.Proofs.Scheduling.Attended
import ReactiveNotebook.Proofs.Scheduling.CycleMark
import ReactiveNotebook.Proofs.Scheduling.LateExport

/-!
# Evaluations that are owed

A seed is evaluated whatever becomes of the variables it reads. Until its turn has come it is a seed of the next
pass, it waits as a seed of the present one, or it has come onto a cycle and is marked. A mark is no evaluation, but
the cell is seeded again as soon as it leaves the cycle. So whatever is owed when a run begins has been evaluated
when the run ends, except for the cells on cycles.
-/
namespace ReactiveNotebook

variable {l : Language}

namespace Stage

variable {s s' t : Stage} {a : Arrival} {c d : Cell} {id source x : CellId} {names : Names} {i : ℕ}
variable {exports : Script.Fields} {rest : List Arrival} {logs : List String}

/-- The cell is a seed that has not had its turn, or it is marked as lying on a cycle. -/
def Owes (s : Stage) (x : CellId) : Prop :=
  x ∈ s.engine.seeds ∨ (x ∈ s.pass.remaining ∧ x ∈ s.pass.seeds) ∨
    x ∉ s.flying ∧ ∀ c ∈ s.engine.cells, c.id = x → c.status.isCycle = true

lemma Owes.start_of_ne (h : s.Owes x) (hstarts : Starts id s s') (hx : x ≠ id) : s'.Owes x := by
  rcases h with hseed | ⟨hw, hroot⟩ | ⟨hfly, hmark⟩
  · exact .inl (hstarts.seeds ▸ hseed)
  · exact .inr (.inl ⟨(hstarts.waiting x).mpr ⟨hw, hx⟩, hstarts.roots ▸ hroot⟩)
  · refine .inr (.inr ⟨fun hf => (hstarts.mem_flying hf).elim hfly hx, fun c hc hcid => hmark c ?_ hcid⟩)
    exact hstarts.cells c hc (hcid ▸ hx)

lemma Owes.start (h : s.Owes x) (hs : s.Tidy) (hi : s.next? = some i) (hid : s.pass.remaining[i]? = some id)
    (hrun : (s.withdraw i).runCell l id = .ok s') (hspares : s.Spares l s' x) : s'.Owes x := by
  by_cases hx : x = id
  · subst hx
    obtain ⟨hidle, heq⟩ := (judges_or hi hid hrun).resolve_left fun ⟨c, hcid, hjudges⟩ => hspares c hcid hjudges
    have hfly : x ∉ s'.flying := by
      rw [flying, heq]
      exact hs.grounded x (List.mem_of_getElem? hid)
    rcases h with hseed | ⟨-, hroot⟩ | ⟨-, hmark⟩
    · exact .inl (heq ▸ hseed)
    · -- a seed of the pass has a reason to be evaluated, so there is no such cell
      refine .inr (.inr ⟨hfly, fun c hc hcid => ?_⟩)
      rw [heq] at hc
      have htrigger := hidle c ((Engine.cell?_eq_some_iff hs.ids).mpr ⟨hc, hcid⟩)
      rw [isTriggered, hcid, Names.contains_iff.mpr hroot] at htrigger
      cases htrigger
    · exact .inr (.inr ⟨hfly, heq ▸ hmark⟩)
  · exact h.start_of_ne (starts_of_runCell hs hid hrun) hx

/-- Where a pass keeps what waits, only the marks have to be looked at. -/
lemma Owes.of_kept (h : s.Owes x) (hseeds : x ∈ s.engine.seeds → x ∈ t.engine.seeds)
    (hroots : t.pass.seeds = s.pass.seeds) (hremaining : t.pass.remaining = s.pass.remaining)
    (hflying : x ∈ t.flying → x ∈ s.flying)
    (hcells : x ∉ s.flying → ∀ c ∈ t.engine.cells, c.id = x → c ∈ s.engine.cells) : t.Owes x := by
  rcases h with hseed | ⟨hw, hroot⟩ | ⟨hfly, hmark⟩
  · exact .inl (hseeds hseed)
  · exact .inr (.inl ⟨hremaining ▸ hw, hroots ▸ hroot⟩)
  · exact .inr (.inr ⟨fun hf => hfly (hflying hf), fun c hc hcid => hmark c (hcells hfly c hc hcid) hcid⟩)

/-- Enlarging the pass marks what it takes from the waiting cells. -/
lemma Owes.extend (h : s.Owes x) (hs : s.Tidy) : (s.extend source names).Owes x := by
  rcases h with hseed | ⟨hw, hroot⟩ | ⟨hfly, hmark⟩
  · exact .inl (seeds_extend.symm ▸ hseed)
  · have hpending : x ∈ s.pending source names := mem_pending.mpr (.inl hw)
    by_cases hfree : x ∈ s.engine.graph.ids ∧ ¬ s.engine.graph.OnCycle x
    · exact .inr (.inl ⟨(mem_remaining_extend hs).mpr ⟨hpending, hfree⟩, roots_extend.symm ▸ hroot⟩)
    · refine .inr (.inr ⟨flying_extend (s := s) ▸ hs.grounded x hw, fun c hc hcid => ?_⟩)
      rcases mem_cells_extend hs hc with ⟨hc, hout⟩ | ⟨-, -, hmark⟩
      · have hk : x ∈ s.engine.graph.ids := hs.mem_ids_iff.mpr (hcid ▸ List.mem_map_of_mem hc)
        exact absurd ⟨hk, fun hcycle => hout (hcid ▸ ⟨hpending, hcycle⟩)⟩ hfree
      · exact hmark
  · refine .inr (.inr ⟨flying_extend (s := s) ▸ hfly, fun c hc hcid => ?_⟩)
    rcases mem_cells_extend hs hc with ⟨hc, -⟩ | ⟨-, -, hmark'⟩
    · exact hmark c hc hcid
    · exact hmark'

/-- A script that is put back is a seed of the pass from then on, and takes no other cell's place. -/
lemma Owes.requeue (h : s.Owes x) (hs : s.Tidy) (hfree : s.Unlooped) (hfly : a.cell ∈ s.flying) :
    (((s.deliver rest).land a.cell).requeue a.cell).Owes x := by
  rcases h with hseed | ⟨hw, hroot⟩ | ⟨hout, hmark⟩
  · exact .inl hseed
  · by_cases hk : x ∈ s.engine.cells.map (·.id)
    · exact .inr (.inl ⟨hfree.mem_requeue hs hfly (.inr hw) hk, Names.mem_insert.mpr (.inr hroot)⟩)
    · refine .inr (.inr ⟨fun hf => ?_, fun c hc hcid => absurd (hcid ▸ List.mem_map_of_mem hc) hk⟩)
      exact hs.grounded x hw (mem_flying_land (s := s.deliver rest).mp hf).1
  · exact .inr (.inr ⟨fun hf => hout (mem_flying_land (s := s.deliver rest).mp hf).1, hmark⟩)

lemma Owes.receive (h : s.Owes x) (hs : s.Tidy) (hperm : s.engine.arriving.Perm (a :: rest))
    (hno : PutsBack s ((s.deliver rest).receive a) a → s.Unlooped) : ((s.deliver rest).receive a).Owes x := by
  have hland := hs.land hperm
  have hid : a.cell ∈ s.flying := flying_of_arriving hs hperm
  have hlanding := landing_receive (s.deliver rest) a
  have hseeds : x ∈ s.engine.seeds → x ∈ ((s.deliver rest).receive a).engine.seeds := hlanding.seeds
  have hflying : x ∈ ((s.deliver rest).receive a).flying → x ∈ s.flying := fun hx => (hlanding.mem_flying.mp hx).1
  have hput : ∀ c, s.engine.cell? a.cell = some c → c.version = a.version → a.cell ∈ s.pass.rerun → s.Unlooped :=
    fun c hc hv hr => hno ⟨rest, hperm, rfl, hr, c, hc, hv⟩
  generalize (s.deliver rest).receive a = t at hlanding hseeds hflying
  cases hlanding with
  | stale _ =>
    obtain ⟨completed, results, heq⟩ := dismiss_shape ((s.deliver rest).land a.cell) a.cell
    rw [heq] at hseeds hflying ⊢
    exact h.of_kept hseeds rfl rfl hflying fun _ c hc _ => hc
  | again hc hr => exact h.requeue hs (hput _ (cell?_of_addressee? hc) (version_of_addressee? hc) hr) hid
  | @failed c message logs hc _ _ =>
    have hcid : c.id = a.cell := id_of_addressee? hc
    have hcontrol := control_failed (s.deliver rest) a c logs message
    refine h.of_kept hseeds (congrArg (·.pass.seeds) hcontrol) (congrArg (·.pass.remaining) hcontrol) hflying
      fun hout d hd hdid => ?_
    have hne : d.id ≠ a.cell := fun heq => hout (hdid ▸ heq ▸ hid)
    rw [cells_fail] at hd
    rcases mem_conclusion.mp hd with ⟨hd, -⟩ | ⟨b, -, hbid, rfl⟩
    · exact mem_cells_landed hd hne
    · exact absurd (Cell.id_withVerdict.trans (hbid.trans hcid)) hne
  | @accepted c exports logs hc _ _ =>
    have hcid : c.id = a.cell := id_of_addressee? hc
    have hcontrol := control_adopt ((s.deliver rest).landed a logs) c exports
    have hadopt : ∀ u : Stage, u.engine.cells = (((s.deliver rest).landed a logs).adopt c exports).engine.cells →
        u.pass = (((s.deliver rest).landed a logs).adopt c exports).pass →
        u.engine.inFlight = (((s.deliver rest).landed a logs).adopt c exports).engine.inFlight →
        (x ∈ s.engine.seeds → x ∈ u.engine.seeds) → u.Owes x := fun u hcells hpass hflight hseeds => by
      refine h.of_kept hseeds (hpass ▸ congrArg (·.pass.seeds) hcontrol) (hpass ▸ congrArg (·.pass.remaining) hcontrol)
        (fun hf => ?_) fun hout d hd hdid => ?_
      · rw [flying, hflight, inFlight_adopt] at hf
        exact (mem_flying_land (s := s.deliver rest).mp hf).1
      · have hne : d.id ≠ a.cell := fun heq => hout (hdid ▸ heq ▸ hid)
        rw [hcells] at hd
        rcases mem_cells_adopt hd with ⟨hd, -⟩ | ⟨b, -, hbid, rfl⟩
        · exact mem_cells_landed hd hne
        · exact absurd (hbid.trans hcid) hne
    rcases accept_cases ((s.deliver rest).landed a logs) c exports with ⟨-, heq⟩ | heq
    · rw [heq] at hseeds ⊢
      exact hadopt _ rfl rfl rfl hseeds
    · rw [heq]
      refine Owes.extend (hadopt _ rfl rfl rfl fun hx => ?_) (hland.keepLogs a.cell logs).rebuild_adopt
      exact Engine.seeds_rebuild (seeds_adopt (s := (s.deliver rest).landed a logs).symm ▸ hx)

/-- A seed has its turn, or it is still owed one. -/
theorem Owes.move (h : s.Owes x) (hs : s.Tidy) (hm : s.Move l s') (hno : ∀ a, PutsBack s s' a → s.Unlooped)
    (hspares : s.Spares l s' x) : s'.Owes x := by
  cases hm with
  | start _ hi hid hrun => exact h.start hs hi hid hrun hspares
  | receive hperm => exact h.receive hs hperm (hno _)

end Stage

namespace Engine

variable {e f : Engine} {c : Cell} {inputs : Inputs} {x : CellId} {v : String} {slot : Slot} {s : Stage} {k : ℕ}
variable {σ : ℕ → Engine}

/-- The cell is a seed that has not had its turn, or it is marked as lying on a cycle. -/
structure Owes (e : Engine) (x : CellId) : Prop where
  resting : e.pass = none → x ∈ e.seeds ∨ ∀ c ∈ e.cells, c.id = x → c.status.isCycle = true
  running : ∀ p, e.pass = some p → (e.resume p).Owes x

/-- The step evaluates a cell and presents it with the inputs. -/
def Presents (l : Language) (e f : Engine) (c : Cell) (inputs : Inputs) : Prop :=
  ∃ p time s, e.pass = some p ∧ (resume { e with workTime := time } p).Judges l s c ∧ f = s.suspend ∧
    inputs = c.inputs p.slot

/-- The last evaluation of the cell before the moment `k` saw the slot of the variable. -/
def LastSaw (l : Language) (σ : ℕ → Engine) (k : ℕ) (x : CellId) (v : String) (slot : Slot) : Prop :=
  ∃ j < k, (∃ c inputs, c.id = x ∧ Presents l (σ j) (σ (j + 1)) c inputs ∧ (v, slot) ∈ inputs) ∧
    ∀ i, j < i → i < k → ∀ c inputs, c.id = x → ¬ Presents l (σ i) (σ (i + 1)) c inputs

lemma lastSaw_of_presents (hx : c.id = x) (h : Presents l (σ k) (σ (k + 1)) c inputs) (hv : (v, slot) ∈ inputs) :
    LastSaw l σ (k + 1) x v slot :=
  ⟨k, k.lt_succ_self, ⟨c, inputs, hx, h, hv⟩, fun i hi hik => absurd hik (by omega)⟩

lemma LastSaw.succ (h : LastSaw l σ k x v slot)
    (hspares : ∀ c inputs, c.id = x → ¬ Presents l (σ k) (σ (k + 1)) c inputs) : LastSaw l σ (k + 1) x v slot := by
  obtain ⟨j, hj, hsaw, hlast⟩ := h
  refine ⟨j, by omega, hsaw, fun i hi hik => ?_⟩
  rcases Nat.lt_succ_iff_lt_or_eq.mp hik with hlt | rfl
  · exact hlast i hi hlt
  · exact hspares

lemma owes_suspend (h : s.Owes x) (hp : s.engine.pass = none) : s.suspend.Owes x where
  resting hn := by cases hn
  running p hp' := by
    obtain rfl : s.pass = p := Option.some.inj hp'
    rw [resume_suspend hp]
    exact h

/-- A new pass takes all seeds in, and marks those that lie on cycles. -/
lemma owes_beginPass (ht : e.Tidy) (hp : e.pass = none)
    (h : x ∈ e.seeds ∨ ∀ c ∈ e.cells, c.id = x → c.status.isCycle = true) : e.beginPass.Owes x := by
  have hfly : x ∉ e.beginPass.flying := by
    rw [flying_beginPass ht hp]
    exact List.not_mem_nil
  by_cases hwaits : x ∈ e.seeds ∧ x ∈ e.cells.map (·.id) ∧ ¬ e.graph.OnCycle x
  · obtain ⟨hseed, hk, hoff⟩ := hwaits
    exact .inr (.inl ⟨(mem_remaining_beginPass ht).mpr ⟨reached_of_seed ht hseed hk, hoff⟩, mem_roots ht hseed hk⟩)
  · refine .inr (.inr ⟨hfly, fun c hc hcid => ?_⟩)
    rcases mem_cells_beginPass ht hc with ⟨hc, hout⟩ | ⟨-, hmark⟩
    · rcases h with hseed | hmark
      · have hk : x ∈ e.cells.map (·.id) := hcid ▸ List.mem_map_of_mem hc
        have hcycle : e.graph.OnCycle x := by
          by_contra hoff
          exact hwaits ⟨hseed, hk, hoff⟩
        exact absurd (hcid ▸ ⟨reached_of_seed ht hseed hk, hcycle⟩) hout
      · exact hmark c hc hcid
    · exact hmark

/-- What is owed an evaluation is evaluated by a step of a run, or is still owed one. -/
theorem Owes.proceeds (h : e.Owes x) (ht : e.Tidy) (ha : e.Attentive) (hstep : Proceeds l e f)
    (hspares : ∀ c inputs, c.id = x → ¬ Presents l e f c inputs) : f.Owes x := by
  have hcollect : e.pass = none → x ∈ e.collect.seeds ∨ ∀ c ∈ e.collect.cells, c.id = x → c.status.isCycle = true :=
    fun hp => by
      rw [cells_collect]
      exact (h.resting hp).imp_left mem_seeds_collect
  cases hstep with
  | begin hp _ =>
    have hpass : e.collect.pass = none := pass_collect.trans hp
    exact owes_suspend (owes_beginPass (collect_tidy ht) hpass (hcollect hp)) (engine_pass_beginPass.trans hpass)
  | @collect phase hp _ _ => exact ⟨fun _ => hcollect hp, fun p hp' => by
      rw [show Engine.pass _ = _ from pass_collect.trans hp] at hp'
      cases hp'⟩
  | @wait phase time hp _ _ => exact ⟨fun _ => h.resting hp, fun p hp' => by cases hp.symm.trans hp'⟩
  | @move p s time hp hm =>
    have hwork : Step l e { e with workTime := time } := .host (.work time)
    have hcalm : Calm l e { e with workTime := time } := .ongoing (.host (.work time))
    have howes : (resume { e with workTime := time } p).Owes x := h.running p hp
    have hattentive : (resume { e with workTime := time } p).Attentive := (hcalm.attentive ht ha).running p hp
    refine owes_suspend (howes.move ((hwork.tidy ht).pass p hp) hm (fun _ _ => hattentive.unlooped)
      fun c hcid hjudges => ?_) hm.engine_pass
    exact hspares c _ hcid ⟨p, time, s, hp, hjudges, rfl, rfl⟩
  | @finish p hp hr _ =>
    refine ⟨fun _ => ?_, fun p hp' => by cases hp'⟩
    rcases h.running p hp with hseed | ⟨hw, -⟩ | ⟨-, hmark⟩
    · exact .inl hseed
    · change x ∈ p.remaining at hw
      rw [hr] at hw
      cases hw
    · exact .inr hmark

/-- When nothing is left to do, no cell is owed an evaluation that lies on no cycle. -/
theorem Owes.onCycle_of_atRest (h : e.Owes c.id) (he : Reachable l e) (hrest : e.AtRest) (hc : c ∈ e.cells) :
    e.graph.OnCycle c.id := by
  have hno : ∀ x, x ∉ e.seeds := fun x hx => by
    have hx' : x ∈ e.seeds.toList := hx
    rw [hrest.seeds] at hx'
    cases hx'
  have hmark := ((h.resting hrest.rest).resolve_left (hno c.id)) c hc rfl
  rcases he.marked.resting hrest.rest c hc with hiff | hseed | ⟨hcycle, -⟩
  · exact hiff.mp hmark
  · exact absurd hseed (hno c.id)
  · exact hcycle

end Engine

end ReactiveNotebook
