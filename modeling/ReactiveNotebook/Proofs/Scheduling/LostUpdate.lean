import ReactiveNotebook.Proofs.Scheduling.Faithful
import ReactiveNotebook.Proofs.Scheduling.Interleaved

/-!
# No update is lost

A variable may be committed, cleared or written by the host at any time, also while scripts are in flight and the
notebook is edited. At every moment a reader of it is expected to be evaluated, or its last evaluation saw the value
that the variable still has. When nothing is left to do, nothing is expected any more, so no reader off the cycles is
left behind.
-/
namespace ReactiveNotebook

variable {l : Language}

lemma Cell.continues_withVerdict {c : Cell} {verdict : Verdict} : c.Continues (c.withVerdict verdict) := by
  cases verdict <;> exact ⟨rfl, rfl⟩

namespace Stage

variable {s s' : Stage} {d : Cell}

/-- An evaluation is the turn of a waiting cell. -/
lemma Judges.exists_run (h : s.Judges l s' d) : ∃ i, s.next? = some i ∧ s.pass.remaining[i]? = some d.id ∧
    s.engine.cell? d.id = some d ∧ (s.withdraw i).runCell l d.id = .ok s' := by
  obtain ⟨i, verdict, hi, hid, hcell, ht, hv, rfl⟩ := h
  refine ⟨i, hi, hid, hcell, ?_⟩
  have hrun := runCell_eq (l := l) (s := s.withdraw i) hcell ht
  rw [hrun, show d.verdict l (s.withdraw i).pass.slot = .ok verdict from hv]
  rfl

end Stage

namespace Engine

open Stage

variable {e f e' : Engine} {c c' d d' : Cell} {inputs inputs' : Inputs} {x : CellId} {v : String} {p : Pass}
variable {σ : ℕ → Engine} {n k j j' : ℕ}

/-- No cell with the id is evaluated by the step. -/
def Skips (l : Language) (e f : Engine) (x : CellId) : Prop := ∀ c inputs, c.id = x → ¬ Presents l e f c inputs

/-- The last evaluation of a cell before the moment `k` is the step from the moment `j`. -/
structure LastPresents (l : Language) (σ : ℕ → Engine) (k j : ℕ) (d : Cell) (inputs : Inputs) : Prop where
  before : j < k
  presents : Presents l (σ j) (σ (j + 1)) d inputs
  last : ∀ i, j < i → i < k → Skips l (σ i) (σ (i + 1)) d.id

namespace LastPresents

lemma of_presents (h : Presents l (σ k) (σ (k + 1)) d inputs) : LastPresents l σ (k + 1) k d inputs :=
  ⟨k.lt_succ_self, h, fun i hj hk => absurd hk (by omega)⟩

lemma succ (h : LastPresents l σ k j d inputs) (hskips : Skips l (σ k) (σ (k + 1)) d.id) :
    LastPresents l σ (k + 1) j d inputs where
  before := h.before.trans k.lt_succ_self
  presents := h.presents
  last i hj hi := by
    rcases Nat.lt_succ_iff_lt_or_eq.mp hi with hlt | rfl
    · exact h.last i hj hlt
    · exact hskips

lemma moment_unique (h : LastPresents l σ k j d inputs) (h' : LastPresents l σ k j' d' inputs') (hid : d.id = d'.id) :
    j = j' := by
  rcases Nat.lt_trichotomy j j' with hlt | heq | hlt
  · exact absurd h'.presents (h.last j' hlt h'.before d' inputs' hid.symm)
  · exact heq
  · exact absurd h.presents (h'.last j hlt h.before d inputs hid)

lemma unique (h : LastPresents l σ k j d inputs) (h' : LastPresents l σ k j' d' inputs') (hid : d.id = d'.id) :
    d = d' := by
  obtain rfl := h.moment_unique h' hid
  obtain ⟨p, time, s, hp, ⟨i, verdict, -, -, hd, -⟩, -, -⟩ := h.presents
  obtain ⟨p', time', s', hp', ⟨i', verdict', -, -, hd', -⟩, -, -⟩ := h'.presents
  exact Option.some.inj (hd.symm.trans (hid ▸ hd'))

end LastPresents

namespace Presents

lemma mem_cells (h : Presents l e f d inputs) (ht : e.Tidy) : d ∈ e.cells := by
  obtain ⟨p, time, s, hp, hjudges, -, -⟩ := h
  obtain ⟨i, -, -, hcell, -⟩ := hjudges.exists_run
  exact ((cell?_eq_some_iff (e := { e with workTime := time }) ht.ids).mp hcell).1

/-- A cell that is evaluated goes on as it is. -/
lemma continues (h : Presents l e f d inputs) (ht : e.Tidy) (hc : c ∈ f.cells) (hid : c.id = d.id) : d.Continues c := by
  have hd := h.mem_cells ht
  obtain ⟨p, time, s, -, ⟨i, verdict, -, -, -, -, -, rfl⟩, rfl, -⟩ := h
  change c ∈ (Stage.conclude ..).engine.cells at hc
  rw [cells_conclude] at hc
  rcases mem_conclusion.mp hc with ⟨-, hne⟩ | ⟨b, hb, hbid, rfl⟩
  · exact absurd hid hne
  · rw [← List.inj_on_of_nodup_map ht.ids hb hd hbid]
    exact Cell.continues_withVerdict

lemma mem_seeds (h : Presents l e f d inputs) (ht : e.Tidy) (hx : x ∈ e.seeds) : x ∈ f.seeds := by
  obtain ⟨p, time, s, hp, hjudges, rfl, -⟩ := h
  obtain ⟨i, -, hid, -, hrun⟩ := hjudges.exists_run
  have hwork : Tidy { e with workTime := time } := (Step.host (l := l) (.work time)).tidy ht
  exact (starts_of_runCell (hwork.pass p hp) hid hrun).seeds.symm ▸ hx

/-- An evaluation changes only what the cell writes. -/
lemma get_eq (h : Presents l e f d inputs) (ht : e.Tidy) (hdeclared : e.Declared) (hv : v ∉ d.writes.names) :
    f.get v = e.get v := by
  obtain ⟨p, time, s, hp, hjudges, rfl, -⟩ := h
  obtain ⟨i, -, -, hcell, hrun⟩ := hjudges.exists_run
  have hwork : Tidy { e with workTime := time } := (Step.host (l := l) (.work time)).tidy ht
  by_contra hne
  obtain ⟨c, -, hc, -, -, -, hw⟩ := mem_writes_of_turn (s := resume { e with workTime := time } p) hdeclared
    (hwork.pass p hp) (turn_of_runCell hrun) hne
  exact hv (Option.some.inj (hcell.symm.trans hc) ▸ hw)

/-- The cell sees what is committed of a variable that it only reads, or it is seeded. -/
lemma mem_inputs (h : Presents l e f d inputs) (ht : e.Tidy) (hh : e.Heedful) (hread : v ∈ d.reads)
    (hv : v ∉ d.writes.names) : (v, e.get v) ∈ inputs ∨ d.id ∈ e.seeds := by
  have hd := h.mem_cells ht
  obtain ⟨p, time, s, hp, -, -, rfl⟩ := h
  refine ((hh p hp).synced v).imp (fun hslot => ?_) fun hall => hall d hd hread
  exact hslot ▸ Stage.mem_inputs (s := e.resume p) hread hv

end Presents

/-- A waiting cell that has a reason to be evaluated is evaluated, or nothing happens to the cells. -/
lemma engine_eq_of_skips {s : Stage} {i : ℕ} (hp : e.pass = some p) (hi : (e.resume p).next? = some i)
    (hid : p.remaining[i]? = some x) (hrun : ((e.resume p).withdraw i).runCell l x = .ok s)
    (hskips : Skips l e s.suspend x) :
    (∀ c, e.cell? x = some c → (e.resume p).isTriggered c = false) ∧ s.engine = (e.resume p).engine := by
  refine (judges_or hi hid hrun).resolve_left fun ⟨c, hcid, hjudges⟩ => ?_
  exact hskips c _ hcid ⟨p, e.workTime, s, hp, hjudges, rfl, rfl⟩

/-- The cell is going to be evaluated. Between passes it is seeded, or it is marked as lying on a cycle; during a pass
a change of the variable is a reason. -/
structure Expects (e : Engine) (v : String) (x : CellId) : Prop where
  resting : e.pass = none → x ∈ e.seeds ∨ ∀ c ∈ e.cells, c.id = x → c.status.isCycle = true
  running : ∀ p, e.pass = some p → (e.resume p).Expects (v ∈ p.changed) x

lemma expects_of_mem_seeds (h : x ∈ e.seeds) : e.Expects v x := ⟨fun _ => .inl h, fun _ _ => expects_of_seed h⟩

lemma expects_suspend {s : Stage} (h : s.Expects (v ∈ s.pass.changed) x) (hp : s.engine.pass = none) :
    s.suspend.Expects v x where
  resting hn := by cases hn
  running p hp' := by
    obtain rfl : s.pass = p := Option.some.inj hp'
    rw [resume_suspend hp]
    exact h

lemma Expects.of_seeds (h : e.Expects v x) (hpass : e'.pass = e.pass) (hcells : e'.cells = e.cells)
    (hflight : e'.inFlight = e.inFlight) (hseeds : ∀ x ∈ e.seeds, x ∈ e'.seeds) : e'.Expects v x where
  resting hn := (h.resting (hpass ▸ hn)).imp (hseeds x) fun hmark => hcells ▸ hmark
  running p hp := (h.running p (hpass ▸ hp)).of_seeds rfl hcells hflight hseeds

lemma Expects.finish (h : e.Expects v x) (ht : e.Tidy) (hp : e.pass = some p) (hr : p.remaining = [])
    (hf : e.inFlight = []) : (endPass (e.resume p)).1.Expects v x := by
  have hnone : ∀ y, y ∉ p.remaining := fun y hy => by
    rw [hr] at hy
    cases hy
  refine ⟨fun _ => ?_, fun p hp' => by cases hp'⟩
  rcases h.running p hp with (hseed | ⟨hw, -⟩ | ⟨-, hmark⟩) | hrerun | ⟨hw, -⟩
  · exact .inl hseed
  · exact absurd hw (hnone x)
  · exact .inr hmark
  · have hfly : x ∈ e.inFlight.map (·.1) := (ht.pass p hp).rerun x hrerun
    rw [hf] at hfly
    cases hfly
  · exact absurd hw (hnone x)

/-- A step that is no edit evaluates a reader that is expected, or leaves it expected. -/
theorem Ongoing.expects (h : Ongoing l e e') (ht : e.Tidy) (hh : e.Heedful) (hloops : ∀ p s a, e.pass = some p →
    PutsBack (e.resume p) s a → e' = s.suspend → (e.resume p).Unlooped) (hc : c ∈ e.cells) (hread : v ∈ c.reads)
    (hskips : Skips l e e' c.id) (hx : e.Expects v c.id) : e'.Expects v c.id := by
  cases h with
  | host hh =>
    cases hh with
    | seed ids => exact hx.of_seeds rfl rfl rfl fun x hx => Names.mem_insertAll.mpr (.inr hx)
    | _ => exact hx.of_seeds rfl rfl rfl fun x hx => hx
  | collect hp =>
    obtain ⟨store, seeds, phase, hseeds, heq⟩ := collect_shape e
    rw [heq]
    exact hx.of_seeds rfl rfl rfl hseeds
  | begin hp => exact expects_suspend (.inl (owes_beginPass ht hp (hx.resting hp))) (engine_pass_beginPass.trans hp)
  | @move p s hp hm =>
    refine expects_suspend ((hx.running p hp).move (ht.pass p hp) (hh p hp) hc hread hm (fun a hput => ?_) ?_)
      hm.engine_pass
    · exact hloops p s a hp hput rfl
    · exact fun d hid hjudges => hskips d _ hid ⟨p, e.workTime, s, hp, hjudges, rfl, rfl⟩
  | finish hp hr hf => exact hx.finish ht hp hr hf

/-- The readers of a variable that changes are expected afterwards, except for a script that lands and writes it, or
did so before. -/
theorem Ongoing.expects_of_changed (h : Ongoing l e e') (ht : e.Tidy) (hh : e.Heedful) (hdeclared : e.Declared)
    (hloops : ∀ p s a, e.pass = some p → PutsBack (e.resume p) s a → e' = s.suspend → (e.resume p).Unlooped)
    (hc : c ∈ e.cells) (hc' : c' ∈ e'.cells) (hid : c'.id = c.id) (hread : v ∈ c.reads) (hread' : v ∈ c'.reads)
    (hskips : Skips l e e' c.id) (hv : e'.get v ≠ e.get v) :
    e'.Expects v c.id ∨ c.id ∈ e.inFlight.map (·.1) ∧ ∃ b, (b ∈ e.cells ∨ b ∈ e'.cells) ∧ b.id = c.id ∧
      v ∈ b.writes.names := by
  cases h with
  | host hh => exact absurd (hh.get_eq v) hv
  | collect _ =>
    refine .inl (expects_of_mem_seeds (seeds_collect ?_ hv))
    rw [ht.graph]
    exact Graph.mem_readersOf_build.mpr ⟨c, hc, rfl, hread⟩
  | begin hp =>
    exact .inl (expects_suspend (hid ▸ expects_of_changed_beginPass ht hp hc' hread' hv)
      (engine_pass_beginPass.trans hp))
  | @move p s hp hm =>
    have hs := ht.pass p hp
    have hpass := hm.engine_pass
    cases hm with
    | @start i id _ _ hi hi' hrun =>
      by_cases hne : c.id = id
      · subst hne
        obtain ⟨-, heq⟩ := engine_eq_of_skips hp hi hi' hrun hskips
        exact absurd (congrArg (·.get v) heq) hv
      · exact .inl (expects_suspend ((hh p hp).expects_of_start hs hdeclared hi' hrun hc hne hread hv) hpass)
    | @receive a rest hperm =>
      rcases (hh p hp).expects_of_receive hs hperm (fun hput => hloops p _ a hp hput rfl) hc hread hv with
        hexpects | ⟨hca, b, hb, hbid, hw⟩
      · exact .inl (expects_suspend hexpects hpass)
      · exact .inr ⟨hca ▸ flying_of_arriving hs hperm, b, hb, hbid.trans hca.symm, hw⟩
  | finish _ _ _ => exact absurd rfl hv

/-- A cell that an edit leaves as it is reads what it read before, or it is seeded. -/
theorem Edit.expects (h : Edit e e') (ht : e.Tidy) (hc : c ∈ e'.cells) (hread : v ∈ c.reads) :
    e'.Expects v c.id ∨ c ∈ e.cells ∧ e'.get v = e.get v ∧ (e.Expects v c.id → e'.Expects v c.id) := by
  rcases h.effect ht.ids ht.graph with rfl | heffect
  · exact .inr ⟨hc, rfl, fun hx => hx⟩
  rcases heffect.cells c hc with hold | hseed
  · rcases heffect.value v with hv | hcleared
    · obtain ⟨hpass, hflight⟩ := h.pass_eq
      refine .inr ⟨hold, hv, fun hx => ⟨fun hn => ?_, fun p hp => ?_⟩⟩
      · by_cases hseed : c.id ∈ e'.seeds
        · exact .inl hseed
        · refine (hx.resting (hpass ▸ hn)).imp (heffect.seeds c hc) fun hmark d hd hid => hmark d ?_ hid
          exact (heffect.cells d hd).resolve_right (hid ▸ hseed)
      · exact expects_of_effect heffect hflight (List.mem_map_of_mem hc) (hx.running p (hpass ▸ hp))
    · exact .inl (expects_of_mem_seeds (hcleared.readers c hc hread))
  · exact .inl (expects_of_mem_seeds hseed)

/-- What comes to be in flight has been evaluated. -/
lemma Step.mem_flying_of_skips (h : Step l e e') (ht : e.Tidy) (hx : x ∈ e'.inFlight.map (·.1))
    (hskips : Skips l e e' x) : x ∈ e.inFlight.map (·.1) := by
  cases h with
  | edit h => exact h.pass_eq.2 ▸ hx
  | host h => cases h <;> exact hx
  | collect _ =>
    obtain ⟨store, seeds, phase, -, heq⟩ := collect_shape e
    rw [heq] at hx
    exact hx
  | begin _ => rwa [show e.beginPass.suspend.inFlight = e.inFlight from inFlight_beginPass e] at hx
  | finish _ _ _ => exact hx
  | @move p s hp hm =>
    cases hm with
    | @start i id _ _ hi hid hrun =>
      rcases (starts_of_runCell (ht.pass p hp) hid hrun).mem_flying hx with hx | rfl
      · exact hx
      · have heq := (engine_eq_of_skips hp hi hid hrun hskips).2
        rwa [show s.suspend.inFlight = s.engine.inFlight from rfl, heq] at hx
    | receive _ => exact ((landing_receive _ _).mem_flying.mp hx).1

/-- Seeds stay until the next pass begins. -/
lemma Step.mem_seeds (h : Step l e e') (ht : e.Tidy) (hp : e.pass ≠ none) (hc : c ∈ e'.cells) (hx : c.id ∈ e.seeds) :
    c.id ∈ e'.seeds := by
  cases h with
  | edit h =>
    rcases h.effect ht.ids ht.graph with rfl | heffect
    · exact hx
    · exact heffect.seeds c hc hx
  | host h =>
    cases h with
    | seed ids => exact Names.mem_insertAll.mpr (.inr hx)
    | _ => exact hx
  | collect _ => exact mem_seeds_collect hx
  | begin hn => exact absurd hn hp
  | finish _ _ _ => exact hx
  | @move p s hp hm =>
    cases hm with
    | start _ _ hid hrun => exact (starts_of_runCell (ht.pass p hp) hid hrun).seeds.symm ▸ hx
    | receive _ => exact (landing_receive _ _).seeds hx

/-- No cell comes back during the pass in which it was removed, an edit gives what waits no reader that it does not
seed, and no script is put back while what waits or is in flight contains a cycle. -/
structure IsCareful (l : Language) (n : ℕ) (σ : ℕ → Engine) : Prop extends IsChronicle l n σ where
  noReturn : NoReturn n σ
  announced : ∀ k < n, Edit (σ k) (σ (k + 1)) → Announced (σ k) (σ (k + 1))
  unlooped : ∀ k < n, ∀ p s a, (σ k).pass = some p → PutsBack ((σ k).resume p) s a → σ (k + 1) = s.suspend →
    ((σ k).resume p).Unlooped

/-- The cell has been evaluated as it is now, and what it saw of the variable is its value ever since. A cell that
counts as a writer of the variable, or did so then, need not have seen it. -/
def Abreast (l : Language) (σ : ℕ → Engine) (k : ℕ) (c : Cell) (v : String) : Prop :=
  ∃ j d inputs, LastPresents l σ k j d inputs ∧ c.revision = d.revision ∧
    (v ∈ d.writes.names ∨ v ∈ c.writes.names ∨
      (v, (σ k).get v) ∈ inputs ∧ ∀ i, j ≤ i → i < k → (σ (i + 1)).get v = (σ i).get v)

lemma Abreast.succ (h : Abreast l σ k c v) (hskips : Skips l (σ k) (σ (k + 1)) c.id)
    (hrevision : c'.revision = c.revision) (hv : (σ (k + 1)).get v = (σ k).get v)
    (hw : v ∈ c.writes.names → v ∈ c'.writes.names ∨
      ∀ j d inputs, LastPresents l σ k j d inputs → d.id = c.id → v ∈ d.writes.names) :
    Abreast l σ (k + 1) c' v := by
  obtain ⟨j, d, inputs, hlast, hsame, hor⟩ := h
  have hid : c.id = d.id := congrArg (·.1) hsame
  refine ⟨j, d, inputs, hlast.succ (hid ▸ hskips), hrevision.trans hsame, ?_⟩
  rcases hor with hd | hc | ⟨hsaw, hkept⟩
  · exact .inl hd
  · rcases hw hc with hc' | hd
    · exact .inr (.inl hc')
    · exact .inl (hd j d inputs hlast hid.symm)
  · refine .inr (.inr ⟨hv.symm ▸ hsaw, fun i hj hi => ?_⟩)
    rcases Nat.lt_succ_iff_lt_or_eq.mp hi with hlt | rfl
    · exact hkept i hj hlt
    · exact hv

variable (h : IsCareful l n σ)
include h

namespace IsCareful

lemma tidy (hk : k ≤ n) : (σ k).Tidy := h.toIsChronicle.tidy hk

lemma declared (hk : k ≤ n) : (σ k).Declared := fun c hc name hname => by
  rw [((h.derived h.noReturn hk c hc).confirmed hname).1]
  exact Names.mem_ofList.mpr List.mem_cons_self

/-- Whatever is done to the notebook, the pass in progress may go on. -/
theorem heedful (hk : k ≤ n) : (σ k).Heedful := by
  induction k with
  | zero =>
    obtain ⟨config, manual, hstart⟩ := h.start
    exact heedful_of_idle (hstart ▸ rfl)
  | succ k ih =>
    have ht := h.tidy (k := k) (by omega)
    rcases (h.step k hk).edit_or_ongoing with hedit | hongoing
    · refine hedit.heedful ht (h.tidy hk) (ih (by omega)) (fun x hx hthere => ?_) (h.announced k hk hedit)
      exact (h.airborne h.noReturn (by omega) hx).hasCell h.noReturn hk hthere
    · exact hongoing.heedful ht (ih (by omega)) (h.unlooped k hk)

/-- A script in flight is what has been evaluated last, or its cell has been edited since and is seeded. -/
lemma exists_lastPresents (hk : k ≤ n) (hx : x ∈ (σ k).inFlight.map (·.1)) : ∃ j d inputs, d.id = x ∧
    LastPresents l σ k j d inputs ∧ ∀ c ∈ (σ k).cells, c.id = x → x ∈ (σ k).seeds ∨ d.Continues c := by
  induction k with
  | zero =>
    obtain ⟨config, manual, hstart⟩ := h.start
    rw [hstart] at hx
    cases hx
  | succ k ih =>
    have ht := h.tidy (k := k) (by omega)
    have hstep := (h.step k hk).step
    by_cases hskips : Skips l (σ k) (σ (k + 1)) x
    · have hfly := hstep.mem_flying_of_skips ht hx hskips
      obtain ⟨j, d, inputs, rfl, hlast, hsame⟩ := ih (by omega) hfly
      refine ⟨j, d, inputs, rfl, hlast.succ hskips, fun c hc hid => ?_⟩
      have hold : ∀ b ∈ (σ k).cells, b.id = d.id → b.Continues c → d.id ∈ (σ (k + 1)).seeds ∨ d.Continues c :=
        fun b hb hbid hcontinues => (hsame b hb hbid).imp
          (fun hseed => hid ▸ hstep.mem_seeds ht (pass_ne_none_of_flying ht hfly) hc (hid.symm ▸ hseed))
          fun hbefore => hbefore.trans hcontinues
      rcases (h.step k hk).edit_or_ongoing with hedit | hongoing
      · rcases hedit.effect ht.ids ht.graph with heq | heffect
        · exact hold c (heq ▸ hc) hid ⟨rfl, rfl⟩
        · rcases heffect.cells c hc with hc | hseed
          · exact hold c hc hid ⟨rfl, rfl⟩
          · exact .inl (hid ▸ hseed)
      · obtain ⟨b, hb, hrevision, hwrites | ⟨names, ⟨a, exports, hlands, -, hcell, -⟩, -⟩⟩ := hongoing.exists_mem hc
        · exact hold b hb ((congrArg (·.1) hrevision).symm.trans hid) ⟨hrevision, hwrites⟩
        · -- a script that has landed is in flight no longer
          obtain ⟨p, rest, -, -, heq⟩ := hlands
          rw [heq] at hx
          exact absurd (hcell.trans hid).symm ((landing_receive _ _).mem_flying.mp hx).2
    · simp only [Skips, not_forall, not_not] at hskips
      obtain ⟨d, inputs, rfl, hpresents⟩ := hskips
      exact ⟨k, d, inputs, rfl, .of_presents hpresents, fun c hc hid => .inr (hpresents.continues ht hc hid)⟩

/-- A cell that is evaluated sees the present value of what it only reads, or it is seeded. -/
lemma expects_or_abreast_of_presents (hk : k < n) (hpresents : Presents l (σ k) (σ (k + 1)) d inputs)
    (hc : c ∈ (σ (k + 1)).cells) (hid : c.id = d.id) (hread : v ∈ c.reads) :
    (σ (k + 1)).Expects v c.id ∨ Abreast l σ (k + 1) c v := by
  have ht := h.tidy hk.le
  have hcontinues := hpresents.continues ht hc hid
  have hreads : c.reads = d.reads := congrArg (·.2.2.2) hcontinues.1
  by_cases hw : v ∈ d.writes.names
  · exact .inr ⟨k, d, inputs, .of_presents hpresents, hcontinues.1, .inl hw⟩
  · have hv := hpresents.get_eq ht (h.declared hk.le) hw
    rcases hpresents.mem_inputs ht (h.heedful hk.le) (hreads ▸ hread) hw with hsaw | hseed
    · refine .inr ⟨k, d, inputs, .of_presents hpresents, hcontinues.1, .inr (.inr ⟨hv.symm ▸ hsaw, fun i hki hi => ?_⟩)⟩
      rwa [Nat.le_antisymm (Nat.lt_succ_iff.mp hi) hki]
    · exact .inl (expects_of_mem_seeds (hid ▸ hpresents.mem_seeds ht hseed))

/-- A step that is no edit leaves a reader expected or abreast that it does not evaluate. -/
lemma expects_or_abreast_of_ongoing (hk : k < n) (hongoing : Ongoing l (σ k) (σ (k + 1)))
    (hskips : Skips l (σ k) (σ (k + 1)) c.id) (hc : c ∈ (σ (k + 1)).cells) (hread : v ∈ c.reads)
    (hbefore : ∀ b ∈ (σ k).cells, b.id = c.id → v ∈ b.reads → (σ k).Expects v b.id ∨ Abreast l σ k b v) :
    (σ (k + 1)).Expects v c.id ∨ Abreast l σ (k + 1) c v := by
  have ht := h.tidy hk.le
  obtain ⟨b, hb, hrevision, hwrites⟩ := hongoing.exists_mem hc
  have hid : b.id = c.id := (congrArg (·.1) hrevision).symm
  have hread' : v ∈ b.reads := by
    have hreads : c.reads = b.reads := congrArg (·.2.2.2) hrevision
    exact hreads ▸ hread
  -- a script in flight counts as it did at its last evaluation, unless it is seeded
  have hlast : b.id ∈ (σ k).inFlight.map (·.1) → (σ (k + 1)).Expects v c.id ∨
      ∃ j d inputs, d.id = b.id ∧ LastPresents l σ k j d inputs ∧ d.Continues b := fun hfly => by
    obtain ⟨j, d, inputs, hdid, hlast, hsame⟩ := h.exists_lastPresents hk.le hfly
    refine (hsame b hb rfl).imp (fun hseed => expects_of_mem_seeds ?_) fun hcontinues =>
      ⟨j, d, inputs, hdid, hlast, hcontinues⟩
    exact hongoing.step.mem_seeds ht (pass_ne_none_of_flying ht hfly) hc (hid ▸ hseed)
  by_cases hv : (σ (k + 1)).get v = (σ k).get v
  · rcases hbefore b hb hid hread' with hexpects | habreast
    · exact .inl (hid ▸ hongoing.expects ht (h.heedful hk.le) (h.unlooped k hk) hb hread' (hid ▸ hskips) hexpects)
    · rcases hwrites with hsame | ⟨names, ⟨a, exports, hlands, -, hcell, -⟩, -⟩
      · exact .inr (habreast.succ (hid ▸ hskips) hrevision hv fun hw => .inl (hsame ▸ hw))
      · refine (hlast ((hcell.trans hid.symm) ▸ flying_of_lands ht hlands)).imp_right ?_
        rintro ⟨j, d, inputs, hdid, hlast, -, hwrites⟩
        refine habreast.succ (hid ▸ hskips) hrevision hv fun hw => .inr fun j' d' inputs' hlast' hid' => ?_
        rw [hlast'.unique hlast (hid'.trans hdid.symm)]
        exact hwrites ▸ hw
  · rcases hongoing.expects_of_changed ht (h.heedful hk.le) (h.declared hk.le) (h.unlooped k hk) hb hc hid.symm hread'
      hread (hid ▸ hskips) hv with hexpects | ⟨hfly, b', hb', hbid, hw⟩
    · exact .inl (hid ▸ hexpects)
    · refine (hlast hfly).imp_right ?_
      rintro ⟨j, d, inputs, hdid, hlast, hsame, hwrites⟩
      refine ⟨j, d, inputs, hlast.succ (hdid ▸ hid ▸ hskips), hrevision.trans hsame, ?_⟩
      rcases hb' with hb' | hb'
      · rw [List.inj_on_of_nodup_map ht.ids hb' hb hbid] at hw
        exact .inl (hwrites ▸ hw)
      · rw [List.inj_on_of_nodup_map (h.tidy hk).ids hb' hc (hbid.trans hid)] at hw
        exact .inr (.inl hw)

/-- At every moment, a reader of a variable is expected to be evaluated, or it is abreast of the variable. -/
theorem expects_or_abreast (hk : k ≤ n) (hc : c ∈ (σ k).cells) (hread : v ∈ c.reads) :
    (σ k).Expects v c.id ∨ Abreast l σ k c v := by
  induction k generalizing c with
  | zero =>
    obtain ⟨config, manual, hstart⟩ := h.start
    rw [hstart] at hc
    cases hc
  | succ k ih =>
    by_cases hskips : Skips l (σ k) (σ (k + 1)) c.id
    · rcases (h.step k hk).edit_or_ongoing with hedit | hongoing
      · rcases hedit.expects (h.tidy (k := k) (by omega)) hc hread with hexpects | ⟨hold, hv, hstays⟩
        · exact .inl hexpects
        · exact (ih (by omega) hold hread).imp hstays fun habreast => habreast.succ hskips rfl hv .inl
      · exact h.expects_or_abreast_of_ongoing hk hongoing hskips hc hread fun b hb _ hread => ih (by omega) hb hread
    · simp only [Skips, not_forall, not_not] at hskips
      obtain ⟨d, inputs, hid, hpresents⟩ := hskips
      exact h.expects_or_abreast_of_presents hk hpresents hc hid.symm hread

end IsCareful

/-- When nothing is left to do, no reader that lies on no cycle is left behind. It has been evaluated as it is now, and
unless it counted as a writer of the variable when its last evaluation began, it saw the value that the variable has
kept ever since. -/
theorem reader_not_left_behind (hrest : (σ n).AtRest) (hc : c ∈ (σ n).cells) (hread : v ∈ c.reads)
    (hwrite : v ∉ c.writes.names) (hoff : ¬ (σ n).graph.OnCycle c.id) :
    ∃ j d inputs, LastPresents l σ n j d inputs ∧ c.revision = d.revision ∧ (v ∉ d.writes.names →
      (v, (σ n).get v) ∈ inputs ∧ ∀ i, j ≤ i → i < n → (σ (i + 1)).get v = (σ i).get v) := by
  rcases h.expects_or_abreast le_rfl hc hread with hexpects | ⟨j, d, inputs, hlast, hrevision, hor⟩
  · refine absurd ?_ hoff
    refine Owes.onCycle_of_atRest (l := l) ⟨hexpects.resting, fun p hp => ?_⟩ (h.isRun.reachable_of_le le_rfl) hrest hc
    cases hrest.rest.symm.trans hp
  · refine ⟨j, d, inputs, hlast, hrevision, fun hd => ?_⟩
    exact (hor.resolve_left hd).resolve_left hwrite

omit h

/-- The formula reads `v`, which no cell writes yet. -/
def waitingInput : Engine :=
  (((new .standard true).grow ⟨"s", .script "exports.a = 1;"⟩).grow ⟨"w", .input "5" "u"⟩).grow ⟨"r", .formula "v" "out"⟩

/-- The input waits for the script to land when it is renamed to `v`. Then the run goes on until it ends. -/
def renamedWhileWaiting (l : Language) : Option Engine := do
  let e ← ((waitingInput.settled l).setContent "s" "exports.a = 2;").toOption
  let e ← (e.setContent "w" "7").toOption
  let (e, _) ← (e.tick l).toOption
  let e ← (e.renameVariable "w" "v").toOption
  let (e, _) ← (e.runUntilIdle l).toOption
  return e

/-- An edit must not give what waits a reader that it does not seed. Here the pass commits `v` though its reader takes
no part, and in the pass after it the same value counts as no change. The formula is left with what it made of `v`
before. -/
theorem reader_of_renamed_input_left_behind :
    ((renamedWhileWaiting (.ofConfig .standard)).map fun e =>
      (e.isBusy, (e.get "v").same (.value (.int 7)), (e.get "out").same (.value .unit),
        (e.graph.cycleOf? "r").isSome)) = some (false, true, true, false) := by
  decide +kernel

/-- An edit that leaves what the cells read and write gives no cell a reader. -/
lemma announced_of_sources (ht : e.Tidy) (ht' : e'.Tidy)
    (h : e'.cells.map Graph.Source.ofCell = e.cells.map Graph.Source.ofCell) : Announced e e' :=
  fun _ _ _ _ _ hedge => by
    rw [ht'.graph, Graph.build_congr h, ← ht.graph] at hedge
    exact .inl hedge

lemma announced_of_idle (h : e.pass = none) : Announced e e' := fun p hp => by cases h.symm.trans hp

/-- A chronicle is careful if edits during passes leave what the cells read and write, and no script is put back. -/
lemma isCareful_of_kept (h : IsChronicle l n σ) (hkept : ∀ k < n, (σ k).pass.isNone = true ∨
      ((σ (k + 1)).cells.all fun c => (σ k).hasCell c.id) = true ∧
        (σ (k + 1)).cells.map Graph.Source.ofCell = (σ k).cells.map Graph.Source.ofCell)
    (hrerun : ∀ k < n, ((σ k).pass.all fun p => p.rerun.toList.isEmpty) = true) : IsCareful l n σ := by
  refine ⟨h, noReturn_of_idle fun k hk => (hkept k hk).imp_right (·.1), fun k hk _ => ?_, fun k hk p s a hp hput _ => ?_⟩
  · rcases hkept k hk with hidle | ⟨-, hsources⟩
    · exact announced_of_idle (Option.isNone_iff_eq_none.mp hidle)
    · exact announced_of_sources (h.tidy hk.le) (h.tidy hk) hsources
  · have hnone := hrerun k hk
    rw [hp, Option.all_some, List.isEmpty_iff] at hnone
    obtain ⟨rest, -, -, hmem, -⟩ := hput
    have hmem : a.cell ∈ p.rerun.toList := hmem
    rw [hnone] at hmem
    cases hmem

/-- The input gets another text while it waits for the script to land. The reader waits, too. -/
def overtaking : List Deed :=
  [.act (.push ⟨"s", .script "exports.a = 1;"⟩), .act (.push ⟨"w", .input "5" "u"⟩),
    .act (.push ⟨"r", .formula "u" "out"⟩), .act .begin, .act (.move none), .act (.content "w" "7"),
    .act (.move (some 0)), .act (.move none), .act (.move none), .act .finish, .act .begin, .act (.move none),
    .act (.move none), .act .finish]

def overtaken : ℕ → Engine := along (deed? (.ofConfig .standard)) (new .standard true) overtaking

/-- How the chronicle goes, as far as it can be computed. -/
lemma overtaken_trace :
    leads (deed? (.ofConfig .standard)) (new .standard true) overtaking = true ∧
    (∀ k < 14, (overtaken k).pass.isNone = true ∨
      ((overtaken (k + 1)).cells.all fun c => (overtaken k).hasCell c.id) = true ∧
        (overtaken (k + 1)).cells.map Graph.Source.ofCell = (overtaken k).cells.map Graph.Source.ofCell) ∧
    (∀ k < 14, ((overtaken k).pass.all fun p => p.rerun.toList.isEmpty) = true) ∧
    (overtaken 14).pass.isNone = true ∧ (overtaken 14).seeds.toList = [] ∧
    (overtaken 14).store.queue.pending = [] ∧
    ((overtaken 5).pass.map (·.remaining), (overtaken 5).inFlight) = (some ["w", "r"], [("s", 0)]) ∧
    ((overtaken 14).cells.any fun c => c.id == "r" && c.reads.contains "u" && !c.writes.contains "u" &&
      ((overtaken 14).graph.cycleOf? c.id).isNone) = true ∧
    ((overtaken 14).get "u").same (.value (.int 7)) = true := by
  decide +kernel

lemma isCareful_overtaken : IsCareful (.ofConfig .standard) 14 overtaken := by
  obtain ⟨hleads, hkept, hrerun, -⟩ := overtaken_trace
  exact isCareful_of_kept (isChronicle_along hleads) hkept hrerun

/-- The formula has seen the new value of the input that was edited while a script was in flight. -/
theorem reader_of_waiting_input_caught_up : ∃ c ∈ (overtaken 14).cells,
    IsCareful (.ofConfig .standard) 14 overtaken ∧
    ((overtaken 5).pass.map (·.remaining), (overtaken 5).inFlight) = (some ["w", "r"], [("s", 0)]) ∧
    (overtaken 14).AtRest ∧ c.id = "r" ∧ "u" ∈ c.reads ∧ "u" ∉ c.writes.names ∧
    ¬ (overtaken 14).graph.OnCycle c.id ∧ ((overtaken 14).get "u").same (.value (.int 7)) = true ∧
    ∃ j d inputs, LastPresents (.ofConfig .standard) overtaken 14 j d inputs ∧ c.revision = d.revision ∧
      ("u" ∉ d.writes.names → ("u", (overtaken 14).get "u") ∈ inputs ∧
        ∀ i, j ≤ i → i < 14 → (overtaken (i + 1)).get "u" = (overtaken i).get "u") := by
  obtain ⟨-, -, -, hidle, hseeds, hpending, hbusy, hreader, hvalue⟩ := overtaken_trace
  have hcareful := isCareful_overtaken
  have ht := hcareful.tidy le_rfl
  obtain ⟨c, hc, hid, hread, hwrite, hoff⟩ := exists_reader_of_any ht.ids ht.graph hreader
  have hrest : (overtaken 14).AtRest := ⟨Option.isNone_iff_eq_none.mp hidle, hseeds, hpending⟩
  exact ⟨c, hc, hcareful, hbusy, hrest, hid, hread, hwrite, hoff, hvalue,
    reader_not_left_behind hcareful hrest hc hread hwrite hoff⟩

end Engine

end ReactiveNotebook
