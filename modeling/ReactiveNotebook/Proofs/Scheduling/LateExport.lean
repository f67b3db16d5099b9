import ReactiveNotebook.Proofs.Scheduling.Due
import ReactiveNotebook.Proofs.Scheduling.Termination

/-!
# What readers have seen when a pass ends

Scripts may turn out to export other names than they were known to write, while the readers of these names wait,
run, or are done. When the pass ends every reader of a variable that changed has been evaluated, and its last
evaluation saw the value of the end. A cell that counted as a writer of the variable when its last evaluation
began is no reader in this sense: a script that reads back what it exports and then drops the export clears the
variable after it has seen it.
-/
namespace ReactiveNotebook

variable {l : Language}

namespace Stage

variable {s s' : Stage} {c d d' : Cell} {id x : CellId} {i j j' k n : ℕ} {v : String} {σ : ℕ → Stage}

/-- The step starts a waiting cell which has a reason to be evaluated. -/
def Judges (l : Language) (s s' : Stage) (c : Cell) : Prop :=
  ∃ i verdict, s.next? = some i ∧ s.pass.remaining[i]? = some c.id ∧ s.engine.cell? c.id = some c ∧
    s.isTriggered c = true ∧ c.verdict l s.pass.slot = .ok verdict ∧ s' = (s.withdraw i).conclude l c verdict

/-- No cell with the id is evaluated by the step. -/
def Spares (l : Language) (s s' : Stage) (id : CellId) : Prop := ∀ c, c.id = id → ¬ s.Judges l s' c

/-- The last evaluation of a cell before the stage `k` is the step from the stage `j`. -/
structure LastJudged (l : Language) (σ : ℕ → Stage) (k j : ℕ) (d : Cell) : Prop where
  before : j < k
  judges : (σ j).Judges l (σ (j + 1)) d
  last : ∀ i, j < i → i < k → (σ i).Spares l (σ (i + 1)) d.id

namespace LastJudged

lemma of_judges (h : (σ k).Judges l (σ (k + 1)) d) : LastJudged l σ (k + 1) k d :=
  ⟨k.lt_succ_self, h, fun i hj hk => absurd hk (by omega)⟩

lemma succ (h : LastJudged l σ k j d) (hspares : (σ k).Spares l (σ (k + 1)) d.id) : LastJudged l σ (k + 1) j d where
  before := h.before.trans k.lt_succ_self
  judges := h.judges
  last i hj hi := by
    rcases Nat.lt_succ_iff_lt_or_eq.mp hi with hlt | rfl
    · exact h.last i hj hlt
    · exact hspares

lemma unique (h : LastJudged l σ k j d) (h' : LastJudged l σ k j' d') (hid : d.id = d'.id) : d = d' := by
  have hj : j = j' := by
    rcases Nat.lt_trichotomy j j' with hlt | heq | hlt
    · exact absurd h'.judges (h.last j' hlt h'.before d' hid.symm)
    · exact heq
    · exact absurd h.judges (h'.last j hlt h.before d hid)
  subst hj
  obtain ⟨i, verdict, -, -, hd, -⟩ := h.judges
  obtain ⟨i', verdict', -, -, hd', -⟩ := h'.judges
  exact Option.some.inj (hd.symm.trans (hid ▸ hd'))

end LastJudged

/-- A cell has been evaluated last at some point, or not at all. -/
lemma exists_lastJudged_or (l : Language) (σ : ℕ → Stage) (id : CellId) (k : ℕ) :
    (∃ j d, d.id = id ∧ LastJudged l σ k j d) ∨ ∀ j < k, (σ j).Spares l (σ (j + 1)) id := by
  induction k with
  | zero => exact .inr fun j hj => absurd hj (by omega)
  | succ k ih =>
    by_cases hspares : (σ k).Spares l (σ (k + 1)) id
    · rcases ih with ⟨j, d, rfl, hlast⟩ | hnone
      · exact .inl ⟨j, d, rfl, hlast.succ hspares⟩
      · refine .inr fun j hj => ?_
        rcases Nat.lt_succ_iff_lt_or_eq.mp hj with hlt | rfl
        · exact hnone j hlt
        · exact hspares
    · simp only [Spares, not_forall, not_not] at hspares
      obtain ⟨d, hid, heval⟩ := hspares
      exact .inl ⟨k, d, hid, .of_judges heval⟩

/-- A cell that does not write a variable sees what the pass holds of it. -/
lemma mem_inputs (hread : v ∈ c.reads) (hwrite : v ∉ c.writes.names) : (v, s.pass.slot v) ∈ s.inputs c := by
  refine List.mem_map.mpr ⟨v, hread, ?_⟩
  have hcontains : c.writes.contains v = false := Names.contains_eq_false_iff.mpr hwrite
  simp only [hcontains, Bool.and_false, Bool.false_eq_true, if_false]

lemma not_mem_inputs {slot : Slot} (h : ((s.engine.cell? id).all fun d => (s.inputs d).all fun p =>
      p.1 != v || !p.2.isUndefined) = true) (hd : s.engine.cell? id = some d) (hslot : slot.isUndefined = true) :
    (v, slot) ∉ s.inputs d := fun hmem => by
  rw [hd, Option.all_some] at h
  have hp := List.all_eq_true.mp h _ hmem
  simp [hslot] at hp

/-- A cell whose turn has come is evaluated, or no value changes. -/
lemma judges_or (hi : s.next? = some i) (hid : s.pass.remaining[i]? = some id)
    (hrun : (s.withdraw i).runCell l id = .ok s') : (∃ c, c.id = id ∧ s.Judges l s' c) ∨
      (∀ c, s.engine.cell? id = some c → s.isTriggered c = false) ∧ s'.engine = s.engine := by
  have hturn := turn_of_runCell hrun
  generalize s' = t at hturn
  cases hturn with
  | gone hc =>
    refine .inr ⟨fun c hc' => ?_, rfl⟩
    cases hc.symm.trans hc'
  | unchanged hc ht =>
    refine .inr ⟨fun c hc' => ?_, rfl⟩
    cases hc.symm.trans hc'
    exact ht
  | @evaluated c verdict hc ht hv =>
    have hcid : c.id = id := id_eq_of_cell? hc
    subst hcid
    exact .inl ⟨c, rfl, i, verdict, hi, hid, hc, ht, hv, rfl⟩

/-- The only waiting cell is evaluated if it has a reason to. -/
lemma judges_of_move? (h : s.move? l none = some s') (hwaits : s.pass.remaining = [id])
    (hreason : (s.engine.cell? id).any s.isTriggered = true) : ∃ c, c.id = id ∧ s.Judges l s' c := by
  obtain ⟨i, x, -, hi, hx, hrun⟩ := start_of_move? h
  obtain rfl : x = id := List.mem_singleton.mp (hwaits ▸ List.mem_of_getElem? hx)
  refine (judges_or hi hx hrun).resolve_right fun hidle => ?_
  cases hc : s.engine.cell? x with
  | none => rw [hc] at hreason; cases hreason
  | some c =>
    rw [hc, Option.any_some, hidle.1 c hc] at hreason
    cases hreason

/-- If no cell waits after a step that evaluates the only waiting one, that was the last evaluation. -/
lemma lastJudged_of_move? (h : (σ 0).move? l none = some (σ 1)) (hwaits : (σ 0).pass.remaining = [id])
    (hreason : ((σ 0).engine.cell? id).any (σ 0).isTriggered = true) (hempty : (σ 1).pass.remaining = []) :
    ∃ d, d.id = id ∧ LastJudged l σ 2 0 d := by
  obtain ⟨d, hid, hjudges⟩ := judges_of_move? h hwaits hreason
  refine ⟨d, hid, by decide, hjudges, ?_⟩
  rintro i hpos hlt c - ⟨j, verdict, -, hj, -⟩
  obtain rfl : i = 1 := by omega
  rw [hempty] at hj
  cases hj

lemma Goes.revisions_eq (h : s.Goes l s') : s'.revisions = s.revisions := by
  cases h with
  | move h => exact h.revisions_eq
  | host h => cases h <;> rfl

lemma Goes.replaces (h : s.Goes l s') (hs : s.Tidy) : Replaces (fun _ => True) s s' := by
  cases h with
  | move hm =>
    cases hm with
    | @start i id s' _ _ _ hrun =>
      have hturn : Replaces (fun _ => True) (s.withdraw i) s' := replaces_turn (turn_of_runCell hrun)
      exact ⟨hturn.value, hturn.changed, hturn.keeps⟩
    | @receive a rest hperm =>
      have hlanding := (landing_receive (s.deliver rest) a).replaces (hs.land hperm)
      exact ⟨hlanding.value, hlanding.changed, hlanding.keeps⟩
  | host hh => exact .of_eq hh.get_eq (fun _ => rfl) rfl

/-- The arrival of a result changes what its script writes only. -/
lemma Landing.exists_kept {a : Arrival} {t : Stage} (h : Landing s a t) (hd : d ∈ t.engine.cells)
    (hne : d.id ≠ a.cell) : ∃ b ∈ s.engine.cells, b.id = d.id ∧ b.writes = d.writes := by
  have hblank : ∀ {u w : Stage}, u.control = w.control → d ∈ u.engine.cells →
      ∃ b ∈ w.engine.cells, b.id = d.id ∧ b.writes = d.writes := fun {u w} hcontrol hd => by
    have hmem : d.blank ∈ w.engine.cells.map Cell.blank :=
      cells_blank_of_control hcontrol ▸ List.mem_map_of_mem hd
    obtain ⟨b, hb, heq⟩ := List.mem_map.mp hmem
    have hid : b.id = d.id := congrArg (·.id) heq
    have hwrites : b.writes = d.writes := congrArg (·.writes) heq
    exact ⟨b, hb, hid, hwrites⟩
  have hlanded : ∀ logs, ∀ b ∈ (s.landed a logs).engine.cells, b.id ≠ a.cell → b ∈ s.engine.cells :=
    fun logs b hb hne => by
      rcases Engine.mem_modifyCell hb with ⟨hb, -⟩ | ⟨b', -, hb', rfl⟩
      · exact hb
      · exact absurd hb' hne
  have hadopt : ∀ c exports logs, c.id = a.cell → ∀ b ∈ ((s.landed a logs).adopt c exports).engine.cells,
      b.id ≠ a.cell → b ∈ s.engine.cells := fun c exports logs hcid b hb hne => by
    rcases mem_cells_adopt hb with ⟨hb, -⟩ | ⟨b', -, hb', rfl⟩
    · exact hlanded logs b hb hne
    · exact absurd (hb'.trans hcid) hne
  cases h with
  | stale _ =>
    refine ⟨d, ?_, rfl, rfl⟩
    unfold dismiss at hd
    dsimp only at hd
    split at hd <;> exact hd
  | again _ _ => exact ⟨d, hd, rfl, rfl⟩
  | @failed c message logs _ _ _ =>
    obtain ⟨b, hb, hid, hwrites⟩ := hblank (control_failed s a c logs message) hd
    exact ⟨b, hlanded logs b hb (hid ▸ hne), hid, hwrites⟩
  | @accepted c exports logs hc _ _ =>
    have hcid : c.id = a.cell := id_of_addressee? hc
    rcases accept_cases (s.landed a logs) c exports with ⟨-, heq⟩ | heq
    · rw [heq] at hd
      exact ⟨d, hadopt c exports logs hcid d hd hne, rfl, rfl⟩
    · rw [heq] at hd
      obtain ⟨b, hb, hid, hwrites⟩ := hblank (control_extend ..) hd
      exact ⟨b, hadopt c exports logs hcid b hb (hid ▸ hne), hid, hwrites⟩

/-- What comes to be in flight has been evaluated. -/
lemma Goes.mem_flying (h : s.Goes l s') (hx : x ∈ s'.flying) (hspares : s.Spares l s' x) (hs : s.Tidy) :
    x ∈ s.flying := by
  cases h with
  | move hm =>
    cases hm with
    | @start i id s' _ hi hid hrun =>
      rcases (starts_of_runCell hs hid hrun).mem_flying hx with hx | rfl
      · exact hx
      · rcases judges_or hi hid hrun with ⟨c, hcid, heval⟩ | ⟨-, heq⟩
        · exact absurd heval (hspares c hcid)
        · rwa [flying, heq] at hx
    | @receive a rest hperm => exact ((landing_receive (s.deliver rest) a).mem_flying.mp hx).1
  | host hh => cases hh <;> exact hx

/-- What a cell writes changes only when its script lands. -/
lemma Goes.exists_kept (h : s.Goes l s') (hs : s.Tidy) (hx : d.id ∈ s.flying → d.id ∈ s'.flying)
    (hd : d ∈ s'.engine.cells) : ∃ b ∈ s.engine.cells, b.id = d.id ∧ b.writes = d.writes := by
  cases h with
  | move hm =>
    cases hm with
    | @start i id s' _ _ hid hrun =>
      have hturn := turn_of_runCell hrun
      generalize s' = t at hd hturn
      cases hturn with
      | gone _ => exact ⟨d, hd, rfl, rfl⟩
      | unchanged _ _ => exact ⟨d, hd, rfl, rfl⟩
      | @evaluated c verdict _ _ _ =>
        rw [cells_conclude] at hd
        rcases mem_conclusion.mp hd with ⟨hd, -⟩ | ⟨b, hb, -, rfl⟩
        · exact ⟨d, hd, rfl, rfl⟩
        · exact ⟨b, hb, Cell.id_withVerdict.symm, Cell.writes_withVerdict.symm⟩
    | @receive a rest hperm =>
      have hlanding := landing_receive (s.deliver rest) a
      refine hlanding.exists_kept hd fun heq => ?_
      have hfly : a.cell ∈ s.flying := flying_of_arriving hs hperm
      exact (hlanding.mem_flying.mp (hx (heq ▸ hfly))).2 heq
  | host hh => cases hh <;> exact ⟨d, hd, rfl, rfl⟩

end Stage

namespace Engine

variable {e : Engine} {n : ℕ} {σ : ℕ → Stage} {c : Cell} {id : CellId} {v : String}

open Stage

namespace IsPass

lemma revisions_eq (h : IsPass l e n σ) {k : ℕ} (hk : k ≤ n) : (σ k).revisions = e.cells.map Cell.revision := by
  induction k with
  | zero => exact h.start ▸ revisions_beginPass e
  | succ k ih => exact (h.goes k hk).revisions_eq.trans (ih (by omega))

/-- A cell reads the same variables all the time. -/
lemma exists_reader (h : IsPass l e n σ) {k m : ℕ} (hk : k ≤ n) (hm : m ≤ n) (hc : c ∈ (σ m).engine.cells) :
    ∃ d ∈ (σ k).engine.cells, d.id = c.id ∧ d.reads = c.reads := by
  obtain ⟨d, hd, heq⟩ := Cell.exists_revision ((h.revisions_eq hm).trans (h.revisions_eq hk).symm) hc
  simp only [Cell.revision, Prod.mk.injEq] at heq
  exact ⟨d, hd, heq.1, heq.2.2.2⟩

lemma replaces (h : IsPass l e n σ) {k : ℕ} (hk : k ≤ n) : Replaces (fun _ => True) e.openPass (σ k) := by
  induction k with
  | zero => exact h.start ▸ (replaces_beginPass h.reachable.tidy).mono fun _ _ => trivial
  | succ k ih => exact (ih (by omega)).trans ((h.goes k hk).replaces (h.tidy (by omega)))

lemma changed_mono (h : IsPass l e n σ) {m k : ℕ} (hmk : m ≤ k) (hk : k ≤ n)
    (hv : v ∈ (σ m).pass.changed) : v ∈ (σ k).pass.changed := by
  induction k, hmk using Nat.le_induction with
  | base => exact hv
  | succ k hmk ih => exact ((h.goes k hk).replaces (h.tidy (by omega))).keeps v (ih (by omega))

/-- A variable that does not count as changed has kept its value all the time. -/
lemma get_of_unchanged (h : IsPass l e n σ) {k m : ℕ} (hk : k ≤ n) (hv : v ∉ (σ k).pass.changed) (hm : m ≤ k) :
    (σ m).engine.get v = e.get v := by
  by_contra hne
  exact hv (h.changed_mono hm hk ((h.replaces (hm.trans hk)).changed v hne))

lemma steady (h : IsPass l e n σ) (hdeclared : e.Declared)
    (hno : ∀ k < n, ∀ a, PutsBack (σ k) (σ (k + 1)) a → ¬ (σ k).engine.graph.OnCycle a.cell) {k : ℕ}
    (hk : k ≤ n) : (σ k).Steady := by
  induction k with
  | zero => exact h.start ▸ steady_beginPass h.reachable.tidy h.idle hdeclared
  | succ k ih => exact (h.goes k hk).steady (ih (by omega)) (h.tidy (by omega)) (hno k hk)

/-- A script in flight has been evaluated, and writes what it wrote then. -/
lemma exists_lastJudged (h : IsPass l e n σ) {k : ℕ} (hk : k ≤ n) (hx : id ∈ (σ k).flying) :
    ∃ j d, d.id = id ∧ LastJudged l σ k j d ∧ ∀ c ∈ (σ k).engine.cells, c.id = id → c.writes = d.writes := by
  induction k generalizing id with
  | zero =>
    rw [h.start, flying, inFlight_beginPass, (h.reachable.tidy.idle h.idle).1] at hx
    cases hx
  | succ k ih =>
    have hs := h.tidy (k := k) (by omega)
    have hkept : ∀ c ∈ (σ (k + 1)).engine.cells, c.id = id → ∃ b ∈ (σ k).engine.cells, b.id = id ∧ b.writes = c.writes :=
      fun c hc hid => hid ▸ (h.goes k hk).exists_kept hs (fun _ => hid ▸ hx) hc
    by_cases hspares : (σ k).Spares l (σ (k + 1)) id
    · have hfly := (h.goes k hk).mem_flying hx hspares hs
      obtain ⟨j, d, rfl, hlast, hwrites⟩ := ih (by omega) hfly
      refine ⟨j, d, rfl, hlast.succ hspares, fun c hc hid => ?_⟩
      obtain ⟨b, hb, hbid, heq⟩ := hkept c hc hid
      exact heq ▸ hwrites b hb hbid
    · simp only [Spares, not_forall, not_not] at hspares
      obtain ⟨d, rfl, heval⟩ := hspares
      refine ⟨k, d, rfl, .of_judges heval, fun c hc hid => ?_⟩
      obtain ⟨b, hb, hbid, heq⟩ := hkept c hc hid
      obtain ⟨-, -, -, -, hd, -⟩ := heval
      have hbd := (Engine.cell?_eq_some_iff hs.ids).mpr ⟨hb, hbid⟩
      rw [← heq, Option.some.inj (hbd.symm.trans hd)]

/-- A script that lands has been evaluated, so what it wrote before is what it wrote then. -/
lemma exists_writer (h : IsPass l e n σ) {k : ℕ} (hk : k < n) (hc : c ∈ (σ k).engine.cells)
    (hw : v ∈ c.writes.names) (hland : c.id ∈ (σ k).flying → c.id ∉ (σ (k + 1)).flying → ∀ d, d.id = c.id →
      ∀ j, LastJudged l σ k j d → v ∉ d.writes.names) :
    ∃ b ∈ (σ (k + 1)).engine.cells, b.id = c.id ∧ v ∈ b.writes.names := by
  have hs := h.tidy hk.le
  obtain ⟨b, hb, hbid, -⟩ := h.exists_reader (k := k + 1) hk hk.le hc
  have hkeeps : b.id ∈ (σ k).flying → b.id ∈ (σ (k + 1)).flying := fun hfly => by
    by_contra hgone
    obtain ⟨j, d, hdid, hlast, hwrites⟩ := h.exists_lastJudged hk.le hfly
    rw [hbid] at hfly hgone hdid hwrites
    exact hland hfly hgone d hdid j hlast (hwrites c hc rfl ▸ hw)
  obtain ⟨c', hc', hid', heq⟩ := (h.goes k hk).exists_kept hs hkeeps hb
  have hcc : c' = c := List.inj_on_of_nodup_map hs.ids hc' hc (hid'.trans hbid)
  exact ⟨b, hb, hbid, heq ▸ hcc ▸ hw⟩

end IsPass

/-- When the cell was evaluated last it saw the present value of the variable, if it does not count as a writer
of the variable now and did not then. A cell that has not been evaluated has missed nothing. -/
def Seen (l : Language) (e : Engine) (σ : ℕ → Stage) (k : ℕ) (id : CellId) (v : String) : Prop :=
  (∃ j d, d.id = id ∧ LastJudged l σ k j d ∧ ((σ j).pass.slot v = (σ k).engine.get v ∨ v ∈ d.writes.names ∨
      ∃ b ∈ (σ k).engine.cells, b.id = id ∧ v ∈ b.writes.names)) ∨
    (∀ j < k, (σ j).Spares l (σ (j + 1)) id) ∧ ∀ m ≤ k, (σ m).engine.get v = e.get v

namespace IsPass

variable {k : ℕ}

/-- As long as a variable has not changed, there is nothing to miss. -/
lemma seen_of_unchanged (hsteady : ∀ j ≤ n, (σ j).Steady) (hk : k ≤ n)
    (hv : ∀ m ≤ k, (σ m).engine.get v = e.get v) : Seen l e σ k id v := by
  rcases exists_lastJudged_or l σ id k with ⟨j, d, hid, hlast⟩ | hnone
  · have hj := hlast.before
    exact .inl ⟨j, d, hid, hlast, .inl (((hsteady j (by omega)).synced v).trans
      ((hv j hj.le).trans (hv k le_rfl).symm))⟩
  · exact .inr ⟨hnone, hv⟩

/-- A cell that is evaluated sees the present value, unless it replaces it. -/
lemma seen_of_judges (hs : (σ k).Tidy) (hst : (σ k).Steady) (heval : (σ k).Judges l (σ (k + 1)) c) :
    Seen l e σ (k + 1) c.id v := by
  refine .inl ⟨k, c, rfl, .of_judges heval, ?_⟩
  by_cases hv : (σ (k + 1)).engine.get v = (σ k).engine.get v
  · exact .inl ((hst.synced v).trans hv.symm)
  · obtain ⟨i, verdict, -, -, hc, ht, hverdict, heq⟩ := heval
    have hturn : Turn l ((σ k).withdraw i) c.id (σ (k + 1)) := heq ▸ .evaluated hc ht hverdict
    obtain ⟨c', -, hc', -, -, -, hw⟩ := mem_writes_of_turn hst.declared hs hturn hv
    exact .inr (.inl (Option.some.inj (hc'.symm.trans hc) ▸ hw))

/-- A step that does not evaluate the cell and keeps the value keeps what the cell has seen. -/
lemma seen_succ (h : IsPass l e n σ) (hk : k < n) (hspares : (σ k).Spares l (σ (k + 1)) id)
    (hv : (σ (k + 1)).engine.get v = (σ k).engine.get v) (hseen : Seen l e σ k id v) : Seen l e σ (k + 1) id v := by
  rcases hseen with ⟨j, d, rfl, hlast, hor⟩ | ⟨hnone, hsame⟩
  · refine .inl ⟨j, d, rfl, hlast.succ hspares, ?_⟩
    rcases hor with hslot | hw | ⟨b, hb, hbid, hw⟩
    · exact .inl (hslot.trans hv.symm)
    · exact .inr (.inl hw)
    · by_cases hdw : v ∈ d.writes.names
      · exact .inr (.inl hdw)
      · refine .inr (.inr (hbid ▸ h.exists_writer hk hb hw fun _ _ d' hd' j' hlast' => ?_))
        rwa [hlast'.unique hlast (hd'.trans hbid)]
  · refine .inr ⟨fun j hj => ?_, fun m hm => ?_⟩
    · rcases Nat.lt_succ_iff_lt_or_eq.mp hj with hlt | rfl
      · exact hnone j hlt
      · exact hspares
    · rcases Nat.le_succ_iff.mp hm with hle | rfl
      · exact hsame m hle
      · exact hv.trans (hsame k le_rfl)

/-- A script that lands and replaces what it reads back counted as a writer then, or does so now. -/
lemma seen_of_lands (h : IsPass l e n σ) (hk : k < n) (hfly : id ∈ (σ k).flying)
    (hspares : (σ k).Spares l (σ (k + 1)) id) (hw : ∃ b, (b ∈ (σ k).engine.cells ∨ b ∈ (σ (k + 1)).engine.cells) ∧
      b.id = id ∧ v ∈ b.writes.names) : Seen l e σ (k + 1) id v := by
  obtain ⟨j, d, rfl, hlast, hwrites⟩ := h.exists_lastJudged hk.le hfly
  obtain ⟨b, hb | hb, hbid, hw⟩ := hw
  · exact .inl ⟨j, d, rfl, hlast.succ hspares, .inr (.inl (hwrites b hb hbid ▸ hw))⟩
  · exact .inl ⟨j, d, rfl, hlast.succ hspares, .inr (.inr ⟨b, hb, hbid, hw⟩)⟩

/-- A reader that is due stays so, or has no reason to be evaluated when its turn has come. -/
lemma due_or_seen_of_due (h : IsPass l e n σ) (hsteady : ∀ j ≤ n, (σ j).Steady) (hk : k < n)
    (hno : ∀ a, PutsBack (σ k) (σ (k + 1)) a → ¬ (σ k).engine.graph.OnCycle a.cell)
    (hspares : (σ k).Spares l (σ (k + 1)) c.id) (hc : c ∈ (σ k).engine.cells) (hread : v ∈ c.reads)
    (hdue : (σ k).Due c.id) : (σ (k + 1)).Due c.id ∨ Seen l e σ (k + 1) c.id v := by
  have hs := h.tidy hk.le
  have hst := hsteady k hk.le
  obtain ⟨t, ht⟩ : ∃ t, σ (k + 1) = t := ⟨_, rfl⟩
  have hgoes := ht ▸ h.goes k hk
  rw [ht] at hno hspares
  cases hgoes with
  | move hm =>
    cases hm with
    | @start i x t hfree hi hid hrun =>
      by_cases hx : c.id = x
      · subst hx
        rcases judges_or hi hid hrun with ⟨d, hdid, hjudges⟩ | ⟨hidle, heq⟩
        · exact absurd hjudges (hspares d hdid)
        have htrigger := hidle c ((Engine.cell?_eq_some_iff hs.ids).mpr ⟨hc, rfl⟩)
        have hchanged : v ∉ (σ k).pass.changed := fun hmem => by
          have htrue : (σ k).isTriggered c = true := by
            simp only [isTriggered, Bool.or_eq_true, List.any_eq_true]
            exact .inr ⟨v, Names.mem_toList.mpr hread, .inl (Names.contains_iff.mpr hmem)⟩
          exact Bool.false_ne_true (htrigger.symm.trans htrue)
        refine .inr (seen_of_unchanged hsteady hk fun m hm => ?_)
        rcases Nat.le_succ_iff.mp hm with hle | rfl
        · exact h.get_of_unchanged hk.le hchanged hle
        · rw [ht, heq]
          exact h.get_of_unchanged hk.le hchanged le_rfl
      · exact .inl (ht ▸ hdue.start (starts_of_runCell hs hid hrun) hx)
    | receive hperm => exact .inl (ht ▸ (hst.receive hs hperm (hno _)).2 c.id hdue)
  | host hh => cases hh <;> exact .inl (ht ▸ hdue)

/-- The readers of a variable that changes are due afterwards, or count as writers. -/
lemma due_or_seen_of_changed (h : IsPass l e n σ) (hsteady : ∀ j ≤ n, (σ j).Steady) (hk : k < n)
    (hno : ∀ a, PutsBack (σ k) (σ (k + 1)) a → ¬ (σ k).engine.graph.OnCycle a.cell)
    (hspares : (σ k).Spares l (σ (k + 1)) c.id) (hc : c ∈ (σ k).engine.cells) (hread : v ∈ c.reads)
    (hv : (σ (k + 1)).engine.get v ≠ (σ k).engine.get v) :
    (σ (k + 1)).Due c.id ∨ Seen l e σ (k + 1) c.id v := by
  have hs := h.tidy hk.le
  have hst := hsteady k hk.le
  obtain ⟨t, ht⟩ : ∃ t, σ (k + 1) = t := ⟨_, rfl⟩
  have hgoes := ht ▸ h.goes k hk
  rw [ht] at hv hno
  cases hgoes with
  | move hm =>
    cases hm with
    | @start i x t hfree hi hid hrun =>
      by_cases hx : c.id = x
      · subst hx
        rcases judges_or hi hid hrun with ⟨d, hdid, hjudges⟩ | ⟨-, heq⟩
        · exact absurd (ht ▸ hjudges) (hspares d hdid)
        · exact absurd (congrArg (·.get v) heq) hv
      · exact .inl (ht ▸ hst.due_of_start hs hid hrun hc hx hread hv)
    | @receive a rest hperm =>
      rcases hst.due_of_changed hs hperm (hno a) hc hread hv with hdue | ⟨hca, b, hb, hbid, hw⟩
      · exact .inl (ht ▸ hdue)
      · refine .inr (h.seen_of_lands hk (hca ▸ flying_of_arriving hs hperm) hspares ⟨b, ?_, hbid.trans hca.symm, hw⟩)
        exact ht ▸ hb
  | host hh => exact absurd (hh.get_eq v) hv

/-- At every moment of a pass, a reader of a variable is due or has seen its value. -/
lemma due_or_seen (h : IsPass l e n σ) (hsteady : ∀ j ≤ n, (σ j).Steady)
    (hno : ∀ k < n, ∀ a, PutsBack (σ k) (σ (k + 1)) a → ¬ (σ k).engine.graph.OnCycle a.cell)
    (hreads : ∀ k ≤ n, ∃ c ∈ (σ k).engine.cells, c.id = id ∧ v ∈ c.reads) (hk : k ≤ n) :
    (σ k).Due id ∨ Seen l e σ k id v := by
  induction k with
  | zero =>
    obtain ⟨c, hc, rfl, hread⟩ := hreads 0 hk
    by_cases hv : (σ 0).engine.get v = e.get v
    · exact .inr (.inr ⟨fun j hj => absurd hj (by omega), fun m hm => (Nat.le_zero.mp hm) ▸ hv⟩)
    · rw [h.start] at hc hv ⊢
      exact .inl (due_of_changed_beginPass h.reachable.tidy h.idle hc hread hv)
  | succ k ih =>
    obtain ⟨c, hc, rfl, hread⟩ := hreads k (by omega)
    by_cases hspares : (σ k).Spares l (σ (k + 1)) c.id
    · by_cases hv : (σ (k + 1)).engine.get v = (σ k).engine.get v
      · rcases ih (by omega) with hdue | hseen
        · exact h.due_or_seen_of_due hsteady hk (hno k hk) hspares hc hread hdue
        · exact .inr (h.seen_succ hk hspares hv hseen)
      · exact h.due_or_seen_of_changed hsteady hk (hno k hk) hspares hc hread hv
    · simp only [Spares, not_forall, not_not] at hspares
      obtain ⟨d, hdid, hjudges⟩ := hspares
      exact .inr (hdid ▸ seen_of_judges (h.tidy (by omega)) (hsteady k (by omega)) hjudges)

end IsPass

/-- When a pass ends that has put no script back which lay on a cycle, every reader of a variable that changed
has been evaluated, as far as it neither lies on a cycle nor counts as a writer of the variable. Its last
evaluation saw the value of the end, unless it counted as a writer when that evaluation began. -/
theorem last_evaluation_saw_value (h : IsPass l e n σ) (hdone : (σ n).IsDone) (hdeclared : e.Declared)
    (hno : ∀ k < n, ∀ a, PutsBack (σ k) (σ (k + 1)) a → ¬ (σ k).engine.graph.OnCycle a.cell)
    (hc : c ∈ (σ n).engine.cells) (hread : v ∈ c.reads) (hwrite : v ∉ c.writes.names)
    (hoff : ¬ (σ n).engine.graph.OnCycle c.id) (hchanged : ∃ k ≤ n, (σ k).engine.get v ≠ e.get v) :
    ∃ k d, d.id = c.id ∧ LastJudged l σ n k d ∧
      (v ∉ d.writes.names → (v, (σ n).engine.get v) ∈ (σ k).inputs d) := by
  have hs := h.tidy le_rfl
  have hsteady : ∀ j ≤ n, (σ j).Steady := fun j hj => h.steady hdeclared hno hj
  have hreads : ∀ k ≤ n, ∃ d ∈ (σ k).engine.cells, d.id = c.id ∧ v ∈ d.reads := fun k hk => by
    obtain ⟨d, hd, hid, heq⟩ := h.exists_reader hk le_rfl hc
    exact ⟨d, hd, hid, heq ▸ hread⟩
  have hfree : ¬ (σ n).Due c.id := by
    rintro (hcycle | hwaits | hrerun)
    · exact hoff hcycle
    · rw [hdone.1] at hwaits
      cases hwaits
    · have hfly := hs.rerun c.id hrerun
      rw [flying, hdone.2] at hfly
      cases hfly
  rcases (h.due_or_seen hsteady hno hreads le_rfl).resolve_left hfree with ⟨j, d, hid, hlast, hor⟩ | ⟨-, hsame⟩
  · refine ⟨j, d, hid, hlast, fun hdw => ?_⟩
    have hslot : (σ j).pass.slot v = (σ n).engine.get v := by
      rcases hor with hslot | hw | ⟨b, hb, hbid, hw⟩
      · exact hslot
      · exact absurd hw hdw
      · exact absurd (List.inj_on_of_nodup_map hs.ids hb hc hbid ▸ hw) hwrite
    obtain ⟨i, verdict, -, -, hcell, -⟩ := hlast.judges
    obtain ⟨d', hd', hid', hread'⟩ := hreads j hlast.before.le
    have heq := (Engine.cell?_eq_some_iff (h.tidy hlast.before.le).ids).mpr ⟨hd', hid'.trans hid.symm⟩
    rw [← hslot]
    exact mem_inputs (Option.some.inj (heq.symm.trans hcell) ▸ hread') hdw
  · obtain ⟨k, hk, hne⟩ := hchanged
    exact absurd (hsame k hk) hne

lemma declared_of_all (h : (e.cells.all fun c => c.content.output?.all c.writes.contains) = true) : e.Declared :=
  fun c hc name hname => by
    have hall := List.all_eq_true.mp h c hc
    rw [hname] at hall
    exact Names.contains_iff.mp hall

lemma exists_reader_of_any (hn : (e.cells.map (·.id)).Nodup) (hg : e.graph = Graph.build e.cells)
    (hany : (e.cells.any fun c => c.id == id && c.reads.contains v && !c.writes.contains v &&
      (e.graph.cycleOf? c.id).isNone) = true) :
    ∃ c ∈ e.cells, c.id = id ∧ v ∈ c.reads ∧ v ∉ c.writes.names ∧ ¬ e.graph.OnCycle c.id := by
  obtain ⟨c, hc, hreader⟩ := List.any_eq_true.mp hany
  simp only [Bool.and_eq_true, beq_iff_eq, Names.contains_iff, WriteSet.contains, Bool.not_eq_true',
    Names.contains_eq_false_iff, Option.isNone_iff_eq_none] at hreader
  obtain ⟨⟨⟨hid, hread⟩, hwrite⟩, hcycle⟩ := hreader
  refine ⟨c, hc, hid, hread, hwrite, fun hon => ?_⟩
  rw [hg] at hcycle hon
  have hsome := (Graph.cycleOf?_isSome_iff hn).mpr hon
  rw [hcycle] at hsome
  cases hsome

/-- The last evaluation of the reader saw what the script exports. -/
theorem late_export_reaches_reader : ∃ c ∈ (surprisingPass 4).engine.cells, c.id = "r" ∧
    ∃ k d, d.id = "r" ∧ LastJudged (.ofConfig .standard) surprisingPass 4 k d ∧
      ("v" ∉ d.writes.names → ("v", (surprisingPass 4).engine.get "v") ∈ (surprisingPass k).inputs d) := by
  have hpass : IsPass (.ofConfig .standard) surprising 4 surprisingPass :=
    isPass_route reachable_surprising rfl isRoute_surprisingPass
  have hdone : ((surprisingPass 4).pass.remaining.isEmpty && (surprisingPass 4).engine.inFlight.isEmpty) = true := by
    decide +kernel
  have hrerun : ∀ k < 4, (surprisingPass k).pass.rerun.toList.isEmpty = true := by decide +kernel
  have hreader : ((surprisingPass 4).engine.cells.any fun c => c.id == "r" && c.reads.contains "v" &&
      !c.writes.contains "v" && ((surprisingPass 4).engine.graph.cycleOf? c.id).isNone) = true := by decide +kernel
  have hchanged : ((surprisingPass 4).engine.get "v").isUndefined ≠ (surprising.get "v").isUndefined := by
    decide +kernel
  simp only [Bool.and_eq_true, List.isEmpty_iff] at hdone
  obtain ⟨c, hc, hid, hread, hwrite, hoff⟩ := exists_reader_of_any (hpass.tidy le_rfl).ids (hpass.tidy le_rfl).graph hreader
  refine ⟨c, hc, hid, hid ▸ last_evaluation_saw_value hpass hdone (declared_of_all (by decide +kernel))
    (fun k hk a hput => ?_) hc hread hwrite hoff ⟨4, le_rfl, fun heq => hchanged (congrArg Slot.isUndefined heq)⟩⟩
  obtain ⟨rest, -, -, hmem, -⟩ := hput
  have hnone : (surprisingPass k).pass.rerun.toList = [] := List.isEmpty_iff.mp (hrerun k hk)
  have hmem : a.cell ∈ (surprisingPass k).pass.rerun.toList := hmem
  rw [hnone] at hmem
  cases hmem

/-- The notebook after a run, if the run comes to an end. -/
def settled (l : Language) (e : Engine) : Engine := ((e.runUntilIdle l).toOption.map (·.1)).getD e

lemma steps_settled (ht : e.Tidy) : Relation.ReflTransGen (Step l) e (e.settled l) := by
  unfold settled
  cases h : e.runUntilIdle l with
  | error _ => exact .refl
  | ok r => exact steps_runUntilIdle ht h

/-- A script that reads `v` back and exports it as long as `keep` is one. -/
def keeping : Engine :=
  ((new .standard true).grow ⟨"r", .script "print(v); if keep == 1 \x7b exports.v = 5; \x7d"⟩).setImmediate
    "keep" (.int 1)

/-- The script has exported `v`, and `keep` is zero by now. -/
def dropping (l : Language) : Engine := ((keeping.settled l).setImmediate "keep" (.int 0)).collect

lemma reachable_dropping (hp : ((keeping.settled l).setImmediate "keep" (.int 0)).pass = none) :
    Reachable l (dropping l) := by
  have hkeeping : Relation.ReflTransGen (Step l) (new .standard true) keeping :=
    (steps_grow _ _).tail (.host (.setImmediate "keep" (.int 1)))
  have hsettled := hkeeping.trans (steps_settled (steps_tidy hkeeping (new_tidy ..)))
  exact ⟨.standard, true, (hsettled.tail (.host (.setImmediate "keep" (.int 0)))).tail (.collect hp)⟩

/-- The script runs, and lands without an export. -/
def droppingPass : ℕ → Stage :=
  (dropping (.ofConfig .standard)).beginPass.route (.ofConfig .standard) [none, some 0]

/-- How the pass goes, as far as it can be computed. -/
lemma droppingPass_trace :
    ((keeping.settled (.ofConfig .standard)).setImmediate "keep" (.int 0)).pass.isNone = true ∧
    (dropping (.ofConfig .standard)).pass.isNone = true ∧
    (dropping (.ofConfig .standard)).beginPass.isRoute (.ofConfig .standard) [none, some 0] = true ∧
    ((dropping (.ofConfig .standard)).get "v").isUndefined = false ∧
    (droppingPass 0).pass.remaining = ["r"] ∧ (droppingPass 1).pass.remaining = [] ∧
    (droppingPass 2).pass.remaining = [] ∧ (droppingPass 2).engine.inFlight = [] ∧
    ((droppingPass 0).engine.cell? "r").any (droppingPass 0).isTriggered = true ∧
    (((droppingPass 0).engine.cell? "r").all fun d => ((droppingPass 0).inputs d).all fun p =>
      p.1 != "v" || !p.2.isUndefined) = true ∧
    ((droppingPass 2).engine.cells.any fun c => c.id == "r" && c.reads.contains "v" &&
      !c.writes.contains "v" && ((droppingPass 2).engine.graph.cycleOf? c.id).isNone) = true ∧
    ((droppingPass 2).engine.get "v").isUndefined = true := by
  decide +kernel

lemma isPass_droppingPass :
    IsPass (.ofConfig .standard) (dropping (.ofConfig .standard)) 2 droppingPass := by
  obtain ⟨hidle, hnone, hroute, -⟩ := droppingPass_trace
  exact isPass_route (reachable_dropping (Option.isNone_iff_eq_none.mp hidle)) (Option.isNone_iff_eq_none.mp hnone)
    hroute

/-- A cell that reads a variable, does not write it and lies on no cycle at the end of a pass need not have seen
what has become of it: the script saw what it exported in the run before, and then cleared it. -/
theorem dropped_export_seen_before : ∃ c ∈ (droppingPass 2).engine.cells,
    IsPass (.ofConfig .standard) (dropping (.ofConfig .standard)) 2 droppingPass ∧ (droppingPass 2).IsDone ∧
    "v" ∈ c.reads ∧ "v" ∉ c.writes.names ∧ ¬ (droppingPass 2).engine.graph.OnCycle c.id ∧
    (droppingPass 2).engine.get "v" ≠ (dropping (.ofConfig .standard)).get "v" ∧
    ∃ d, d.id = c.id ∧ LastJudged (.ofConfig .standard) droppingPass 2 0 d ∧
      ("v", (droppingPass 2).engine.get "v") ∉ (droppingPass 0).inputs d := by
  obtain ⟨-, -, hroute, hbefore, hwaits, hempty, hremaining, hflights, hreason, hsaw, hreader, hnow⟩ :=
    droppingPass_trace
  obtain ⟨c, hc, hid, hread, hwrite, hoff⟩ := exists_reader_of_any (isPass_droppingPass.tidy le_rfl).ids
    (isPass_droppingPass.tidy le_rfl).graph hreader
  have hmove : (droppingPass 0).move? (.ofConfig .standard) none = some (droppingPass 1) := move?_route hroute rfl
  obtain ⟨d, hdid, hlast⟩ := lastJudged_of_move? hmove hwaits hreason hempty
  refine ⟨c, hc, isPass_droppingPass, ⟨hremaining, hflights⟩, hread, hwrite, hoff, fun heq => ?_, d,
    hdid.trans hid.symm, hlast, fun hmem => ?_⟩
  · have hsame := congrArg Slot.isUndefined heq
    exact Bool.false_ne_true (hbefore.symm.trans (hsame.symm.trans hnow))
  · obtain ⟨i, verdict, -, -, hcell, -⟩ := hlast.judges
    exact not_mem_inputs hsaw (hdid ▸ hcell) hnow hmem

end Engine

end ReactiveNotebook
