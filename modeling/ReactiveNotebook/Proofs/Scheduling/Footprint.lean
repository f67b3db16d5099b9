import ReactiveNotebook.Proofs.Scheduling.Orphan

/-!
# What a successful run of a script touches

When the result of a successful run is taken over, the exports are committed, names that the script no longer
exports are cleared, and cells that the new exports bring onto a cycle pass on the fault. Nothing else changes. A
name is cleared only if the script has counted as writing it, without a break, since it exported it or since its
text let expect it. Who wrote the variable last does not matter.
-/
namespace ReactiveNotebook

variable {l : Language}

namespace Stage

variable {s : Stage} {a : Arrival} {c d : Cell} {id : CellId} {x : String} {exports : Script.Fields} {ids : List CellId}

/-- A variable changes when cells are marked only if one of them counts as writing it, whose fault it carries then. -/
lemma get_foldl_block (x : String) : (ids.foldl block s).engine.get x = s.engine.get x ∨
    ∃ d ∈ s.engine.cells, d.id ∈ ids ∧ x ∈ d.writes.names ∧
      ∃ path, (ids.foldl block s).engine.get x = .error (.cycle d.id path) := by
  induction ids generalizing s with
  | nil => exact .inl rfl
  | cons id ids ih =>
    rw [List.foldl_cons]
    rcases ih (s := s.block id) with hsame | ⟨d, hd, hid, hx, hvalue⟩
    · rw [hsame]
      unfold block
      split
      · exact .inl rfl
      · next c hc =>
        have hcm := List.mem_of_find?_eq_some hc
        have hcid := id_eq_of_cell? hc
        change (s.mark c _).engine.get x = _ ∨ ∃ d ∈ _, _ ∧ _ ∧ ∃ path, (s.mark c _).engine.get x = _
        rw [get_mark]
        split
        · next hx => exact .inr ⟨c, hcm, hcid ▸ List.mem_cons_self, hx, _, by rw [hcid]⟩
        · exact .inl rfl
    · rw [cells_block] at hd
      rcases mem_conclusion.mp hd with ⟨hd, -⟩ | ⟨b, hb, -, rfl⟩
      · exact .inr ⟨d, hd, List.mem_cons_of_mem _ hid, hx, hvalue⟩
      · simp only [Cell.id_withVerdict, Cell.writes_withVerdict] at hid hx hvalue
        exact .inr ⟨b, hb, List.mem_cons_of_mem _ hid, hx, hvalue⟩

lemma get_extend (source : CellId) (names : Names) (x : String) :
    (s.extend source names).engine.get x = s.engine.get x ∨
    ∃ d ∈ s.engine.cells, d.id ∈ s.looped source names ∧ x ∈ d.writes.names ∧
      ∃ path, (s.extend source names).engine.get x = .error (.cycle d.id path) :=
  get_foldl_block (s := s.enlarge source names) x

lemma exists_mem_extend (source : CellId) (names : Names) (hd : d ∈ s.engine.cells) :
    ∃ d' ∈ (s.extend source names).engine.cells, d'.id = d.id ∧ d'.writes = d.writes := by
  have hmem : d.blank ∈ (s.extend source names).engine.cells.map Cell.blank := by
    rw [cells_blank_extend]
    exact List.mem_map_of_mem hd
  obtain ⟨d', hd', heq⟩ := List.mem_map.mp hmem
  have hcontinues := Cell.continues_of_blank heq
  exact ⟨d', hd', congrArg (·.1) hcontinues.1, hcontinues.2⟩

/-- What becomes of a variable that is not exported when exports are taken over: it is left alone, or dropped, or it
is one of a cell that comes onto a cycle. -/
lemma get_accept (hs : s.Tidy) (hwait : c.id ∉ s.pass.remaining) (hx : x ∉ exports.map (·.1)) :
    (s.accept c exports).engine.get x = s.engine.get x ∨
    (s.accept c exports).engine.get x = .undefined ∧ x ∈ c.writes.names ∧ s.engine.isWrittenElsewhere x c.id = false ∨
    ∃ d ∈ (s.accept c exports).engine.cells, d.id ≠ c.id ∧ x ∈ d.writes.names ∧
      (s.accept c exports).engine.graph.OnCycle d.id ∧
      ∃ path, (s.accept c exports).engine.get x = .error (.cycle d.id path) := by
  have hadopt : (s.adopt c exports).engine.get x = s.engine.get x ∨ (s.adopt c exports).engine.get x = .undefined ∧
      x ∈ c.writes.names ∧ s.engine.isWrittenElsewhere x c.id = false := by
    rw [get_adopt_of_not_mem hx]
    split
    · next hdropped => exact .inr ⟨rfl, hdropped⟩
    · exact .inl rfl
  rcases accept_cases s c exports with ⟨-, heq⟩ | heq
  · rw [heq]
    exact hadopt.imp_right .inl
  · rw [heq]
    have ht : (s.readopt c exports).Tidy := hs.rebuild_adopt
    rcases get_extend (s := s.readopt c exports) c.id (novel c exports) x with hsame | ⟨d, hd, hlooped, hxd, hvalue⟩
    · rw [hsame]
      exact hadopt.imp_right .inl
    · obtain ⟨hpending, hcycle⟩ := (mem_looped ht).mp hlooped
      have hgraph := graph_extend (s.readopt c exports) c.id (novel c exports)
      obtain ⟨d', hd', hid, hwrites⟩ := exists_mem_extend c.id (novel c exports) hd
      refine .inr (.inr ⟨d', hd', ?_, hwrites ▸ hxd, ?_, hid ▸ hvalue⟩)
      · -- a script that has just landed neither waits nor is downstream of itself
        have hremaining : (s.readopt c exports).pass.remaining = s.pass.remaining :=
          congrArg (·.pass.remaining) (control_adopt s c exports)
        rw [hid]
        rcases mem_pending.mp hpending with hwaits | ⟨hdown, -⟩
        · exact fun hdc => hwait (hdc ▸ hremaining ▸ hwaits)
        · simpa using (List.mem_filter.mp hdown).2
      · rw [hgraph, hid]
        exact hcycle

end Stage

namespace Engine

variable {e e' : Engine} {a : Arrival} {c d : Cell} {id : CellId} {x : String} {exports : Script.Fields}
variable {σ : ℕ → Engine} {n k m : ℕ}

/-- A cell with this id counts as writing the variable. -/
def Counts (e : Engine) (id : CellId) (x : String) : Prop := ∃ c ∈ e.cells, c.id = id ∧ x ∈ c.writes.names

instance : Decidable (Counts e id x) := inferInstanceAs (Decidable (∃ c ∈ e.cells, c.id = id ∧ x ∈ c.writes.names))

/-- The cell has exported the variable, and has counted as writing it ever since. -/
def Maintains (σ : ℕ → Engine) (m : ℕ) (id : CellId) (x : String) : Prop :=
  ∃ j < m, (∃ names, Exports (σ j) (σ (j + 1)) id names ∧ x ∈ names) ∧ ∀ i, j < i → i ≤ m → Counts (σ i) id x

/-- An edit has made the cell count as writing the variable, since its text lets expect it. The cell has counted as
writing it ever since, but has not exported it. -/
structure Anticipates (σ : ℕ → Engine) (m : ℕ) (id : CellId) (x : String) (j : ℕ) : Prop where
  before : j < m
  edited : Edit (σ j) (σ (j + 1))
  fresh : ¬ Counts (σ j) id x
  expected : ∃ c ∈ (σ (j + 1)).cells, c.id = id ∧ x ∈ c.content.analyze.writes.names
  since : ∀ i, j < i → i ≤ m → Counts (σ i) id x
  unexported : ∀ i, j ≤ i → i < m → ∀ names, Exports (σ i) (σ (i + 1)) id names → x ∉ names

lemma Maintains.succ (h : Maintains σ m id x) (hnow : Counts (σ (m + 1)) id x) : Maintains σ (m + 1) id x := by
  obtain ⟨j, hj, hexported, hsince⟩ := h
  refine ⟨j, by omega, hexported, fun i hji him => ?_⟩
  rcases Nat.le_succ_iff.mp him with him | rfl
  · exact hsince i hji him
  · exact hnow

lemma maintains_of_exports {names : Names} (h : Exports (σ m) (σ (m + 1)) id names) (hx : x ∈ names)
    (hnow : Counts (σ (m + 1)) id x) : Maintains σ (m + 1) id x := by
  refine ⟨m, by omega, ⟨names, h, hx⟩, fun i hmi him => ?_⟩
  obtain rfl : i = m + 1 := by omega
  exact hnow

/-- A variable that is merely expected becomes one that is maintained only through an export. -/
lemma Anticipates.succ {j : ℕ} (h : Anticipates σ m id x j) (hnow : Counts (σ (m + 1)) id x)
    (hexport : ∀ names, Exports (σ m) (σ (m + 1)) id names → x ∉ names) : Anticipates σ (m + 1) id x j where
  before := Nat.lt_succ_of_lt h.before
  edited := h.edited
  fresh := h.fresh
  expected := h.expected
  since i hji him := by
    rcases Nat.le_succ_iff.mp him with him | rfl
    · exact h.since i hji him
    · exact hnow
  unexported i hji him := by
    rcases Nat.lt_succ_iff_lt_or_eq.mp him with him | rfl
    · exact h.unexported i hji him
    · exact hexport

/-- What has been exported and maintained is not merely expected. -/
lemma Maintains.not_anticipates {j : ℕ} (h : Maintains σ m id x) : ¬ Anticipates σ m id x j := fun ha => by
  obtain ⟨i, hi, ⟨names, hexports, hx⟩, hsince⟩ := h
  rcases le_or_gt j i with hji | hij
  · exact ha.unexported i hji hi names hexports hx
  · exact ha.fresh (hsince j hij ha.before.le)

/-- Whatever a cell counts as writing it has exported and maintained, or its text merely lets expect it. -/
theorem IsChronicle.maintains_or_anticipates (h : IsChronicle l n σ) (hk : k ≤ n) (hx : Counts (σ k) id x) :
    Maintains σ k id x ∨ ∃ j, Anticipates σ k id x j := by
  induction k with
  | zero =>
    obtain ⟨config, manual, hstart⟩ := h.start
    obtain ⟨c, hc, -⟩ := hstart ▸ hx
    cases hc
  | succ k ih =>
    have hk' : k ≤ n := by omega
    by_cases hexport : ∃ names, Exports (σ k) (σ (k + 1)) id names ∧ x ∈ names
    · obtain ⟨names, hexports, hxn⟩ := hexport
      exact .inl (maintains_of_exports hexports hxn hx)
    push Not at hexport
    have hkept : Counts (σ k) id x → Maintains σ (k + 1) id x ∨ ∃ j, Anticipates σ (k + 1) id x j := fun hold =>
      (ih hk' hold).imp (·.succ hx) fun ⟨j, hj⟩ => ⟨j, hj.succ hx hexport⟩
    by_cases hold : Counts (σ k) id x
    · exact hkept hold
    obtain ⟨c, hc, rfl, hxc⟩ := hx
    rcases (h.step k hk).edit_or_ongoing with hedit | hongoing
    · -- the text of the edit is what makes the variable count
      have hexpected : x ∈ c.content.analyze.writes.names := by
        rcases hedit.mem_cells (h.tidy hk').ids hc with hsame | ⟨b, rfl, hbefore⟩
        · exact absurd ⟨c, hsame, rfl, hxc⟩ hold
        · rcases writes_reanalyze b with hsame | ⟨source, hsource, hprovisional⟩
          · exact hsame ▸ hxc
          · rw [hprovisional] at hxc
            rcases Names.mem_union.mp hxc with hkeeps | htext
            · obtain ⟨d, hd, hid, hxd⟩ := hbefore x hkeeps
              exact absurd ⟨d, hd, hid, hxd⟩ hold
            · rw [Cell.reanalyze_content, hsource]
              exact htext
      have hthen : ∀ i, k < i → i ≤ k + 1 → i = k + 1 := by omega
      refine .inr ⟨k, by omega, hedit, hold, ⟨c, hc, rfl, hexpected⟩, fun i hki hik => ?_, fun i hki hik => ?_⟩
      · exact hthen i hki hik ▸ ⟨c, hc, rfl, hxc⟩
      · obtain rfl : i = k := by omega
        exact hexport
    · obtain ⟨b, hb, hrevision, hwrites⟩ := hongoing.exists_mem hc
      have hid : b.id = c.id := congrArg (·.1) hrevision.symm
      rcases hwrites with hsame | ⟨names, hexports, hnew⟩
      · exact absurd ⟨b, hb, hid, hsame ▸ hxc⟩ hold
      · rw [hnew] at hxc
        exact absurd hxc (hexport names hexports)

/-- A result that is current and that a successful run has yielded is taken over with its exports. -/
lemma accepted_of_current (ht : e.Tidy) (hland : Lands e e' a) (hcurrent : Current e a)
    (hok : a.run.result = .ok exports) : ∃ p rest c, e.pass = some p ∧ e.arriving.Perm (a :: rest) ∧ c ∈ e.cells ∧
      c.id = a.cell ∧ e' = ((((e.resume p).deliver rest).landed a a.run.logs).accept c exports).suspend := by
  obtain ⟨p, rest, hp, hperm, rfl⟩ := hland
  obtain ⟨p', c, hp', hrerun, hcell, hversion⟩ := hcurrent
  cases hp.symm.trans hp'
  obtain ⟨hcm, hcid⟩ := (cell?_eq_some_iff ht.ids).mp hcell
  have hsettle : Stage.settle a.run = (.ok exports, a.run.logs) := by rw [Stage.settle, hok]
  refine ⟨p, rest, c, hp, hperm, hcm, hcid, ?_⟩
  rw [Stage.receive_accepted (addressee?_of_current ht hp hperm hcell hversion) hrerun hsettle]

/-- A variable that changes when the result of a successful run is taken over is exported by it; or it is cleared, no
cell counts as writing it any more, and the script has exported it before and maintained it until then; or another
cell that lies on a cycle now passes its fault on. Nothing is said of variables that the text of the script merely
lets expect. -/
theorem changed_by_successful_run (h : IsChronicle l n σ) (hm : m < n) (hland : Lands (σ m) (σ (m + 1)) a)
    (hcurrent : Current (σ m) a) (hok : a.run.result = .ok exports) (hmere : ∀ j, ¬ Anticipates σ m a.cell x j)
    (hx : (σ (m + 1)).get x ≠ (σ m).get x) :
    x ∈ exports.map (·.1) ∨
    ((σ (m + 1)).get x = .undefined ∧ (∀ d ∈ (σ (m + 1)).cells, x ∉ d.writes.names) ∧ Maintains σ m a.cell x) ∨
    ∃ d ∈ (σ (m + 1)).cells, d.id ≠ a.cell ∧ x ∈ d.writes.names ∧ (σ (m + 1)).graph.OnCycle d.id ∧
      ∃ path, (σ (m + 1)).get x = .error (.cycle d.id path) := by
  have ht := h.tidy hm.le
  obtain ⟨p, rest, c, hp, hperm, hc, hcid, heq⟩ := accepted_of_current ht hland hcurrent hok
  by_cases hexport : x ∈ exports.map (·.1)
  · exact .inl hexport
  refine .inr ?_
  have hstage : ((((σ m).resume p).deliver rest).landed a a.run.logs).Tidy :=
    ((ht.pass p hp).land hperm).keepLogs _ _
  have hfly : a.cell ∈ (σ m).inFlight.map (·.1) := flying_of_lands ht hland
  have hwait : c.id ∉ ((((σ m).resume p).deliver rest).landed a a.run.logs).pass.remaining := fun hw =>
    (ht.pass p hp).grounded c.id hw (hcid ▸ hfly)
  rw [heq] at hx ⊢
  rcases Stage.get_accept hstage hwait hexport with hsame | ⟨hnone, hxc, hfree⟩ | ⟨d, hd, hne, hxd, hcycle, hvalue⟩
  · exact absurd hsame hx
  · have hmaintains : Maintains σ m a.cell x :=
      (h.maintains_or_anticipates hm.le ⟨c, hc, hcid, hxc⟩).resolve_right fun ⟨j, hj⟩ => hmere j hj
    refine .inl ⟨hnone, fun d hd hxd => ?_, hmaintains⟩
    obtain ⟨b, hb, hcase⟩ := Stage.exists_mem_of_accept hd
    rcases hcase with ⟨hne, -, hwrites⟩ | ⟨-, -, hwrites⟩
    · exact isWrittenElsewhere_eq_false_iff.mp hfree b hb hne (hwrites ▸ hxd)
    · rw [hwrites] at hxd
      exact hexport (Names.mem_ofList.mp hxd)
  · exact .inr ⟨d, hd, hcid ▸ hne, hxd, hcycle, hvalue⟩

/-- The cell and the exported names, if the result at the given place is current and a successful run has yielded it. -/
def takesOver? (e : Engine) (i : ℕ) : Option (CellId × List String) := do
  let p ← e.pass
  let a ← e.arriving[i]?
  let c ← e.cell? a.cell
  let exports ← a.run.result.toOption
  if p.rerun.contains a.cell || c.version != a.version then none else some (a.cell, exports.map (·.1))

lemma exists_lands_of_deed? {i : ℕ} {names : List String} (h : e.deed? l (.act (.move (some i))) = some e')
    (hover : e.takesOver? i = some (id, names)) : ∃ a exports, Lands e e' a ∧ Current e a ∧ a.cell = id ∧
      a.run.result = .ok exports ∧ exports.map (·.1) = names := by
  obtain ⟨p, hp, hmove⟩ := Option.bind_eq_some_iff.mp h
  obtain ⟨s, hs, rfl⟩ := Option.map_eq_some_iff.mp hmove
  obtain ⟨a, ha, rfl⟩ := Option.map_eq_some_iff.mp hs
  simp only [takesOver?, bind, Option.bind_eq_some_iff] at hover
  obtain ⟨p', hp', a', ha', c, hc, exports, hok, hover⟩ := hover
  cases hp.symm.trans hp'
  cases ha.symm.trans ha'
  split at hover
  · cases hover
  · next hcurrent =>
    simp only [Bool.or_eq_true, Names.contains_iff, bne_iff_ne, ne_eq, not_or, not_not] at hcurrent
    cases hover
    refine ⟨a, exports, ⟨p, _, hp, Stage.perm_eraseIdx ha, rfl⟩, ⟨p, c, hp, hcurrent.1, hc, hcurrent.2⟩, rfl, ?_, rfl⟩
    cases hrun : a.run.result with
    | ok fields =>
      rw [hrun] at hok
      cases hok
      rfl
    | error failure =>
      rw [hrun] at hok
      cases hok

/-- The script exports `v` in its first run. Then the host writes `v`, and the script runs again and does not
export it. -/
def overwriting : List Deed :=
  [.act (.push ⟨"s", .script "if keep == 1 \x7b exports.v = 1; \x7d"⟩), .write "keep" (.int 1), .collect, .act .begin,
    .act (.move none), .act (.move (some 0)), .act .finish, .write "v" (.int 5), .collect, .write "keep" (.int 0),
    .collect, .act .begin, .act (.move none), .act (.move (some 0))]

def overwritten : ℕ → Engine := along (deed? (.ofConfig .standard)) (new .standard true) overwriting

/-- How the chronicle goes, as far as it can be computed. -/
lemma overwritten_trace :
    leads (deed? (.ofConfig .standard)) (new .standard true) overwriting = true ∧
    ((overwritten 5).takesOver? 0 = some ("s", ["v"]) ∧ (overwritten 13).takesOver? 0 = some ("s", [])) ∧
    (∀ i < 14, 5 < i → Counts (overwritten i) "s" "v") ∧
    ((overwritten 8).pass.isNone = true ∧ (overwritten 8).store.queue.isSettled (overwritten 8).clock.now
      (overwritten 8).config.settleWindow = true ∧ (overwritten 8).store.queue.pending.map (·.name) = ["v"]) ∧
    (∀ i < 14, 9 ≤ i → ((overwritten i).get "v").same (.value (.int 5)) = true) ∧
    ((overwritten 14).get "v").same .undefined = true := by
  decide +kernel

/-- The formula `f` is evaluated before the script `s` has run. The script has read the variable of the formula and
turns out to export what the formula reads. -/
def tying : List Deed :=
  [.act (.push ⟨"s", .script "let q = y; #\x7b x: 1 \x7d"⟩), .act (.push ⟨"f", .formula "x" "y"⟩), .act .begin,
    .act (.move none), .act (.move none), .act (.move (some 0))]

def tied : ℕ → Engine := along (deed? (.ofConfig .standard)) (new .standard true) tying

lemma tied_trace :
    leads (deed? (.ofConfig .standard)) (new .standard true) tying = true ∧
    (tied 5).takesOver? 0 = some ("s", ["x"]) ∧ (tied 4).inFlight = [] ∧
    (∀ i < 6, 4 ≤ i → ((tied i).get "y").same (.value .unit) = true) ∧ ((tied 6).get "y").isError = true := by
  decide +kernel

lemma lands_overwritten : ∃ a exports, Lands (overwritten 13) (overwritten 14) a ∧ Current (overwritten 13) a ∧
    a.cell = "s" ∧ a.run.result = .ok exports ∧ exports.map (·.1) = [] :=
  exists_lands_of_deed? (step_along overwritten_trace.1 rfl :
    (overwritten 13).deed? (.ofConfig .standard) (.act (.move (some 0))) = some (overwritten 14)) overwritten_trace.2.1.2

lemma maintains_overwritten : Maintains overwritten 13 "s" "v" := by
  obtain ⟨hleads, ⟨hover, -⟩, hcounts, -⟩ := overwritten_trace
  obtain ⟨a, exports, hland, hcurrent, hcell, hok, hnames⟩ := exists_lands_of_deed? (step_along hleads rfl :
    (overwritten 5).deed? (.ofConfig .standard) (.act (.move (some 0))) = some (overwritten 6)) hover
  refine ⟨5, by decide, ⟨_, ⟨a, exports, hland, hcurrent, hcell, hok, rfl⟩, ?_⟩, fun i hi hi' => ?_⟩
  · exact Names.mem_ofList.mpr (hnames ▸ List.mem_cons_self)
  · exact hcounts i (by omega) hi

lemma changed_overwritten : (overwritten 13).get "v" = .value (.int 5) ∧ (overwritten 14).get "v" = .undefined := by
  obtain ⟨-, -, -, -, hheld, hnone⟩ := overwritten_trace
  exact ⟨Slot.eq_of_same (hheld 13 (by decide) (by decide)), Slot.eq_of_same hnone⟩

/-- The value that the script clears has not been exported in that run. The script has exported the variable before,
and no cell counts as writing it afterwards. -/
theorem cleared_value_maintained :
    (overwritten 14).get "v" ≠ (overwritten 13).get "v" ∧ (∀ j, ¬ Anticipates overwritten 13 "s" "v" j) ∧
    (∀ d ∈ (overwritten 14).cells, "v" ∉ d.writes.names) ∧ Maintains overwritten 13 "s" "v" := by
  obtain ⟨a, exports, hland, hcurrent, hcell, hok, hnames⟩ := lands_overwritten
  have hchanged : (overwritten 14).get "v" ≠ (overwritten 13).get "v" := by
    rw [changed_overwritten.1, changed_overwritten.2]
    exact nofun
  have hmere : ∀ j, ¬ Anticipates overwritten 13 "s" "v" j := fun j => maintains_overwritten.not_anticipates
  have hchronicle : IsChronicle (.ofConfig .standard) 14 overwritten := isChronicle_along overwritten_trace.1
  refine ⟨hchanged, hmere, ?_⟩
  rcases changed_by_successful_run (m := 13) hchronicle (by decide) hland hcurrent hok (hcell ▸ hmere) hchanged with
    hexport | ⟨-, hfree, hmaintains⟩ | ⟨d, -, -, -, -, path, herror⟩
  · rw [hnames] at hexport
    cases hexport
  · exact ⟨hfree, hcell ▸ hmaintains⟩
  · cases changed_overwritten.2.symm.trans herror

/-- The result of a successful run clears a variable that it does not export and that the host has written last, and
the result of another one changes the variable of a formula, which held the value of the formula. -/
theorem values_of_others_changed :
    (IsChronicle (.ofConfig .standard) 14 overwritten ∧ Hosts (overwritten 8) (overwritten 9) "v" ∧
      (∀ i < 14, 9 ≤ i → (overwritten i).get "v" = .value (.int 5)) ∧ (overwritten 14).get "v" = .undefined ∧
      ∃ a exports, Lands (overwritten 13) (overwritten 14) a ∧ Current (overwritten 13) a ∧ a.cell = "s" ∧
        a.run.result = .ok exports ∧ "v" ∉ exports.map (·.1)) ∧
    (IsChronicle (.ofConfig .standard) 6 tied ∧ (tied 4).inFlight = [] ∧
      (∀ i < 6, 4 ≤ i → (tied i).get "y" = .value .unit) ∧ (tied 6).get "y" ≠ .value .unit ∧
      ∃ a exports, Lands (tied 5) (tied 6) a ∧ Current (tied 5) a ∧ a.cell = "s" ∧
        a.run.result = .ok exports ∧ "y" ∉ exports.map (·.1)) := by
  obtain ⟨hleads, -, -, ⟨hidle, hsettled, hpending⟩, hheld, hnone⟩ := overwritten_trace
  obtain ⟨htied, hover, hgrounded, hunit, herror⟩ := tied_trace
  constructor
  · obtain ⟨a, exports, hland, hcurrent, hcell, hok, hnames⟩ := lands_overwritten
    have hcollect : (overwritten 8).deed? (.ofConfig .standard) .collect = some (overwritten 9) := step_along hleads rfl
    refine ⟨isChronicle_along hleads, ⟨Option.isNone_iff_eq_none.mp hidle, hsettled, ?_, ?_⟩,
      fun i hi hi' => Slot.eq_of_same (hheld i hi hi'), Slot.eq_of_same hnone, a, exports, hland, hcurrent, hcell, hok, ?_⟩
    · exact List.mem_map.mp (hpending ▸ List.mem_cons_self)
    · simp only [deed?, hidle, if_true, Option.some.injEq] at hcollect
      exact hcollect.symm
    · simp [hnames]
  · obtain ⟨a, exports, hland, hcurrent, hcell, hok, hnames⟩ := exists_lands_of_deed?
      (step_along htied rfl : (tied 5).deed? (.ofConfig .standard) (.act (.move (some 0))) = some (tied 6)) hover
    refine ⟨isChronicle_along htied, hgrounded, fun i hi hi' => Slot.eq_of_same (hunit i hi hi'), fun hvalue => ?_,
      a, exports, hland, hcurrent, hcell, hok, by simp [hnames]⟩
    rw [hvalue] at herror
    cases herror

end Engine

end ReactiveNotebook
