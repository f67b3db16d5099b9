import ReactiveNotebook.Proofs.Scheduling.Due
import ReactiveNotebook.Proofs.Scheduling.Faithful

/-!
# Variables without a writer

Values are left behind by successes, by failures and by cells on cycles, and are cleared when a cell is removed,
renamed, or no longer exports them. A variable that holds something and that no cell counts as writing is an
orphan. No operation makes one, except that the host may write what it likes.
-/
namespace ReactiveNotebook

variable {l : Language}

namespace Engine

variable {e e' : Engine} {c d : Cell} {id : CellId} {x : String} {text : String}

/-- Some cell counts as writing the variable. -/
def Covered (e : Engine) (x : String) : Prop := ∃ c ∈ e.cells, x ∈ c.writes.names

/-- The variable holds something, and no cell counts as writing it. -/
def Orphan (e : Engine) (x : String) : Prop := e.get x ≠ .undefined ∧ ¬ e.Covered x

lemma covered_of_blank (h : e'.cells.map Cell.blank = e.cells.map Cell.blank) (hx : e.Covered x) : e'.Covered x := by
  obtain ⟨c, hc, hx⟩ := hx
  obtain ⟨d, hd, heq⟩ := List.mem_map.mp (h ▸ List.mem_map_of_mem hc : c.blank ∈ e'.cells.map Cell.blank)
  exact ⟨d, hd, (Cell.continues_of_blank heq).2 ▸ hx⟩

/-- What replaces only values of variables that cells count as writing makes no orphan. -/
lemma Orphan.of_blank (ho : e'.Orphan x) (h : e'.cells.map Cell.blank = e.cells.map Cell.blank)
    (hv : e'.get x = e.get x ∨ e.Covered x) : e.Orphan x := by
  have hx : ¬ e.Covered x := fun hx => ho.2 (covered_of_blank h hx)
  exact ⟨hv.resolve_right hx ▸ ho.1, hx⟩

/-- A cell whose text is edited gives up none of its names. -/
lemma Derived.writes_withText (h : Derived c) (hx : x ∈ c.writes.names) : x ∈
    (Cell.reanalyze { c with content := c.content.withText text, version := c.version + 1 }).writes.names :=
  mem_writes_withText hx <| by
    by_cases hscript : c.content.isScript = true
    · exact .inl hscript
    · exact .inr (h.writes (Bool.eq_false_iff.mpr hscript) ▸ hx)

/-- What was covered before an edit is covered after it, or cleared. -/
lemma Edit.covered (h : Edit e e') (hn : (e.cells.map (·.id)).Nodup) (hd : ∀ c ∈ e.cells, Derived c)
    (hx : e.Covered x) : e'.Covered x ∨ e'.get x = .undefined := by
  obtain ⟨c, hc, hx⟩ := hx
  cases h with
  | add h =>
    obtain ⟨hi, -, -, rfl⟩ := addCell_ok h
    exact .inl ⟨c, (List.mem_insertIdx hi).mpr (.inr hc), hx⟩
  | @remove id d e' h =>
    obtain ⟨b, hb, -, rfl⟩ := removeCell_ok h
    set t := rebuild { e with cells := e.cells.filter (·.id != id), seeds := e.seeds.filter (· != id) } with ht
    have hv : Vacates b.writes.names.toList id t (b.writes.names.toList.foldl (vacate true id) t) := vacates_foldl _
    by_cases hcid : c.id = id
    · obtain ⟨hbm, hbid⟩ := (cell?_eq_some_iff hn).mp hb
      obtain rfl : c = b := List.inj_on_of_nodup_map hn hc hbm (hcid.trans hbid.symm)
      cases hw : t.isWrittenElsewhere x id with
      | false => exact .inr (hv.clears x hx hw)
      | true =>
        obtain ⟨d, hd, hdx⟩ := List.any_eq_true.mp hw
        rw [Bool.and_eq_true] at hdx
        exact .inl ⟨d, hv.cells ▸ hd, Names.contains_iff.mp hdx.2⟩
    · exact .inl ⟨c, hv.cells ▸ List.mem_filter.mpr ⟨hc, by simpa using hcid⟩, hx⟩
  | @content id text e' h =>
    obtain ⟨b, -, ⟨-, rfl⟩ | ⟨-, rfl⟩⟩ := setContent_ok h
    · exact .inl ⟨c, hc, hx⟩
    · refine .inl ⟨_, List.mem_map_of_mem hc, ?_⟩
      dsimp only
      split
      · exact (hd c hc).writes_withText hx
      · exact hx
  | move h =>
    obtain ⟨old, b, ho, hb, hi, ⟨-, rfl⟩ | ⟨-, rfl⟩⟩ := moveCell_ok h
    · exact .inl ⟨c, hc, hx⟩
    · exact .inl ⟨c, (mem_move_iff hn ho hb hi).mpr hc, hx⟩
  | @rename id name e' h =>
    obtain ⟨b, old, hb, ho, -, ⟨-, rfl⟩ | ⟨-, rfl⟩⟩ := renameVariable_ok h
    · exact .inl ⟨c, hc, hx⟩
    · set t := (e.withOutput id name).seed id with ht
      have hv : Vacates [old] id t (vacate false id t old) := vacates_vacate
      by_cases hcid : c.id = id
      · obtain ⟨hbm, hbid⟩ := (cell?_eq_some_iff hn).mp hb
        obtain rfl : c = b := List.inj_on_of_nodup_map hn hc hbm (hcid.trans hbid.symm)
        rw [((hd c hc).confirmed ho).1] at hx
        have hxold : x ∈ [old] := Names.mem_ofList.mp hx
        cases hw : t.isWrittenElsewhere x id with
        | false => exact .inr (hv.clears x hxold hw)
        | true =>
          obtain ⟨d, hd, hdx⟩ := List.any_eq_true.mp hw
          rw [Bool.and_eq_true] at hdx
          exact .inl ⟨d, hv.cells ▸ hd, Names.contains_iff.mp hdx.2⟩
      · exact .inl ⟨c, hv.cells ▸ mem_modifyCell_of_ne hc hcid, hx⟩

/-- An edit makes no orphan. -/
lemma Orphan.of_edit (ho : e'.Orphan x) (h : Edit e e') (ht : e.Tidy) (hd : ∀ c ∈ e.cells, Derived c) :
    e.Orphan x := by
  refine ⟨?_, fun hx => ?_⟩
  · rcases h.effect ht.ids ht.graph with rfl | heffect
    · exact ho.1
    · rcases heffect.value x with hsame | hcleared
      · exact hsame ▸ ho.1
      · exact absurd hcleared.undefined ho.1
  · rcases h.covered ht.ids hd hx with hx | hnone
    · exact ho.2 hx
    · exact ho.1 hnone

end Engine

namespace Stage

open Engine (Covered Orphan)

variable {s s' t : Stage} {a : Arrival} {b c d : Cell} {id : CellId} {x name : String} {exports : Script.Fields}
variable {rest : List Arrival} {names : List String}

lemma orphan_of_start {i : ℕ} (hs : s.Tidy) (hd : ∀ c ∈ s.engine.cells, Engine.Derived c)
    (hrun : (s.withdraw i).runCell l id = .ok s') (ho : s'.engine.Orphan x) : s.engine.Orphan x := by
  cases turn_of_runCell hrun with
  | gone hc => exact ho
  | unchanged hc ht => exact ho
  | @evaluated c v hc ht hv =>
    obtain ⟨hcm, -⟩ := (Engine.cell?_eq_some_iff (e := s.engine) hs.ids).mp hc
    have hreplaces : Replaces (· ∈ c.writes.names) (s.withdraw i) ((s.withdraw i).conclude l c v) := by
      refine replaces_conclude fun output value heq => ?_
      rw [((hd c hcm).confirmed (Cell.output_of_verdict (heq ▸ hv))).1]
      exact Names.mem_ofList.mpr List.mem_cons_self
    have hkept : s.engine.Covered x → ((s.withdraw i).conclude l c v).engine.Covered x := by
      rintro ⟨b, hb, hx⟩
      rw [Covered, cells_conclude]
      by_cases hbc : b.id = c.id
      · exact ⟨_, mem_conclusion.mpr (.inr ⟨b, hb, hbc, rfl⟩), by rwa [Cell.writes_withVerdict]⟩
      · exact ⟨b, mem_conclusion.mpr (.inl ⟨hb, hbc⟩), hx⟩
    have hx : ¬ s.engine.Covered x := fun hx => ho.2 (hkept hx)
    have hget : ((s.withdraw i).conclude l c v).engine.get x = s.engine.get x :=
      hreplaces.get_eq fun hxc => hx ⟨c, hcm, hxc⟩
    exact ⟨hget ▸ ho.1, hx⟩

lemma isWrittenElsewhere_retract : (retract id s name).engine.isWrittenElsewhere = s.engine.isWrittenElsewhere := by
  funext x y
  rw [Engine.isWrittenElsewhere, cells_retract, Engine.isWrittenElsewhere]

/-- The names that a script drops are cleared, except those that other cells count as writing. -/
lemma get_foldl_retract : (names.foldl (retract id) s).engine.get x =
    if x ∈ names ∧ s.engine.isWrittenElsewhere x id = false then .undefined else s.engine.get x := by
  induction names generalizing s with
  | nil => simp
  | cons name names ih =>
    rw [List.foldl_cons, ih, isWrittenElsewhere_retract, get_retract]
    by_cases hx : x = name
    · subst hx
      by_cases hw : s.engine.isWrittenElsewhere x id = false <;> simp [hw]
    · simp [hx]

lemma get_foldl_export (hx : x ∉ exports.map (·.1)) :
    (exports.foldl (fun s p => s.commit p.1 (.value p.2)) s).engine.get x = s.engine.get x := by
  induction exports generalizing s with
  | nil => rfl
  | cons p exports ih =>
    simp only [List.map_cons, List.mem_cons, not_or] at hx
    rw [List.foldl_cons, ih hx.2, get_commit, if_neg hx.1]

/-- What is not exported keeps its value, unless it is dropped and no other cell counts as writing it. -/
lemma get_adopt_of_not_mem (hx : x ∉ exports.map (·.1)) : (s.adopt c exports).engine.get x =
    if x ∈ c.writes.names ∧ s.engine.isWrittenElsewhere x c.id = false then .undefined else s.engine.get x := by
  have hothers : (exports.foldl (fun s p => s.commit p.1 (.value p.2)) s).engine.isWrittenElsewhere x c.id =
      s.engine.isWrittenElsewhere x c.id := by
    rw [Engine.isWrittenElsewhere, cells_foldl fun _ _ => cells_commit, Engine.isWrittenElsewhere]
  have hdropped : x ∈ (c.writes.names.toList.filter fun name => !(Names.ofList (exports.map (·.1))).contains name) ↔
      x ∈ c.writes.names := by
    rw [List.mem_filter, Bool.not_eq_true', Names.contains_eq_false_iff, Names.mem_ofList, Names.mem_toList]
    exact and_iff_left hx
  change ((c.writes.names.toList.filter fun name => !(Names.ofList (exports.map (·.1))).contains name).foldl
    (retract c.id) (exports.foldl (fun s p => s.commit p.1 (.value p.2)) s)).engine.get x = _
  rw [get_foldl_retract, get_foldl_export hx, hothers]
  exact if_congr (and_congr_left' hdropped) rfl rfl

/-- Names that a script drops are cleared or covered by other cells, and what it exports it writes. -/
lemma orphan_of_adopt (hc : ∃ b ∈ s.engine.cells, b.id = c.id) (hw : ∀ b ∈ s.engine.cells, b.id = c.id → b.writes = c.writes)
    (ho : (s.adopt c exports).engine.Orphan x) : s.engine.Orphan x := by
  have hexport : x ∉ exports.map (·.1) := fun hx => by
    obtain ⟨b, hb, hbc⟩ := hc
    exact ho.2 ⟨_, mem_adopt exports hb hbc, Names.mem_ofList.mpr hx⟩
  have hothers : ∀ b ∈ s.engine.cells, b.id ≠ c.id → x ∉ b.writes.names := fun b hb hne hx =>
    ho.2 ⟨b, mem_adopt_of_ne exports hb hne, hx⟩
  have hvalue := ho.1
  simp only [get_adopt_of_not_mem hexport, Engine.isWrittenElsewhere_eq_false_iff] at hvalue
  split at hvalue
  · exact absurd rfl hvalue
  · next hkept =>
    refine ⟨hvalue, ?_⟩
    rintro ⟨b, hb, hx⟩
    by_cases hbc : b.id = c.id
    · exact hkept ⟨hw b hb hbc ▸ hx, hothers⟩
    · exact hothers b hb hbc hx

lemma orphan_of_accept (hs : s.Tidy) (hc : ∃ b ∈ s.engine.cells, b.id = c.id)
    (hw : ∀ b ∈ s.engine.cells, b.id = c.id → b.writes = c.writes) (ho : (s.accept c exports).engine.Orphan x) :
    s.engine.Orphan x := by
  rcases accept_cases s c exports with ⟨-, heq⟩ | heq
  · exact orphan_of_adopt hc hw (heq ▸ ho)
  · rw [heq] at ho
    have ht : (s.readopt c exports).Tidy := hs.rebuild_adopt
    have hreadopt : (s.readopt c exports).engine.Orphan x := by
      refine ho.of_blank cells_blank_extend ?_
      rcases (replaces_extend ht).value x with ⟨hsame, -⟩ | ⟨⟨b, hb, -, -, hx⟩, -⟩
      · exact .inl hsame
      · exact .inr ⟨b, hb, hx⟩
    exact orphan_of_adopt hc hw hreadopt

lemma orphan_of_receive (hs : s.Tidy) (hperm : s.engine.arriving.Perm (a :: rest))
    (ho : ((s.deliver rest).receive a).engine.Orphan x) : s.engine.Orphan x := by
  have hlanding := landing_receive (s.deliver rest) a
  generalize (s.deliver rest).receive a = t at hlanding ho
  have hlanded : ∀ logs, ((s.deliver rest).landed a logs).engine.Orphan x → s.engine.Orphan x := fun logs ho =>
    Orphan.of_blank (e := ((s.deliver rest).land a.cell).engine) ho (cells_blank_of_control control_keepLogs) (.inl rfl)
  cases hlanding with
  | stale _ =>
    unfold dismiss at ho
    dsimp only at ho
    split at ho <;> exact ho
  | again _ _ => exact ho
  | @failed c message logs hsome _ _ =>
    have hcells := cells_blank_of_control (control_failed (s.deliver rest) a c logs message)
    refine hlanded logs (ho.of_blank hcells ?_)
    rcases replaces_fail.value x with ⟨hsame, -⟩ | ⟨hx, -⟩
    · exact .inl hsame
    · have hcm : c ∈ s.engine.cells := List.mem_of_find?_eq_some (cell?_of_addressee? hsome)
      exact .inr (Engine.covered_of_blank (e := ((s.deliver rest).land a.cell).engine)
        (cells_blank_of_control control_keepLogs) ⟨c, hcm, hx⟩)
  | @accepted c exports logs hsome _ _ =>
    obtain ⟨hcm, hcid, -⟩ := flight_of_addressee? hs hperm hsome
    refine hlanded logs (orphan_of_accept ((hs.land hperm).keepLogs _ _) ⟨{ c with logs }, mem_landed hcm hcid, rfl⟩
      (fun b hb hbc => ?_) ho)
    obtain ⟨b', hb', hrevision, hwrites⟩ := exists_continues (t := (s.deliver rest).land a.cell) control_keepLogs hb
    have hbid : b.id = b'.id := congrArg (·.1) hrevision
    rw [hwrites, List.inj_on_of_nodup_map hs.ids hb' hcm (hbid.symm.trans hbc)]

end Stage

namespace Engine

variable {e e' : Engine} {c : Cell} {x : String} {σ : ℕ → Engine} {n k : ℕ}

/-- The step takes over a burst of host writes, of which one is to the variable. -/
def Hosts (e e' : Engine) (x : String) : Prop :=
  e.pass = none ∧ e.store.queue.isSettled e.clock.now e.config.settleWindow = true ∧
    (∃ w ∈ e.store.queue.pending, w.name = x) ∧ e' = e.collect

/-- Variables that are not written are left alone. -/
lemma get_foldl_takeWrite_of_not_mem {ws : List PendingWrite} (h : ∀ w ∈ ws, w.name ≠ x) :
    (ws.foldl takeWrite e).get x = e.get x := by
  induction ws generalizing e with
  | nil => rfl
  | cons w ws ih =>
    rw [List.foldl_cons, ih fun v hv => h v (List.mem_cons_of_mem _ hv), get_takeWrite,
      if_neg fun heq => h w List.mem_cons_self heq.symm]

lemma get_collect_or_hosts (x : String) (hp : e.pass = none) : e.collect.get x = e.get x ∨ Hosts e e.collect x := by
  by_cases hq : e.store.queue.isSettled e.clock.now e.config.settleWindow = true
  · by_cases hw : ∃ w ∈ e.store.queue.pending, w.name = x
    · exact .inr ⟨hp, hq, hw, rfl⟩
    · refine .inl ?_
      unfold Engine.collect
      rw [if_pos hq]
      exact get_foldl_takeWrite_of_not_mem fun w hwm hwx => hw ⟨w, hwm, hwx⟩
  · rw [collect_of_not_settled (by simpa using hq)]
    exact .inl rfl

/-- An orphan was one before the operation, unless the host has just written it. -/
theorem Orphan.of_operation (ho : e'.Orphan x) (h : Operation l e e') (ht : e.Tidy) (hd : ∀ c ∈ e.cells, Derived c) :
    e.Orphan x ∨ Hosts e e' x := by
  cases h with
  | edit h => exact .inl (ho.of_edit h ht hd)
  | host h _ =>
    have hcovered : e'.Covered x ↔ e.Covered x := by rw [Covered, h.cells_eq, Covered]
    exact .inl ⟨h.get_eq x ▸ ho.1, fun hx => ho.2 (hcovered.mpr hx)⟩
  | seedAll => exact .inl ho
  | schedule h =>
    cases h with
    | collect hp =>
      rcases get_collect_or_hosts x hp with hsame | hhosts
      · refine .inl ⟨hsame ▸ ho.1, fun hx => ho.2 ?_⟩
        rwa [Covered, cells_collect]
      · exact .inr hhosts
    | begin hp =>
      have hblock : e.openPass.engine.Orphan x := by
        have hcells := Stage.cells_blank_of_control (control_blockCycles e)
        have hmarked : e.blockCycles.engine.Orphan x := ho
        refine hmarked.of_blank hcells ?_
        rcases (replaces_beginPass ht).value x with ⟨hsame, -⟩ | ⟨⟨c, hc, -, -, hx⟩, -⟩
        · exact .inl hsame
        · exact .inr ⟨c, hc, hx⟩
      exact .inl hblock
    | @move p s hp hm =>
      have hs := ht.pass p hp
      cases hm with
      | start _ _ _ hrun => exact .inl (Stage.orphan_of_start hs hd hrun ho)
      | receive hperm => exact .inl (Stage.orphan_of_receive hs hperm ho)
    | finish _ _ _ => exact .inl ho

lemma IsChronicle.orphan_hosted (h : IsChronicle l n σ) (hret : NoReturn n σ) (hk : k ≤ n) (ho : (σ k).Orphan x) :
    ∃ j < k, Hosts (σ j) (σ (j + 1)) x := by
  induction k with
  | zero =>
    obtain ⟨config, manual, hstart⟩ := h.start
    rw [hstart] at ho
    exact absurd rfl ho.1
  | succ k ih =>
    have hk' : k ≤ n := by omega
    rcases ho.of_operation (h.step k hk) (h.tidy hk') (h.derived hret hk') with ho | hhosts
    · obtain ⟨j, hj, hhosts⟩ := ih hk' ho
      exact ⟨j, by omega, hhosts⟩
    · exact ⟨k, by omega, hhosts⟩

/-- At every moment a variable that holds something is written by a cell, or the host has written it. -/
theorem covered_or_hosted (h : IsChronicle l n σ) (hret : NoReturn n σ) (hk : k ≤ n) (hx : (σ k).get x ≠ .undefined) :
    (∃ c ∈ (σ k).cells, x ∈ c.writes.names) ∨ ∃ j < k, Hosts (σ j) (σ (j + 1)) x := by
  by_cases hcovered : (σ k).Covered x
  · exact .inl hcovered
  · exact .inr (h.orphan_hosted hret hk ⟨hx, hcovered⟩)

/-- The host writes `v`, and a script fails that should have written `w`. Then the script is edited so that it no
longer mentions `w`. -/
def leaving : List Deed :=
  [.write "v" (.int 5), .collect, .act (.push ⟨"s", .script "exports.w = 1; throw 1;"⟩), .act .begin,
    .act (.move none), .act (.move (some 0)), .act .finish, .act (.content "s" "exports.z = 1;")]

def leftBehind : ℕ → Engine := along (deed? (.ofConfig .standard)) (new .standard true) leaving

/-- How the chronicle goes, as far as it can be computed. -/
lemma leftBehind_trace :
    leads (deed? (.ofConfig .standard)) (new .standard true) leaving = true ∧
    (∀ k < 8, (leftBehind k).pass.isNone = true ∨
      ((leftBehind (k + 1)).cells.all fun c => (leftBehind k).hasCell c.id) = true) ∧
    ((leftBehind 8).get "v").isUndefined = false ∧ ((leftBehind 8).get "w").isUndefined = false := by
  decide +kernel

lemma ne_undefined_of_isUndefined {slot : Slot} (h : slot.isUndefined = false) : slot ≠ .undefined := by
  rintro rfl
  cases h

/-- What was left behind is written by the script or has been written by the host. -/
theorem leftBehind_covered_or_hosted : NoReturn 8 leftBehind ∧
    ∀ x ∈ ["v", "w"], (leftBehind 8).get x ≠ .undefined ∧
      ((∃ c ∈ (leftBehind 8).cells, x ∈ c.writes.names) ∨ ∃ j < 8, Hosts (leftBehind j) (leftBehind (j + 1)) x) := by
  obtain ⟨hleads, hidle, hv, hw⟩ := leftBehind_trace
  have hret : NoReturn 8 leftBehind := noReturn_of_idle hidle
  refine ⟨hret, fun x hx => ?_⟩
  have hheld : (leftBehind 8).get x ≠ .undefined := by
    rcases List.mem_pair.mp hx with rfl | rfl
    · exact ne_undefined_of_isUndefined hv
    · exact ne_undefined_of_isUndefined hw
  exact ⟨hheld, covered_or_hosted (isChronicle_along hleads) hret le_rfl hheld⟩

end Engine

end ReactiveNotebook
