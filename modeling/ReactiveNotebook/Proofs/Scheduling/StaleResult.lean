import ReactiveNotebook.Proofs.Engine.Cells
import ReactiveNotebook.Proofs.Engine.Revision
import ReactiveNotebook.Proofs.Engine.Tick
import ReactiveNotebook.Script.Run

/-!
# Stale results of scripts

A result that arrives is taken over exactly if its cell has the version that was dispatched and is not to
run again; otherwise it changes no variable and no cell. The version speaks for the text only while the cell
stays in the notebook. A cell that is added under the id of a removed one counts from zero again, and the
result of the removed script is taken for its own.
-/
namespace ReactiveNotebook

open Relation (ReflTransGen)

variable {l : Language}

namespace Engine

variable {e e' : Engine} {a : Arrival} {c : Cell} {source : String}

/-- A run of `n` steps. -/
structure IsRun (l : Language) (n : ℕ) (σ : ℕ → Engine) : Prop where
  reachable : Reachable l (σ 0)
  step : ∀ k < n, Step l (σ k) (σ (k + 1))

/-- The result `a` of running the text of a script cell is under way after the step. -/
def Dispatches (l : Language) (e e' : Engine) (source : String) (a : Arrival) : Prop :=
  ∃ c ∈ e.cells, c.content = .script source ∧ c.id = a.cell ∧ c.version = a.version ∧
    (∃ inputs, a.run = l.run source inputs e.storage) ∧ e'.arriving = e.arriving ++ [a]

/-- The step is the arrival of the result `a`. -/
def Lands (e e' : Engine) (a : Arrival) : Prop :=
  ∃ p rest, e.pass = some p ∧ e.arriving.Perm (a :: rest) ∧
    e' = (((e.resume p).deliver rest).receive a).suspend

/-- The cell has the version that was dispatched, and its inputs have not changed meanwhile. -/
def Current (e : Engine) (a : Arrival) : Prop :=
  ∃ p c, e.pass = some p ∧ a.cell ∉ p.rerun ∧ e.cell? a.cell = some c ∧ c.version = a.version

/-- The cell shows the result: the printed lines, and either what was exported or the failure. -/
def Shows (e : Engine) (a : Arrival) : Prop :=
  ∃ c ∈ e.cells, c.id = a.cell ∧ c.logs = (Stage.settle a.run).2 ∧
    match (Stage.settle a.run).1 with
    | .ok exports => c.status = .ok ∧ c.writes = .confirmed (Names.ofList (exports.map (·.1)))
    | .error message => c.status = .failed (.execution a.cell message)

lemma IsRun.reachable_of_le {σ : ℕ → Engine} {n k : ℕ} (h : IsRun l n σ) (hk : k ≤ n) :
    Reachable l (σ k) := by
  induction k with
  | zero => exact h.reachable
  | succ k ih =>
    obtain ⟨config, manual, hsteps⟩ := ih (by omega)
    exact ⟨config, manual, hsteps.tail (h.step k hk)⟩

/-- While a cell stays in the notebook, each moment of a run has a cell that descends from it. -/
lemma IsRun.exists_descends {σ : ℕ → Engine} {n k m : ℕ} (h : IsRun l n σ) (hc : c ∈ (σ k).cells)
    (hkm : k ≤ m) (hm : m ≤ n) (hstay : ∀ j, k ≤ j → j ≤ m → (σ j).hasCell c.id = true) :
    ∃ c' ∈ (σ m).cells, Descends c c' := by
  induction m, hkm using Nat.le_induction with
  | base => exact ⟨c, hc, rfl, .inl ⟨rfl, rfl⟩⟩
  | succ m hkm ih =>
    obtain ⟨c', hc', hdesc⟩ := ih (by omega) fun j hkj hj => hstay j hkj (by omega)
    have hids := (h.reachable_of_le (by omega : m ≤ n)).tidy.ids
    have hstay' : c'.id ∈ (σ (m + 1)).cells.map (·.id) := by
      rw [hdesc.1]
      exact hasCell_iff.mp (hstay (m + 1) (by omega) le_rfl)
    obtain ⟨c'', hc'', hdesc'⟩ := (h.step m (by omega)).descends hids hc' hstay'
    exact ⟨c'', hc'', hdesc.trans hdesc'⟩

/-- A result that is current is addressed to its cell. -/
lemma addressee?_of_current {p : Pass} {rest : List Arrival} (ht : e.Tidy) (hp : e.pass = some p)
    (hperm : e.arriving.Perm (a :: rest)) (hcell : e.cell? a.cell = some c) (hversion : c.version = a.version) :
    ((e.resume p).deliver rest).addressee? a = some c := by
  have hfind := (ht.pass p hp).find?_inFlight (hperm.mem_iff.mpr List.mem_cons_self)
  refine Option.filter_eq_some_iff.mpr ⟨hcell, ?_⟩
  change (((e.inFlight.find? (·.1 == a.cell)).map (·.2) == some a.version) && (c.version == a.version)) = true
  rw [show e.inFlight.find? (·.1 == a.cell) = some (a.cell, a.version) from hfind]
  simpa using hversion

/-- A result that is current is shown. -/
lemma shows_of_current (ht : e.Tidy) (hl : Lands e e' a) (hcurrent : Current e a) : Shows e' a := by
  obtain ⟨p, rest, hp, hperm, rfl⟩ := hl
  obtain ⟨p', c, hp', hrerun, hcell, hversion⟩ := hcurrent
  cases hp.symm.trans hp'
  have hstage := ht.pass p hp
  have ha : a ∈ e.arriving := hperm.mem_iff.mpr List.mem_cons_self
  have hfind := hstage.find?_inFlight ha
  have hadd := addressee?_of_current ht hp hperm hcell hversion
  have hcid : c.id = a.cell := ((cell?_eq_some_iff ht.ids).mp hcell).2
  have hcm : c ∈ e.cells := ((cell?_eq_some_iff ht.ids).mp hcell).1
  have hfly : a.cell ∈ (e.resume p).flying :=
    List.mem_map_of_mem (f := (·.1)) (List.mem_of_find?_eq_some hfind)
  have hwait : a.cell ∉ p.remaining := fun hm => hstage.grounded _ hm hfly
  have hlanding := Stage.landing_receive ((e.resume p).deliver rest) a
  generalize ((e.resume p).deliver rest).receive a = t at hlanding
  cases hlanding with
  | stale hnone => rw [hadd] at hnone; cases hnone
  | again _ hr => exact absurd hr hrerun
  | @failed c' message logs hsome _ hs =>
    cases hadd.symm.trans hsome
    have hkept : { c with logs := logs } ∈
        ((((e.resume p).deliver rest).land a.cell).keepLogs a.cell logs).engine.cells := by
      rw [← hcid]
      exact Stage.mem_modifyCell hcm
    obtain ⟨c', hc', hid, hlogs, hstatus⟩ := Stage.mem_fail hkept rfl
    refine ⟨c', hc', hid.trans hcid, ?_, ?_⟩
    · rw [hlogs, hs]
    · rw [hs]
      exact hstatus
  | @accepted c' exports logs hsome _ hs =>
    cases hadd.symm.trans hsome
    have hkept : { c with logs := logs } ∈
        ((((e.resume p).deliver rest).land a.cell).keepLogs a.cell logs).engine.cells := by
      rw [← hcid]
      exact Stage.mem_modifyCell hcm
    refine ⟨_, Stage.mem_accept hkept rfl (hcid ▸ hwait), hcid, ?_, ?_⟩
    · rw [hs]
    · rw [hs]
      exact ⟨rfl, rfl⟩

/-- A result that is not current changes no variable and no cell. -/
lemma unchanged_of_not_current (hl : Lands e e' a) (hstale : ¬ Current e a) :
    e'.store = e.store ∧ e'.cells = e.cells := by
  obtain ⟨p, rest, hp, hperm, rfl⟩ := hl
  have hlanding := Stage.landing_receive ((e.resume p).deliver rest) a
  generalize ((e.resume p).deliver rest).receive a = t at hlanding
  cases hlanding with
  | stale _ =>
    simp only [Stage.dismiss]
    split <;> exact ⟨rfl, rfl⟩
  | again _ _ => exact ⟨rfl, rfl⟩
  | failed hsome hr _ =>
    exact absurd ⟨p, _, hp, hr, Stage.cell?_of_addressee? hsome, Stage.version_of_addressee? hsome⟩ hstale
  | accepted hsome hr _ =>
    exact absurd ⟨p, _, hp, hr, Stage.cell?_of_addressee? hsome, Stage.version_of_addressee? hsome⟩ hstale

/-- Along every run a result is shown exactly if it is current, and otherwise changes nothing. If its cell has
been in the notebook at every moment since the dispatch, a current result is one of the very text that the
cell holds. -/
theorem result_taken_over_iff_current {σ : ℕ → Engine} {n k m : ℕ} (hrun : IsRun l n σ) (hkm : k < m)
    (hmn : m < n) (hdispatch : Dispatches l (σ k) (σ (k + 1)) source a)
    (hland : Lands (σ m) (σ (m + 1)) a) :
    (Current (σ m) a → Shows (σ (m + 1)) a) ∧
      (¬ Current (σ m) a → (σ (m + 1)).store = (σ m).store ∧ (σ (m + 1)).cells = (σ m).cells) ∧
      ((∀ j, k ≤ j → j ≤ m → (σ j).hasCell a.cell = true) → Current (σ m) a →
        ∃ c, (σ m).cell? a.cell = some c ∧ c.content = .script source) := by
  have ht := (hrun.reachable_of_le hmn.le).tidy
  refine ⟨shows_of_current ht hland, unchanged_of_not_current hland, fun hstay hcurrent => ?_⟩
  obtain ⟨c, hc, hcontent, hid, hversion, -, -⟩ := hdispatch
  obtain ⟨p, d, -, -, hcell, hd⟩ := hcurrent
  obtain ⟨c', hc', hid', hdesc⟩ := hrun.exists_descends hc hkm.le hmn.le (hid ▸ hstay)
  obtain ⟨hdm, hdid⟩ := (cell?_eq_some_iff ht.ids).mp hcell
  have hdc : d = c' := List.inj_on_of_nodup_map ht.ids hdm hc' (hdid.trans (hid'.trans hid).symm)
  refine ⟨d, hcell, ?_⟩
  rcases hdesc with ⟨hsame, -⟩ | hlt
  · rw [hdc, hsame, hcontent]
  · rw [← hdc, hd, hversion] at hlt
    exact absurd hlt (lt_irrefl _)

/-- A language in which a script exports the number one under each name that its text lets expect. -/
def exportingEstimate : Language where
  evaluate _ _ := .ok .unit
  run source _ storage := ⟨.ok ((Analysis.exportEstimate source).toList.map fun name => (name, .int 1)), [], storage, 0⟩
  refusal? _ := none

/-- A notebook whose only cell is a script. -/
def oneScript : Engine :=
  ((new .standard true).pushCell ⟨"s", .script "exports.x = 1;"⟩).toOption.getD (new .standard true)

/-- A notebook of two scripts, which may run side by side. -/
def scriptPair : Engine :=
  (alone.pushCell ⟨"t", .script "exports.y = 1;"⟩).toOption.getD alone
where
  empty : Engine := new { Config.standard with parallelScripts := true } true
  alone : Engine := (empty.pushCell ⟨"s", .script "exports.x = 1;"⟩).toOption.getD empty

/-- Both scripts are dispatched, the first one is edited, and then the results arrive in the order of dispatch. -/
def editedInFlight : ℕ → Engine
  | 0 => scriptPair
  | 1 => begun.suspend
  | 2 => first.suspend
  | 3 => second.suspend
  | 4 => edited
  | 5 => dropped.suspend
  | _ => ((dropped.deliver []).receive (arrival "t" "exports.y = 1;")).suspend
where
  arrival (id source : String) : Arrival := ⟨id, 0, exportingEstimate.run source [] [], 0⟩
  begun : Stage := scriptPair.beginPass
  first : Stage := (begun.withdraw 0).launch exportingEstimate
    (.ofDefinition ⟨"s", .script "exports.x = 1;"⟩) "exports.x = 1;" []
  second : Stage := (first.withdraw 0).launch exportingEstimate
    (.ofDefinition ⟨"t", .script "exports.y = 1;"⟩) "exports.y = 1;" []
  edited : Engine := (second.suspend.setContent "s" "exports.x = 2;").toOption.getD second.suspend
  dropped : Stage := ((edited.resume second.pass).deliver [arrival "t" "exports.y = 1;"]).receive (arrival "s" "exports.x = 1;")

open editedInFlight in
lemma isRun_editedInFlight : IsRun exportingEstimate 6 editedInFlight where
  reachable := by
    have hs : scriptPair.empty.addCell ⟨"s", .script "exports.x = 1;"⟩ 0 = .ok scriptPair.alone := rfl
    have ht : scriptPair.alone.addCell ⟨"t", .script "exports.y = 1;"⟩ 1 = .ok scriptPair := rfl
    exact ⟨_, true, (Relation.ReflTransGen.single (.edit (.add hs))).tail (.edit (.add ht))⟩
  step k hk := by
    have hnext : begun.next? = some 0 ∧ first.next? = some 0 := by decide +kernel
    have hwaits : begun.pass.remaining[0]? = some "s" ∧ first.pass.remaining[0]? = some "t" := by decide +kernel
    interval_cases k
    · exact .begin rfl
    · have hs : (begun.withdraw 0).dispatch exportingEstimate (.ofDefinition ⟨"s", .script "exports.x = 1;"⟩)
          "exports.x = 1;" [] = .ok first := Stage.dispatch_eq_launch (by decide +kernel) rfl
      exact .move rfl (.start (.inl rfl) hnext.1 hwaits.1 hs)
    · have ht : (first.withdraw 0).dispatch exportingEstimate (.ofDefinition ⟨"t", .script "exports.y = 1;"⟩)
          "exports.y = 1;" [] = .ok second := Stage.dispatch_eq_launch (by decide +kernel) rfl
      exact .move rfl (.start (.inl rfl) hnext.2 hwaits.2 ht)
    · have hedit : second.suspend.setContent "s" "exports.x = 2;" = .ok edited := rfl
      exact .edit (.content hedit)
    · exact .move rfl (.receive .rfl)
    · exact .move rfl (.receive .rfl)

open editedInFlight in
/-- The result of the script that was edited changes nothing, and that of the other one is taken over. -/
theorem result_of_edited_script_dropped :
    ((editedInFlight 5).store = (editedInFlight 4).store ∧ (editedInFlight 5).cells = (editedInFlight 4).cells) ∧
      Shows (editedInFlight 6) (arrival "t" "exports.y = 1;") ∧
      ∃ c, (editedInFlight 5).cell? "t" = some c ∧ c.content = .script "exports.y = 1;" := by
  have hdispatch : Dispatches exportingEstimate (editedInFlight 1) (editedInFlight 2) "exports.x = 1;"
      (arrival "s" "exports.x = 1;") :=
    ⟨.ofDefinition ⟨"s", .script "exports.x = 1;"⟩, List.mem_cons_self, rfl, rfl, rfl, ⟨[], rfl⟩, rfl⟩
  have hdispatch' : Dispatches exportingEstimate (editedInFlight 2) (editedInFlight 3) "exports.y = 1;"
      (arrival "t" "exports.y = 1;") :=
    ⟨.ofDefinition ⟨"t", .script "exports.y = 1;"⟩, List.mem_cons_of_mem _ List.mem_cons_self, rfl, rfl, rfl,
      ⟨[], rfl⟩, rfl⟩
  have hland : Lands (editedInFlight 4) (editedInFlight 5) (arrival "s" "exports.x = 1;") :=
    ⟨_, [arrival "t" "exports.y = 1;"], rfl, .rfl, rfl⟩
  have hland' : Lands (editedInFlight 5) (editedInFlight 6) (arrival "t" "exports.y = 1;") := ⟨_, [], rfl, .rfl, rfl⟩
  have hstale : ¬ Current (editedInFlight 4) (arrival "s" "exports.x = 1;") := by
    rintro ⟨p, c, -, -, hc, hversion⟩
    have hedited : ((editedInFlight 4).cell? "s").map (·.version) = some 1 := by decide +kernel
    rw [show (editedInFlight 4).cell? "s" = some c from hc, Option.map_some, hversion] at hedited
    cases hedited
  have hcurrent : Current (editedInFlight 5) (arrival "t" "exports.y = 1;") :=
    ⟨_, .ofDefinition ⟨"t", .script "exports.y = 1;"⟩, rfl, Names.not_mem_empty _, rfl, rfl⟩
  obtain ⟨-, hdropped, -⟩ :=
    result_taken_over_iff_current isRun_editedInFlight (by decide : 1 < 4) (by decide : 4 < 6) hdispatch hland
  obtain ⟨hshows, -, hsame⟩ :=
    result_taken_over_iff_current isRun_editedInFlight (by decide : 2 < 5) (by decide : 5 < 6) hdispatch' hland'
  refine ⟨hdropped hstale, hshows hcurrent, hsame (fun j hj hj' => ?_) hcurrent⟩
  interval_cases j <;> rfl

/-- A script is dispatched, then removed, and an input cell is added under its id before the result arrives. -/
def replacedInFlight (l : Language) : Option Engine := do
  let (e, _) ← (oneScript.tick l).toOption
  let (e, _) ← (e.removeCell "s").toOption
  let e ← (e.pushCell ⟨"s", .input "5" "y"⟩).toOption
  let (e, _) ← (e.runUntilIdle l).toOption
  return e

/-- The result of the removed script is committed all the same, and the input cell is taken for its writer. -/
theorem replaced_cell_takes_over_result :
    ((replacedInFlight (.ofConfig .standard)).map fun e =>
      ((e.get "x").isUndefined, (e.cell? "s").map fun c => (c.content, c.writes))) =
      some (false, some (.input "5" "y", .confirmed (Names.ofList ["x"]))) := by
  decide +kernel

end Engine

end ReactiveNotebook
