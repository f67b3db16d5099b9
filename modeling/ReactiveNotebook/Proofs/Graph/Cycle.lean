import Mathlib.Data.List.TakeWhile
import ReactiveNotebook.Proofs.Graph.ShortestReturn

/-!
# Which cells are found on cycles

A closed walk is recorded for a cell exactly if the cell lies on a cycle, and it is a circuit through the cell.
The depth-first search finds some cycle if there is one: without an edge back into its path, the cells are
finished after all their neighbours, so there is none. The breadth-first search from a cell reaches it again if
it lies on a cycle.
-/
namespace ReactiveNotebook.Graph

open Relation (ReflTransGen TransGen)

variable {next : CellId → List CellId} {ids : List CellId} {x y id start : CellId} {fuel : ℕ}

namespace Search

variable {s t : Search}

/-- What a visit does with one neighbour of the cell at the head of the path. -/
def look (next : CellId → List CellId) (fuel : ℕ) (s : Search) (other : CellId) : Search :=
  if s.path.contains other then { s with found := closedWalk s.path other :: s.found }
  else if s.finished.contains other then s
  else visit next fuel other s

def root (next : CellId → List CellId) (fuel : ℕ) (s : Search) (id : CellId) : Search :=
  if s.finished.contains id then s else visit next fuel id s

/-- The search after all neighbours of a cell have been looked at. -/
def inside (next : CellId → List CellId) (fuel : ℕ) (id : CellId) (s : Search) : Search :=
  (next id).foldl (look next fuel) { s with path := id :: s.path }

lemma visit_succ (next : CellId → List CellId) (fuel : ℕ) (id : CellId) (s : Search) :
    visit next (fuel + 1) id s =
      { inside next fuel id s with
        path := (inside next fuel id s).path.drop 1, finished := id :: (inside next fuel id s).finished } :=
  rfl

lemma path_foldl {f : Search → CellId → Search} (hf : ∀ s x, (f s x).path = s.path) (xs : List CellId)
    (s : Search) : (xs.foldl f s).path = s.path := by
  induction xs generalizing s with
  | nil => rfl
  | cons x xs ih => rw [List.foldl_cons, ih, hf]

/-- A visit leaves the path as it was. -/
@[simp] lemma path_visit (next : CellId → List CellId) (fuel : ℕ) (id : CellId) (s : Search) :
    (visit next fuel id s).path = s.path := by
  induction fuel generalizing id s with
  | zero => rfl
  | succ fuel ih =>
    have hlook : ∀ s x, (look next fuel s x).path = s.path := by
      intro s x
      unfold look
      split
      · rfl
      · split
        · rfl
        · exact ih x s
    rw [visit_succ]
    simp only [inside, path_foldl hlook, List.drop_one, List.tail_cons]

@[simp] lemma path_look (next : CellId → List CellId) (fuel : ℕ) (s : Search) (x : CellId) :
    (look next fuel s x).path = s.path := by
  unfold look
  split
  · rfl
  · split
    · rfl
    · exact path_visit ..

/-- Every finished cell was finished after all its neighbours. -/
def Layered (next : CellId → List CellId) : List CellId → Prop
  | [] => True
  | x :: rest => (∀ y ∈ next x, y ∈ rest) ∧ Layered next rest

lemma Layered.closed {finished : List CellId} (h : Layered next finished) (hx : x ∈ finished)
    (hxy : ReflTransGen (Next next) x y) : y ∈ finished := by
  have hstep : ∀ {fin : List CellId}, Layered next fin → ∀ a ∈ fin, ∀ b ∈ next a, b ∈ fin := by
    intro fin
    induction fin with
    | nil => intro _ a ha; cases ha
    | cons c rest ih =>
      intro h a ha b hb
      rcases List.mem_cons.mp ha with rfl | ha
      · exact List.mem_cons_of_mem _ (h.1 b hb)
      · exact List.mem_cons_of_mem _ (ih h.2 a ha b hb)
  induction hxy with
  | refl => exact hx
  | tail _ hbc ih => exact hstep h _ ih _ hbc

lemma Layered.not_transGen {finished : List CellId} (h : Layered next finished) (hx : x ∈ finished) :
    ¬ TransGen (Next next) x x := by
  induction finished with
  | nil => cases hx
  | cons a rest ih =>
    by_cases hrest : x ∈ rest
    · exact ih h.2 hrest
    · intro hcycle
      rcases List.mem_cons.mp hx with rfl | hx
      · obtain ⟨b, hb, hbx⟩ := TransGen.head'_iff.mp hcycle
        exact hrest (h.2.closed (h.1 b hb) hbx)
      · exact hrest hx

/-- As long as no cycle has been found, the later search has finished more cells, after their neighbours. -/
structure Extends (next : CellId → List CellId) (s t : Search) : Prop where
  found : t.found = [] → s.found = []
  finished : t.found = [] → ∀ x ∈ s.finished, x ∈ t.finished
  layered : t.found = [] → Layered next s.finished → Layered next t.finished

@[refl] lemma Extends.refl (s : Search) : Extends next s s := ⟨id, fun _ _ h => h, fun _ h => h⟩

lemma Extends.trans {u : Search} (h : Extends next s t) (h' : Extends next t u) : Extends next s u where
  found hu := h.found (h'.found hu)
  finished hu x hx := h'.finished hu x (h.finished (h'.found hu) x hx)
  layered hu hs := h'.layered hu (h.layered (h'.found hu) hs)

/-- With enough fuel a visit finishes its cell, unless a cycle is found. -/
lemma visit_finishes (hnext : ∀ x, ∀ y ∈ next x, y ∈ ids) (hid : id ∈ ids) (hids : ∀ x ∈ s.path, x ∈ ids)
    (hpath : (id :: s.path).Nodup) (hfuel : ids.length < fuel + s.path.length) :
    Extends next s (visit next fuel id s) ∧
      ((visit next fuel id s).found = [] → id ∈ (visit next fuel id s).finished) := by
  induction fuel generalizing id s with
  | zero =>
    have hsub : s.path ⊆ ids := fun x hx => hids x hx
    have hlen := (hpath.of_cons.subperm hsub).length_le
    omega
  | succ fuel ih =>
    have hlook : ∀ (xs : List CellId) (t : Search), t.path = id :: s.path → (∀ y ∈ xs, y ∈ ids) →
        Extends next t (xs.foldl (look next fuel) t) ∧
          ((xs.foldl (look next fuel) t).found = [] →
            ∀ y ∈ xs, y ∈ (xs.foldl (look next fuel) t).finished) := by
      intro xs
      induction xs with
      | nil => exact fun t _ _ => ⟨.refl t, fun _ y hy => by cases hy⟩
      | cons y ys ihs =>
        intro t ht hys
        have hone : Extends next t (look next fuel t y) ∧
            ((look next fuel t y).found = [] → y ∈ (look next fuel t y).finished) := by
          unfold look
          split
          · refine ⟨⟨fun h => ?_, fun h => ?_, fun h => ?_⟩, fun h => ?_⟩ <;> cases h
          · next hout =>
            split
            · next hfin => exact ⟨.refl t, fun _ => by simpa using hfin⟩
            · refine ih (hys y List.mem_cons_self) ?_ ?_ ?_
              · rw [ht]
                intro x hx
                rcases List.mem_cons.mp hx with rfl | hx
                · exact hid
                · exact hids x hx
              · exact List.nodup_cons.mpr ⟨by simpa using hout, ht ▸ hpath⟩
              · rw [ht, List.length_cons]
                omega
        obtain ⟨hext, hall⟩ := ihs (look next fuel t y) ((path_look ..).trans ht)
          fun z hz => hys z (List.mem_cons_of_mem _ hz)
        rw [List.foldl_cons]
        refine ⟨hone.1.trans hext, fun hf z hz => ?_⟩
        rcases List.mem_cons.mp hz with rfl | hz
        · exact hext.finished hf z (hone.2 (hext.found hf))
        · exact hall hf z hz
    obtain ⟨hext, hall⟩ := hlook (next id) { s with path := id :: s.path } rfl (hnext id)
    rw [visit_succ]
    refine ⟨⟨hext.found, fun hf x hx => ?_, fun hf hs => ?_⟩, fun _ => List.mem_cons_self⟩
    · exact List.mem_cons_of_mem _ (hext.finished hf x hx)
    · exact ⟨hall hf, hext.layered hf hs⟩

/-- A search that finds nothing proves that there is no cycle. -/
lemma not_transGen_of_run (hnext : ∀ x, ∀ y ∈ next x, y ∈ ids) (h : (run next ids).found = [])
    (hx : x ∈ ids) : ¬ TransGen (Next next) x x := by
  have hfold : ∀ (xs : List CellId) (t : Search), t.path = [] → (∀ y ∈ xs, y ∈ ids) →
      Extends next t (xs.foldl (root next (ids.length + 1)) t) ∧
        ((xs.foldl (root next (ids.length + 1)) t).found = [] →
          ∀ y ∈ xs, y ∈ (xs.foldl (root next (ids.length + 1)) t).finished) := by
    intro xs
    induction xs with
    | nil => exact fun t _ _ => ⟨.refl t, fun _ y hy => by cases hy⟩
    | cons y ys ih =>
      intro t ht hys
      rw [List.foldl_cons]
      obtain ⟨hpath, hext, hfin⟩ : (root next (ids.length + 1) t y).path = [] ∧
          Extends next t (root next (ids.length + 1) t y) ∧
          ((root next (ids.length + 1) t y).found = [] → y ∈ (root next (ids.length + 1) t y).finished) := by
        unfold root
        split
        · next hfin => exact ⟨ht, .refl t, fun _ => by simpa using hfin⟩
        · refine ⟨(path_visit ..).trans ht, visit_finishes hnext (hys y List.mem_cons_self) ?_ ?_ ?_⟩
          · rw [ht]
            exact fun x hx => by cases hx
          · rw [ht]
            exact List.nodup_singleton y
          · rw [ht]
            exact Nat.lt_succ_self _
      obtain ⟨hext', hall⟩ := ih _ hpath fun z hz => hys z (List.mem_cons_of_mem _ hz)
      refine ⟨hext.trans hext', fun hf z hz => ?_⟩
      rcases List.mem_cons.mp hz with rfl | hz
      · exact hext'.finished hf z (hfin (hext'.found hf))
      · exact hall hf z hz
  obtain ⟨hext, hall⟩ := hfold ids ⟨[], [], []⟩ rfl fun _ h => h
  exact (hext.layered h trivial).not_transGen (hall h x hx)

/-- The walk has an edge, and each of its cells lies on a cycle. -/
def Closed (next : CellId → List CellId) (walk : List CellId) : Prop :=
  walk.dropLast ≠ [] ∧ ∀ x ∈ walk.dropLast, TransGen (Next next) x x

lemma closed_of_circuit {walk : List CellId} (h : Circuit (Next next) walk) : Closed next walk := by
  refine ⟨List.ne_nil_of_length_pos ?_, fun x hx => h.transGen (List.mem_of_mem_dropLast hx)⟩
  have hlen := h.length
  rw [List.length_dropLast]
  omega

/-- A path goes on beyond any of its cells with that cell. -/
lemma takeWhile_append {path : List CellId} (hmem : id ∈ path) :
    path = path.takeWhile (· != id) ++ id :: (path.dropWhile (· != id)).tail := by
  have hne : path.dropWhile (· != id) ≠ [] := fun hnil => by
    simpa using List.dropWhile_eq_nil_iff.mp hnil id hmem
  have hhead : (path.dropWhile (· != id)).head hne = id := by
    simpa using List.head_dropWhile_not (p := (· != id)) (l := path) hne
  conv_lhs => rw [← List.takeWhile_append_dropWhile (p := (· != id)) (l := path)]
  rw [← List.cons_head_tail hne, hhead, List.tail_cons]

/-- An edge back into the path closes a circuit. -/
lemma circuit_closedWalk {path : List CellId} {head : CellId} (h : path.IsChain fun a b => Next next b a)
    (hpath : path.Nodup) (hhead : path.head? = some head) (hmem : id ∈ path) (hedge : id ∈ next head) :
    Circuit (Next next) (closedWalk path id) := by
  have hsplit := takeWhile_append hmem
  set before := path.takeWhile (· != id)
  have hprefix : before ++ [id] <+: path := by
    rw [hsplit]
    exact ⟨_, by rw [List.append_assoc, List.singleton_append]⟩
  have hchain : (id :: before.reverse).IsChain (Next next) := by
    rw [← List.reverse_concat', List.isChain_reverse]
    exact h.prefix hprefix
  have hlast : (id :: before.reverse).getLast? = some head := by
    rw [← List.reverse_concat', List.getLast?_reverse, ← hhead, hsplit]
    cases before <;> rfl
  refine circuit_of_steps ?_ ?_
  · rw [← List.cons_append]
    refine hchain.append (List.isChain_singleton id) fun u hu v hv => ?_
    rw [hlast] at hu
    cases hu
    cases hv
    exact hedge
  · rw [← List.reverse_concat', List.nodup_reverse]
    exact hpath.sublist hprefix.sublist

/-- All walks that a visit adds are circuits. -/
lemma circuit_visit (hchain : (id :: s.path).IsChain fun a b => Next next b a) (hpath : (id :: s.path).Nodup)
    (hs : ∀ w ∈ s.found, Circuit (Next next) w) :
    ∀ w ∈ (visit next fuel id s).found, Circuit (Next next) w := by
  induction fuel generalizing id s with
  | zero => exact hs
  | succ fuel ih =>
    have hlook : ∀ (xs : List CellId) (t : Search), t.path = id :: s.path → (∀ y ∈ xs, y ∈ next id) →
        (∀ w ∈ t.found, Circuit (Next next) w) →
        ∀ w ∈ (xs.foldl (look next fuel) t).found, Circuit (Next next) w := by
      intro xs
      induction xs with
      | nil => exact fun t _ _ h => h
      | cons y ys ihs =>
        intro t ht hys hfound
        refine ihs (look next fuel t y) ((path_look ..).trans ht)
          (fun z hz => hys z (List.mem_cons_of_mem _ hz)) ?_
        have hedge := hys y List.mem_cons_self
        unfold look
        split
        · next hin =>
          intro w hw
          rcases List.mem_cons.mp hw with rfl | hw
          · rw [ht] at hin ⊢
            exact circuit_closedWalk hchain hpath rfl (by simpa using hin) hedge
          · exact hfound w hw
        · next hout =>
          rw [ht] at hout
          split
          · exact hfound
          · refine ih ?_ ?_ hfound
            · rw [ht]
              exact hchain.cons_cons hedge
            · rw [ht]
              exact List.nodup_cons.mpr ⟨by simpa using hout, hpath⟩
    exact hlook (next id) { s with path := id :: s.path } rfl (fun _ h => h) hs

/-- The depth-first search finds circuits only. -/
lemma circuit_run (next : CellId → List CellId) (ids : List CellId) :
    ∀ w ∈ (run next ids).found, Circuit (Next next) w := by
  have hfold : ∀ (xs : List CellId) (t : Search), t.path = [] → (∀ w ∈ t.found, Circuit (Next next) w) →
      ∀ w ∈ (xs.foldl (root next (ids.length + 1)) t).found, Circuit (Next next) w := by
    intro xs
    induction xs with
    | nil => exact fun t _ h => h
    | cons y ys ih =>
      intro t ht hfound
      rw [List.foldl_cons]
      unfold root
      split
      · exact ih t ht hfound
      · refine ih _ ((path_visit ..).trans ht) (circuit_visit ?_ ?_ hfound)
        · rw [ht]
          exact List.isChain_singleton y
        · rw [ht]
          exact List.nodup_singleton y
  exact hfold ids ⟨[], [], []⟩ rfl fun w hw => by cases hw

end Search

variable {cycles : List (CellId × List CellId)} {walk : List CellId}

/-- Whether a walk is recorded for the cell. -/
def Recorded (cycles : List (CellId × List CellId)) (x : CellId) : Prop := ∃ w, (x, w) ∈ cycles

lemma any_iff_recorded : cycles.any (·.1 == x) = true ↔ Recorded cycles x := by
  simp only [List.any_eq_true, beq_iff_eq, Recorded, Prod.exists]
  constructor
  · rintro ⟨a, w, h, rfl⟩
    exact ⟨w, h⟩
  · rintro ⟨w, h⟩
    exact ⟨x, w, h, rfl⟩

lemma recorded_record : Recorded (record cycles walk) x ↔ Recorded cycles x ∨ x ∈ walk.dropLast := by
  unfold record
  have hfold : ∀ (xs : List CellId) (cs : List (CellId × List CellId)),
      Recorded (xs.foldl (fun cs id => if cs.any (·.1 == id) then cs else cs ++ [(id, walk)]) cs) x ↔
        Recorded cs x ∨ x ∈ xs := by
    intro xs
    induction xs with
    | nil => simp
    | cons y ys ih =>
      intro cs
      rw [List.foldl_cons, ih]
      split
      · next h =>
        have hy : Recorded cs y := any_iff_recorded.mp h
        constructor
        · rintro (h | h)
          · exact .inl h
          · exact .inr (List.mem_cons_of_mem _ h)
        · rintro (h | h)
          · exact .inl h
          · rcases List.mem_cons.mp h with rfl | h
            · exact .inl hy
            · exact .inr h
      · simp only [Recorded, List.mem_append, Prod.mk.injEq, exists_or, List.mem_cons,
          exists_eq_right]
        tauto
  exact hfold walk.dropLast cycles

lemma recorded_foldl_record {walks : List (List CellId)} :
    Recorded (walks.foldl record cycles) x ↔ Recorded cycles x ∨ ∃ w ∈ walks, x ∈ w.dropLast := by
  induction walks generalizing cycles with
  | nil => simp
  | cons w ws ih =>
    rw [List.foldl_cons, ih, recorded_record, List.exists_mem_cons_iff, or_assoc]

/-- Records a shortest walk for a cell on a cycle that has no walk yet. -/
def complete (next : CellId → List CellId) (count : ℕ) (cs : List (CellId × List CellId)) (id : CellId) :
    List (CellId × List CellId) :=
  if cs.any (·.1 == id) then cs
  else
    match shortestReturn? next count id with
    | some walk => cs ++ [(id, walk)]
    | none => cs

lemma recorded_complete (hnext : ∀ x, (next x).Nodup) (hknown : ∀ x, ∀ y ∈ next x, y ∈ ids) :
    Recorded (complete next ids.length cycles y) x ↔
      Recorded cycles x ∨ x = y ∧ (Recorded cycles y ∨ TransGen (Next next) y y) := by
  have hreturn : (shortestReturn? next ids.length y).isSome = true ↔ TransGen (Next next) y y :=
    shortestReturn?_isSome_iff hnext hknown
  unfold complete
  split
  · next hany =>
    have hy := any_iff_recorded.mp hany
    constructor
    · exact .inl
    · rintro (h | ⟨rfl, -⟩)
      · exact h
      · exact hy
  · next hany =>
    have hy : ¬ Recorded cycles y := fun h => hany (any_iff_recorded.mpr h)
    split
    · next walk hwalk =>
      have hcycle : TransGen (Next next) y y := hreturn.mp (by rw [hwalk]; rfl)
      simp [Recorded, exists_or, hcycle]
    · next hnone =>
      have hcycle : ¬ TransGen (Next next) y y := fun h => by
        rw [← hreturn, hnone] at h
        cases h
      constructor
      · exact .inl
      · rintro (h | ⟨rfl, h | h⟩)
        · exact h
        · exact absurd h hy
        · exact absurd h hcycle

lemma recorded_foldl_complete (hnext : ∀ x, (next x).Nodup) (hknown : ∀ x, ∀ y ∈ next x, y ∈ ids)
    (hsound : ∀ y, Recorded cycles y → TransGen (Next next) y y) (xs : List CellId) :
    Recorded (xs.foldl (complete next ids.length) cycles) x ↔
      Recorded cycles x ∨ x ∈ xs ∧ TransGen (Next next) x x := by
  induction xs generalizing cycles with
  | nil => simp
  | cons y ys ih =>
    rw [List.foldl_cons, ih, recorded_complete hnext hknown, List.mem_cons]
    · constructor
      · rintro ((h | ⟨rfl, h | h⟩) | ⟨h, hx⟩)
        · exact .inl h
        · exact .inl h
        · exact .inr ⟨.inl rfl, h⟩
        · exact .inr ⟨.inr h, hx⟩
      · rintro (h | ⟨rfl | h, hx⟩)
        · exact .inl (.inl h)
        · exact .inl (.inr ⟨rfl, .inr hx⟩)
        · exact .inr ⟨h, hx⟩
    · intro z hz
      rcases (recorded_complete hnext hknown).mp hz with hz | ⟨rfl, hz | hz⟩
      · exact hsound z hz
      · exact hsound z hz
      · exact hz

/-- A walk is recorded for the cells on cycles and for no others. -/
theorem recorded_findCycles_iff (hnext : ∀ x, (next x).Nodup) (hknown : ∀ x, ∀ y ∈ next x, y ∈ ids) :
    Recorded (findCycles next ids) x ↔ TransGen (Next next) x x := by
  have hids : TransGen (Next next) x x → x ∈ ids := by
    intro h
    obtain ⟨z, -, hzx⟩ := TransGen.tail'_iff.mp h
    exact hknown z x hzx
  have hdirect : ∀ y, Recorded ((Search.run next ids).found.reverse.foldl record []) y ↔
      ∃ w ∈ (Search.run next ids).found, y ∈ w.dropLast := by
    intro y
    rw [recorded_foldl_record]
    simp [Recorded]
  have hsound : ∀ y, Recorded ((Search.run next ids).found.reverse.foldl record []) y →
      TransGen (Next next) y y := by
    intro y hy
    obtain ⟨w, hw, hyw⟩ := (hdirect y).mp hy
    exact (Search.closed_of_circuit (Search.circuit_run next ids w hw)).2 y hyw
  change Recorded (if _ then [] else ids.foldl (complete next ids.length) _) x ↔ _
  split
  · next hempty =>
    -- the depth-first search has found no walk, so there is no cycle
    have hfound : (Search.run next ids).found = [] := by
      rw [List.eq_nil_iff_forall_not_mem]
      intro w hw
      obtain ⟨y, hy⟩ := List.exists_mem_of_ne_nil _ (Search.closed_of_circuit (Search.circuit_run next ids w hw)).1
      obtain ⟨v, hv⟩ := (hdirect y).mpr ⟨w, hw, hy⟩
      rw [List.isEmpty_iff.mp hempty] at hv
      cases hv
    refine iff_of_false (fun ⟨w, hw⟩ => by cases hw) fun h => ?_
    exact Search.not_transGen_of_run hknown hfound (hids h) h
  · rw [recorded_foldl_complete hnext hknown hsound]
    constructor
    · rintro (h | ⟨-, h⟩)
      · exact hsound x h
      · exact h
    · exact fun h => .inr ⟨hids h, h⟩

lemma mem_record {entry : CellId × List CellId} (h : entry ∈ record cycles walk) :
    entry ∈ cycles ∨ entry.2 = walk ∧ entry.1 ∈ walk.dropLast := by
  unfold record at h
  have hfold : ∀ (xs : List CellId) (cs : List (CellId × List CellId)),
      entry ∈ xs.foldl (fun cs id => if cs.any (·.1 == id) then cs else cs ++ [(id, walk)]) cs →
        entry ∈ cs ∨ entry.2 = walk ∧ entry.1 ∈ xs := by
    intro xs
    induction xs with
    | nil => exact fun cs h => .inl h
    | cons y ys ih =>
      intro cs h
      rw [List.foldl_cons] at h
      rcases ih _ h with h | ⟨hw, hy⟩
      · split at h
        · exact .inl h
        · rcases List.mem_append.mp h with h | h
          · exact .inl h
          · rw [List.mem_singleton.mp h]
            exact .inr ⟨rfl, List.mem_cons_self⟩
      · exact .inr ⟨hw, List.mem_cons_of_mem _ hy⟩
  exact hfold _ _ h

lemma mem_complete {count : ℕ} {y : CellId} {entry : CellId × List CellId}
    (h : entry ∈ complete next count cycles y) :
    entry ∈ cycles ∨ entry.1 = y ∧ shortestReturn? next count y = some entry.2 := by
  unfold complete at h
  split at h
  · exact .inl h
  · split at h
    · next walk hwalk =>
      rcases List.mem_append.mp h with h | h
      · exact .inl h
      · rw [List.mem_singleton.mp h]
        exact .inr ⟨rfl, hwalk⟩
    · exact .inl h

/-- Every recorded walk is a circuit through the cell it is recorded for. -/
theorem circuit_of_mem_findCycles {entry : CellId × List CellId} (h : entry ∈ findCycles next ids) :
    Circuit (Next next) entry.2 ∧ entry.1 ∈ entry.2 := by
  have hdirect : ∀ (ws : List (List CellId)) (cs : List (CellId × List CellId)),
      (∀ w ∈ ws, Circuit (Next next) w) → (∀ e ∈ cs, Circuit (Next next) e.2 ∧ e.1 ∈ e.2) →
        ∀ e ∈ ws.foldl record cs, Circuit (Next next) e.2 ∧ e.1 ∈ e.2 := by
    intro ws
    induction ws with
    | nil => exact fun cs _ hcs => hcs
    | cons w ws ih =>
      intro cs hws hcs
      refine ih (record cs w) (fun v hv => hws v (List.mem_cons_of_mem _ hv)) fun e he => ?_
      rcases mem_record he with he | ⟨hw, hmem⟩
      · exact hcs e he
      · rw [hw]
        exact ⟨hws w List.mem_cons_self, List.mem_of_mem_dropLast hmem⟩
  have hrest : ∀ (xs : List CellId) (cs : List (CellId × List CellId)),
      (∀ e ∈ cs, Circuit (Next next) e.2 ∧ e.1 ∈ e.2) →
        ∀ e ∈ xs.foldl (complete next ids.length) cs, Circuit (Next next) e.2 ∧ e.1 ∈ e.2 := by
    intro xs
    induction xs with
    | nil => exact fun cs hcs => hcs
    | cons y ys ih =>
      intro cs hcs
      refine ih _ fun e he => ?_
      rcases mem_complete he with he | ⟨hy, hwalk⟩
      · exact hcs e he
      · obtain ⟨hcircuit, hhead, -, -⟩ := shortestReturn?_spec hwalk
        exact ⟨hcircuit, hy ▸ List.mem_of_mem_head? hhead⟩
  change entry ∈ (if _ then [] else ids.foldl (complete next ids.length) _) at h
  split at h
  · cases h
  · refine hrest ids _ (hdirect _ _ (fun w hw => ?_) fun e he => by cases he) entry h
    exact Search.circuit_run next ids w (List.mem_reverse.mp hw)

variable {cells : List Cell}

/-- A cell has a walk in the graph exactly if it lies on a cycle. -/
theorem cycleOf?_isSome_iff (hc : (cells.map (·.id)).Nodup) :
    ((build cells).cycleOf? x).isSome = true ↔ (build cells).OnCycle x := by
  have hknown : ∀ x, ∀ y ∈ (build cells).dependents x, y ∈ (build cells).ids :=
    fun x y hxy => (coherent_build hc).known x y hxy
  have hcycles : (build cells).cycles = findCycles (build cells).dependents (build cells).ids := rfl
  have h := recorded_findCycles_iff (x := x) (nodup_dependents (build cells)) hknown
  rw [← hcycles] at h
  rw [cycleOf?, Option.isSome_map, List.find?_isSome]
  refine Iff.trans ?_ h
  simp only [beq_iff_eq, Recorded, Prod.exists]
  constructor
  · rintro ⟨a, w, hw, rfl⟩
    exact ⟨w, hw⟩
  · rintro ⟨w, hw⟩
    exact ⟨x, w, hw, rfl⟩

/-- Without a walk in the graph no cell lies on a cycle. -/
theorem not_onCycle_of_not_hasCycles (hc : (cells.map (·.id)).Nodup)
    (h : (build cells).hasCycles = false) : ¬ (build cells).OnCycle x := by
  rw [← cycleOf?_isSome_iff hc, cycleOf?]
  have hnil : (build cells).cycles = [] := by simpa [hasCycles] using h
  simp [hnil]

lemma circuit_of_cycleOf? {g : Graph} (hg : ∀ entry ∈ g.cycles, Circuit g.Edge entry.2 ∧ entry.1 ∈ entry.2)
    (h : g.cycleOf? x = some walk) : Circuit g.Edge walk ∧ x ∈ walk := by
  obtain ⟨entry, hentry, rfl⟩ := Option.map_eq_some_iff.mp h
  obtain rfl : entry.1 = x := by simpa using List.find?_some hentry
  exact hg entry (List.mem_of_find?_eq_some hentry)

/-- What the graph of some cells records about its cycles: a circuit through each cell that lies on a cycle,
and for no other cell. The way back from such a cell that the breadth-first search finds is a circuit of least
length among the closed walks through the cell. -/
theorem cycles_build (hc : (cells.map (·.id)).Nodup) (id : CellId) :
    (((build cells).cycleOf? id).isSome = true ↔ (build cells).OnCycle id) ∧
    (∀ walk, (build cells).cycleOf? id = some walk → Circuit (build cells).Edge walk ∧ id ∈ walk) ∧
    (∀ entry ∈ (build cells).cycles, Circuit (build cells).Edge entry.2 ∧ entry.1 ∈ entry.2) ∧
    ((shortestReturn? (build cells).dependents (build cells).ids.length id).isSome = true ↔
      (build cells).OnCycle id) ∧
    ∀ walk, shortestReturn? (build cells).dependents (build cells).ids.length id = some walk →
      Circuit (build cells).Edge walk ∧ walk.head? = some id ∧ walk.getLast? = some id ∧
        ∀ other, ClosedWalk (build cells).Edge other → id ∈ other → walk.length ≤ other.length := by
  have hknown : ∀ x, ∀ y ∈ (build cells).dependents x, y ∈ (build cells).ids :=
    fun x y hxy => (coherent_build hc).known x y hxy
  have hcircuit : ∀ entry ∈ (build cells).cycles, Circuit (build cells).Edge entry.2 ∧ entry.1 ∈ entry.2 :=
    fun _ hentry => circuit_of_mem_findCycles hentry
  exact ⟨cycleOf?_isSome_iff hc, fun _ => circuit_of_cycleOf? hcircuit, hcircuit,
    shortestReturn?_isSome_iff (nodup_dependents _) hknown, fun _ => shortestReturn?_spec⟩

/-- Three formulas on two cycles that share an edge. -/
def overlapping : List Cell :=
  [⟨"a", .formula "y" "x"⟩, ⟨"b", .formula "x + z" "y"⟩, ⟨"c", .formula "x" "z"⟩].map .ofDefinition

/-- The depth-first search passes by `c`, whose circuit is a shortest way back. -/
theorem cycles_overlapping :
    (Search.run (build overlapping).dependents (build overlapping).ids).found = [["a", "b", "a"]] ∧
    (build overlapping).cycleOf? "c" = some ["c", "b", "a", "c"] ∧
    (build overlapping).OnCycle "c" ∧ Circuit (build overlapping).Edge ["c", "b", "a", "c"] ∧
    ∀ other, ClosedWalk (build overlapping).Edge other → "c" ∈ other → 4 ≤ other.length := by
  have hids : (overlapping.map (·.id)).Nodup := by decide
  have hc : (build overlapping).cycleOf? "c" = some ["c", "b", "a", "c"] := by decide +kernel
  have hback : shortestReturn? (build overlapping).dependents (build overlapping).ids.length "c" =
      some ["c", "b", "a", "c"] := by decide +kernel
  obtain ⟨hiff, hwalk, -, -, hshortest⟩ := cycles_build hids "c"
  exact ⟨by decide +kernel, hc, hiff.mp (by rw [hc]; rfl), (hwalk _ hc).1, (hshortest _ hback).2.2.2⟩

end ReactiveNotebook.Graph
