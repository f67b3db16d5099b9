import ReactiveNotebook.Proofs.Graph.Circuit
import ReactiveNotebook.Proofs.Graph.Closure

/-!
# The shortest way back

A breadth-first search from a cell finds a way back to it if there is one. What it finds is a circuit and a
shortest closed walk through the cell: the queued paths are ordered by length, and as long as the search goes
on, any closed walk from the start can be completed from one of them without becoming longer.
-/
namespace ReactiveNotebook.Graph

open Relation (TransGen)

variable {next : CellId → List CellId} {ids seen : List CellId} {queue : List (List CellId)}
variable {x start : CellId} {path walk : List CellId} {fuel : ℕ}

/-- A queued path: it leads along edges from the start to its head, and no cell after the start comes
twice. -/
structure Trail (next : CellId → List CellId) (start : CellId) (seen : List CellId) (path : List CellId) :
    Prop where
  steps : path.IsChain fun a b => Next next b a
  start : path.getLast? = some start
  simple : path.dropLast.Nodup
  seen : ∀ x ∈ path.dropLast, x ∈ seen

lemma trail_start (next : CellId → List CellId) (start : CellId) : Trail next start [] [start] where
  steps := List.isChain_singleton start
  start := rfl
  simple := List.nodup_nil
  seen x hx := by cases hx

lemma Trail.mono {seen' : List CellId} (h : Trail next start seen path) (hs : ∀ x ∈ seen, x ∈ seen') :
    Trail next start seen' path :=
  { h with seen := fun x hx => hs x (h.seen x hx) }

lemma Trail.exists_cons (h : Trail next start seen path) : ∃ x rest, path = x :: rest := by
  cases path with
  | nil => cases h.start
  | cons x rest => exact ⟨x, rest, rfl⟩

/-- A path goes on to a neighbour of its head that has not been seen. -/
lemma Trail.extend {y : CellId} {rest fresh : List CellId} (h : Trail next start seen (x :: rest))
    (hy : y ∈ fresh) (hedge : y ∈ next x) (hnew : y ∉ seen) :
    Trail next start (seen ++ fresh) (y :: x :: rest) where
  steps := h.steps.cons_cons hedge
  start := by rw [List.getLast?_cons_cons, h.start]
  simple := by
    rw [List.dropLast_cons_of_ne_nil (List.cons_ne_nil _ _)]
    exact List.nodup_cons.mpr ⟨fun hmem => hnew (h.seen y hmem), h.simple⟩
  seen z hz := by
    rw [List.dropLast_cons_of_ne_nil (List.cons_ne_nil _ _)] at hz
    rcases List.mem_cons.mp hz with rfl | hz
    · exact List.mem_append_right _ hy
    · exact List.mem_append_left _ (h.seen z hz)

/-- A path that has come back to the start is a circuit, read backwards. -/
lemma Trail.circuit {rest : List CellId} (h : Trail next start seen (start :: rest)) (hrest : rest ≠ []) :
    ∃ mid, (start :: rest).reverse = start :: (mid ++ [start]) ∧
      Circuit (Next next) (start :: (mid ++ [start])) := by
  obtain ⟨before, last, hconcat⟩ := (List.eq_nil_or_concat rest).resolve_left hrest
  obtain ⟨hsteps, hlast, hsimple, -⟩ := h
  rw [hconcat, List.concat_eq_append, ← List.cons_append, List.getLast?_concat, Option.some.injEq] at hlast
  rw [hconcat, List.concat_eq_append, hlast] at hsteps hsimple ⊢
  have hreverse : (start :: (before ++ [start])).reverse = start :: (before.reverse ++ [start]) := by simp
  refine ⟨before.reverse, hreverse, circuit_of_steps ?_ ?_⟩
  · rw [← hreverse, List.isChain_reverse]
    exact hsteps
  · rw [← List.cons_append, List.dropLast_concat] at hsimple
    rw [List.nodup_cons, List.nodup_reverse, List.mem_reverse]
    exact List.nodup_cons.mp hsimple

/-- The neighbours of a cell that have not been seen. -/
def unseen (next : CellId → List CellId) (seen : List CellId) (x : CellId) : List CellId :=
  (next x).filter fun other => !seen.contains other

lemma mem_unseen {y : CellId} : y ∈ unseen next seen x ↔ y ∈ next x ∧ y ∉ seen := by
  simp [unseen]

/-- The search goes on from the first queued path, unless that has come back. -/
lemma searchBack_cons (next : CellId → List CellId) (start : CellId) (fuel : ℕ) (x : CellId)
    (rest : List CellId) (queue : List (List CellId)) (seen : List CellId) :
    searchBack next start (fuel + 1) ((x :: rest) :: queue) seen =
      if x = start ∧ rest ≠ [] then some (x :: rest).reverse
      else
        searchBack next start fuel (queue ++ (unseen next seen x).map (· :: x :: rest))
          (seen ++ unseen next seen x) := by
  rw [searchBack]
  congr 1
  simp

lemma circuit_of_searchBack (hqueue : ∀ p ∈ queue, Trail next start seen p)
    (h : searchBack next start fuel queue seen = some walk) :
    ∃ mid, walk = start :: (mid ++ [start]) ∧ Circuit (Next next) walk := by
  induction fuel generalizing queue seen with
  | zero => cases h
  | succ fuel ih =>
    cases queue with
    | nil => cases h
    | cons p queue =>
      have hp := hqueue p List.mem_cons_self
      obtain ⟨x, rest, rfl⟩ := hp.exists_cons
      rw [searchBack_cons] at h
      split at h
      · next hback =>
        obtain ⟨rfl, hrest⟩ := hback
        obtain ⟨mid, hmid, hcircuit⟩ := hp.circuit hrest
        cases h
        rw [hmid]
        exact ⟨mid, rfl, hcircuit⟩
      · refine ih (fun q hq => ?_) h
        rcases List.mem_append.mp hq with hq | hq
        · exact (hqueue q (List.mem_cons_of_mem _ hq)).mono fun z hz => List.mem_append_left _ hz
        · obtain ⟨y, hy, rfl⟩ := List.mem_map.mp hq
          exact hp.extend hy (mem_unseen.mp hy).1 (mem_unseen.mp hy).2

/-- A list with an element of some kind has a last one. -/
lemma exists_last {p : CellId → Prop} {xs : List CellId} (h : ∃ x ∈ xs, p x) :
    ∃ before x after, xs = before ++ x :: after ∧ p x ∧ ∀ y ∈ after, ¬ p y := by
  induction xs with
  | nil => simp at h
  | cons a rest ih =>
    by_cases hrest : ∃ x ∈ rest, p x
    · obtain ⟨before, x, after, rfl, hx, hafter⟩ := ih hrest
      exact ⟨a :: before, x, after, rfl, hx, hafter⟩
    · push Not at hrest
      obtain ⟨x, hx, hpx⟩ := h
      rcases List.mem_cons.mp hx with rfl | hx
      · exact ⟨[], x, rest, rfl, hpx, hrest⟩
      · exact absurd hpx (hrest x hx)

/-- A queued path can be continued through cells that have not been seen, up to the start, so that the whole
has at most the given length. -/
def Completes (next : CellId → List CellId) (start : CellId) (seen : List CellId) (bound : ℕ)
    (path : List CellId) : Prop :=
  ∃ x before after, path = x :: before ∧ (x :: after).IsChain (Next next) ∧
    (x :: after).getLast? = some start ∧ (∀ y ∈ after, y ∉ seen) ∧
    path.length + after.length ≤ bound ∧ (after = [] → before ≠ [])

/-- The queued paths are ordered by length, and differ by one at most. -/
def Levelled (queue : List (List CellId)) : Prop :=
  queue.Pairwise fun p q => p.length ≤ q.length ∧ q.length ≤ p.length + 1

lemma Levelled.extend {p : List CellId} (h : Levelled (p :: queue)) (fresh : List CellId) :
    Levelled (queue ++ fresh.map (· :: p)) := by
  obtain ⟨hp, hqueue⟩ := List.pairwise_cons.mp h
  refine List.pairwise_append.mpr ⟨hqueue, ?_, fun q hq n hn => ?_⟩
  · rw [List.pairwise_map]
    exact List.pairwise_of_forall fun _ _ => ⟨le_rfl, Nat.le_succ _⟩
  · obtain ⟨y, -, rfl⟩ := List.mem_map.mp hn
    have := hp q hq
    rw [List.length_cons]
    omega

/-- A continuation that meets new neighbours of the first path is taken up again from the last of them. -/
lemma exists_completes {bound : ℕ} {p after fresh : List CellId} {y : CellId} (hp : p ≠ [])
    (hchain : (y :: after).IsChain (Next next)) (hlast : (y :: after).getLast? = some start)
    (hunseen : ∀ z ∈ after, z ∉ seen) (hbound : p.length + after.length ≤ bound)
    (hmeet : ∃ z ∈ after, z ∈ fresh) :
    ∃ z ∈ fresh, Completes next start (seen ++ fresh) bound (z :: p) := by
  obtain ⟨skipped, z, left, rfl, hz, hleft⟩ := exists_last hmeet
  have hsuffix : (z :: left) <:+ y :: (skipped ++ z :: left) := ⟨y :: skipped, by simp⟩
  refine ⟨z, hz, z, p, left, rfl, hchain.suffix hsuffix, ?_, fun w hw => ?_, ?_, fun _ => hp⟩
  · rw [← hlast, ← List.cons_append, List.getLast?_append_of_ne_nil _ (List.cons_ne_nil _ _)]
  · rw [List.mem_append, not_or]
    exact ⟨hunseen w (List.mem_append_right _ (List.mem_cons_of_mem _ hw)), hleft w hw⟩
  · simp only [List.length_append, List.length_cons] at hbound ⊢
    omega

lemma Levelled.length_le {p q : List CellId} (h : Levelled (p :: queue)) (hq : q ∈ p :: queue) :
    p.length ≤ q.length := by
  rcases List.mem_cons.mp hq with rfl | hq
  · exact le_rfl
  · exact ((List.pairwise_cons.mp h).1 q hq).1

/-- One step of the search leaves a path that can be completed. -/
lemma Completes.step {bound : ℕ} {q rest : List CellId} (h : Completes next start seen bound q)
    (hlevel : Levelled ((x :: rest) :: queue)) (hq : q ∈ (x :: rest) :: queue)
    (hgoes : ¬ (x = start ∧ rest ≠ [])) :
    ∃ p ∈ queue ++ (unseen next seen x).map (· :: x :: rest),
      Completes next start (seen ++ unseen next seen x) bound p := by
  have hle := hlevel.length_le hq
  obtain ⟨y, before, after, hqy, hchain, hlast, hunseen, hbound, hends⟩ := h
  by_cases hmeet : ∃ z ∈ after, z ∈ unseen next seen x
  · obtain ⟨z, hz, hnew⟩ := exists_completes (List.cons_ne_nil x rest) hchain hlast hunseen
      ((Nat.add_le_add_right hle _).trans hbound) hmeet
    exact ⟨_, List.mem_append_right _ (List.mem_map_of_mem hz), hnew⟩
  · push Not at hmeet
    -- the continuation of the first path would begin with a new neighbour
    have hother : q ∈ queue := by
      refine (List.mem_cons.mp hq).resolve_left fun hqp => ?_
      rw [hqp] at hqy
      cases hqy
      cases after with
      | nil =>
        cases hlast
        exact hgoes ⟨rfl, hends rfl⟩
      | cons z after =>
        refine hmeet z List.mem_cons_self (mem_unseen.mpr ⟨?_, hunseen z List.mem_cons_self⟩)
        exact (List.isChain_cons_cons.mp hchain).1
    refine ⟨q, List.mem_append_left _ hother, y, before, after, hqy, hchain, hlast, fun z hz => ?_, hbound,
      hends⟩
    rw [List.mem_append, not_or]
    exact ⟨hunseen z hz, hmeet z hz⟩

lemma length_le_of_searchBack {bound : ℕ} (hqueue : ∀ p ∈ queue, p ≠ []) (hlevel : Levelled queue)
    (hcomplete : ∃ p ∈ queue, Completes next start seen bound p)
    (h : searchBack next start fuel queue seen = some walk) : walk.length ≤ bound := by
  induction fuel generalizing queue seen with
  | zero => cases h
  | succ fuel ih =>
    cases queue with
    | nil => cases h
    | cons p queue =>
      obtain ⟨x, rest, rfl⟩ := List.exists_cons_of_ne_nil (hqueue p List.mem_cons_self)
      obtain ⟨q, hq, hcompletes⟩ := hcomplete
      rw [searchBack_cons] at h
      split at h
      · have hle := hlevel.length_le hq
        obtain ⟨y, before, after, -, -, -, -, hbound, -⟩ := hcompletes
        cases h
        rw [List.length_reverse]
        omega
      · next hgoes =>
        refine ih (fun n hn => ?_) (hlevel.extend _) (hcompletes.step hlevel hq hgoes) h
        rcases List.mem_append.mp hn with hn | hn
        · exact hqueue n (List.mem_cons_of_mem _ hn)
        · obtain ⟨z, -, rfl⟩ := List.mem_map.mp hn
          exact List.cons_ne_nil _ _

/-- The way back that the search finds is a circuit from the start, and no closed walk through the start is
shorter. -/
theorem shortestReturn?_spec {count : ℕ} (h : shortestReturn? next count start = some walk) :
    Circuit (Next next) walk ∧ walk.head? = some start ∧ walk.getLast? = some start ∧
      ∀ other, ClosedWalk (Next next) other → start ∈ other → walk.length ≤ other.length := by
  have htrail : ∀ p ∈ [[start]], Trail next start [] p := fun p hp => by
    rw [List.mem_singleton.mp hp]
    exact trail_start next start
  obtain ⟨mid, rfl, hcircuit⟩ := circuit_of_searchBack htrail h
  refine ⟨hcircuit, rfl, hcircuit.closes.symm, fun other hother hmem => ?_⟩
  obtain ⟨way, hway, hlen, -⟩ := hother.rotated hmem
  refine length_le_of_searchBack (fun p hp => ?_) (List.pairwise_singleton _ _) ⟨[start], List.mem_cons_self, ?_⟩ h
  · rw [List.mem_singleton.mp hp]
    exact List.cons_ne_nil _ _
  · refine ⟨start, [], way ++ [start], rfl, hway.steps, hway.closes.symm, ?_, ?_, ?_⟩
    · exact fun _ _ hy => List.not_mem_nil hy
    · rw [← hlen]
      simp only [List.length_cons, List.length_append, List.length_nil]
      omega
    · exact fun hnil => by simp at hnil

/-- How far the search has come: what has been reached is queued, or all its neighbours have been seen. -/
structure Sweeps (next : CellId → List CellId) (ids : List CellId) (start : CellId) (queue : List (List CellId))
    (seen : List CellId) : Prop where
  nodup : seen.Nodup
  known : ∀ x ∈ seen, x ∈ ids
  heads : ∀ p ∈ queue, p ≠ []
  closed : ∀ x, x = start ∨ x ∈ seen → (∃ p ∈ queue, p.head? = some x) ∨ ∀ y ∈ next x, y ∈ seen
  /-- A path that has come back to the start is still queued. -/
  back : start ∈ seen → ∃ p ∈ queue, p.head? = some start ∧ p.length ≠ 1

namespace Sweeps

lemma init (next : CellId → List CellId) (ids : List CellId) (start : CellId) :
    Sweeps next ids start [[start]] [] where
  nodup := List.nodup_nil
  known x hx := by cases hx
  heads p hp := by
    rw [List.mem_singleton.mp hp]
    exact List.cons_ne_nil _ _
  closed x hx := by
    rcases hx with rfl | hx
    · exact .inl ⟨[x], List.mem_cons_self, rfl⟩
    · cases hx
  back hs := by cases hs

lemma step {rest : List CellId} (h : Sweeps next ids start ((x :: rest) :: queue) seen)
    (hnext : ∀ x, (next x).Nodup) (hknown : ∀ x, ∀ y ∈ next x, y ∈ ids) (hgoes : ¬ (x = start ∧ rest ≠ [])) :
    Sweeps next ids start (queue ++ (unseen next seen x).map (· :: x :: rest)) (seen ++ unseen next seen x) := by
  have hnew : ∀ {y : CellId}, y ∈ unseen next seen x →
      y :: x :: rest ∈ queue ++ (unseen next seen x).map (· :: x :: rest) :=
    fun hy => List.mem_append_right _ (List.mem_map_of_mem (f := (· :: x :: rest)) hy)
  -- the cell taken from the queue has all its neighbours seen now
  have hx : ∀ y ∈ next x, y ∈ seen ++ unseen next seen x := fun y hy => by
    by_cases hys : y ∈ seen
    · exact List.mem_append_left _ hys
    · exact List.mem_append_right _ (mem_unseen.mpr ⟨hy, hys⟩)
  have hold : ∀ z, z = start ∨ z ∈ seen →
      (∃ q ∈ queue ++ (unseen next seen x).map (· :: x :: rest), q.head? = some z) ∨
        ∀ y ∈ next z, y ∈ seen ++ unseen next seen x := by
    intro z hz
    rcases h.closed z hz with ⟨q, hq, hqz⟩ | hn
    · rcases List.mem_cons.mp hq with rfl | hq
      · cases hqz
        exact .inr hx
      · exact .inl ⟨q, List.mem_append_left _ hq, hqz⟩
    · exact .inr fun y hy => List.mem_append_left _ (hn y hy)
  refine ⟨?_, fun y hy => ?_, fun q hq => ?_, fun z hz => ?_, fun hs => ?_⟩
  · exact h.nodup.append ((hnext x).filter _) fun y hy hy' => (mem_unseen.mp hy').2 hy
  · rcases List.mem_append.mp hy with hy | hy
    · exact h.known y hy
    · exact hknown x y (mem_unseen.mp hy).1
  · rcases List.mem_append.mp hq with hq | hq
    · exact h.heads q (List.mem_cons_of_mem _ hq)
    · obtain ⟨y, -, rfl⟩ := List.mem_map.mp hq
      exact List.cons_ne_nil _ _
  · rcases hz with hz | hz
    · exact hold z (.inl hz)
    · rcases List.mem_append.mp hz with hz | hz
      · exact hold z (.inr hz)
      · exact .inl ⟨_, hnew hz, rfl⟩
  · rcases List.mem_append.mp hs with hs | hs
    · obtain ⟨q, hq, hqs, hlen⟩ := h.back hs
      rcases List.mem_cons.mp hq with rfl | hq
      · cases hqs
        exact absurd ⟨rfl, fun hrest => hlen (by rw [hrest, List.length_singleton])⟩ hgoes
      · exact ⟨q, List.mem_append_left _ hq, hqs, hlen⟩
    · exact ⟨_, hnew hs, rfl, by simp⟩

/-- When no path is left in the queue, the start is not reached from itself. -/
lemma not_transGen (h : Sweeps next ids start [] seen) : ¬ TransGen (Next next) start start := by
  have hall : ∀ x, x = start ∨ x ∈ seen → ∀ y ∈ next x, y ∈ seen := fun x hx =>
    (h.closed x hx).resolve_left fun ⟨p, hp, _⟩ => by cases hp
  intro hcycle
  have hreach : ∀ y, TransGen (Next next) start y → y ∈ seen := by
    intro y hy
    induction hy with
    | single hab => exact hall start (.inl rfl) _ hab
    | tail _ hbc ihy => exact hall _ (.inr ihy) _ hbc
  obtain ⟨p, hp, -⟩ := h.back (hreach start hcycle)
  cases hp

end Sweeps

/-- If the search from a cell ends without an answer, the cell is not reached from itself. -/
lemma not_transGen_of_searchBack (hnext : ∀ x, (next x).Nodup) (hknown : ∀ x, ∀ y ∈ next x, y ∈ ids)
    (hsweeps : Sweeps next ids start queue seen) (hfuel : queue.length + ids.length < fuel + seen.length)
    (h : searchBack next start fuel queue seen = none) : ¬ TransGen (Next next) start start := by
  induction fuel generalizing queue seen with
  | zero =>
    have hlen := (hsweeps.nodup.subperm hsweeps.known).length_le
    omega
  | succ fuel ih =>
    cases queue with
    | nil => exact hsweeps.not_transGen
    | cons p queue =>
      obtain ⟨x, rest, rfl⟩ := List.exists_cons_of_ne_nil (hsweeps.heads p List.mem_cons_self)
      rw [searchBack_cons] at h
      split at h
      · cases h
      · next hgoes =>
        refine ih (hsweeps.step hnext hknown hgoes) ?_ h
        simp only [List.length_append, List.length_map, List.length_cons] at hfuel ⊢
        omega

lemma shortestReturn?_isSome_iff (hnext : ∀ x, (next x).Nodup) (hknown : ∀ x, ∀ y ∈ next x, y ∈ ids) :
    (shortestReturn? next ids.length start).isSome = true ↔ TransGen (Next next) start start := by
  constructor
  · intro h
    obtain ⟨walk, hwalk⟩ := Option.isSome_iff_exists.mp h
    obtain ⟨hcircuit, hhead, -⟩ := shortestReturn?_spec hwalk
    exact hcircuit.transGen (List.mem_of_mem_head? hhead)
  · intro hcycle
    by_contra hnone
    have hnone : shortestReturn? next ids.length start = none := by simpa using hnone
    refine not_transGen_of_searchBack hnext hknown (.init next ids start) ?_ hnone hcycle
    simp only [List.length_cons, List.length_nil]
    omega

end ReactiveNotebook.Graph
