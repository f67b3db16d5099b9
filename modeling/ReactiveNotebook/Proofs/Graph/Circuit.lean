import Mathlib.Data.List.Chain
import Mathlib.Logic.Relation

/-!
# Closed walks

A closed walk takes at least one step and ends where it starts; a circuit is one that meets no point twice
on its way. Where a closed walk starts is arbitrary: read from any other of its points it is a closed walk of
the same length.
-/
namespace ReactiveNotebook.Graph

open Relation (ReflTransGen TransGen)

variable {α : Type*} {r : α → α → Prop} {walk mid : List α} {a x y : α}

/-- A walk of at least one step that ends where it starts. -/
structure ClosedWalk (r : α → α → Prop) (walk : List α) : Prop where
  steps : walk.IsChain r
  length : 2 ≤ walk.length
  closes : walk.head? = walk.getLast?

/-- A closed walk without repeated points, its end apart. -/
structure Circuit (r : α → α → Prop) (walk : List α) : Prop extends ClosedWalk r walk where
  simple : walk.dropLast.Nodup

lemma closedWalk_of_steps (h : (a :: (mid ++ [a])).IsChain r) : ClosedWalk r (a :: (mid ++ [a])) where
  steps := h
  length := by simp
  closes := by rw [← List.cons_append, List.getLast?_concat, List.cons_append, List.head?_cons]

lemma circuit_of_steps (h : (a :: (mid ++ [a])).IsChain r) (hmid : (a :: mid).Nodup) :
    Circuit r (a :: (mid ++ [a])) where
  toClosedWalk := closedWalk_of_steps h
  simple := by rwa [← List.cons_append, List.dropLast_concat]

namespace ClosedWalk

lemma exists_eq (h : ClosedWalk r walk) : ∃ a mid, walk = a :: (mid ++ [a]) := by
  obtain ⟨steps, hlen, hends⟩ := h
  cases walk with
  | nil => simp at hlen
  | cons a rest =>
    rcases List.eq_nil_or_concat rest with rfl | ⟨mid, b, rfl⟩
    · simp at hlen
    · rw [List.concat_eq_append, ← List.cons_append, List.getLast?_concat, List.cons_append,
        List.head?_cons, Option.some.injEq] at hends
      exact ⟨a, mid, by rw [List.concat_eq_append, hends]⟩

/-- A closed walk can be read from each of its points. -/
lemma rotated (h : ClosedWalk r walk) (hx : x ∈ walk) :
    ∃ mid, ClosedWalk r (x :: (mid ++ [x])) ∧ (x :: (mid ++ [x])).length = walk.length ∧
      ∀ y ∈ walk, y ∈ x :: (mid ++ [x]) := by
  obtain ⟨a, mid, rfl⟩ := h.exists_eq
  have hcases : x = a ∨ x ∈ mid := by simpa [or_comm, or_assoc] using hx
  rcases hcases with rfl | hmid
  · exact ⟨mid, h, rfl, fun y hy => hy⟩
  · obtain ⟨before, after, rfl⟩ := List.append_of_mem hmid
    have hfirst : ((a :: before) ++ [x]).IsChain r := h.steps.prefix ⟨after ++ [a], by simp⟩
    have hsecond : ((x :: after) ++ [a]).IsChain r := h.steps.suffix ⟨a :: before, by simp⟩
    have hwhole : ((x :: after) ++ [a] ++ (before ++ [x])).IsChain r :=
      hsecond.append_overlap hfirst (List.cons_ne_nil _ _)
    refine ⟨after ++ a :: before, closedWalk_of_steps (by simpa using hwhole), ?_, fun y hy => ?_⟩
    · simp only [List.length_cons, List.length_append, List.length_nil]
      omega
    · simp only [List.mem_cons, List.mem_append, List.not_mem_nil, or_false] at hy ⊢
      tauto

/-- The points of a closed walk reach each other. -/
lemma reaches (h : ClosedWalk r walk) (hx : x ∈ walk) (hy : y ∈ walk) : ReflTransGen r x y := by
  obtain ⟨mid, hwalk, -, hmem⟩ := h.rotated hx
  rcases List.mem_cons.mp (hmem y hy) with rfl | hy
  · exact .refl
  · exact List.IsChain.cons_induction (ReflTransGen r x) _ hwalk.steps (fun _ _ huv hxu => hxu.tail huv) .refl
      y hy

lemma transGen (h : ClosedWalk r walk) (hx : x ∈ walk) : TransGen r x x := by
  obtain ⟨mid, hwalk, -, -⟩ := h.rotated hx
  cases hmid : mid ++ [x] with
  | nil => simp at hmid
  | cons b rest =>
    rw [hmid] at hwalk
    have hb := hwalk.reaches (List.mem_cons_of_mem _ List.mem_cons_self) List.mem_cons_self
    exact .head' (List.isChain_cons_cons.mp hwalk.steps).1 hb

lemma mono {s : α → α → Prop} (h : ClosedWalk r walk) (hrs : ∀ u v, r u v → s u v) : ClosedWalk s walk where
  steps := h.steps.imp fun _ _ huv => hrs _ _ huv
  length := h.length
  closes := h.closes

/-- If every step is one of a second relation or one of a third, the walk is one of the second relation or has a
step of the third. -/
lemma imp_or {s t : α → α → Prop} (h : ClosedWalk r walk) (hstep : ∀ u v, r u v → s u v ∨ t u v) :
    ClosedWalk s walk ∨ ∃ u v, [u, v] <:+: walk ∧ t u v := by
  by_cases ht : ∃ u v, [u, v] <:+: walk ∧ t u v
  · exact .inr ht
  · refine .inl ⟨List.isChain_iff_forall_rel_of_append_cons_cons.mpr ?_, h.length, h.closes⟩
    intro u v before after heq
    have hpair : [u, v] <:+: walk := ⟨before, after, by simp [heq]⟩
    have huv := List.isChain_iff_forall_rel_of_append_cons_cons.mp h.steps heq
    exact (hstep u v huv).resolve_right fun h => ht ⟨u, v, hpair, h⟩

/-- A property of points that goes along with the steps is met nowhere on a closed walk, or everywhere. -/
lemma of_or {p : α → Prop} (h : ClosedWalk (fun u v => r u v ∨ p v) walk) (hp : ∀ u v, r u v → p u → p v)
    (hx : x ∈ walk) (hout : ¬ p x) : ClosedWalk r walk := by
  have hno : ∀ y ∈ walk, ¬ p y := fun y hy hpy => by
    have hgoes : ∀ z, ReflTransGen (fun u v => r u v ∨ p v) y z → p z := fun z hz => by
      induction hz with
      | refl => exact hpy
      | tail _ huv ih => exact huv.elim (fun huv => hp _ _ huv ih) id
    exact hout (hgoes x (h.reaches hy hx))
  exact ⟨h.steps.imp_of_mem_imp fun u v _ hv huv => huv.resolve_right (hno v hv), h.length, h.closes⟩

end ClosedWalk

end ReactiveNotebook.Graph
