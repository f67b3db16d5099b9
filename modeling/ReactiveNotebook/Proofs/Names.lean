import Mathlib.Data.Finset.Card
import ReactiveNotebook.Names

/-!
# Members of sets of names
-/
namespace ReactiveNotebook.Names

variable {s : Names} {x : String}

@[simp] lemma mem_toList : x ∈ s.toList ↔ x ∈ s := Iff.rfl

lemma nodup (s : Names) : s.toList.Nodup := s.sorted.imp fun h => String.ne_of_lt h

lemma contains_eq_false_iff : s.contains x = false ↔ x ∉ s := by
  rw [← Bool.not_eq_true, contains_iff]

/-- The members as a finite set. -/
def toFinset (s : Names) : Finset String := s.toList.toFinset

@[simp] lemma mem_toFinset : x ∈ s.toFinset ↔ x ∈ s := List.mem_toFinset

end ReactiveNotebook.Names
