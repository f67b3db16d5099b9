/-!
# Finite sets of names

A set of names is held as its members in strictly ascending order, so two sets with the same members are
equal and listing a set needs no further sorting.
-/
namespace ReactiveNotebook

/-- Inserts a name into an ascending list, unless it is there already. -/
def insertName (name : String) : List String → List String
  | [] => [name]
  | x :: xs =>
    if name < x then name :: x :: xs
    else if name = x then x :: xs
    else x :: insertName name xs

@[simp] theorem mem_insertName {name y : String} {xs : List String} :
    y ∈ insertName name xs ↔ y = name ∨ y ∈ xs := by
  induction xs with
  | nil => simp [insertName]
  | cons x xs ih =>
    rw [insertName]
    split
    · simp
    · split
      · rename_i h; subst h; simp
      · simp only [List.mem_cons, ih]
        constructor
        · rintro (h | h | h) <;> simp [h]
        · rintro (h | h | h) <;> simp [h]

theorem insertName_sorted {name : String} {xs : List String} (h : xs.Pairwise (· < ·)) :
    (insertName name xs).Pairwise (· < ·) := by
  induction xs with
  | nil => simp [insertName]
  | cons x xs ih =>
    have hx := List.pairwise_cons.1 h
    rw [insertName]
    split
    · rename_i hlt
      refine List.pairwise_cons.2 ⟨fun y hy => ?_, h⟩
      rcases List.mem_cons.1 hy with rfl | hy
      · exact hlt
      · exact String.lt_trans hlt (hx.1 y hy)
    · split
      · exact h
      · rename_i hlt hne
        refine List.pairwise_cons.2 ⟨fun y hy => ?_, ih hx.2⟩
        rcases mem_insertName.1 hy with rfl | hy
        · rcases String.le_total x y with hle | hle
          · refine Classical.byContradiction fun hn => hne ?_
            exact String.le_antisymm (String.not_lt.1 hn) hle
          · refine Classical.byContradiction fun hn => hne ?_
            exact String.le_antisymm (String.not_lt.1 hn) (String.not_lt.1 hlt)
        · exact hx.1 y hy

structure Names where
  toList : List String
  sorted : toList.Pairwise (· < ·) := by decide
  deriving DecidableEq

namespace Names

def empty : Names := ⟨[], .nil⟩

instance : EmptyCollection Names := ⟨empty⟩
instance : Inhabited Names := ⟨empty⟩
instance : Membership String Names := ⟨fun s name => name ∈ s.toList⟩
instance (name : String) (s : Names) : Decidable (name ∈ s) := inferInstanceAs (Decidable (name ∈ s.toList))

def contains (s : Names) (name : String) : Bool := s.toList.contains name

def insert (s : Names) (name : String) : Names := ⟨insertName name s.toList, insertName_sorted s.sorted⟩

def insertAll (s : Names) (names : List String) : Names := names.foldl insert s

def ofList (names : List String) : Names := empty.insertAll names

def union (s t : Names) : Names := s.insertAll t.toList

def filter (p : String → Bool) (s : Names) : Names := ⟨s.toList.filter p, s.sorted.filter _⟩

@[simp] theorem not_mem_empty (x : String) : ¬ x ∈ (∅ : Names) := List.not_mem_nil

@[simp] theorem contains_iff {s : Names} {x : String} : s.contains x = true ↔ x ∈ s :=
  List.contains_iff_mem

@[simp] theorem mem_insert {s : Names} {x y : String} : y ∈ s.insert x ↔ y = x ∨ y ∈ s :=
  mem_insertName

@[simp] theorem mem_insertAll {s : Names} {xs : List String} {y : String} :
    y ∈ s.insertAll xs ↔ y ∈ xs ∨ y ∈ s := by
  induction xs generalizing s with
  | nil => simp [insertAll]
  | cons x xs ih =>
    have h : s.insertAll (x :: xs) = (s.insert x).insertAll xs := rfl
    rw [h, ih, mem_insert, List.mem_cons]
    constructor
    · rintro (h | h | h) <;> simp [h]
    · rintro ((h | h) | h) <;> simp [h]

@[simp] theorem mem_ofList {xs : List String} {y : String} : y ∈ ofList xs ↔ y ∈ xs := by
  rw [ofList, mem_insertAll]
  exact or_iff_left (not_mem_empty y)

@[simp] theorem mem_union {s t : Names} {y : String} : y ∈ s.union t ↔ y ∈ t ∨ y ∈ s :=
  mem_insertAll

@[simp] theorem mem_filter {s : Names} {p : String → Bool} {y : String} :
    y ∈ s.filter p ↔ y ∈ s ∧ p y = true :=
  List.mem_filter

end Names

end ReactiveNotebook
