import Mathlib.Data.List.DropRight
import ReactiveNotebook.Text.Blank

/-!
# Lengths and ends of texts
-/
namespace ReactiveNotebook.Text

lemma foldl_utf8Size (n : ℕ) (cs : List Char) : cs.foldl (fun n c => n + c.utf8Size) n = n + byteLength cs := by
  induction cs generalizing n with
  | nil => rfl
  | cons c cs ih =>
    simp only [byteLength, List.foldl_cons] at ih ⊢
    rw [ih, ih (0 + c.utf8Size), Nat.zero_add, Nat.add_assoc]

@[simp] lemma byteLength_nil : byteLength [] = 0 := rfl

@[simp] lemma byteLength_cons (c : Char) (cs : List Char) : byteLength (c :: cs) = c.utf8Size + byteLength cs := by
  rw [byteLength, List.foldl_cons, foldl_utf8Size, Nat.zero_add]

@[simp] lemma byteLength_append (cs ds : List Char) : byteLength (cs ++ ds) = byteLength cs + byteLength ds := by
  rw [byteLength, List.foldl_append, foldl_utf8Size]
  rfl

/-- What stands in front is as long as what the rest leaves. -/
lemma byteLength_sub {cs front rest : List Char} (h : front ++ rest = cs) :
    byteLength cs - byteLength rest = byteLength front := by
  rw [← h, byteLength_append, Nat.add_sub_cancel]

/-- Trimming takes away blanks at the ends only. -/
lemma exists_trimList (cs : List Char) :
    ∃ front back, cs = front ++ trimList cs ++ back ∧ front.all isBlank = true ∧ back.all isBlank = true := by
  refine ⟨cs.takeWhile isBlank, (cs.dropWhile isBlank).rtakeWhile isBlank, ?_, List.all_takeWhile, ?_⟩
  · have htrim : trimList cs = (cs.dropWhile isBlank).rdropWhile isBlank := rfl
    rw [htrim, List.append_assoc, List.rdropWhile_append_rtakeWhile, List.takeWhile_append_dropWhile]
  · exact List.all_eq_true.2 fun c hc => List.mem_rtakeWhile_imp hc

end ReactiveNotebook.Text
