import Mathlib.Tactic
import ReactiveNotebook.Store.Slot

/-!
# Change detection is exact

Two slots that change detection cannot tell apart are equal, so a commit that is not counted as a change
leaves the slot as it was. The converse fails: a closure, a range or a time stamp counts as changed by every
commit.
-/
namespace ReactiveNotebook

namespace Script.Value

mutual

theorem eq_of_same : ∀ {a b : Value}, a.same b = true → a = b
  | .unit, .unit, _ => rfl
  | .bool a, .bool b, h => by simpa [same] using h
  | .int a, .int b, h => by simpa [same] using h
  | .float a, .float b, h => by
    have hb : a.toBits = b.toBits := by simpa [same] using h
    rw [Double.ext hb]
  | .char a, .char b, h => by simpa [same] using h
  | .str a, .str b, h => by simpa [same] using h
  | .array a, .array b, h => by
    have hi : sameItems a b = true := by simpa [same] using h
    rw [eq_of_sameItems hi]
  | .map a, .map b, h => by
    have hf : sameFields a b = true := by simpa [same] using h
    rw [eq_of_sameFields hf]

theorem eq_of_sameItems : ∀ {as bs : List Value}, sameItems as bs = true → as = bs
  | [], [], _ => rfl
  | a :: as, b :: bs, h => by
    rw [sameItems, Bool.and_eq_true] at h
    rw [eq_of_same h.1, eq_of_sameItems h.2]

theorem eq_of_sameFields : ∀ {as bs : List (String × Value)}, sameFields as bs = true → as = bs
  | [], [], _ => rfl
  | (k, a) :: as, (l, b) :: bs, h => by
    simp only [sameFields, Bool.and_eq_true, beq_iff_eq] at h
    rw [h.1.1, eq_of_same h.1.2, eq_of_sameFields h.2]

end

end Script.Value

namespace Slot

theorem eq_of_same {a b : Slot} (h : a.same b = true) : a = b := by
  cases a with
  | undefined => cases b <;> simp_all [same]
  | value v =>
    cases b with
    | value w =>
      have hv : v.same w = true := by simpa [same] using h
      rw [Script.Value.eq_of_same hv]
    | _ => simp [same] at h
  | error f => cases b <;> simp_all [same]

@[simp] lemma isError_eq_false_iff {s : Slot} : s.isError = false ↔ s.fault? = none := by
  cases s <;> simp [isError, fault?]

end Slot

end ReactiveNotebook
