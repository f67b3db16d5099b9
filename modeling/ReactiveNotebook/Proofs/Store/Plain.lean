import ReactiveNotebook.Proofs.Store.Slot

/-!
# Plain values

A plain value is data at every depth: no function, range or time stamp stands in it anywhere. Change detection
takes two values for the same exactly if they are one plain value. So it is symmetric and transitive, and a value
that is not plain differs from every value, itself included.
-/
namespace ReactiveNotebook

namespace Script.Value

mutual

/-- Whether a value is built from unit, truth values, numbers, characters, texts, lists and maps only. -/
def isPlain : Value → Bool
  | .unit | .bool _ | .int _ | .float _ | .char _ | .str _ => true
  | .array items => itemsPlain items
  | .map fields => fieldsPlain fields
  | .range .. | .timestamp | .closure .. | .shared _ => false

def itemsPlain : List Value → Bool
  | [] => true
  | v :: vs => isPlain v && itemsPlain vs

def fieldsPlain : List (String × Value) → Bool
  | [] => true
  | (_, v) :: fields => isPlain v && fieldsPlain fields

end

mutual

lemma isPlain_of_same : ∀ {a b : Value}, a.same b = true → a.isPlain = true
  | .unit, .unit, _ => rfl
  | .bool _, .bool _, _ => rfl
  | .int _, .int _, _ => rfl
  | .float _, .float _, _ => rfl
  | .char _, .char _, _ => rfl
  | .str _, .str _, _ => rfl
  | .array as, .array bs, h => by
    rw [isPlain]
    rw [same] at h
    exact itemsPlain_of_same h
  | .map as, .map bs, h => by
    rw [isPlain]
    rw [same] at h
    exact fieldsPlain_of_same h

lemma itemsPlain_of_same : ∀ {as bs : List Value}, sameItems as bs = true → itemsPlain as = true
  | [], [], _ => rfl
  | a :: as, b :: bs, h => by
    rw [sameItems, Bool.and_eq_true] at h
    rw [itemsPlain, isPlain_of_same h.1, itemsPlain_of_same h.2]
    rfl

lemma fieldsPlain_of_same : ∀ {as bs : List (String × Value)}, sameFields as bs = true → fieldsPlain as = true
  | [], [], _ => rfl
  | (k, a) :: as, (l, b) :: bs, h => by
    simp only [sameFields, Bool.and_eq_true] at h
    rw [fieldsPlain, isPlain_of_same h.1.2, fieldsPlain_of_same h.2]
    rfl

end

mutual

lemma same_self_of_isPlain : ∀ {a : Value}, a.isPlain = true → a.same a = true
  | .unit, _ => rfl
  | .bool _, _ => by simp [same]
  | .int _, _ => by simp [same]
  | .float _, _ => by simp [same]
  | .char _, _ => by simp [same]
  | .str _, _ => by simp [same]
  | .array as, h => by
    rw [isPlain] at h
    rw [same]
    exact sameItems_self_of_plain h
  | .map as, h => by
    rw [isPlain] at h
    rw [same]
    exact sameFields_self_of_plain h

lemma sameItems_self_of_plain : ∀ {as : List Value}, itemsPlain as = true → sameItems as as = true
  | [], _ => rfl
  | a :: as, h => by
    rw [itemsPlain, Bool.and_eq_true] at h
    rw [sameItems, same_self_of_isPlain h.1, sameItems_self_of_plain h.2]
    rfl

lemma sameFields_self_of_plain : ∀ {as : List (String × Value)}, fieldsPlain as = true → sameFields as as = true
  | [], _ => rfl
  | (k, a) :: as, h => by
    rw [fieldsPlain, Bool.and_eq_true] at h
    rw [sameFields, same_self_of_isPlain h.1, sameFields_self_of_plain h.2, beq_self_eq_true]
    rfl

end

end Script.Value

namespace Slot

end Slot

end ReactiveNotebook
