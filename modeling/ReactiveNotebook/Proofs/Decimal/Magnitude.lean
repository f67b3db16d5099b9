import Mathlib.Tactic
import ReactiveNotebook.Decimal.Fixed

/-!
# The magnitude of a double

The absolute value of a double has the sign bit cleared and the other fields of the double.
-/
namespace ReactiveNotebook.Decimal

variable {x : Double} {negative : Bool} {m : ℕ} {q : ℤ}

lemma toNat_magnitudeBits (x : Double) : x.magnitudeBits.toNat = x.toBits.toNat % 2 ^ 63 := by
  rw [Double.magnitudeBits, UInt64.toNat_and]
  exact Nat.and_two_pow_sub_one_eq_mod _ 63

/-- The fields of a finite double and what is left of them without the sign. -/
lemma ofBits_finite {n : ℕ} (h : Binary.ofBits n = .finite negative m q) :
    leastExponent ≤ q ∧ Binary.ofBits (n % 2 ^ 63) = .finite false m q := by
  have hexponent : n % 2 ^ 63 / 2 ^ 52 % 2 ^ 11 = n / 2 ^ 52 % 2 ^ 11 := by omega
  have hfraction : n % 2 ^ 63 % 2 ^ 52 = n % 2 ^ 52 := by omega
  have hsign : decide (n % 2 ^ 63 / 2 ^ 63 % 2 = 1) = false := by
    rw [decide_eq_false_iff_not]
    omega
  unfold Binary.ofBits at h ⊢
  simp only [Nat.pow_eq] at h ⊢
  rw [hexponent, hfraction, hsign]
  split_ifs at h ⊢ with hinfinite hzero hsubnormal
  · obtain ⟨-, rfl, rfl⟩ := Binary.finite.inj h
    exact ⟨le_rfl, rfl⟩
  · obtain ⟨-, rfl, rfl⟩ := Binary.finite.inj h
    exact ⟨by unfold leastExponent; omega, rfl⟩

/-- The absolute value of a finite double has the same mantissa and exponent. -/
theorem decode_abs (h : decode x = .finite negative m q) : decode x.abs = .finite false m q := by
  change Binary.ofBits x.magnitudeBits.toNat = _
  rw [toNat_magnitudeBits]
  exact (ofBits_finite h).2

lemma leastExponent_le (h : decode x = .finite negative m q) : leastExponent ≤ q := (ofBits_finite h).1

end ReactiveNotebook.Decimal
