/-!
# Rounding a quotient to the nearest integer

Every number the library prints or reads is rounded by one rule: the nearest integer, and of two equally
near ones the even one.
-/
namespace ReactiveNotebook.Decimal

/-- The integer nearest to `num / den`, a tie going to the even neighbour. -/
def roundDiv (num den : Nat) : Nat :=
  let q := num / den
  let r := num % den
  if 2 * r < den then q
  else if den < 2 * r then q + 1
  else if q % 2 = 0 then q else q + 1

/-- A non-negative rational number as numerator and denominator. -/
structure Ratio where
  num : Nat
  den : Nat
  den_pos : 0 < den

namespace Ratio

/-- The number `m · 2^q`. -/
def ofBinary (m : Nat) (q : Int) : Ratio :=
  match q with
  | .ofNat k => ⟨m * Nat.pow 2 k, 1, Nat.one_pos⟩
  | .negSucc k => ⟨m, Nat.pow 2 (k + 1), Nat.pow_pos (by decide)⟩

/-- The number `m · 10^e`. -/
def ofDecimal (m : Nat) (e : Int) : Ratio :=
  match e with
  | .ofNat k => ⟨m * Nat.pow 10 k, 1, Nat.one_pos⟩
  | .negSucc k => ⟨m, Nat.pow 10 (k + 1), Nat.pow_pos (by decide)⟩

/-- Whether `a ≤ b`. -/
def le (a b : Ratio) : Bool :=
  a.num * b.den ≤ b.num * a.den

/-- Whether `a < b`. -/
def lt (a b : Ratio) : Bool :=
  a.num * b.den < b.num * a.den

/-- The number `r / 10^e`. -/
def scaleDown (r : Ratio) (e : Int) : Ratio :=
  match e with
  | .ofNat k => ⟨r.num, r.den * Nat.pow 10 k, Nat.mul_pos r.den_pos (Nat.pow_pos (by decide))⟩
  | .negSucc k => ⟨r.num * Nat.pow 10 (k + 1), r.den, r.den_pos⟩

/-- The nearest integer, a tie going to the even neighbour. -/
def round (r : Ratio) : Nat :=
  roundDiv r.num r.den

end Ratio

/-- Rounding moves a quotient by at most half a unit. -/
theorem roundDiv_near (num den : Nat) (h : 0 < den) :
    2 * num ≤ 2 * (roundDiv num den * den) + den ∧ 2 * (roundDiv num den * den) ≤ 2 * num + den := by
  have e : den * (num / den) + num % den = num := Nat.div_add_mod num den
  have l : num % den < den := Nat.mod_lt num h
  have c : num / den * den = den * (num / den) := Nat.mul_comm ..
  have s : (num / den + 1) * den = den * (num / den) + den := by rw [Nat.add_mul, c, Nat.one_mul]
  unfold roundDiv
  simp only
  split
  · omega
  · split
    · omega
    · split <;> omega

end ReactiveNotebook.Decimal
