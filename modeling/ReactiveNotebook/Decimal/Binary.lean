import ReactiveNotebook.Decimal.Rounding
import ReactiveNotebook.Double

/-!
# Doubles as exact numbers

A finite double is `± m · 2^q`. Decoding reads the three fields of its bits, and encoding finds the double
nearest to a rational number, a tie going to the even mantissa.
-/
namespace ReactiveNotebook.Decimal

/-- What the bits of a double stand for. -/
inductive Binary where
  | nan
  | infinite (negative : Bool)
  /-- The number `± mantissa · 2^exponent`; zero keeps its sign. -/
  | finite (negative : Bool) (mantissa : Nat) (exponent : Int)
  deriving DecidableEq, Repr

/-- The exponent of the last place of the smallest doubles. -/
def leastExponent : Int := -1074

/-- Reads sign, exponent and fraction. -/
def Binary.ofBits (bits : Nat) : Binary :=
  let negative : Bool := bits / Nat.pow 2 63 % 2 = 1
  let exponent : Nat := bits / Nat.pow 2 52 % Nat.pow 2 11
  let fraction : Nat := bits % Nat.pow 2 52
  if exponent = 2047 then (if fraction = 0 then .infinite negative else .nan)
  else if exponent = 0 then .finite negative fraction leastExponent
  else .finite negative (Nat.pow 2 52 + fraction) ((exponent : Int) - 1075)

/-- The number a double stands for. -/
def decode (x : Double) : Binary :=
  Binary.ofBits x.toBits.toNat

/-- Whether the sign bit is set. -/
def isNegative (x : Double) : Bool :=
  match decode x with
  | .nan => false
  | .infinite negative => negative
  | .finite negative _ _ => negative

/-- The bits of the double nearest to a rational number, which overflows to infinity. -/
def nearestBits (r : Ratio) : Nat :=
  if r.num = 0 then 0
  else
    let l : Int := (r.num.log2 : Int) - (r.den.log2 : Int)
    let lead := if Ratio.le (.ofBinary 1 l) r then l else l - 1
    let q := max (lead - 52) leastExponent
    let m := match q with
      | .ofNat k => roundDiv r.num (r.den * Nat.pow 2 k)
      | .negSucc k => roundDiv (r.num * Nat.pow 2 (k + 1)) r.den
    let (m, q) := if m = Nat.pow 2 53 then (Nat.pow 2 52, q + 1) else (m, q)
    if m < Nat.pow 2 52 then m
    else if q > 971 then 2047 * Nat.pow 2 52
    else (q + 1075).toNat * Nat.pow 2 52 + (m - Nat.pow 2 52)

/-- The double nearest to `r`, or to `-r`. -/
def encode (negative : Bool) (r : Ratio) : Double :=
  .ofBits (UInt64.ofNat (nearestBits r + if negative then Nat.pow 2 63 else 0))

/-- The remainder of `x / y` truncated to an integer; it has the sign of `x` and is exact. -/
def remainder (x y : Double) : Double :=
  match decode x, decode y with
  | .nan, _ => x.quiet
  | _, .nan => y.quiet
  | .infinite _, _ => .invalid
  | _, .infinite _ => x
  | .finite negative a q, .finite _ b r =>
    if b = 0 then .invalid
    else
      let e := min q r
      encode negative (.ofBinary ((a * Nat.pow 2 (q - e).toNat) % (b * Nat.pow 2 (r - e).toNat)) e)

end ReactiveNotebook.Decimal
