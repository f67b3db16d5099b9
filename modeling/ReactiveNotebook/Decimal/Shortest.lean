import ReactiveNotebook.Decimal.Fixed

/-!
# The shortest decimal that reads back

Among the decimals that round to a given double, the shortest is found by trying 1, 2, … 17 digits. On the
grid of each length only the two neighbours of the exact value can lie in the rounding interval; the first
grid with a hit wins, and of two hits the nearer.
-/
namespace ReactiveNotebook.Decimal

/-- The number `digits · 10^scale`. -/
structure Digits where
  digits : Nat
  scale : Int
  deriving DecidableEq, Repr

/-- The reals that round to one double. -/
structure Interval where
  low : Ratio
  high : Ratio
  /-- Whether the end points belong to it. -/
  closed : Bool

/-- The reals that round to `m · 2^q`. -/
def Interval.around (m : Nat) (q : Int) : Interval where
  low := if m = Nat.pow 2 52 ∧ leastExponent < q then .ofBinary (4 * m - 1) (q - 2) else .ofBinary (2 * m - 1) (q - 1)
  high := .ofBinary (2 * m + 1) (q - 1)
  closed := m % 2 = 0

def Interval.contains (i : Interval) (r : Ratio) : Bool :=
  if i.closed then i.low.le r && r.le i.high else i.low.lt r && r.lt i.high

/-- The exponent of the leading decimal digit of a positive number. -/
def leadingExponent (r : Ratio) : Int :=
  let guess := (((r.num.log2 : Int) - (r.den.log2 : Int) - 1) * 30103).fdiv 100000
  if (Ratio.ofDecimal 1 (guess + 2)).le r then guess + 2
  else if (Ratio.ofDecimal 1 (guess + 1)).le r then guess + 1
  else if (Ratio.ofDecimal 1 guess).le r then guess
  else guess - 1

/-- The decimal with `count` digits in the interval that is nearest to `r`, if there is one. -/
def neighbour? (i : Interval) (r : Ratio) (lead : Int) (count : Nat) : Option Digits :=
  let scale := lead - count + 1
  let s := r.scaleDown scale
  let below := s.num / s.den
  let down := i.contains (.ofDecimal below scale)
  let up := i.contains (.ofDecimal (below + 1) scale)
  if down && up then some ⟨s.round, scale⟩
  else if down then some ⟨below, scale⟩
  else if up then some ⟨below + 1, scale⟩
  else none

/-- Moves the trailing zeros of at most `fuel` places from the digits into the scale. -/
def Digits.strip : Nat → Digits → Digits
  | 0, d => d
  | fuel + 1, d => if d.digits ≠ 0 ∧ d.digits % 10 = 0 then strip fuel ⟨d.digits / 10, d.scale + 1⟩ else d

/-- The shortest decimal that rounds to `m · 2^q`, for a positive `m`. -/
def shortest (m : Nat) (q : Int) : Digits :=
  let r := Ratio.ofBinary m q
  let i := Interval.around m q
  let lead := leadingExponent r
  match (List.range 17).findSome? fun k => neighbour? i r lead (k + 1) with
  | some d => d.strip 20
  | none => ⟨(r.scaleDown (lead - 16)).round, lead - 16⟩

def Digits.count (d : Digits) : Nat :=
  (natDigits d.digits).length

def Digits.exponent (d : Digits) : Int :=
  d.scale + d.count - 1

end ReactiveNotebook.Decimal
