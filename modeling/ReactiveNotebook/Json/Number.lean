import ReactiveNotebook.Json.Basic
import ReactiveNotebook.Decimal.Read

/-!
# Numbers in JSON texts

A number without point and exponent that fits a word of 64 bits is an integer. Any other number is computed
in double arithmetic from the leading digits that fit a word and a power of ten, so its last bit may differ
from the nearest double. A number beyond the range of doubles is refused, and negative zero is a double.
-/
namespace ReactiveNotebook.Json

/-- The leading digits of a number and the power of ten they are multiplied by. -/
structure Scaled where
  digits : Nat
  exponent : Int

def greatestWord : Nat := Nat.pow 2 64 - 1

namespace Scaled

/-- Takes in digits before the point. Once a digit no longer fits, the remaining ones only scale. -/
def addWhole : Scaled → Bool → List Char → Scaled × Bool
  | s, full, [] => (s, full)
  | s, full, c :: cs =>
    let next := 10 * s.digits + (c.toNat - '0'.toNat)
    if full || greatestWord < next then addWhole { s with exponent := s.exponent + 1 } true cs
    else addWhole { s with digits := next } false cs

/-- Takes in digits after the point. From the first one that does not fit on they are ignored. -/
def addFraction : Scaled → List Char → Scaled
  | s, [] => s
  | s, c :: cs =>
    let next := 10 * s.digits + (c.toNat - '0'.toNat)
    if greatestWord < next then s else addFraction ⟨next, s.exponent - 1⟩ cs

/-- The double nearest to a power of ten. -/
def powerOfTen (n : Nat) : Double := Decimal.encode false (.ofDecimal 1 n)

/-- The largest power of ten among the doubles. -/
def greatestPower : Nat := 308

/-- Multiplies or divides a double by a power of ten, in several steps if it is too small. The fuel bounds
the steps. -/
def scale : Nat → Double → Int → Option Double
  | 0, _, _ => some 0
  | fuel + 1, x, e =>
    if e.natAbs ≤ greatestPower then
      if 0 ≤ e then
        let y := x * powerOfTen e.natAbs
        if y.isInf then none else some y
      else some (x / powerOfTen e.natAbs)
    else if x == 0 then some x
    else if 0 ≤ e then none
    else scale fuel (x / powerOfTen greatestPower) (e + greatestPower)

/-- The double that the digits and the power of ten yield. -/
def toFloat? (s : Scaled) (negative : Bool) : Option Double :=
  (scale 8 (.ofFloat (UInt64.ofNat s.digits).toFloat) s.exponent).map fun x => if negative then -x else x

end Scaled

/-- The largest exponent that is read digit by digit. -/
def greatestExponent : Nat := Nat.pow 2 31 - 1

/-- Reads the digits of an exponent after its mark, and applies it. -/
def readExponent? (s : Scaled) (negative : Bool) (cs : List Char) : Option (Json × List Char) :=
  let (down, rest) := match cs with
    | '+' :: rest => (false, rest)
    | '-' :: rest => (true, rest)
    | _ => (false, cs)
  let digits := rest.takeWhile Char.isDigit
  let after := rest.dropWhile Char.isDigit
  if digits.isEmpty then none
  else
    let e := Decimal.ofDigits digits
    if greatestExponent < e then
      if s.digits != 0 && !down then none else some (.float (if negative then -0.0 else 0.0), after)
    else
      (Scaled.toFloat? { s with exponent := if down then s.exponent - e else s.exponent + e } negative).map
        fun x => (.float x, after)

/-- Reads what may follow the digits before the point. -/
def readTail? (s : Scaled) (full negative : Bool) (cs : List Char) : Option (Json × List Char) :=
  let float? (s : Scaled) (after : List Char) : Option (Json × List Char) :=
    (s.toFloat? negative).map fun x => (.float x, after)
  match cs with
  | '.' :: rest =>
    let digits := rest.takeWhile Char.isDigit
    let after := rest.dropWhile Char.isDigit
    if digits.isEmpty then none
    else
      let s := s.addFraction digits
      match after with
      | 'e' :: after | 'E' :: after => readExponent? s negative after
      | _ => float? s after
  | 'e' :: rest | 'E' :: rest => readExponent? s negative rest
  | _ =>
    if full then float? s cs
    else if !negative then some (.int s.digits, cs)
    else if s.digits = 0 || Nat.pow 2 63 < s.digits then float? s cs
    else some (.int (-s.digits), cs)

/-- Reads a number: an optional minus sign, digits without a leading zero, and what may follow them. -/
def readNumber? (cs : List Char) : Option (Json × List Char) :=
  let (negative, rest) := match cs with
    | '-' :: rest => (true, rest)
    | _ => (false, cs)
  let digits := rest.takeWhile Char.isDigit
  match digits with
  | [] => none
  | '0' :: _ :: _ => none
  | _ =>
    let (s, full) := Scaled.addWhole ⟨0, 0⟩ false digits
    readTail? s full negative (rest.dropWhile Char.isDigit)

end ReactiveNotebook.Json
