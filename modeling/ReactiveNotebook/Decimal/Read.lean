import ReactiveNotebook.Decimal.Binary

/-!
# Reading numbers

An integer is an optional sign and digits. A decimal number is an optional sign, digits with at most one
point among or around them, and an optional exponent; the words for infinity and for the value that is no
number are accepted in any case. A decimal is rounded to the nearest double.
-/
namespace ReactiveNotebook.Decimal

def ofDigits (ds : List Char) : Nat :=
  ds.foldl (fun n c => 10 * n + (c.toNat - '0'.toNat)) 0

def takeSign : List Char → Bool × List Char
  | '-' :: rest => (true, rest)
  | '+' :: rest => (false, rest)
  | cs => (false, cs)

/-- The value of a non-empty list of digits. -/
def readNat? (cs : List Char) : Option Nat :=
  if cs.isEmpty || !cs.all Char.isDigit then none else some (ofDigits cs)

/-- The value of an optional sign followed by digits. -/
def readInt? (cs : List Char) : Option Int :=
  let (negative, digits) := takeSign cs
  (readNat? digits).map fun n => if negative then -(n : Int) else n

/-- Whether an integer fits a signed word of 64 bits. -/
def fits64 (n : Int) : Bool :=
  -(Nat.pow 2 63 : Int) ≤ n && n < (Nat.pow 2 63 : Int)

/-- The value of an optional sign followed by digits, within the range of a signed word. -/
def readInt64? (cs : List Char) : Option Int64 :=
  match readInt? cs with
  | some n => if fits64 n then some (Int64.ofInt n) else none
  | none => none

/-- The digits of a decimal number as one integer and the exponent of its last digit. -/
structure Mantissa where
  digits : Nat
  count : Nat
  exponent : Int

/-- Reads `whole.fraction`, in which one of the parts may be missing, and returns what follows. -/
def readMantissa? (cs : List Char) : Option (Mantissa × List Char) :=
  let whole := cs.takeWhile Char.isDigit
  match cs.dropWhile Char.isDigit with
  | '.' :: rest =>
    let fraction := rest.takeWhile Char.isDigit
    if whole.isEmpty && fraction.isEmpty then none
    else some (⟨ofDigits (whole ++ fraction), whole.length + fraction.length, -fraction.length⟩,
      rest.dropWhile Char.isDigit)
  | rest => if whole.isEmpty then none else some (⟨ofDigits whole, whole.length, 0⟩, rest)

/-- Reads an exponent that is the whole rest of the text. -/
def readExponent? : List Char → Option Int
  | [] => some 0
  | c :: rest => if c == 'e' || c == 'E' then readInt? rest else none

/-- The double nearest to `m · 10^e`; exponents beyond the range of doubles are not computed. -/
def nearestDecimal (negative : Bool) (m : Mantissa) (e : Int) : Double :=
  let scale := m.exponent + e
  let lead := scale + m.count
  if m.digits = 0 || lead < -400 then encode negative ⟨0, 1, Nat.one_pos⟩
  else if 400 < scale then (if negative then -.infinity else .infinity)
  else encode negative (.ofDecimal m.digits scale)

def readFloat? (cs : List Char) : Option Double :=
  let (negative, rest) := takeSign cs
  let word := String.ofList (rest.map Char.toLower)
  if word == "inf" || word == "infinity" then some (if negative then -.infinity else .infinity)
  else if word == "nan" then some (if negative then -.notANumber else .notANumber)
  else do
    let (m, rest) ← readMantissa? rest
    let e ← readExponent? rest
    return nearestDecimal negative m e

end ReactiveNotebook.Decimal
