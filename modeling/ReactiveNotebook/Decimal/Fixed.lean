import ReactiveNotebook.Decimal.Binary

/-!
# Decimal text with a fixed number of places

A number is rounded to a given number of decimal places on its exact value, a tie going to the even last
digit, and all places are written.
-/
namespace ReactiveNotebook.Decimal

/-- The integer nearest to `r · 10^places`. -/
def scaledAmount (r : Ratio) (places : Nat) : Nat :=
  roundDiv (r.num * Nat.pow 10 places) r.den

def natDigits (n : Nat) : List Char :=
  Nat.toDigits 10 n

/-- At least `width` digits, with zeros in front. -/
def paddedDigits (width n : Nat) : List Char :=
  let ds := natDigits n
  List.replicate (width - ds.length) '0' ++ ds

/-- A double has no more decimal places than this, so rounding to more places only appends zeros. -/
def mostPlaces : Nat := 1074

/-- The text of `r` with `places` places, without a sign. -/
def fixedText (r : Ratio) (places : Nat) : List Char :=
  let exact := min places mostPlaces
  let ds := paddedDigits (exact + 1) (scaledAmount r exact)
  let whole := ds.take (ds.length - exact)
  let tail := ds.drop (ds.length - exact) ++ List.replicate (places - exact) '0'
  if places = 0 then whole else whole ++ '.' :: tail

/-- The text of a finite double with `places` places; the sign of zero is kept. Other doubles have none. -/
def fixed? (x : Double) (places : Nat) : Option String :=
  match decode x with
  | .finite negative m q =>
    let text := fixedText (.ofBinary m q) places
    some (String.ofList (if negative then '-' :: text else text))
  | _ => none

end ReactiveNotebook.Decimal
