import ReactiveNotebook.Decimal.Shortest

/-!
# How a double is written

A layout chooses between the positional and the scientific form of the shortest decimal and gives the texts
of zero and of the values that are no finite number. Positional text of an integer keeps `.0`.
-/
namespace ReactiveNotebook.Decimal

/-- The decisions of one way to write doubles. -/
structure Layout where
  /-- Which decimals are written without an exponent. -/
  positional : Digits → Bool
  /-- Whether a negative zero shows its sign. -/
  signedZero : Bool
  /-- What precedes the digits of an exponent that is not negative. -/
  exponentMark : List Char

/-- Digits and a decimal point, with `.0` after an integer. -/
def positionalText (d : Digits) : List Char :=
  match d.scale with
  | .ofNat k => natDigits d.digits ++ List.replicate k '0' ++ ['.', '0']
  | .negSucc k =>
    let ds := paddedDigits (k + 2) d.digits
    ds.take (ds.length - (k + 1)) ++ '.' :: ds.drop (ds.length - (k + 1))

/-- One digit, the others after a point, and the exponent, which `mark` precedes unless it is negative. -/
def scientificText (mark : List Char) (d : Digits) : List Char :=
  let mantissa := match natDigits d.digits with
    | [] => []
    | [c] => [c]
    | c :: cs => c :: '.' :: cs
  mantissa ++ 'e' :: (if d.exponent < 0 then [] else mark) ++ (toString d.exponent).toList

def Layout.text (l : Layout) (x : Double) : String :=
  match decode x with
  | .nan => "NaN"
  | .infinite negative => if negative then "-inf" else "inf"
  | .finite negative m q =>
    if m = 0 then (if negative && l.signedZero then "-0.0" else "0.0")
    else
      let d := shortest m q
      let body := if l.positional d then positionalText d else scientificText l.exponentMark d
      String.ofList (if negative then '-' :: body else body)

/-- Display text: positional from `1e-13` up to `1e13`, both included; zero has no sign. -/
def Layout.display : Layout where
  positional d := -13 ≤ d.exponent && (d.exponent < 13 || (d.exponent == 13 && d.digits == 1))
  signedZero := false
  exponentMark := []

/-- Debug text: positional from `1e-4` up to, and without, `1e16`. -/
def Layout.debug : Layout where
  positional d := -4 ≤ d.exponent && d.exponent < 16
  signedZero := true
  exponentMark := []

/-- Text in data files: positional from `1e-5` up to, and without, `1e16`. -/
def Layout.data : Layout where
  positional d := -5 ≤ d.exponent && d.exponent < 16
  signedZero := true
  exponentMark := ['+']

end ReactiveNotebook.Decimal
