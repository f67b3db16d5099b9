import ReactiveNotebook.Format.Filter
import ReactiveNotebook.Config
import ReactiveNotebook.Script.Library

/-!
# Modules of the library

The module `stats` summarises arrays of numbers and the module `text` cuts and pads texts. Failures inside a
module are thrown values without a place.
-/
namespace ReactiveNotebook.Script

inductive Module where
  | stats
  | text
  deriving DecidableEq, Repr

namespace Module

def ofName? : String → Option Module
  | "stats" => some .stats
  | "text" => some .text
  | _ => none

/-- Why a function of a module has no value. -/
inductive Failure where
  | thrown (text : String)
  | overflow (cause : Format.Overflow)

def numbers (items : List Value) : Except Failure (List Double) :=
  items.mapM fun v =>
    match v.toFloat? with
    | some x => .ok x
    | none => .error (.thrown s!"expected a number, found {v.typeName}")

/-- The sum of floats, from left to right. No floats have the sum of negative zero. -/
def sum (xs : List Double) : Double := xs.foldl (· + ·) (-0.0)

/-- Whether one float comes before another or is the same, by sign and magnitude. -/
def inTotalOrder (x y : Double) : Bool :=
  let key (x : Double) : Int :=
    let bits := x.toBits.toNat
    if Nat.pow 2 63 ≤ bits then (Nat.pow 2 63 : Int) - 1 - bits else bits
  key x ≤ key y

/-- The middle one of some floats in order, or the mean of the two middle ones. -/
def median (xs : List Double) : Double :=
  let sorted := (xs.mergeSort inTotalOrder).toArray
  let middle := sorted.size / 2
  if sorted.size % 2 = 0 then (sorted.getD (middle - 1) 0 + sorted.getD middle 0) / 2
  else sorted.getD middle 0

/-- The lesser of two floats; one that is no number gives way. -/
def least (x y : Double) : Double := if x.isNaN || y < x then y else x

/-- The greater of two floats; one that is no number gives way. -/
def greatest (x y : Double) : Double := if x.isNaN || x < y then y else x

/-- A summary of at least one number. -/
def summary (name : String) (items : List Value) (f : Double → List Double → Double) : Except Failure Value := do
  match ← numbers items with
  | [] => .error (.thrown s!"{name} of an empty array")
  | x :: xs => .ok (.float (f x xs))

/-- The words of a text, between blanks. -/
def words (s : String) : List String :=
  ((Text.splitAt Text.isBlank s.toList).filter fun w => !w.isEmpty).map String.ofList

/-- Lowers letters and turns each run of other characters than letters and digits into one hyphen, but
none at the start. `wanted` says whether a hyphen may come next. -/
def slugFrom (wanted : Bool) : List Char → List Char
  | [] => []
  | c :: cs =>
    if c.isAlphanum then c.toLower :: slugFrom true cs
    else if wanted then '-' :: slugFrom false cs
    else slugFrom false cs

/-- A text as a part of an address. -/
def slug (s : String) : String :=
  String.ofList ((slugFrom false s.toList).reverse.dropWhile (· == '-')).reverse

def padLeft (mostText : Nat) (s : String) (width : Int64) : Except Failure Value :=
  if width < 0 then .error (.thrown "width must be >= 0")
  else
    let width := width.toInt.toNat
    if mostText != 0 && mostText < width then
      .error (.thrown s!"width {width} exceeds the maximum string size {mostText}")
    else if Format.mostFieldPlaces < width then .error (.overflow .argument)
    else .ok (.str (String.ofList (List.replicate (width - s.length) ' ') ++ s))

/-- Calls a function of a module; nothing if it has none for the arguments. -/
def call? (mostText : Nat) (m : Module) (name : String) (args : List Value) : Option (Except Failure Value) :=
  match m, name, args with
  | .stats, "sum", [.array items] => some ((numbers items).map fun xs => .float (sum xs))
  | .stats, "mean", [.array items] =>
    some (summary "mean" items fun x xs => sum (x :: xs) / .ofNat (xs.length + 1))
  | .stats, "median", [.array items] => some (summary "median" items fun x xs => median (x :: xs))
  | .stats, "min", [.array items] => some (summary "min" items fun x xs => xs.foldl least x)
  | .stats, "max", [.array items] => some (summary "max" items fun x xs => xs.foldl greatest x)
  | .stats, "count", [.array items] => some (.ok (.int (Int64.ofNat items.length)))
  | .text, "words", [.str s] => some (.ok (.array ((words s).map .str)))
  | .text, "slug", [.str s] => some (.ok (.str (slug s)))
  | .text, "pad_left", [.str s, .int width] => some (padLeft mostText s width)
  | _, _, _ => none

end Module

end ReactiveNotebook.Script
