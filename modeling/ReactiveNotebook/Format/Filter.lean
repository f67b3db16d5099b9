import ReactiveNotebook.Format.Basic
import ReactiveNotebook.Text.Blank
import ReactiveNotebook.Text.Case
import ReactiveNotebook.Decimal.Read

/-!
# Filters of placeholders

A filter turns the value of a placeholder into text. A number can be shown with fixed places, as a
percentage or as an amount of money; a filter that does not apply to a value, or is unknown, shows the plain
text. A number of places beyond the limit of a formatted field is refused.
-/
namespace ReactiveNotebook.Format

open ReactiveNotebook.Script (Value)

/-- The one way in which formatting can fail. -/
inductive Overflow where
  /-- A precision or width beyond `mostFieldPlaces`. -/
  | argument
  deriving DecidableEq, Repr

/-- The text shown for a failed formatting. -/
def Overflow.message : Overflow → String
  | .argument => "Formatting argument out of range"

/-- The largest precision and the largest width of a formatted field. -/
def mostFieldPlaces : Nat := 65535

/-- A double with fixed places, unless there are too many of them. -/
def fixed (x : Double) (places : Nat) : Except Overflow String :=
  match Decimal.decode x with
  | .finite .. => if mostFieldPlaces < places then .error .argument else .ok (fixedText x places)
  | _ => .ok (fixedText x places)

/-- An amount of money: the sign, the symbol and the amount with fixed places. -/
def money (x : Double) (symbol : String) (places : Nat) : Except Overflow String :=
  match Decimal.decode x with
  | .finite negative m _ => do
    let amount ← fixed x.abs places
    return (if negative && m != 0 then "-" else "") ++ symbol ++ amount
  | _ => .ok (fixedText x places)

structure Filter where
  name : String
  args : List String
  deriving DecidableEq, Repr

namespace Filter

/-- The filters that have an effect. -/
inductive Kind where
  | fixed | percent | currency | upper | lower | trim | default | length
  deriving DecidableEq, Repr

def Kind.ofName? : String → Option Kind
  | "round" | "fixed" => some .fixed
  | "percent" => some .percent
  | "currency" => some .currency
  | "upper" => some .upper
  | "lower" => some .lower
  | "trim" => some .trim
  | "default" => some .default
  | "len" => some .length
  | _ => none

/-- The largest number an argument can denote. -/
def greatestArgument : Nat := Nat.pow 2 64 - 1

/-- The number that an argument denotes: digits, which a plus sign may precede. -/
def readCount? (text : String) : Option Nat :=
  let cs := Text.trimList text.toList
  let digits := match cs with
    | '+' :: rest => rest
    | _ => cs
  match Decimal.readNat? digits with
  | some n => if n ≤ greatestArgument then some n else none
  | none => none

/-- The number that the argument at `index` denotes, or `standard`. -/
def count (f : Filter) (index standard : Nat) : Nat :=
  ((f.args[index]?).bind readCount?).getD standard

def apply (f : Filter) (v : Value) : Except Overflow String :=
  let plain := valueText v
  match Kind.ofName? f.name, v.toFloat? with
  | some .fixed, some x => Format.fixed x (f.count 0 0)
  | some .percent, some x => do return (← Format.fixed (x * 100.0) (f.count 0 0)) ++ "%"
  | some .currency, some x => money x ((f.args.head?.map Text.trim).getD "$") (f.count 1 2)
  | some .upper, _ => .ok (Text.upper plain)
  | some .lower, _ => .ok (Text.lower plain)
  | some .trim, _ => .ok (Text.trim plain)
  | some .default, _ =>
    match v with
    | .unit => .ok (Text.trim (Text.join "," f.args))
    | _ => .ok plain
  | some .length, _ =>
    match v with
    | .array items => .ok (toString items.length)
    | .map fields => .ok (toString fields.length)
    | _ => .ok (toString plain.length)
  | _, _ => .ok plain

end Filter

end ReactiveNotebook.Format
