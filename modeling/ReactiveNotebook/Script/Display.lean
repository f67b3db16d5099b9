import ReactiveNotebook.Script.Value
import ReactiveNotebook.Decimal.Layout
import ReactiveNotebook.Text.Quoted

/-!
# Display text and debug text of values

Display text shows a text, a character and a number bare and unit as nothing. Debug text quotes texts and
characters; the items of arrays and maps always stand in debug text.
-/
namespace ReactiveNotebook.Script.Value

open ReactiveNotebook

def rangeText (low high : Int64) (closed : Bool) : String :=
  if closed then s!"{low}..={high}"
  else if high == Int64.maxValue then s!"{low}.."
  else s!"{low}..{high}"

mutual

def debugText : Value → String
  | .unit => "()"
  | .bool b => if b then "true" else "false"
  | .int n => toString n
  | .float x => Decimal.Layout.debug.text x
  | .char c => Text.quoteWith '\'' [c]
  | .str s => Text.quote s
  | .array items => "[" ++ debugItems items ++ "]"
  | .map fields => "#\x7b" ++ debugFields fields ++ "\x7d"
  | .range low high closed => rangeText low high closed
  | .timestamp => "<timestamp>"
  | .closure _ _ => "Fn(anonymous)"
  | .shared _ => "()"

/-- Debug texts with commas between them. -/
def debugItems : List Value → String
  | [] => ""
  | [v] => debugText v
  | v :: rest => debugText v ++ ", " ++ debugItems rest

/-- Quoted keys with the debug texts of their values. -/
def debugFields : List (String × Value) → String
  | [] => ""
  | [(k, v)] => Text.quote k ++ ": " ++ debugText v
  | (k, v) :: rest => Text.quote k ++ ": " ++ debugText v ++ ", " ++ debugFields rest

end

def displayText : Value → String
  | .unit => ""
  | .float x => Decimal.Layout.display.text x
  | .char c => String.singleton c
  | .str s => s
  | v => v.debugText

end ReactiveNotebook.Script.Value
