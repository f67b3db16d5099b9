import ReactiveNotebook.Script.Value
import ReactiveNotebook.Text.Blank
import ReactiveNotebook.Decimal.Read

/-!
# Literals of input cells

The text of an input cell denotes unit, a quoted text, a truth value, an integer or a double; any other text
denotes itself.
-/
namespace ReactiveNotebook

open Script (Value)

/-- The content of a text that begins and ends with a double quote. -/
def unquote? : List Char → Option (List Char)
  | '"' :: rest => if rest.getLast? == some '"' then some rest.dropLast else none
  | _ => none

def readLiteral (text : String) : Value :=
  let cs := Text.trimList text.toList
  if cs.isEmpty then .unit
  else
    match unquote? cs with
    | some content => .str (String.ofList content)
    | none =>
      let word := String.ofList cs
      if word == "true" then .bool true
      else if word == "false" then .bool false
      else
        match Decimal.readInt64? cs, Decimal.readFloat? cs with
        | some n, _ => .int n
        | none, some x => .float x
        | none, none => .str word

end ReactiveNotebook
