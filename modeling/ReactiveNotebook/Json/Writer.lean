import ReactiveNotebook.Json.Basic
import ReactiveNotebook.Decimal.Layout

/-!
# Writing JSON

The compact text has no blanks and sorts the fields of objects by name, of which the last of equal ones
stays. The indented text puts every item and field on a line of its own.
-/
namespace ReactiveNotebook.Json

/-- Four lower-case hexadecimal digits. -/
def hexUnit (n : Nat) : List Char :=
  let ds := Nat.toDigits 16 n
  List.replicate (4 - ds.length) '0' ++ ds

/-- A character inside a quoted text. -/
def escapeChar (c : Char) : List Char :=
  if c == '"' || c == '\\' then ['\\', c]
  else if c == '\x08' then ['\\', 'b']
  else if c == '\x0c' then ['\\', 'f']
  else if c == '\n' then ['\\', 'n']
  else if c == '\r' then ['\\', 'r']
  else if c == '\t' then ['\\', 't']
  else if c.toNat < 0x20 then ['\\', 'u'] ++ hexUnit c.toNat
  else [c]

def quote (s : String) : String :=
  String.ofList ('"' :: s.toList.flatMap escapeChar ++ ['"'])

/-- Puts a field in its place among sorted fields; an equal name is replaced. -/
def insertField (field : String × String) : List (String × String) → List (String × String)
  | [] => [field]
  | f :: fs =>
    if field.1 < f.1 then field :: f :: fs
    else if field.1 == f.1 then field :: fs
    else f :: insertField field fs

/-- Sorts written fields by name; the last of equal ones stays. -/
def sortFields (fields : List (String × String)) : List (String × String) :=
  fields.foldl (fun fs f => insertField f fs) []

mutual

def compact : Json → String
  | .null => "null"
  | .bool b => if b then "true" else "false"
  | .int n => toString n
  | .float x => Decimal.Layout.data.text x
  | .str s => quote s
  | .arr items => "[" ++ String.intercalate "," (compactItems items) ++ "]"
  | .obj fields =>
    let texts := (sortFields (compactFields fields)).map fun (name, text) => quote name ++ ":" ++ text
    "\x7b" ++ String.intercalate "," texts ++ "\x7d"

def compactItems : List Json → List String
  | [] => []
  | v :: vs => compact v :: compactItems vs

/-- The names of fields with the compact texts of their values. -/
def compactFields : List (String × Json) → List (String × String)
  | [] => []
  | (name, v) :: fs => (name, compact v) :: compactFields fs

end

/-- A bracketed list with every entry on a line of its own, `depth` levels deep. -/
def block (opening closing : String) (depth : Nat) (entries : List String) : String :=
  let indent (n : Nat) : String := String.ofList (List.replicate (2 * n) ' ')
  if entries.isEmpty then opening ++ closing
  else
    opening ++ "\n" ++ String.intercalate ",\n" (entries.map fun e => indent (depth + 1) ++ e) ++ "\n"
      ++ indent depth ++ closing

mutual

/-- The indented text of a value that stands `depth` levels deep. Fields keep their order. -/
def indented (depth : Nat) : Json → String
  | .arr items => block "[" "]" depth (indentedItems (depth + 1) items)
  | .obj fields => block "\x7b" "\x7d" depth (indentedFields (depth + 1) fields)
  | .null => "null"
  | .bool b => if b then "true" else "false"
  | .int n => toString n
  | .float x => Decimal.Layout.data.text x
  | .str s => quote s

def indentedItems (depth : Nat) : List Json → List String
  | [] => []
  | v :: vs => indented depth v :: indentedItems depth vs

def indentedFields (depth : Nat) : List (String × Json) → List String
  | [] => []
  | (name, v) :: fs => (quote name ++ ": " ++ indented depth v) :: indentedFields depth fs

end

end ReactiveNotebook.Json
