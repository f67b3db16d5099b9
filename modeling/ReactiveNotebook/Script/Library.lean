import ReactiveNotebook.Script.Operator
import ReactiveNotebook.Text.Blank
import ReactiveNotebook.Text.Case

/-!
# Functions of the language

Every function is a method of its first argument as well. A few change the object they are called on; these
come with the changed object.
-/
namespace ReactiveNotebook.Script.Library

/-- A value, or why there is none. -/
abbrev Answer := Except Cause Value

/-- Cuts a text at every occurrence of a separator. An empty separator stands between all characters and at
both ends. -/
def split (s separator : String) : List String :=
  if separator.isEmpty then "" :: (s.toList.map String.singleton ++ [""]) else s.splitOn separator

/-- The part of a text with a start and a length. A negative start counts from the end. -/
def subString (s : String) (start length : Int) : String :=
  let cs := s.toList
  if length ≤ 0 || (cs.length : Int) ≤ start then ""
  else
    let offset := if start < 0 then cs.length - start.natAbs else start.toNat
    String.ofList ((cs.drop offset).take length.toNat)

/-- Why a text is no integer. -/
def integerFault (cs : List Char) : String :=
  let (negative, digits) := Decimal.takeSign cs
  if cs.isEmpty then "cannot parse integer from empty string"
  else if digits.isEmpty || !digits.all Char.isDigit then "invalid digit found in string"
  else if negative then "number too small to fit in target type"
  else "number too large to fit in target type"

/-- The integer that a text denotes. -/
def parseInteger (s : String) : Answer :=
  let cs := Text.trimList s.toList
  match Decimal.readInt64? cs with
  | some n => .ok (.int n)
  | none => .error (.plain s!"Error parsing integer number '{s}': {integerFault cs}")

/-- The float that a text denotes. -/
def parseFloat (s : String) : Answer :=
  let cs := Text.trimList s.toList
  match Decimal.readFloat? cs with
  | some x => .ok (.float x)
  | none =>
    let reason := if cs.isEmpty then "cannot parse float from empty string" else "invalid float literal"
    .error (.plain s!"Error parsing floating-point number '{s}': {reason}")

/-- A float without its fraction. -/
def truncate (x : Double) : Double := if x < 0 then x.ceil else x.floor

/-- The integer part of a float, if it is in the range of integers. -/
def integerOf (x : Double) : Answer :=
  if .ofInt64 Int64.maxValue < x || x < .ofInt64 Int64.minValue then
    .error (.plain s!"Integer overflow: to_int({Decimal.Layout.display.text x})")
  else .ok (.int (truncate x).toFloat.toInt64)

/-- The distance of a number from zero. -/
def absolute (n : Int64) : Answer :=
  if n == Int64.minValue then .error (.plain s!"Negation overflow: -{n}")
  else .ok (.int (if n < 0 then -n else n))

/-- The greater of two floats, the first one if they are equal. -/
def greater (x y : Double) : Value := .float (if y ≤ x then x else y)

/-- The lesser of two floats, the first one if they are equal. -/
def lesser (x y : Double) : Value := .float (if x ≤ y then x else y)

/-- The ratio of a circle's circumference to its diameter. -/
def pi : Double := .ofBits 0x400921fb54442d18

/-- Whether one of two values of one type comes before the other or is equal to it. -/
def inOrder (a b : Value) : Bool :=
  match a, b with
  | .int x, .int y => x ≤ y
  | .float x, .float y => !(y < x)
  | .char x, .char y => x ≤ y
  | .str x, .str y => x ≤ y
  | .bool x, .bool y => !x || y
  | _, _ => true

/-- The items of an array in order. They must be of one type. -/
def sort (items : List Value) : Except Cause (List Value) :=
  match items with
  | [] | [_] => .ok items
  | first :: _ =>
    if items.any fun v => v.typeName != first.typeName then
      .error (.plain "Function not found: sort() cannot be called with elements of different types")
    else .ok (items.mergeSort inOrder)

/-- The functions that leave their arguments as they are. -/
def pure? (name : String) (args : List Value) : Option Answer :=
  match name, args with
  | "len", [.str s] => some (.ok (.int (Int64.ofNat s.length)))
  | "len", [.array items] => some (.ok (.int (Int64.ofNat items.length)))
  | "len", [.map fields] => some (.ok (.int (Int64.ofNat fields.length)))
  | "contains", [collection, item] => containsValue collection item
  | "keys", [.map fields] => some (.ok (.array (fields.map fun f => .str f.1)))
  | "values", [.map fields] => some (.ok (.array (fields.map (·.2))))
  | "split", [.str s, .str separator] => some (.ok (.array ((split s separator).map .str)))
  | "split", [.str s, .char c] => some (.ok (.array ((split s (String.singleton c)).map .str)))
  | "sub_string", [.str s, .int start] => some (.ok (.str (subString s start.toInt s.utf8ByteSize)))
  | "sub_string", [.str s, .int start, .int length] => some (.ok (.str (subString s start.toInt length.toInt)))
  | "to_upper", [.str s] => some (.ok (.str (Text.upper s)))
  | "to_lower", [.str s] => some (.ok (.str (Text.lower s)))
  | "to_upper", [.char c] => some (.ok (.char ((Text.upperChar c).headD c)))
  | "to_lower", [.char c] => some (.ok (.char ((Text.lowerChar c).headD c)))
  | "to_string", [v] => some (.ok (.str v.displayText))
  | "to_float", [.int n] => some (.ok (.float (.ofInt64 n)))
  | "to_float", [.float x] => some (.ok (.float x))
  | "to_int", [.int n] => some (.ok (.int n))
  | "to_int", [.float x] => some (integerOf x)
  | "to_int", [.char c] => some (.ok (.int (Int64.ofNat c.toNat)))
  | "parse_int", [.str s] => some (parseInteger s)
  | "parse_float", [.str s] => some (parseFloat s)
  | "floor", [.float x] => some (.ok (.float x.floor))
  | "ceiling", [.float x] => some (.ok (.float x.ceil))
  | "round", [.float x] => some (.ok (.float x.round))
  | "sqrt", [.float x] => some (.ok (.float x.sqrt))
  | "abs", [.int n] => some (absolute n)
  | "abs", [.float x] => some (.ok (.float x.abs))
  | "max", [.int a, .int b] => some (.ok (.int (if b ≤ a then a else b)))
  | "max", [.float a, .float b] => some (.ok (greater a b))
  | "max", [.int a, .float b] => some (.ok (greater (.ofInt64 a) b))
  | "max", [.float a, .int b] => some (.ok (greater a (.ofInt64 b)))
  | "max", [.str a, .str b] => some (.ok (.str (if a < b then b else a)))
  | "max", [.char a, .char b] => some (.ok (.char (if a < b then b else a)))
  | "min", [.int a, .int b] => some (.ok (.int (if a ≤ b then a else b)))
  | "min", [.float a, .float b] => some (.ok (lesser a b))
  | "min", [.int a, .float b] => some (.ok (lesser (.ofInt64 a) b))
  | "min", [.float a, .int b] => some (.ok (lesser a (.ofInt64 b)))
  | "min", [.str a, .str b] => some (.ok (.str (if b < a then b else a)))
  | "min", [.char a, .char b] => some (.ok (.char (if b < a then b else a)))
  | "PI", [] => some (.ok (.float pi))
  | "timestamp", [] => some (.ok .timestamp)
  | _, _ => none

/-- The functions that change the object they are called on, with the changed object. -/
def changing? (name : String) (args : List Value) : Option (Except Cause (Value × Value)) :=
  match name, args with
  | "push", [.array items, v] => some (.ok (.unit, .array (items ++ [v])))
  | "sort", [.array items] => some ((sort items).map fun sorted => (.unit, .array sorted))
  | "trim", [.str s] => some (.ok (.unit, .str (Text.trim s)))
  | _, _ => none

/-- The properties of values other than maps. -/
def property? (name : String) (v : Value) : Option Answer :=
  match name, v with
  | "len", .str _ | "len", .array _ => pure? "len" [v]
  | "floor", .float _ | "ceiling", .float _ | "round", .float _ => pure? name [v]
  | "start", .range low _ _ => some (.ok (.int low))
  | "end", .range _ high _ => some (.ok (.int high))
  | _, _ => none

end ReactiveNotebook.Script.Library
