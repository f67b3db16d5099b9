import ReactiveNotebook.Decimal.Read
import ReactiveNotebook.Script.Fault

/-!
# Operators

Integers are checked words: a result out of range is a failure. A float on either side makes both floats.
Values of different types are unequal and in no order, apart from numbers, and from a character beside a
text. What is joined to a text is joined as its display text.
-/
namespace ReactiveNotebook.Script

def BinaryOp.symbol : BinaryOp → String
  | .add => "+" | .sub => "-" | .mul => "*" | .div => "/" | .rem => "%" | .pow => "**"
  | .shiftLeft => "<<" | .shiftRight => ">>"
  | .eq => "==" | .ne => "!=" | .lt => "<" | .le => "<=" | .gt => ">" | .ge => ">="
  | .bitAnd => "&" | .bitOr => "|" | .bitXor => "^"
  | .contains => "contains" | .range => ".." | .rangeClosed => "..="

/-- Whether there is a combined assignment with the operator. -/
def BinaryOp.hasAssignment : BinaryOp → Bool
  | .add | .sub | .mul | .div | .rem | .pow | .shiftLeft | .shiftRight | .bitAnd | .bitOr | .bitXor => true
  | _ => false

def UnaryOp.symbol : UnaryOp → String
  | .neg => "-" | .plus => "+" | .not => "!"

/-- The value of an operation, or why it has none; nothing if the operation is not defined on its operands. -/
abbrev Operation := Option (Except Cause Value)

namespace Operation

def value (v : Value) : Operation := some (.ok v)

/-- An operation that answers a question. -/
def answer (b : Bool) : Operation := value (.bool b)

def failure (text : String) : Operation := some (.error (.plain text))

end Operation

/-- An integer, or a failure if it is out of range. -/
def checked (n : Int) (what : String) : Operation :=
  if Decimal.fits64 n then .value (.int (Int64.ofInt n)) else .failure what

/-- The power of an integer, if it is within the range of integers. -/
def power? (base : Int) (exponent : Nat) : Option Int :=
  if base = 0 then some (if exponent = 0 then 1 else 0)
  else if base = 1 then some 1
  else if base = -1 then some (if exponent % 2 = 0 then 1 else -1)
  else if 64 ≤ exponent then none
  else some (Int.pow base exponent)

/-- Shifts an integer to the left. All bits leave at 64 places. -/
def shiftUp (a : Int64) (places : Nat) : Int64 :=
  if 64 ≤ places then 0 else Int64.ofInt (a.toInt * (Nat.pow 2 places : Int))

/-- Shifts an integer to the right; the sign stays. -/
def shiftDown (a : Int64) (places : Nat) : Int64 :=
  Int64.ofInt (a.toInt / (Nat.pow 2 (min places 64) : Int))

/-- Whether a comparison holds for operands in the given order. -/
def compareOp? (op : BinaryOp) (o : Ordering) : Option Bool :=
  match op with
  | .eq => some (o == .eq)
  | .ne => some (o != .eq)
  | .lt => some (o == .lt)
  | .le => some (o != .gt)
  | .gt => some (o == .gt)
  | .ge => some (o != .lt)
  | _ => none

/-- A comparison of operands in the given order. -/
def comparison (op : BinaryOp) (o : Ordering) : Operation :=
  (compareOp? op o).map fun b => .ok (.bool b)

/-- Operators on two integers. -/
def intOperator (op : BinaryOp) (a b : Int64) : Operation :=
  let x := a.toInt
  let y := b.toInt
  match op with
  | .add => checked (x + y) s!"Addition overflow: {a} + {b}"
  | .sub => checked (x - y) s!"Subtraction overflow: {a} - {b}"
  | .mul => checked (x * y) s!"Multiplication overflow: {a} * {b}"
  | .div =>
    if y = 0 then .failure s!"Division by zero: {a} / {b}"
    else checked (x.tdiv y) s!"Division overflow: {a} / {b}"
  | .rem =>
    if y = 0 || !Decimal.fits64 (x.tdiv y) then .failure s!"Modulo division by zero or overflow: {a} % {b}"
    else .value (.int (Int64.ofInt (x.tmod y)))
  | .pow =>
    if y < 0 then .failure s!"Integer raised to a negative power: {a} ** {b}"
    else
      match power? x y.toNat with
      | some n => checked n s!"Exponential overflow: {a} ** {b}"
      | none => .failure s!"Exponential overflow: {a} ** {b}"
  | .shiftLeft => .value (.int (if y < 0 then shiftDown a y.natAbs else shiftUp a y.natAbs))
  | .shiftRight => .value (.int (if y < 0 then shiftUp a y.natAbs else shiftDown a y.natAbs))
  | .bitAnd => .value (.int (a &&& b))
  | .bitOr => .value (.int (a ||| b))
  | .bitXor => .value (.int (a ^^^ b))
  | .range => .value (.range a b false)
  | .rangeClosed => .value (.range a b true)
  | op => comparison op (compare x y)

/-- Operators on two floats. -/
def floatOperator (op : BinaryOp) (a b : Double) : Operation :=
  match op with
  | .add => .value (.float (a + b))
  | .sub => .value (.float (a - b))
  | .mul => .value (.float (a * b))
  | .div => .value (.float (a / b))
  | .rem => .value (.float (Decimal.remainder a b))
  | .pow => .value (.float (a ^ b))
  | .eq => .answer (a == b)
  | .ne => .answer (a != b)
  | .lt => .answer (a < b)
  | .le => .answer (a ≤ b)
  | .gt => .answer (b < a)
  | .ge => .answer (b ≤ a)
  | _ => none

/-- The order of two texts: by their characters. -/
def compareText (a b : String) : Ordering :=
  if a < b then .lt else if a == b then .eq else .gt

/-- A text without the occurrences of another one. -/
def removeText (a b : String) : String :=
  if b.isEmpty then a else String.join (a.splitOn b)

/-- Operators on two texts. -/
def textOperator (op : BinaryOp) (a b : String) : Operation :=
  match op with
  | .add => .value (.str (a ++ b))
  | .sub => .value (.str (removeText a b))
  | op => comparison op (compareText a b)

/-- The first two characters of a text, with which it is compared to a character. -/
def textHead (s : String) : String := String.ofList ((s.toList ++ ['\x00', '\x00']).take 2)

/-- A character as the head of a text. -/
def charHead (c : Char) : String := String.ofList [c, '\x00']

/-- The operators that the language defines by itself. -/
def BinaryOp.direct (op : BinaryOp) (a b : Value) : Operation :=
  match a, b with
  | .int x, .int y => intOperator op x y
  | .float x, .float y => floatOperator op x y
  | .int x, .float y => floatOperator op (.ofInt64 x) y
  | .float x, .int y => floatOperator op x (.ofInt64 y)
  | .bool x, .bool y =>
    match op with
    | .bitAnd => .answer (x && y)
    | .bitOr => .answer (x || y)
    | .bitXor => .answer (x != y)
    | op => comparison op (compare x.toNat y.toNat)
  | .unit, .unit =>
    match op with
    | .eq => .answer true
    | .ne | .lt | .le | .gt | .ge => .answer false
    | _ => none
  | .str x, .str y => textOperator op x y
  | .char x, .char y =>
    match op with
    | .add => .value (.str (String.ofList [x, y]))
    | op => comparison op (compare x.toNat y.toNat)
  | .char x, .str y =>
    match op with
    | .add => .value (.str (String.singleton x ++ y))
    | op => comparison op (compareText (charHead x) (textHead y))
  | .str x, .char y =>
    match op with
    | .add => .value (.str (x.push y))
    | .sub => .value (.str (removeText x (String.singleton y)))
    | op => comparison op (compareText (textHead x) (charHead y))
  | a, b =>
    if a.typeName == b.typeName then none
    else
      match op with
      | .ne => .answer true
      | .eq | .lt | .le | .gt | .ge => .answer false
      | _ => none

mutual

/-- Whether two values are equal: numbers by value, and collections item by item. -/
def Value.equal : Value → Value → Bool
  | .array xs, .array ys => equalItems xs ys
  | .map xs, .map ys => equalFields xs ys
  | .range a b c, .range d e f => a == d && b == e && c == f
  | .timestamp, .timestamp => true
  | a, b =>
    match BinaryOp.eq.direct a b with
    | some (.ok (.bool b)) => b
    | _ => false

/-- Itemwise equality of lists of one length. -/
def Value.equalItems : List Value → List Value → Bool
  | [], [] => true
  | x :: xs, y :: ys => x.equal y && Value.equalItems xs ys
  | _, _ => false

/-- Fieldwise equality of maps with the same keys. -/
def Value.equalFields : List (String × Value) → List (String × Value) → Bool
  | [], [] => true
  | (k, x) :: xs, (l, y) :: ys => k == l && x.equal y && Value.equalFields xs ys
  | _, _ => false

end

/-- Whether a collection contains a value; nothing if it is no collection. -/
def containsValue (collection item : Value) : Operation :=
  match collection, item with
  | .array items, v => .answer (items.any fun x => x.equal v)
  | .map fields, .str key => .answer (fields.any (·.1 == key))
  | .str s, .str t => .answer (t.isEmpty || 1 < (s.splitOn t).length)
  | .str s, .char c => .answer (s.toList.contains c)
  | .range low high closed, .int n =>
    .answer (low.toInt ≤ n.toInt && (n.toInt < high.toInt || (closed && n == high)))
  | _, _ => none

/-- The operators that functions define on texts and collections. -/
def BinaryOp.derived (op : BinaryOp) (a b : Value) : Operation :=
  match op, a, b with
  | .contains, a, b => containsValue a b
  | .add, .str x, v => .value (.str (x ++ v.displayText))
  | .add, v, .str y => .value (.str (v.displayText ++ y))
  | .add, .array xs, .array ys => .value (.array (xs ++ ys))
  | .add, .map xs, .map ys => .value (.map (Fields.merge xs ys))
  | .eq, .array xs, .array ys => .answer (Value.equalItems xs ys)
  | .ne, .array xs, .array ys => .answer (!Value.equalItems xs ys)
  | .eq, .map xs, .map ys => .answer (Value.equalFields xs ys)
  | .ne, .map xs, .map ys => .answer (!Value.equalFields xs ys)
  | .eq, .range a b c, .range d e f => .answer (a == d && b == e && c == f)
  | .ne, .range a b c, .range d e f => .answer !(a == d && b == e && c == f)
  | .eq, .timestamp, .timestamp => .answer true
  | .ne, .timestamp, .timestamp => .answer false
  | _, _, _ => none

/-- Operators on one operand. -/
def UnaryOp.apply (op : UnaryOp) (v : Value) : Operation :=
  match op, v with
  | .neg, .int n => checked (-n.toInt) s!"Negation overflow: -{n}"
  | .neg, .float x => .value (.float (-x))
  | .plus, .int n => .value (.int n)
  | .plus, .float x => .value (.float x)
  | .not, .bool b => .answer (!b)
  | _, _ => none

end ReactiveNotebook.Script
