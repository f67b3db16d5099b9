import ReactiveNotebook.Script.Syntax
import ReactiveNotebook.Decimal.Binary

/-!
# Values of scripts and variables

Values are dynamically typed. Map fields stand in ascending order of their keys, each key once. A closure
holds the values of the variables it captured; while its script runs these are references to memory cells
that the script still sees.
-/
namespace ReactiveNotebook.Script

inductive Value where
  | unit
  | bool (b : Bool)
  | int (n : Int64)
  | float (x : Double)
  | char (c : Char)
  | str (s : String)
  | array (items : List Value)
  | map (fields : List (String × Value))
  | range (low high : Int64) (closed : Bool)
  | timestamp
  | closure (lambda : Lambda) (captured : List Value)
  /-- A memory cell shared with a closure; it occurs only among captured values. -/
  | shared (cell : Nat)

instance : Inhabited Value := ⟨.unit⟩

namespace Value

mutual

def ofLiteral : Literal → Value
  | .unit => .unit
  | .bool b => .bool b
  | .int n => .int n
  | .float x => .float x
  | .char c => .char c
  | .str s => .str s
  | .array items => .array (ofLiterals items)
  | .map fields => .map (ofFields fields)
  | .range low high closed => .range low high closed

def ofLiterals : List Literal → List Value
  | [] => []
  | l :: ls => ofLiteral l :: ofLiterals ls

def ofFields : List (String × Literal) → List (String × Value)
  | [] => []
  | (k, l) :: rest => (k, ofLiteral l) :: ofFields rest

end

def typeName : Value → String
  | .unit => "()"
  | .bool _ => "bool"
  | .int _ => "i64"
  | .float _ => "f64"
  | .char _ => "char"
  | .str _ => "string"
  | .array _ => "array"
  | .map _ => "map"
  | .range _ _ closed => if closed then "range=" else "range"
  | .timestamp => "timestamp"
  | .closure _ _ => "Fn"
  | .shared _ => "()"

mutual

/-- Whether two values are indistinguishable: the same data at every depth, doubles compared by their bits.
A closure or a time stamp differs even from itself. -/
def same : Value → Value → Bool
  | .unit, .unit => true
  | .bool a, .bool b => a == b
  | .int a, .int b => a == b
  | .float a, .float b => a.toBits == b.toBits
  | .char a, .char b => a == b
  | .str a, .str b => a == b
  | .array a, .array b => sameItems a b
  | .map a, .map b => sameFields a b
  | _, _ => false

/-- Itemwise `same` for lists of one length. -/
def sameItems : List Value → List Value → Bool
  | [], [] => true
  | a :: as, b :: bs => same a b && sameItems as bs
  | _, _ => false

/-- Fieldwise `same` for maps with the same keys. -/
def sameFields : List (String × Value) → List (String × Value) → Bool
  | [], [] => true
  | (k, a) :: as, (l, b) :: bs => k == l && same a b && sameFields as bs
  | _, _ => false

end

def toFloat? : Value → Option Double
  | .float x => some x
  | .int n => some (.ofInt64 n)
  | _ => none

end Value

/-- The fields of a map, sorted by key. -/
abbrev Fields := List (String × Value)

namespace Fields

def get? (fields : Fields) (key : String) : Option Value :=
  (fields.find? (·.1 == key)).map (·.2)

def insert (fields : Fields) (key : String) (value : Value) : Fields :=
  match fields with
  | [] => [(key, value)]
  | (k, v) :: rest =>
    if key < k then (key, value) :: (k, v) :: rest
    else if key == k then (key, value) :: rest
    else (k, v) :: insert rest key value

def erase (fields : Fields) (key : String) : Fields :=
  fields.filter (·.1 != key)

def merge (fields other : Fields) : Fields :=
  other.foldl (fun fs (k, v) => fs.insert k v) fields

/-- The map with the given fields, of which a later one wins. -/
def ofList (pairs : List (String × Value)) : Fields :=
  merge [] pairs

end Fields

end ReactiveNotebook.Script
