import ReactiveNotebook.Double

/-!
# Abstract syntax of scripts and expressions

An expression yields a value and a statement acts on the variables in scope. A chain is a root expression
followed by links: properties, method calls and indexing. Every node keeps the position that error texts
report for it.
-/
namespace ReactiveNotebook.Script

/-- A place in a source text, counted from line 1 and column 1. Line 0 stands for no place. -/
structure Position where
  line : Nat
  column : Nat
  deriving DecidableEq, Repr, Inhabited

namespace Position

/-- No place. -/
def none : Position := ⟨0, 0⟩

/-- Whether there is no place. -/
def isNone (p : Position) : Bool := p.line == 0

/-- This place, or `q` where there is none. -/
def orElse (p q : Position) : Position := if p.isNone then q else p

/-- The text that ends an error message. -/
def suffix (p : Position) : String :=
  if p.isNone then "" else s!" (line {p.line}, position {p.column})"

end Position

/-- The constants of the language. -/
inductive Literal where
  | unit
  | bool (b : Bool)
  | int (n : Int64)
  | float (x : Double)
  | char (c : Char)
  | str (s : String)
  | array (items : List Literal)
  | map (fields : List (String × Literal))
  | range (low high : Int64) (closed : Bool)

/-- Operators on two operands, apart from those that skip their right side. -/
inductive BinaryOp where
  | add | sub | mul | div | rem | pow
  | shiftLeft | shiftRight
  | eq | ne | lt | le | gt | ge
  | bitAnd | bitOr | bitXor
  | contains
  | range | rangeClosed
  deriving DecidableEq, Repr

/-- Operators that may skip their right side. -/
inductive LogicalOp where
  | and | or | coalesce
  deriving DecidableEq, Repr

/-- Operators on one operand. -/
inductive UnaryOp where
  | neg | plus | not
  deriving DecidableEq, Repr

mutual

/-- Expressions. -/
inductive Expr where
  | literal (value : Literal) (pos : Position)
  /-- The pieces of a text with embedded expressions. -/
  | interpolated (parts : List Expr) (pos : Position)
  | array (items : List Expr) (pos : Position)
  | map (fields : List (String × Expr)) (pos : Position)
  | variable (name : String) (pos : Position)
  /-- A name inside a namespace, such as a constant of the script. -/
  | qualified (space name : String) (spacePos pos : Position)
  | unary (op : UnaryOp) (arg : Expr) (pos : Position)
  | binary (op : BinaryOp) (left right : Expr) (pos : Position)
  | logical (op : LogicalOp) (left right : Expr) (pos : Position)
  | call (name : String) (args : List Expr) (pos : Position)
  | moduleCall (space name : String) (args : List Expr) (spacePos pos : Position)
  | chain (root : Expr) (links : List Link)
  | closure (lambda : Lambda) (pos : Position)
  /-- Statements whose last value is the value of the expression. -/
  | block (body : List Stmt) (pos : Position)

/-- One step of a chain. `opPos` is the place of the point or bracket. -/
inductive Link where
  | property (name : String) (optional : Bool) (pos opPos : Position)
  | method (name : String) (args : List Expr) (optional : Bool) (pos opPos : Position)
  | index (at_ : Expr) (optional : Bool) (opPos : Position)

/-- A function without a name. Its captured variables come with the place of their first use. -/
inductive Lambda where
  | mk (params : List String) (captured : List (String × Position)) (body : List Stmt) (pos : Position)

/-- Statements. -/
inductive Stmt where
  | noop (pos : Position)
  | expr (e : Expr)
  | declare (name : String) (value : Expr) (constant : Bool) (pos : Position)
  /-- An assignment, with the operator of a combined one. -/
  | assign (op : Option BinaryOp) (target value : Expr) (pos : Position)
  | block (body : List Stmt) (pos : Position)
  | ifElse (condition : Expr) (yes no : List Stmt) (pos : Position)
  | switch (subject : Expr) (cases : List Case) (pos : Position)
  /-- A loop that runs while its condition holds; without one it runs until it is left. -/
  | while_ (condition : Option Expr) (body : List Stmt) (pos bodyPos : Position)
  | doLoop (body : List Stmt) (condition : Expr) (until_ : Bool) (pos bodyPos : Position)
  | for_ (name : String) (counter : Option String) (items : Expr) (body : List Stmt) (pos bodyPos : Position)
  | tryCatch (body : List Stmt) (name : Option String) (handler : List Stmt) (pos : Position)
  | break_ (value : Option Expr) (pos : Position)
  | continue_ (pos : Position)
  | return_ (value : Option Expr) (pos : Position)
  | throw_ (value : Option Expr) (pos : Position)
  | import_ (path : Expr) (alias_ : Option String) (pos : Position)

/-- One arm of a switch: the values it stands for (none for the default arm), a condition and a result. -/
inductive Case where
  | mk (values : List Literal) (condition : Option Expr) (result : Expr)

end

instance : Inhabited Expr := ⟨.literal .unit .none⟩
instance : Inhabited Stmt := ⟨.noop .none⟩

structure Function where
  name : String
  params : List String
  body : List Stmt
  pos : Position

structure Program where
  body : List Stmt
  functions : List Function

namespace Link

/-- The place that errors of the link report. -/
def pos : Link → Position
  | .property _ _ p _ | .method _ _ _ p _ => p
  | .index _ _ p => p

/-- The place of the point or bracket. -/
def opPos : Link → Position
  | .property _ _ _ p | .method _ _ _ _ p | .index _ _ p => p

/-- Whether a unit object ends the chain instead of failing. -/
def optional : Link → Bool
  | .property _ o _ _ | .method _ _ o _ _ | .index _ o _ => o

end Link

namespace Stmt

def place (exprPlace : Expr → Position) : Stmt → Position
  | .noop p | .declare _ _ _ p | .assign _ _ _ p | .block _ p | .ifElse _ _ _ p | .switch _ _ p
  | .while_ _ _ p _ | .doLoop _ _ _ p _ | .for_ _ _ _ _ p _ | .tryCatch _ _ _ p | .break_ _ p
  | .continue_ p | .return_ _ p | .throw_ _ p | .import_ _ _ p => p
  | .expr e => exprPlace e

end Stmt

namespace Expr

/-- The place of an expression: of its operator, name or first character. -/
def pos : Expr → Position
  | .literal _ p | .interpolated _ p | .array _ p | .map _ p | .variable _ p | .qualified _ _ _ p
  | .unary _ _ p | .binary _ _ _ p | .logical _ _ _ p | .call _ _ p | .moduleCall _ _ _ _ p
  | .closure _ p | .block _ p => p
  | .chain root [] => root.pos
  | .chain _ (l :: _) => l.opPos

/-- The place where an expression begins. -/
def startPos : Expr → Position
  | .binary _ l _ _ | .logical _ l _ _ => l.startPos
  | .qualified _ _ s _ | .moduleCall _ _ _ s _ => s
  | .chain root _ => root.startPos
  | e => e.pos

end Expr

/-- The place of a statement. -/
def Stmt.pos (s : Stmt) : Position :=
  s.place Expr.pos

end ReactiveNotebook.Script
