import ReactiveNotebook.Script.Token

/-!
# The state of a reader

A reader takes tokens from a list and fails at the first one that does not fit. It keeps the names declared
around the current place, which decide what a closure captures and which assignments are refused, and the
functions it has met.
-/
namespace ReactiveNotebook.Script.Reader

open Token (Located)

/-- A name declared around the current place. -/
structure Local where
  name : String
  constant : Bool

/-- The names of a function, closure or script. -/
structure Frame where
  /-- The declared names, latest first. -/
  locals : List Local
  /-- The names that are used without a declaration in the frame, latest first, with the place of their first
  use. -/
  captured : List (String × Position)

namespace Frame

/-- The frame of a function with the given parameters. -/
def ofParams (params : List String) : Frame := ⟨(params.map fun p => ⟨p, false⟩).reverse, []⟩

def find? (f : Frame) (name : String) : Option Local := f.locals.find? (·.name == name)

def use (f : Frame) (name : String) (pos : Position) : Frame :=
  if (f.find? name).isSome || f.captured.any (·.1 == name) then f
  else { f with captured := (name, pos) :: f.captured }

end Frame

structure Setting where
  /-- Whether blocks hold a single expression, as inside expressions that stand alone. -/
  single : Bool
  /-- Whether the place is outside of all blocks. -/
  global : Bool
  /-- Whether the place is inside a loop. -/
  breakable : Bool
  /-- Whether the place is inside a function or closure. -/
  inFunction : Bool
  /-- Whether a bar ends an expression. -/
  barEnds : Bool
  /-- The largest number of items in an array, or zero for no limit. -/
  mostItems : Nat

structure State where
  tokens : List Located
  frame : Frame
  functions : List Function

abbrev Reads := StateT State (Except SyntaxFault)

def fail {α : Type} (cause : SyntaxCause) (pos : Position) : Reads α := throw ⟨cause, pos⟩

/-- The next token. -/
def peek : Reads Located := do
  match (← get).tokens with
  | t :: _ => return t
  | [] => return (.finish, .none)

/-- Takes the next token. The last one stays. -/
def next : Reads Located := do
  let t ← peek
  modify fun s => { s with tokens := match s.tokens with
    | _ :: t :: ts => t :: ts
    | ts => ts }
  return t

/-- Whether a token is a given keyword or symbol. -/
def isWord (t : Located) (word : String) : Bool :=
  match t.1 with
  | .word w => w == word
  | _ => false

/-- Whether the next token is a given keyword or symbol. -/
def sees (word : String) : Reads Bool := do return isWord (← peek) word

/-- Takes a given keyword or symbol, if it is next. -/
def accept (word : String) : Reads Bool := do
  if ← sees word then
    let _ ← next
    return true
  else return false

/-- Takes a given keyword or symbol, which the reason says is needed. -/
def expect (word reason : String) : Reads Position := do
  let t ← next
  match t.1 with
  | .bad cause => fail cause t.2
  | _ => if isWord t word then return t.2 else fail (.expecting word reason) t.2

/-- Fails at a token that does not fit: with its own fault, or for want of a symbol. -/
def refuse {α : Type} (t : Located) (word reason : String) : Reads α :=
  match t.1 with
  | .bad cause => fail cause t.2
  | _ => fail (.expecting word reason) t.2

def variableName : Reads (String × Position) := do
  let t ← next
  match t.1 with
  | .name s => return (s, t.2)
  | .reserved s => if Token.isReservedWord s then fail (.reserved s true) t.2 else fail .variableExpected t.2
  | .bad cause => fail cause t.2
  | _ => fail .variableExpected t.2

def declare (name : String) (constant : Bool) : Reads Unit :=
  modify fun s => { s with frame := { s.frame with locals := ⟨name, constant⟩ :: s.frame.locals } }

def useName (name : String) (pos : Position) : Reads Unit :=
  modify fun s => { s with frame := s.frame.use name pos }

def isConstant (name : String) : Reads Bool := do
  return ((← get).frame.find? name).any (·.constant)

/-- Reads with the declarations of `r` dropped afterwards. -/
def inScope {α : Type} (r : Reads α) : Reads α := do
  let locals := (← get).frame.locals
  let a ← r
  modify fun s => { s with frame := { s.frame with locals } }
  return a

/-- Reads inside a frame of its own and returns what it captured, in the order of use. -/
def framed {α : Type} (frame : Frame) (r : Reads α) : Reads (α × List (String × Position)) := do
  let outer := (← get).frame
  modify fun s => { s with frame }
  let a ← r
  let captured := (← get).frame.captured.reverse
  modify fun s => { s with frame := outer }
  return (a, captured)

/-- The readers of the parts of the grammar, of which each may call all of them. -/
structure Readers where
  /-- An expression. -/
  expr : Setting → Reads Expr
  /-- An operand with the signs before it. -/
  unary : Setting → Reads Expr
  /-- The operators after an operand that bind tighter than a level. -/
  binary : Setting → Nat → Expr → Reads Expr
  /-- The links of a chain. -/
  links : Setting → Expr → List Link → Reads Expr
  /-- The arguments of a call after its opening parenthesis. -/
  args : Setting → String → Reads (List Expr)
  /-- The items of an array after its opening bracket, of which some were read before. -/
  items : Setting → Nat → Reads (List Expr)
  /-- The fields of a map after its opening brace, of which some were read before. -/
  fields : Setting → List String → Reads (List (String × Expr))
  /-- The pieces of a text after its first one. -/
  pieces : Setting → Reads (List Expr)
  /-- A statement. -/
  stmt : Setting → Reads Stmt
  /-- A block with its place. -/
  block : Setting → Reads (List Stmt × Position)
  /-- The statements of a block after its opening brace. -/
  stmts : Setting → Reads (List Stmt)
  /-- The arms of a switch; the flag says where the default arm stood, if there was one. -/
  cases : Setting → Option Position → Reads (List Case)
  /-- The parameters after the first bar or parenthesis. -/
  params : Option String → List String → Reads (List String)

end ReactiveNotebook.Script.Reader
