import ReactiveNotebook.Script.Reader.Basic

/-!
# Reading expressions

An expression is made of operands and operators by levels of precedence. An operand is a constant, a name, a
group, an array, a map, a text with embedded expressions, a closure or a control statement, followed by the
links of a chain.
-/
namespace ReactiveNotebook.Script.Reader

open Token (Located)

/-- What an expression is called that cannot be a truth value. -/
def nonBoolean? : Expr → Option String
  | .literal .unit _ => some "()"
  | .literal (.int _) _ => some "a number"
  | .literal (.float _) _ => some "a floating-point number"
  | .literal (.char _) _ => some "a character"
  | .literal (.str _) _ | .interpolated _ _ => some "a string"
  | .array _ _ => some "an array"
  | .map _ _ => some "an object map"
  | _ => none

/-- Refuses a constant that is no truth value. -/
def wantBoolean (e : Expr) : Reads Expr :=
  match nonBoolean? e with
  | some kind => fail (.expectingOther "a boolean expression" kind) e.startPos
  | none => return e

/-- Refuses a constant that cannot be iterated over. -/
def wantIterable (e : Expr) : Reads Expr :=
  let kind? := match e with
    | .literal .unit _ => some "()"
    | .literal (.bool _) _ => some "a boolean"
    | .literal (.int _) _ => some "a number"
    | .literal (.float _) _ => some "a floating-point number"
    | .literal (.char _) _ => some "a character"
    | .map _ _ => some "an object map"
    | _ => none
  match kind? with
  | some kind => fail (.expectingOther "an iterable value" kind) e.startPos
  | none => return e

/-- Operators between two operands. -/
inductive Infix where
  | plain (op : BinaryOp)
  | logical (op : LogicalOp)
  /-- Whether the left operand is contained in the right one, or is not. -/
  | membership (negated : Bool)

/-- The operator of a symbol with its level; a higher level binds tighter. -/
def infix? (word : String) : Option (Infix × Nat) :=
  match word with
  | "||" => some (.logical .or, 30)
  | "|" => some (.plain .bitOr, 30)
  | "^" => some (.plain .bitXor, 30)
  | "&&" => some (.logical .and, 60)
  | "&" => some (.plain .bitAnd, 60)
  | "==" => some (.plain .eq, 90)
  | "!=" => some (.plain .ne, 90)
  | "in" => some (.membership false, 110)
  | "!in" => some (.membership true, 110)
  | "<" => some (.plain .lt, 130)
  | "<=" => some (.plain .le, 130)
  | ">" => some (.plain .gt, 130)
  | ">=" => some (.plain .ge, 130)
  | "??" => some (.logical .coalesce, 135)
  | ".." => some (.plain .range, 140)
  | "..=" => some (.plain .rangeClosed, 140)
  | "+" => some (.plain .add, 150)
  | "-" => some (.plain .sub, 150)
  | "*" => some (.plain .mul, 180)
  | "/" => some (.plain .div, 180)
  | "%" => some (.plain .rem, 180)
  | "**" => some (.plain .pow, 190)
  | "<<" => some (.plain .shiftLeft, 210)
  | ">>" => some (.plain .shiftRight, 210)
  | _ => none

/-- The operator that a token stands for. A symbol that is kept is refused. -/
def infixOf (t : Located) : Reads (Option (Infix × Nat)) :=
  match t.1 with
  | .word w => return infix? w
  | .reserved s => if Token.isReservedWord s then return none else fail (.unknownOperator s) t.2
  | _ => return none

def groupsRight (level : Nat) : Bool := level == 190

/-- The place that a comparison reports: where its left operand begins. -/
def binaryPlace (op : BinaryOp) (left : Expr) (pos : Position) : Position :=
  match op with
  | .eq | .lt | .le | .gt | .ge => left.startPos
  | _ => pos

def join (op : Infix) (left right : Expr) (pos : Position) : Reads Expr :=
  match op with
  | .plain op => return .binary op left right (binaryPlace op left pos)
  | .logical .coalesce => return .logical .coalesce left right pos
  | .logical op => do
    let right ← wantBoolean right
    let left ← wantBoolean left
    return .logical op left right pos
  | .membership negated =>
    let pos := left.startPos
    let found := Expr.binary .contains right left pos
    return if negated then .unary .not found pos else found

/-- Reads an operator that binds tighter than `level` and its right operand, and goes on after them. -/
def readBinary (r : Readers) (s : Setting) (level : Nat) (root : Expr) : Reads Expr := do
  let t ← peek
  match t.1 with
  | .finish => return root
  | .bad cause => fail cause t.2
  | _ =>
    if s.barEnds && isWord t "|" then return root
    else
      match ← infixOf t with
      | none => return root
      | some (op, strength) =>
        if strength < level || (strength == level && !groupsRight strength) then return root
        else
          let _ ← next
          let right ← r.unary s
          let tighter := match ← infixOf (← peek) with
            | some (_, after) => strength < after || (strength == after && groupsRight strength)
            | none => false
          let right ← if tighter && !(s.barEnds && isWord (← peek) "|") then r.binary s strength right else pure right
          r.binary s level (← join op root right t.2)

/-- Negates a constant, or makes a negation. -/
def negate (e : Expr) (pos : Position) : Expr :=
  match e with
  | .literal (.int n) _ =>
    if n == Int64.minValue then .literal (.float (-.ofInt64 n)) pos else .literal (.int (-n)) pos
  | .literal (.float x) _ => .literal (.float (-x)) pos
  | e => .unary .neg e pos

def readUnary (r : Readers) (operand : Setting → Reads Expr) (s : Setting) : Reads Expr := do
  let t ← peek
  match t.1 with
  | .finish => fail .incomplete t.2
  | .word "-" =>
    let _ ← next
    return negate (← r.unary s) t.2
  | .word "+" =>
    let _ ← next
    match ← r.unary s with
    | .literal (.int n) p => return .literal (.int n) p
    | .literal (.float x) p => return .literal (.float x) p
    | e => return .unary .plus e t.2
  | .word "!" =>
    let _ ← next
    return .unary .not (← r.unary s) t.2
  | _ => operand s

/-- Reads the arguments of a call after its opening parenthesis. -/
def readArgs (r : Readers) (s : Setting) (callee : String) : Reads (List Expr) := do
  let close := s!"to close the arguments list of this function call '{callee}'"
  let first ← if ← sees ")" then pure [] else (fun e => [e]) <$> r.expr s
  if ← accept ")" then return first
  else if ← accept "," then return first ++ (← if ← accept ")" then pure [] else r.args s callee)
  else
    let t ← peek
    match t.1 with
    | .finish => fail (.expecting ")" close) t.2
    | _ => refuse t "," s!"to separate the arguments to function call '{callee}'"

/-- Reads the arguments of a call, of which the opening parenthesis is next. -/
def callArgs (r : Readers) (s : Setting) (callee : String) : Reads (List Expr) := do
  if ← accept "()" then return []
  else
    let _ ← next
    let t ← peek
    match t.1 with
    | .finish => fail (.expecting ")" s!"to close the arguments list of this function call '{callee}'") t.2
    | _ => r.args s callee

/-- Whether the next token opens the arguments of a call. -/
def seesCall : Reads Bool := do return (← sees "(") || (← sees "()")

/-- Refuses a constant index that cannot fit the constant that is indexed. -/
def checkIndex (root index : Expr) : Reads Unit :=
  let refuseMap (kind : String) : Reads Unit :=
    fail (.indexMismatch s!"Object map access expects string index, not {kind}") index.startPos
  let refuseArray (kind : String) : Reads Unit :=
    fail (.indexMismatch s!"Array, string or bit-field access expects numeric index, not {kind}") index.startPos
  match root with
  | .map _ _ =>
    match index with
    | .literal (.int _) _ => refuseMap "a number"
    | .literal (.float _) _ => refuseMap "a float"
    | .literal (.char _) _ => refuseMap "a character"
    | .literal (.bool _) _ | .logical .and .. | .logical .or .. => refuseMap "a boolean"
    | .literal .unit _ => refuseMap "()"
    | _ => return
  | .literal (.int _) _ | .literal (.str _) _ | .interpolated _ _ | .array _ _ =>
    match index with
    | .literal (.str _) _ | .interpolated _ _ => refuseArray "a string"
    | .literal (.float _) _ => refuseArray "a float"
    | .literal (.char _) _ => refuseArray "a character"
    | .literal (.bool _) _ | .logical .and .. | .logical .or .. => refuseArray "a boolean"
    | .literal .unit _ => refuseArray "()"
    | .map _ _ => refuseArray "an object map"
    | _ => return
  | _ => return

/-- The expression of a root and the links read so far, latest first. -/
def chain (root : Expr) (links : List Link) : Expr :=
  if links.isEmpty then root else .chain root links.reverse

/-- Reads the property or method after a point. -/
def readMember (r : Readers) (s : Setting) (optional : Bool) (opPos : Position) : Reads Link := do
  let t ← next
  let member (name : String) (mustCall : Bool) : Reads Link := do
    if ← seesCall then return .method name (← callArgs r s name) optional t.2 opPos
    else if mustCall then fail (.reserved name true) t.2
    else return .property name optional t.2 opPos
  match t.1 with
  | .name s => member s false
  | .reserved w =>
    if Token.specialMethods.contains w then member w true else fail (.reserved w (Token.isReservedWord w)) t.2
  | _ => fail .propertyExpected t.2

/-- Reads the links after a root and the links before them, latest first. -/
def readLinks (r : Readers) (s : Setting) (root : Expr) (before : List Link) : Reads Expr := do
  let t ← peek
  match t.1 with
  | .word "." | .word "?." =>
    let _ ← next
    let link ← readMember r s (isWord t "?.") t.2
    r.links s root (link :: before)
  | .word "[" | .word "?[" =>
    let _ ← next
    let index ← r.expr { s with barEnds := false }
    if before.isEmpty then checkIndex root index
    let u ← peek
    if isWord u "]" then
      let _ ← next
      r.links s root (.index index (isWord t "?[") t.2 :: before)
    else refuse u "]" "for a matching [ in this index expression"
  | _ => return chain root before

/-- Reads what follows a name: the arguments of a call, a name inside a namespace, or nothing. -/
def readName (r : Readers) (s : Setting) (name : String) (pos : Position) : Reads Expr := do
  if ← seesCall then return .call name (← callArgs r s name) pos
  else if ← accept "::" then
    let (member, memberPos) ← variableName
    if ← seesCall then return .moduleCall name member (← callArgs r s member) pos memberPos
    else return .qualified name member pos memberPos
  else
    useName name pos
    return .variable name pos

/-- Reads the items of an array after its opening bracket, of which `count` were read before. -/
def readItems (r : Readers) (s : Setting) (count : Nat) : Reads (List Expr) := do
  let close := "to end this array literal"
  let t ← peek
  if s.mostItems != 0 && s.mostItems ≤ count then fail (.literalTooLarge s.mostItems) t.2
  else if ← accept "]" then return []
  else
    match t.1 with
    | .finish => fail (.expecting "]" close) t.2
    | _ =>
      let item ← r.expr s
      let u ← peek
      match u.1 with
      | .word "," =>
        let _ ← next
        return item :: (← r.items s (count + 1))
      | .word "]" => return item :: (← r.items s (count + 1))
      | .finish => fail (.expecting "]" close) u.2
      | _ => refuse u "," "to separate the items of this array literal"

def readKey (seen : List String) : Reads String := do
  let close := "to end this object map literal"
  let t ← next
  let fresh (key : String) : Reads String :=
    if seen.contains key then fail (.duplicateProperty key) t.2 else return key
  match t.1 with
  | .name s | .str s => fresh s
  | .piece _ => fail .propertyExpected t.2
  | .reserved s =>
    if Token.isReservedWord s then fail (.reserved s true) t.2
    else if seen.isEmpty then fail (.expecting "\x7d" close) t.2
    else fail .propertyExpected t.2
  | .bad cause => fail cause t.2
  | .finish => fail (.expecting "\x7d" close) t.2
  | _ => if seen.isEmpty then fail (.expecting "\x7d" close) t.2 else fail .propertyExpected t.2

/-- Reads the fields of a map after its opening brace. `seen` are the keys read before. -/
def readFields (r : Readers) (s : Setting) (seen : List String) : Reads (List (String × Expr)) := do
  let close := "to end this object map literal"
  if ← accept "\x7d" then return []
  else
    let t ← peek
    match t.1 with
    | .finish => fail (.expecting "\x7d" close) t.2
    | _ =>
      let key ← readKey seen
      let _ ← expect ":" s!"to follow the property '{key}' in this object map literal"
      let value ← r.expr s
      let u ← peek
      match u.1 with
      | .word "," =>
        let _ ← next
        return (key, value) :: (← r.fields s (key :: seen))
      | .word "\x7d" => return (key, value) :: (← r.fields s (key :: seen))
      | .name _ => fail (.expecting "," "to separate the items of this object map literal") u.2
      | _ => refuse u "\x7d" close

def textPiece (s : String) (pos : Position) : List Expr :=
  if s.isEmpty then [] else [.literal (.str s) pos]

/-- Reads an embedded expression and the pieces after it. -/
def readPieces (r : Readers) (s : Setting) : Reads (List Expr) := do
  let (body, pos) ← r.block { s with global := false }
  let embedded := Expr.block body pos
  let t ← next
  match t.1 with
  | .str text => return embedded :: textPiece text t.2
  | .piece text => return embedded :: (textPiece text t.2 ++ (← r.pieces s))
  | .bad cause => fail cause t.2
  | _ => fail .openString t.2

/-- Reads the parameters of a function, or of a closure, after the opening sign. `seen` are the parameters
read before, latest first. -/
def readParams (r : Readers) (function : Option String) (seen : List String) : Reads (List String) := do
  let (closing, closeReason, separateReason) := match function with
    | none => ("|", "to close the parameters list of anonymous function",
        "to separate the parameters of anonymous function")
    | some name => (")", s!"to close the parameters list of function '{name}'",
        s!"to separate the parameters of function '{name}'")
  let t ← next
  if isWord t closing then return seen.reverse
  else
    match t.1 with
    | .name s =>
      if seen.contains s then fail (.duplicateParameter function s) t.2
      else
        let u ← next
        if isWord u closing then return (s :: seen).reverse
        else if isWord u "," then r.params function (s :: seen)
        else refuse u "," separateReason
    | _ => refuse t closing closeReason

def bodyOf : Stmt → List Stmt
  | .block body _ => body
  | s => [s]

/-- Reads a closure, of which the first bar has been taken. -/
def readClosure (r : Readers) (s : Setting) (empty : Bool) (pos : Position) : Reads Expr := do
  let params ← if empty then pure [] else r.params none []
  let inner := { s with global := false, breakable := false, inFunction := true, barEnds := false }
  let (body, captured) ← framed (.ofParams params) (r.stmt inner)
  for (name, use) in captured do useName name use
  return .closure (.mk params captured (bodyOf body) pos) pos

def readGroup (r : Readers) (s : Setting) : Reads Expr := do
  let e ← r.expr s
  let _ ← expect ")" "for a matching ( in this expression"
  return e

/-- Reads the root of a chain. `control` reads a control statement that stands for a value. -/
def readRoot (r : Readers) (control : Setting → Reads (Option Stmt)) (s : Setting) : Reads Expr := do
  let t ← peek
  let pos := t.2
  match ← control s with
  | some stmt => return .block [stmt] pos
  | none =>
    if isWord t "\x7b" && !s.single then
      let (body, pos) ← r.block { s with global := false }
      return .block body pos
    else
      let _ ← next
      match t.1 with
      | .finish => fail .incomplete pos
      | .int n => return .literal (.int n) pos
      | .float x => return .literal (.float x) pos
      | .char c => return .literal (.char c) pos
      | .str text => return .literal (.str text) pos
      | .word "()" => return .literal .unit pos
      | .word "true" => return .literal (.bool true) pos
      | .word "false" => return .literal (.bool false) pos
      | .word "(" => readGroup r s
      | .word "|" => readClosure r s false pos
      | .word "||" => readClosure r s true pos
      | .word "[" => return .array (← r.items s 0) pos
      | .word "#\x7b" => return .map (← r.fields s []) pos
      | .piece text =>
        let parts ← r.pieces s
        match textPiece text pos ++ parts with
        | [] => return .literal (.str "") pos
        | parts => return .interpolated parts pos
      | .name name => readName r s name pos
      | .reserved w =>
        if w == "this" then
          if s.inFunction then return .variable w pos
          else fail (.badSymbol "'this' can only be used in functions") pos
        else if Token.specialFunctions.contains w then
          if ← seesCall then readName r s w pos else fail (.reserved w true) pos
        else fail (.reserved w (Token.isReservedWord w)) pos
      | .bad cause => fail cause pos
      | token => fail (.unexpected token.text) pos

/-- Reads an operand: a root with the links of a chain. -/
def readOperand (r : Readers) (control : Setting → Reads (Option Stmt)) (s : Setting) : Reads Expr := do
  let root ← readRoot r control s
  if s.barEnds && (← sees "|") then return root
  else r.links s root []

def readExpr (r : Readers) (s : Setting) : Reads Expr := do
  let left ← r.unary s
  r.binary s 1 left

end ReactiveNotebook.Script.Reader
