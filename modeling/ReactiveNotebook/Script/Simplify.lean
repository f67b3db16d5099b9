import ReactiveNotebook.Script.Operator
import ReactiveNotebook.Script.Purity

/-!
# Simplifying scripts

A script is simplified before it runs: operators on constants are computed, names of constants are replaced
by their values, branches that are never taken go, and so do statements without effect whose value nobody
sees. So a run takes fewer operations, and an unknown name in a statement that is left out is no failure.
-/
namespace ReactiveNotebook.Script

mutual

/-- The constant that denotes a value, if there is one. -/
def Value.literal? : Value → Option Literal
  | .unit => some .unit
  | .bool b => some (.bool b)
  | .int n => some (.int n)
  | .float x => some (.float x)
  | .char c => some (.char c)
  | .str s => some (.str s)
  | .range low high closed => some (.range low high closed)
  | .array items => (Value.literals? items).map .array
  | .map fields => (Value.literalFields? fields).map .map
  | .timestamp | .closure _ _ | .shared _ => none

def Value.literals? : List Value → Option (List Literal)
  | [] => some []
  | v :: rest => do return (← v.literal?) :: (← Value.literals? rest)

def Value.literalFields? : List (String × Value) → Option (List (String × Literal))
  | [] => some []
  | (k, v) :: rest => do return (k, ← v.literal?) :: (← Value.literalFields? rest)

end

/-- The names in scope, innermost first, with the values of those that stand for a constant. -/
abbrev Known := List (String × Option Literal)

/-- The constant a name stands for. -/
def Known.value? (known : Known) (name : String) : Option Literal :=
  match known.lookup name with
  | some value => value
  | none => none

namespace Expr

/-- The constant that an expression is. -/
def literal? : Expr → Option Literal
  | .literal l _ => some l
  | _ => none

/-- The same expression at another place. -/
def moved (pos : Position) : Expr → Expr
  | .literal l _ => .literal l pos
  | .interpolated parts _ => .interpolated parts pos
  | .array items _ => .array items pos
  | .map fields _ => .map fields pos
  | .variable name _ => .variable name pos
  | .qualified space name spacePos _ => .qualified space name spacePos pos
  | e => e

/-- An array; one of constants is a constant. -/
def ofItems (items : List Expr) (pos : Position) : Expr :=
  match items.mapM literal? with
  | some ls => .literal (.array ls) pos
  | none => .array items pos

/-- A map; one of constants is a constant. -/
def ofFields (fields : List (String × Expr)) (pos : Position) : Expr :=
  match fields.mapM fun (k, e) => e.literal?.map fun l => (k, l) with
  | some ls => .literal (.map ls) pos
  | none => .map fields pos

/-- Joins texts that follow each other, and drops pieces without text. -/
def joinPieces : List Expr → List Expr
  | [] => []
  | e :: rest =>
    match e, joinPieces rest with
    | .literal .unit _, others | .literal (.str "") _, others => others
    | .literal (.str s) pos, .literal (.str t) _ :: others => .literal (.str (s ++ t)) pos :: others
    | e, others => e :: others

/-- A text of pieces; one of constants is a constant. -/
def ofPieces (parts : List Expr) (pos : Position) : Expr :=
  match parts.mapM literal? with
  | some ls => .literal (.str (String.join (ls.map fun l => (Value.ofLiteral l).displayText))) pos
  | none => .interpolated (joinPieces parts) pos

/-- An operator on two operands, which is computed on constants where that succeeds. -/
def ofBinary (op : BinaryOp) (left right : Expr) (pos : Position) : Expr :=
  let folded : Option Literal := do
    let a ← left.literal?
    let b ← right.literal?
    let .ok v ← op.direct (.ofLiteral a) (.ofLiteral b) | none
    v.literal?
  match folded with
  | some l => .literal l pos
  | none => .binary op left right pos

/-- An operator that may skip its right side; a constant side decides or goes. -/
def ofLogical (op : LogicalOp) (left right : Expr) (pos : Position) : Expr :=
  match op, left, right with
  | .and, .literal (.bool true) _, e | .or, .literal (.bool false) _, e => e
  | .and, .literal (.bool false) p, _ => .literal (.bool false) p
  | .or, .literal (.bool true) p, _ => .literal (.bool true) p
  | .and, e, .literal (.bool true) _ | .or, e, .literal (.bool false) _ => e
  | .coalesce, .literal .unit _, e => e
  | .coalesce, .literal l p, _ => .literal l p
  | op, left, right => .logical op left right pos

/-- A call; the type of a constant is known. -/
def ofCall (name : String) (args : List Expr) (pos : Position) : Expr :=
  match name, args with
  | "type_of", [.literal l _] => .literal (.str (Value.ofLiteral l).typeName) pos
  | name, args => .call name args pos

def itemAt? (items : List α) (index : Int64) : Option α :=
  let i := index.toInt
  if 0 ≤ i then items[i.toNat]?
  else if -i ≤ items.length then items[items.length - i.natAbs]?
  else none

/-- A chain of one link; a constant index takes an item from an array, map or text that is written out. -/
def ofLink (root : Expr) (link : Link) : Expr :=
  let field (fields : List (String × Expr)) (key : String) (pos : Position) : Expr :=
    match fields.find? (·.1 == key) with
    | some (_, e) => e.moved pos
    | none => .literal .unit pos
  match root, link with
  | .map fields pos, .property name _ _ _ =>
    if fieldsPure fields then field fields name pos else .chain root [link]
  | .map fields pos, .index (.literal (.str key) _) _ _ =>
    if fieldsPure fields then field fields key pos else .chain root [link]
  | .array items pos, .index (.literal (.int n) _) _ _ =>
    match itemAt? items n with
    | some e => if allPure items then e.moved pos else .chain root [link]
    | none => .chain root [link]
  | .literal (.str s) pos, .index (.literal (.int n) _) _ _ =>
    match itemAt? s.toList n with
    | some c => .literal (.char c) pos
    | none => .chain root [link]
  | .literal l _, .method "type_of" [] _ pos _ => .literal (.str (Value.ofLiteral l).typeName) pos
  | root, link => .chain root [link]

/-- Statements as an expression. A single expression stands for itself. -/
def ofBlock (body : List Stmt) (pos : Position) : Expr :=
  match body with
  | [] => .literal .unit pos
  | [.expr e] => e
  | body => .block body pos

end Expr

namespace Stmt

/-- Drops what follows a statement that leaves. -/
def dropUnreached : List Stmt → List Stmt
  | [] => []
  | s :: rest => if s.leaves then [s] else s :: dropUnreached rest

/-- Whether the declarations before a statement have to stay for it. -/
def anchors (isIdle : Stmt → Bool) (s : Stmt) : Bool :=
  !isIdle s || match s with
    | .declare _ value _ _ => value.literal?.isSome
    | .expr e => e.literal?.isNone
    | .import_ path _ _ => path.literal?.isNone
    | _ => false

/-- The place of the last statement with a property, or the first place. -/
def lastPlace (p : Stmt → Bool) (ss : List Stmt) : Nat :=
  match ss.reverse.findIdx? p with
  | some i => ss.length - i - 1
  | none => 0

/-- Drops pure statements, and from the last anchor on idle ones. With `keep` the last statement stays. -/
def dropIdle (isIdle : Stmt → Bool) (keep : Bool) (ss : List Stmt) : List Stmt :=
  let anchor := lastPlace (anchors isIdle) ss
  let stays (s : Stmt) (i : Nat) : Bool :=
    (keep && i + 1 == ss.length) || !(s.isPure || (isIdle s && anchor ≤ i))
  (ss.zipIdx.filter fun p => stays p.1 p.2).map (·.1)

/-- Ends a list of statements, given in reverse, whose value is seen. With `outermost` a return at the end
gives way to its value. -/
def endKept (isIdle : Stmt → Bool) (outermost : Bool) : List Stmt → List Stmt
  | [] => []
  | [.return_ none pos] => if outermost then [] else [.return_ none pos]
  | [.return_ (some e) pos] => if outermost then [.expr e] else [.return_ (some e) pos]
  | [s] => if !s.hasValue && isIdle s then [] else [s]
  | .return_ none pos :: before :: rest =>
    if !outermost then .return_ none pos :: before :: rest
    else if before.hasValue then .noop pos :: before :: rest
    else endKept isIdle outermost (before :: rest)
  | .return_ (some e) pos :: before :: rest =>
    if outermost then .expr e :: before :: rest else .return_ (some e) pos :: before :: rest
  | last :: before :: rest =>
    if last.hasValue || !isIdle last then last :: before :: rest
    else if before.hasValue then .noop last.pos :: before :: rest
    else endKept isIdle outermost (before :: rest)

/-- Ends a list of statements whose value nobody sees: idle ones at the end go. -/
def endUnkept (isIdle : Stmt → Bool) (reversed : List Stmt) : List Stmt :=
  reversed.dropWhile isIdle

/-- Where statements stand. -/
inductive Setting where
  /-- In a block whose value is seen. -/
  | valued
  /-- In a block whose value nobody sees. -/
  | unvalued
  /-- Outside of all blocks, or directly in a function. -/
  | outermost
  deriving DecidableEq, Repr

/-- Whether the value of the last statement is seen. -/
def Setting.keeps : Setting → Bool
  | .unvalued => false
  | _ => true

/-- Where the statements of a block stand, given where the block does. -/
def Setting.inner : Setting → Setting
  | .unvalued => .unvalued
  | _ => .valued

/-- Drops the statements of a list that do not matter. -/
def tidy (setting : Setting) (ss : List Stmt) : List Stmt :=
  let isIdle : Stmt → Bool := if setting = .outermost then isPure else isLocal
  let ss := dropIdle isIdle setting.keeps (dropUnreached ss)
  if setting.keeps then (endKept isIdle (setting = .outermost) ss.reverse).reverse
  else (endUnkept isIdle ss.reverse).reverse

/-- A block. An empty one does nothing, and a single statement that declares nothing stands for itself. -/
def ofBlock (body : List Stmt) (pos : Position) : Stmt :=
  match body with
  | [] => .noop pos
  | [s] => if s.declares then .block [s] pos else s
  | body => .block body pos

/-- A choice. A constant condition decides it; without anything to do only the condition remains. -/
def ofIf (setting : Setting) (condition : Expr) (yes no : List Stmt) (pos : Position) : Stmt :=
  match condition, yes, no with
  | condition, [], [] =>
    if setting.keeps then
      ofBlock (tidy .valued [.expr condition, .noop condition.startPos]) condition.startPos
    else .expr condition
  | .literal (.bool false) _, _, no => ofBlock no pos
  | .literal (.bool true) _, yes, _ => ofBlock yes pos
  | condition, yes, no => .ifElse condition yes no pos

/-- A protected block. One without effect needs no handler. -/
def ofTry (body : List Stmt) (name : Option String) (handler : List Stmt) (pos : Position) : Stmt :=
  if allPure body then ofBlock body pos else .tryCatch body name handler pos

/-- An assignment. One that applies an operator to the variable itself becomes a combined one. -/
def ofAssign (op : Option BinaryOp) (target value : Expr) (pos : Position) : Stmt :=
  match op, target, value with
  | none, .variable name _, .binary f (.variable arg _) right opPos =>
    if name == arg && f.hasAssignment then .assign (some f) target right opPos
    else .assign op target value pos
  | op, target, value => .assign op target value pos

end Stmt

mutual

/-- Simplifies an expression. -/
def Expr.simplify (known : Known) : Expr → Expr
  | .literal l pos => .literal l pos
  | .interpolated parts pos => .ofPieces (Expr.simplifyAll known parts) pos
  | .array items pos => .ofItems (Expr.simplifyAll known items) pos
  | .map fields pos => .ofFields (Expr.simplifyFields known fields) pos
  | .variable name pos =>
    match known.value? name with
    | some l => .literal l pos
    | none => .variable name pos
  | .qualified space name spacePos pos => .qualified space name spacePos pos
  | .unary op arg pos => .unary op (arg.simplify known) pos
  | .binary op left right pos => .ofBinary op (left.simplify known) (right.simplify known) pos
  | .logical op left right pos => .ofLogical op (left.simplify known) (right.simplify known) pos
  | .call name args pos => .ofCall name (Expr.simplifyAll known args) pos
  | .moduleCall space name args spacePos pos =>
    .moduleCall space name (Expr.simplifyAll known args) spacePos pos
  | .chain (.variable name pos) links => .chain (.variable name pos) (Link.simplifyAll known links)
  | .chain (.map fields pos) [link] => .ofLink (.map (Expr.simplifyFields known fields) pos) (link.simplify known)
  | .chain (.array items pos) [link] => .ofLink (.array (Expr.simplifyAll known items) pos) (link.simplify known)
  | .chain root [link] => .ofLink (root.simplify known) (link.simplify known)
  | .chain root links => .chain (root.simplify known) (Link.simplifyAll known links)
  | .closure lambda pos => .closure lambda.simplify pos
  | .block body pos => .ofBlock (Stmt.tidy .valued (Stmt.simplifyAll known .valued body)) pos

/-- Simplifies some expressions. -/
def Expr.simplifyAll (known : Known) : List Expr → List Expr
  | [] => []
  | e :: rest => e.simplify known :: Expr.simplifyAll known rest

def Expr.simplifyFields (known : Known) : List (String × Expr) → List (String × Expr)
  | [] => []
  | (k, e) :: rest => (k, e.simplify known) :: Expr.simplifyFields known rest

/-- Simplifies an expression that may be missing. -/
def Expr.simplifyOption (known : Known) : Option Expr → Option Expr
  | none => none
  | some e => some (e.simplify known)

def Link.simplify (known : Known) : Link → Link
  | .property name optional pos opPos => .property name optional pos opPos
  | .method name args optional pos opPos => .method name (Expr.simplifyAll known args) optional pos opPos
  | .index at_ optional opPos => .index (at_.simplify known) optional opPos

def Link.simplifyAll (known : Known) : List Link → List Link
  | [] => []
  | l :: rest => l.simplify known :: Link.simplifyAll known rest

/-- Simplifies a closure, which sees no constants around it. -/
def Lambda.simplify : Lambda → Lambda
  | .mk params captured body pos =>
    .mk params captured (Stmt.tidy .outermost (Stmt.simplifyAll [] .outermost body)) pos

/-- Simplifies a statement. -/
def Stmt.simplify (known : Known) (setting : Stmt.Setting) : Stmt → Stmt
  | .noop pos => .noop pos
  | .expr (.block body pos) =>
    .ofBlock (Stmt.tidy (setting.inner) (Stmt.simplifyAll known setting.inner body)) pos
  | .expr e => .expr (e.simplify known)
  | .declare name value constant pos => .declare name (value.simplify known) constant pos
  | .assign op (.variable name namePos) value pos =>
    .ofAssign op (.variable name namePos) (value.simplify known) pos
  | .assign op target value pos => .assign op (target.simplify known) (value.simplify known) pos
  | .block body pos => .ofBlock (Stmt.tidy setting.inner (Stmt.simplifyAll known setting.inner body)) pos
  | .ifElse condition yes no pos =>
    .ofIf setting (condition.simplify known)
      (Stmt.tidy setting.inner (Stmt.simplifyAll known setting.inner yes))
      (Stmt.tidy setting.inner (Stmt.simplifyAll known setting.inner no)) pos
  | .switch subject cases pos => .switch (subject.simplify known) (Case.simplifyAll known cases) pos
  | .while_ (some (.literal (.bool false) p)) _ _ _ => .noop p
  | .while_ condition body pos bodyPos =>
    .while_ (Expr.simplifyOption known condition)
      (Stmt.tidy .unvalued (Stmt.simplifyAll known .unvalued body)) pos bodyPos
  | .doLoop body condition negated pos bodyPos =>
    .doLoop (Stmt.tidy .unvalued (Stmt.simplifyAll known .unvalued body)) (condition.simplify known) negated pos
      bodyPos
  | .for_ name counter items body pos bodyPos =>
    let inner := (name, none) :: (counter.toList.map fun c => (c, none)) ++ known
    .for_ name counter (items.simplify known)
      (Stmt.tidy .unvalued (Stmt.simplifyAll inner .unvalued body)) pos bodyPos
  | .tryCatch body name handler pos =>
    let inner := (name.toList.map fun n => (n, none)) ++ known
    .ofTry (Stmt.tidy .unvalued (Stmt.simplifyAll known .unvalued body)) name
      (Stmt.tidy .unvalued (Stmt.simplifyAll inner .unvalued handler)) pos
  | .break_ value pos => .break_ (Expr.simplifyOption known value) pos
  | .continue_ pos => .continue_ pos
  | .return_ value pos => .return_ (Expr.simplifyOption known value) pos
  | .throw_ value pos => .throw_ (Expr.simplifyOption known value) pos
  | .import_ path alias_ pos => .import_ (path.simplify known) alias_ pos

/-- Simplifies statements in order. A block that declares nothing is taken apart, and a declared constant is
known to the statements after it. -/
def Stmt.simplifyAll (known : Known) (setting : Stmt.Setting) : List Stmt → List Stmt
  | [] => []
  | .block body pos :: rest =>
    let inner := Stmt.simplifyAll known setting body
    (if body.any Stmt.declares then [.ofBlock (Stmt.tidy setting.inner inner) pos] else inner)
      ++ Stmt.simplifyAll known setting rest
  | .declare name value constant pos :: rest =>
    let value := value.simplify known
    .declare name value constant pos
      :: Stmt.simplifyAll ((name, if constant then value.literal? else none) :: known) setting rest
  | s :: rest => s.simplify known setting :: Stmt.simplifyAll known setting rest

/-- Simplifies the arms of a switch. -/
def Case.simplifyAll (known : Known) : List Case → List Case
  | [] => []
  | .mk values condition result :: rest =>
    .mk values (Expr.simplifyOption known condition) (result.simplify known) :: Case.simplifyAll known rest

end

/-- Simplifies statements outside of all blocks, or directly in a function. -/
def Stmt.simplifyOutermost (body : List Stmt) : List Stmt :=
  Stmt.tidy .outermost (Stmt.simplifyAll [] .outermost body)

def Program.simplify (p : Program) : Program where
  body := Stmt.simplifyOutermost p.body
  functions := p.functions.map fun f => { f with body := Stmt.simplifyOutermost f.body }

end ReactiveNotebook.Script
