import ReactiveNotebook.Script.Reader.Expression

/-!
# Reading statements

Statements end with a semicolon unless they end with a block. Functions are declared outside of all blocks
and are kept apart from the statements.
-/
namespace ReactiveNotebook.Script.Reader

open Token (Located)

/-- Refuses a block, or the end of the text, where an expression is wanted. -/
def wantExpression (kind : String) : Reads Unit := do
  let t ← peek
  match t.1 with
  | .word "\x7b" | .finish => fail (.expectingExpression kind) t.2
  | _ => return

/-- The symbols of combined assignments with their operators. -/
def combined? (word : String) : Option BinaryOp :=
  match word with
  | "+=" => some .add
  | "-=" => some .sub
  | "*=" => some .mul
  | "/=" => some .div
  | "%=" => some .rem
  | "**=" => some .pow
  | "<<=" => some .shiftLeft
  | ">>=" => some .shiftRight
  | "&=" => some .bitAnd
  | "|=" => some .bitOr
  | "^=" => some .bitXor
  | _ => none

def refuseAssignment : Reads Unit := do
  let t ← peek
  match t.1 with
  | .word "=" => fail (.badSymbol "Possibly a typo of '=='?") t.2
  | .word w =>
    if (combined? w).isSome then fail (.badSymbol "Expecting a boolean expression, not an assignment") t.2
    else return
  | _ => return

def readCondition (r : Readers) (s : Setting) : Reads Expr := do
  wantExpression "a boolean"
  let e ← wantBoolean (← r.expr s)
  refuseAssignment
  return e

/-- Reads a choice after its keyword, which stands at `pos`. -/
def readIf (r : Readers) (s : Setting) (pos : Position) : Reads Stmt := do
  let condition ← readCondition r s
  let (yes, _) ← r.block s
  if ← accept "else" then
    if ← sees "if" then return .ifElse condition yes [← r.stmt s] pos
    else
      let (no, _) ← r.block s
      return .ifElse condition yes no pos
  else return .ifElse condition yes [] pos

/-- The constant that stands in an arm of a switch. -/
def caseLiteral : Expr → Reads Literal
  | .literal l _ => return l
  | .binary .range (.literal (.int a) _) (.literal (.int b) _) _ => return .range a b false
  | .binary .rangeClosed (.literal (.int a) _) (.literal (.int b) _) _ => return .range a b true
  | e => fail (.expectingExpression "a literal") e.startPos

/-- Reads the constants of an arm, with bars between them. The fuel bounds their number. -/
def readCaseValues (r : Readers) (s : Setting) : Nat → Reads (List Expr)
  | 0 => do fail .outOfFuel (← peek).2
  | fuel + 1 => do
    let value ← tryCatch (r.expr { s with barEnds := true }) fun fault =>
      fail (.expectingExpression "literal") fault.pos
    if ← accept "|" then return value :: (← readCaseValues r s fuel)
    else return [value]

/-- Reads the head of an arm: its values, none for the default one, and its condition. -/
def readCaseHead (r : Readers) (s : Setting) (default? : Option Position) :
    Reads (List Expr × Option Expr × Option Position) := do
  let t ← peek
  if isWord t "_" && default?.isNone then
    let _ ← next
    let u ← peek
    if isWord u "if" then fail .defaultCaseCondition u.2
    else return ([], none, some t.2)
  else
    match default? with
    | some pos => fail .defaultCaseNotLast pos
    | none =>
      let values ← readCaseValues r s ((← get).tokens.length + 1)
      if ← accept "if" then return (values, some (← readCondition r s), none)
      else return (values, none, none)

def endsItself : Stmt → Bool
  | .ifElse .. | .switch .. | .block .. | .while_ .. | .for_ .. | .tryCatch .. => true
  | _ => false

/-- Reads the arms of a switch after its opening brace. -/
def readCases (r : Readers) (s : Setting) (default? : Option Position) : Reads (List Case) := do
  let close := "to end this switch block"
  if ← accept "\x7d" then return []
  else
    let t ← peek
    match t.1 with
    | .finish => fail (.expecting "\x7d" close) t.2
    | _ =>
      let (values, condition, here?) ← readCaseHead r s default?
      let _ ← expect "=>" "in this switch case"
      let (result, needsComma) ←
        if s.single then pure (← r.expr s, true)
        else do
          let pos := (← peek).2
          let stmt ← r.stmt s
          pure (Expr.block (bodyOf stmt) pos, !endsItself stmt)
      let arm := Case.mk (← values.mapM caseLiteral) condition result
      let default? := here?.or default?
      let u ← peek
      match u.1 with
      | .word "," =>
        let _ ← next
        return arm :: (← r.cases s default?)
      | .word "\x7d" => return arm :: (← r.cases s default?)
      | .finish => fail (.expecting "\x7d" close) u.2
      | .bad cause => fail cause u.2
      | _ =>
        if needsComma then fail (.expecting "," "to separate the items in this switch block") u.2
        else return arm :: (← r.cases s default?)

def readSwitch (r : Readers) (s : Setting) (pos : Position) : Reads Stmt := do
  let subject ← r.expr s
  let _ ← expect "\x7b" "to start a switch block"
  return .switch subject (← r.cases s none) pos

/-- Reads a loop with its condition in front, or without one, after its keyword. -/
def readWhile (r : Readers) (s : Setting) (conditional : Bool) (pos : Position) : Reads Stmt := do
  let condition ← if conditional then some <$> readCondition r s else pure none
  let (body, bodyPos) ← r.block { s with breakable := true }
  return .while_ condition body pos bodyPos

/-- Reads a loop with its condition at the end after its keyword. -/
def readDo (r : Readers) (s : Setting) (pos : Position) : Reads Stmt := do
  let (body, bodyPos) ← r.block { s with breakable := true }
  let t ← next
  let negated ← match t.1 with
    | .word "while" => pure false
    | .word "until" => pure true
    | _ => refuse t "while" "for the do statement"
  let condition ← readCondition r s
  return .doLoop body condition negated pos bodyPos

/-- Reads the variables of an iteration: the item, and its number if there is one. -/
def readLoopNames : Reads (String × Option String) := do
  if ← accept "(" then
    let (name, _) ← variableName
    let t ← peek
    if !(← accept ",") then refuse t "," "after the iteration variable name"
    let (counter, counterPos) ← variableName
    if counter == name then fail (.duplicateVariable counter) counterPos
    let u ← peek
    if !(← accept ")") then refuse u ")" "to close the iteration variable"
    return (name, some counter)
  else
    let (name, _) ← variableName
    return (name, none)

/-- Reads an iteration after its keyword. -/
def readFor (r : Readers) (s : Setting) (pos : Position) : Reads Stmt := do
  let (name, counter) ← readLoopNames
  let _ ← expect "in" "after the iteration variable"
  wantExpression "a boolean"
  let items ← wantIterable (← r.expr s)
  inScope do
    for c in counter do declare c false
    declare name false
    let (body, bodyPos) ← r.block { s with breakable := true }
    return .for_ name counter items body pos bodyPos

/-- Reads a protected block after its keyword. -/
def readTry (r : Readers) (s : Setting) (pos : Position) : Reads Stmt := do
  let (body, _) ← r.block s
  let t ← peek
  if !(← accept "catch") then refuse t "catch" "for the 'try' statement"
  let name ← if ← accept "(" then do
      let (name, _) ← variableName
      let u ← peek
      if !(← accept ")") then refuse u ")" "to enclose the catch variable"
      pure (some name)
    else pure none
  inScope do
    for n in name do declare n false
    let (handler, _) ← r.block s
    return .tryCatch body name handler pos

/-- Reads a control statement, if its keyword is next. -/
def readControl (r : Readers) (s : Setting) : Reads (Option Stmt) := do
  let t ← peek
  let take (read : Position → Reads Stmt) : Reads (Option Stmt) := do
    let _ ← next
    some <$> read t.2
  match t.1 with
  | .word "if" => take (readIf r s)
  | .word "switch" => take (readSwitch r s)
  | .word "while" => if s.single then return none else take (readWhile r s true)
  | .word "loop" => if s.single then return none else take (readWhile r s false)
  | .word "do" => if s.single then return none else take (readDo r s)
  | .word "for" => if s.single then return none else take (readFor r s)
  | _ => return none

/-- Reads the declaration of a variable or constant after its keyword. -/
def readDeclaration (r : Readers) (s : Setting) (constant : Bool) (pos : Position) : Reads Stmt := do
  let (name, _) ← variableName
  let value ← if ← accept "=" then r.expr s else pure (.literal .unit .none)
  declare name constant
  return .declare name value constant pos

/-- The place of a link that makes a chain no target of an assignment. -/
def badLink? : List Link → Option Position
  | [] => none
  | [.method _ _ _ pos _] => some pos
  | .method _ _ _ pos _ :: _ => some pos
  | _ :: rest => badLink? rest

/-- Makes an assignment. -/
def assign (op : Option BinaryOp) (target value : Expr) (pos : Position) : Reads Stmt := do
  match target with
  | .literal .. => fail (.constantAssigned "") target.startPos
  | .variable name namePos =>
    if ← isConstant name then fail (.constantAssigned name) namePos
    else return .assign op target value pos
  | .chain root links =>
    match badLink? links, root with
    | some place, _ => fail .notAssignable place
    | none, .variable .. => return .assign op target value pos
    | none, root => fail .notAssignable root.pos
  | .logical .. =>
    if op.isNone then fail (.badSymbol "Possibly a typo of '=='?") pos else fail .notAssignable target.pos
  | e => fail .notAssignable e.pos

/-- Reads an expression that stands as a statement, or an assignment to it. -/
def readPlain (r : Readers) (s : Setting) : Reads Stmt := do
  let e ← r.expr s
  let t ← peek
  match t.1 with
  | .word "=" =>
    let _ ← next
    let value ← r.expr s
    assign none e value t.2
  | .word w =>
    match combined? w with
    | none => return .expr e
    | some op =>
      let _ ← next
      let value ← r.expr s
      assign (some op) e value t.2
  | _ => return .expr e

def readFunction (r : Readers) (s : Setting) (pos : Position) : Reads Stmt := do
  let t ← next
  let name ← match t.1 with
    | .name n => pure n
    | .reserved w => fail (.reserved w (Token.isReservedWord w)) t.2
    | .bad cause => fail cause t.2
    | _ => fail .functionNameExpected t.2
  let u ← peek
  let params ← if ← accept "()" then pure []
    else if ← accept "(" then r.params (some name) []
    else fail (.parametersExpected name) u.2
  let v ← peek
  if !isWord v "\x7b" then fail (.bodyExpected name) v.2
  let inner := { s with global := false, breakable := false, inFunction := true }
  let ((body, bodyPos), _) ← framed (.ofParams params) (r.block inner)
  if (← get).functions.any fun f => f.name == name && f.params.length == params.length then
    fail (.duplicateFunction name params.length) bodyPos
  modify fun s => { s with functions := s.functions ++ [⟨name, params, body, bodyPos⟩] }
  return .noop pos

/-- Reads the value after a keyword that may stand alone. -/
def readResult (r : Readers) (s : Setting) (bracesEnd : Bool) : Reads (Option Expr) := do
  let t ← peek
  match t.1 with
  | .finish => return none
  | .word ";" => return none
  | .word "\x7d" => if bracesEnd then return none else some <$> r.expr s
  | _ => some <$> r.expr s

def readImport (r : Readers) (s : Setting) (pos : Position) : Reads Stmt := do
  let path ← r.expr s
  if ← accept "as" then
    let (name, _) ← variableName
    return .import_ path (some name) pos
  else return .import_ path none pos

/-- Reads an export after its keyword. A script has no importers, so only the names are looked up. -/
def readExport (r : Readers) (s : Setting) (pos : Position) : Reads Stmt := do
  if ← accept "let" then readDeclaration r s false pos
  else if ← accept "const" then readDeclaration r s true pos
  else
    let (name, namePos) ← variableName
    if ← accept "as" then
      let _ ← variableName
    useName name namePos
    return .block [.expr (.variable name namePos), .noop pos] pos

def readStmt (r : Readers) (s : Setting) : Reads Stmt := do
  let t ← peek
  let pos := t.2
  let take (read : Reads Stmt) : Reads Stmt := do
    let _ ← next
    read
  let inner := { s with global := false }
  match ← readControl r inner with
  | some stmt => return stmt
  | none =>
    match t.1 with
    | .finish => return .noop pos
    | .word ";" => take (return .noop pos)
    | .word "\x7b" =>
      let (body, pos) ← r.block inner
      return .block body pos
    | .word "fn" => if s.global then take (readFunction r s pos) else fail .functionNotGlobal pos
    | .word "private" =>
      take do
        let u ← next
        if !isWord u "fn" then refuse u "fn" "following 'private'"
        if s.global then readFunction r s u.2 else fail .functionNotGlobal u.2
    | .word "continue" => if s.breakable then take (return .continue_ pos) else fail .outsideLoop pos
    | .word "break" =>
      if s.breakable then take do return .break_ (← readResult r inner true) pos else fail .outsideLoop pos
    | .word "return" => take do return .return_ (← readResult r inner !s.global) pos
    | .word "throw" => take do return .throw_ (← readResult r inner !s.global) pos
    | .word "try" => take (readTry r inner pos)
    | .word "let" => take (readDeclaration r inner false pos)
    | .word "const" => take (readDeclaration r inner true pos)
    | .word "import" => take (readImport r inner pos)
    | .word "export" => if s.global then take (readExport r inner pos) else fail .exportNotGlobal pos
    | _ => readPlain r inner

/-- Whether a statement does nothing. -/
def isNoop : Stmt → Bool
  | .noop _ => true
  | _ => false

/-- Reads statements. With `closed` a brace ends them, otherwise the text does. -/
def readStmts (r : Readers) (closed : Bool) (s : Setting) (more : Reads (List Stmt)) : Reads (List Stmt) := do
  let t ← peek
  match t.1 with
  | .word "\x7d" =>
    if closed then
      let _ ← next
      return []
    else fail (.unexpected "\x7d") t.2
  | .finish => if closed then fail (.expecting "\x7d" "to terminate this block") t.2 else return []
  | _ =>
    let stmt ← r.stmt s
    if isNoop stmt then more
    else
      let u ← peek
      match u.1 with
      | .word ";" =>
        let _ ← next
        return stmt :: (← more)
      | .word "\x7d" =>
        if closed || endsItself stmt then return stmt :: (← more)
        else fail (.expecting ";" "to terminate this statement") u.2
      | .finish => return stmt :: (← more)
      | _ =>
        if endsItself stmt then return stmt :: (← more)
        else refuse u ";" "to terminate this statement"

/-- Reads a block with its place. Where only expressions are allowed it holds a single one. -/
def readBlock (r : Readers) (s : Setting) : Reads (List Stmt × Position) := do
  let start := "to start a statement block"
  let pos ← expect "\x7b" start
  if s.single then
    let stmt ← readPlain r s
    let t ← next
    if isWord t "\x7d" then return ([stmt], pos) else refuse t "\x7b" start
  else return (← inScope (r.stmts { s with global := false, barEnds := false }), pos)

end ReactiveNotebook.Script.Reader
