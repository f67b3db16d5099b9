import ReactiveNotebook.Script.Reader.Statement

/-!
# Reading scripts and expressions that stand alone

The readers of the parts of the grammar call each other; every call goes one level down, and the number of
levels is computed from the number of tokens.
-/
namespace ReactiveNotebook.Script

namespace Reader

/-- The readers with a number of levels. -/
def readers : Nat → Readers
  | 0 =>
    let stop {α : Type} : Reads α := do fail .outOfFuel (← peek).2
    { expr := fun _ => stop, unary := fun _ => stop, binary := fun _ _ _ => stop, links := fun _ _ _ => stop
      args := fun _ _ => stop, items := fun _ _ => stop, fields := fun _ _ => stop, pieces := fun _ => stop
      stmt := fun _ => stop, block := fun _ => stop, stmts := fun _ => stop, cases := fun _ _ => stop
      params := fun _ _ => stop }
  | n + 1 =>
    { expr := fun s => readExpr (readers n) s
      unary := fun s => readUnary (readers n) (readOperand (readers n) (readControl (readers n))) s
      binary := fun s level root => readBinary (readers n) s level root
      links := fun s root before => readLinks (readers n) s root before
      args := fun s callee => readArgs (readers n) s callee
      items := fun s count => readItems (readers n) s count
      fields := fun s seen => readFields (readers n) s seen
      pieces := fun s => readPieces (readers n) s
      stmt := fun s => readStmt (readers n) s
      block := fun s => readBlock (readers n) s
      stmts := fun s => readStmts (readers n) true s ((readers n).stmts s)
      cases := fun s default? => readCases (readers n) s default?
      params := fun function seen => readParams (readers n) function seen }

/-- Reads the statements outside of all blocks, up to the end. The fuel bounds their number. -/
def readGlobal (r : Readers) (s : Setting) : Nat → Reads (List Stmt)
  | 0 => do fail .outOfFuel (← peek).2
  | fuel + 1 => readStmts r false s (readGlobal r s fuel)

def levels (tokens : Nat) : Nat := 8 * tokens + 16

def State.start (tokens : List Token.Located) : State := ⟨tokens, ⟨[], []⟩, []⟩

end Reader

open Reader in
def Program.read (mostItems : Nat) (text : String) : Except SyntaxFault Program := do
  let tokens := Token.scan text
  let setting : Setting := ⟨false, true, false, false, false, mostItems⟩
  let (body, state) ← readGlobal (readers (levels tokens.length)) setting (tokens.length + 1) (.start tokens)
  return ⟨body, state.functions⟩

open Reader in
/-- Reads a single expression. A text without tokens is unit. -/
def Expr.read (mostItems : Nat) (text : String) : Except SyntaxFault Expr := do
  let tokens := Token.scan text
  if tokens.length ≤ 1 then return .literal .unit .none
  let setting : Setting := ⟨true, false, false, false, false, mostItems⟩
  let whole : Reads Expr := do
    let e ← (readers (levels tokens.length)).expr setting
    let t ← peek
    match t.1 with
    | .finish => return e
    | .bad cause => fail cause t.2
    | token => fail (.unexpected token.text) t.2
  return (← whole (.start tokens)).1

end ReactiveNotebook.Script
