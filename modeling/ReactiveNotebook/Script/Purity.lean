import ReactiveNotebook.Script.Syntax

/-!
# Parts of a script without effect

A pure expression only yields a value: it is built from constants and variables without calls, operators or
indices. Reading a variable counts as pure whether or not the variable exists. A pure statement is built from
pure expressions and ends in any case.
-/
namespace ReactiveNotebook.Script

def hasDefault : List Case → Bool
  | [] => false
  | .mk [] _ _ :: _ => true
  | _ :: rest => hasDefault rest

mutual

/-- Whether an expression only yields a value. -/
def Expr.isPure : Expr → Bool
  | .literal _ _ | .qualified _ _ _ _ | .closure (.mk _ [] _ _) _ => true
  | .variable name _ => name != "this"
  | .interpolated parts _ => Expr.allPure parts
  | .array items _ => Expr.allPure items
  | .map fields _ => Expr.fieldsPure fields
  | .logical _ left right _ => left.isPure && right.isPure
  | .block body _ => Stmt.allPure body
  | _ => false

def Expr.allPure : List Expr → Bool
  | [] => true
  | e :: rest => e.isPure && Expr.allPure rest

def Expr.fieldsPure : List (String × Expr) → Bool
  | [] => true
  | (_, e) :: rest => e.isPure && Expr.fieldsPure rest

/-- Whether a statement has no effect. A loop that may run for ever has one. -/
def Stmt.isPure : Stmt → Bool
  | .noop _ => true
  | .expr e => e.isPure
  | .block body _ => Stmt.allPure body
  | .ifElse condition yes no _ => condition.isPure && Stmt.allPure yes && Stmt.allPure no
  | .switch subject cases _ => subject.isPure && Case.allPure cases && hasDefault cases
  | .while_ (some (.literal (.bool false) _)) _ _ _ => true
  | .doLoop body (.literal (.bool b) _) negated _ _ => b == negated && Stmt.allPure body
  | .for_ _ _ items body _ _ => items.isPure && Stmt.allPure body
  | .tryCatch body _ handler _ => Stmt.allPure body && Stmt.allPure handler
  | _ => false

def Stmt.allPure : List Stmt → Bool
  | [] => true
  | s :: rest => s.isPure && Stmt.allPure rest

def Case.allPure : List Case → Bool
  | [] => true
  | .mk _ none result :: rest => result.isPure && Case.allPure rest
  | .mk _ (some condition) result :: rest => condition.isPure && result.isPure && Case.allPure rest

end

namespace Stmt

/-- Whether a statement has no effect outside of the block it stands in, where its declaration ends. -/
def isLocal : Stmt → Bool
  | .declare _ value _ _ => value.isPure
  | .import_ path _ _ => path.isPure
  | s => s.isPure

/-- Whether a statement brings something into the scope of the block it stands in. -/
def declares : Stmt → Bool
  | .declare .. | .import_ .. => true
  | _ => false

/-- Whether no statement after this one is reached. -/
def leaves : Stmt → Bool
  | .return_ .. | .throw_ .. | .break_ .. | .continue_ _ => true
  | _ => false

/-- Whether a statement is of a kind that has a value. -/
def hasValue : Stmt → Bool
  | .expr _ | .block .. | .ifElse .. | .switch .. => true
  | _ => false

end Stmt

end ReactiveNotebook.Script
