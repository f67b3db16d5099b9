import ReactiveNotebook.Analysis.Token
import ReactiveNotebook.Names

/-!
# Free names of a token sequence

A walk over the tokens keeps the names bound by enclosing blocks, closures and loop bodies and collects the
identifiers that are not bound, not reserved and stand where a variable can stand. A name declared by a
statement is bound after the statement ends, so its initial value still reads an outer variable; parameters
and loop names are bound in the body that follows them.
-/
namespace ReactiveNotebook.Analysis

/-- The names bound inside one block, closure or loop body. -/
structure Scope where
  names : Names
  /-- The bracket depth the scope was opened at. -/
  depth : Nat
  /-- Whether the scope is a closure without a block, which ends at a separator of its depth. -/
  expression : Bool

/-- The bindings in force during the walk. -/
structure Scopes where
  /-- The outermost scope. -/
  outer : Names
  /-- The scopes inside it, innermost first. -/
  inner : List Scope
  depth : Nat
  /-- Names that wait for the brace that opens their body. -/
  pending : Names
  /-- Declared names with the depth of their statement, which has not ended. -/
  declared : List (String × Nat)

namespace Scopes

/-- No binding. -/
def start : Scopes := ⟨∅, [], 0, ∅, []⟩

def isBound (s : Scopes) (name : String) : Bool :=
  s.outer.contains name || s.inner.any fun scope => scope.names.contains name

/-- Binds a name from the end of the current statement on. -/
def declare (s : Scopes) (name : String) : Scopes :=
  { s with declared := s.declared ++ [(name, s.depth)] }

/-- Binds names in the next block. -/
def await (s : Scopes) (names : Names) : Scopes :=
  { s with pending := s.pending.union names }

/-- An opening bracket; a brace opens a scope for the awaiting names. -/
def enter (s : Scopes) (brace : Bool) : Scopes :=
  let depth := s.depth + 1
  if brace then { s with depth, pending := ∅, inner := ⟨s.pending, depth, false⟩ :: s.inner }
  else { s with depth }

/-- A closing bracket ends the scopes and statements inside it. -/
def leave (s : Scopes) : Scopes :=
  { s with
    inner := s.inner.dropWhile fun scope => s.depth ≤ scope.depth
    declared := s.declared.filter fun d => d.2 < s.depth
    depth := s.depth - 1 }

def closure (s : Scopes) (params : Names) (block : Bool) : Scopes :=
  if block then s.await params
  else { s with inner := ⟨params, s.depth, true⟩ :: s.inner }

def endClosures (s : Scopes) : Scopes :=
  { s with inner := s.inner.dropWhile fun scope => scope.expression && scope.depth == s.depth }

/-- A semicolon also binds the names its statement declares. -/
def endStatement (s : Scopes) : Scopes :=
  let s := s.endClosures
  let done := (s.declared.filter fun d => d.2 == s.depth).map (·.1)
  let s := { s with declared := s.declared.filter fun d => d.2 != s.depth }
  match s.inner with
  | [] => { s with outer := s.outer.insertAll done }
  | top :: rest => { s with inner := { top with names := top.names.insertAll done } :: rest }

end Scopes

/-- A place in a token sequence, with the two tokens before it. -/
structure Cursor where
  beforeLast : Option Token
  last : Option Token
  rest : List Token

namespace Cursor

/-- The place after the next token. -/
def next (c : Cursor) : Cursor :=
  match c.rest with
  | [] => c
  | t :: rest => ⟨c.last, some t, rest⟩

/-- The place `n` tokens later. -/
def skip (c : Cursor) : Nat → Cursor
  | 0 => c
  | n + 1 => c.next.skip n

end Cursor

/-- Whether a bar after the token is an operator. -/
def isOperand : Option Token → Bool
  | some (.ident name sigil) => sigil || !isKeyword name
  | some (.text _) | some .number => true
  | some (.punct c) => c == ')' || c == ']' || c == '\x7d'
  | none => false

/-- Whether the sequence goes on with the character `c`. -/
def startsWith (ts : List Token) (c : Char) : Bool :=
  (ts.head?.map (·.isPunct c)).getD false

/-- The identifiers before the character `close`, and the number of tokens up to and with it. -/
def namesUntil (close : Char) (ts : List Token) : Names × Nat :=
  let inside := ts.takeWhile fun t => !t.isPunct close
  (Names.ofList (inside.filterMap Token.ident?), inside.length + 1)

/-- The effect of a character token, and the number of tokens it takes. -/
def Scopes.punct (s : Scopes) (last : Option Token) (c : Char) (rest : List Token) : Scopes × Nat :=
  match c with
  | '|' =>
    if startsWith rest '|' then
      (if isOperand last then s else s.closure ∅ (startsWith (rest.drop 1) '\x7b'), 2)
    else if isOperand last then (s, 1)
    else
      let (params, taken) := namesUntil '|' rest
      (s.closure params (startsWith (rest.drop taken) '\x7b'), taken + 1)
  | '\x7b' => (s.enter true, 1)
  | '(' | '[' => (s.enter false, 1)
  | '\x7d' | ')' | ']' => (s.leave, 1)
  | ',' => (s.endClosures, 1)
  | ';' => (s.endStatement, 1)
  | _ => (s, 1)

/-- The effect of a word that binds names, and the number of tokens it takes with them. -/
def Scopes.binder? (s : Scopes) (word : String) (rest : List Token) : Option (Scopes × Nat) :=
  match word with
  | "let" | "const" | "as" =>
    match rest.head?.bind Token.ident? with
    | some name => some (s.declare name, 2)
    | none => some (s, 2)
  | "fn" =>
    if startsWith (rest.drop 1) '(' then
      let (params, taken) := namesUntil ')' (rest.drop 2)
      some (s.await params, taken + 3)
    else some (s, 2)
  | "for" | "catch" =>
    if startsWith rest '(' then
      let (bound, taken) := namesUntil ')' (rest.drop 1)
      some (s.await bound, taken + 2)
    else
      match rest.head?.bind Token.ident? with
      | some name => some (s.await (Names.ofList [name]), 2)
      | none => some (s, 2)
  | _ => none

/-- Whether an identifier stands where a variable is read. -/
def isRead (s : Scopes) (beforeLast last : Option Token) (name : String) (sigil : Bool)
    (rest : List Token) : Bool :=
  let is (t : Option Token) (c : Char) : Bool := (t.map (·.isPunct c)).getD false
  let property := is last '.' && !is beforeLast '.'
  let qualified := is last ':' && is beforeLast ':'
  let pathRoot := startsWith rest ':' && startsWith (rest.drop 1) ':'
  let mapKey := startsWith rest ':' && !pathRoot
  let call := startsWith rest '('
  !(property || qualified || pathRoot
    || (!sigil && (mapKey || call || isReserved name || s.isBound name)))

/-- Walks on from a place; the fuel bounds the number of tokens. -/
def freeNamesFrom : Nat → Cursor → Scopes → Names → Names
  | 0, _, _, reads => reads
  | fuel + 1, c, s, reads =>
    match c.rest with
    | [] => reads
    | .punct p :: rest =>
      let (s, taken) := s.punct c.last p rest
      freeNamesFrom fuel (c.skip taken) s reads
    | .ident name sigil :: rest =>
      match if sigil then none else s.binder? name rest with
      | some (s, taken) => freeNamesFrom fuel (c.skip taken) s reads
      | none =>
        let reads := if isRead s c.beforeLast c.last name sigil rest then reads.insert name else reads
        freeNamesFrom fuel c.next s reads
    | _ :: _ => freeNamesFrom fuel c.next s reads

def freeNames (ts : List Token) : Names :=
  freeNamesFrom (ts.length + 1) ⟨none, none, ts⟩ .start ∅

/-- Whether the tokens assign to what precedes them. -/
def startsAssignment : List Token → Bool
  | .punct '=' :: rest => !(startsWith rest '=' || startsWith rest '>')
  | .punct c :: rest => "+-*/%&|^".toList.contains c && startsWith rest '='
  | _ => false

/-- The names assigned as fields of `exports`, by a point or by a constant index. -/
def exportedNames : List Token → Names
  | [] => ∅
  | t :: rest =>
    let later := exportedNames rest
    if t.ident? == some "exports" then
      match rest with
      | .punct '.' :: .ident name _ :: after => if startsAssignment after then later.insert name else later
      | .punct '[' :: .text name :: .punct ']' :: after =>
        if startsAssignment after then later.insert name else later
      | _ => later
    else later

end ReactiveNotebook.Analysis
