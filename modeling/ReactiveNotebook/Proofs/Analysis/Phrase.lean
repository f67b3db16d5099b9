import ReactiveNotebook.Analysis.FreeName

/-!
# Phrases of the script language

Syntax trees of expressions and statements, the tokens they are written with and the names that occur free in them
under lexical scoping: parameters, loop names and the name of a caught error are bound in the body that follows them,
a declared name from the end of its statement to the end of its block.
-/
namespace ReactiveNotebook.Analysis

/-- Operators in front of their operand. -/
inductive Sign where
  | minus | plus | not
  deriving DecidableEq, Repr

/-- The character of an operator. -/
def Sign.char : Sign → Char
  | .minus => '-'
  | .plus => '+'
  | .not => '!'

/-- Operators between two operands. -/
inductive Operator where
  | or | bar | xor | and | amp
  | eq | ne | within | notWithin | lt | le | gt | ge
  | coalesce | range | rangeClosed
  | add | sub | mul | div | rem | pow | shiftLeft | shiftRight
  deriving DecidableEq, Repr

namespace Operator

/-- The characters of an operator, without a word that it ends in. -/
def signs : Operator → String
  | .or => "||" | .bar => "|" | .xor => "^" | .and => "&&" | .amp => "&"
  | .eq => "==" | .ne => "!=" | .within => "" | .notWithin => "!"
  | .lt => "<" | .le => "<=" | .gt => ">" | .ge => ">="
  | .coalesce => "??" | .range => ".." | .rangeClosed => "..="
  | .add => "+" | .sub => "-" | .mul => "*" | .div => "/" | .rem => "%" | .pow => "**"
  | .shiftLeft => "<<" | .shiftRight => ">>"

def tokens (op : Operator) : List Token :=
  op.signs.toList.map .punct ++ if op = .within ∨ op = .notWithin then [.ident "in" false] else []

/-- Whether an assignment can combine the operator with its equals sign. -/
def assigns : Operator → Bool
  | .add | .sub | .mul | .div | .rem | .pow | .shiftLeft | .shiftRight | .bar | .xor | .amp | .coalesce => true
  | _ => false

end Operator

/-- The key of an entry of a map. -/
inductive Key where
  | word (name : String)
  | text (content : String)
  deriving DecidableEq, Repr

mutual

/-- Expressions. -/
inductive Expression where
  /-- A variable, with a dollar sign or without. -/
  | variable (name : String) (dollar : Bool)
  /-- A number. `point` tells whether it ends in its decimal point. -/
  | number (point : Bool)
  | truth (value : Bool)
  | text (content : String)
  /-- An expression inside a backtick text, with the rest of the text. -/
  | embedded (inner rest : Expression)
  | signed (sign : Sign) (operand : Expression)
  | binary (left : Expression) (op : Operator) (right : Expression)
  | parens (inner : Expression)
  | array (items : Items)
  | map (entries : Items)
  /-- A call of a function, which may stand in a module. -/
  | call (path : List String) (function : String) (args : Items)
  /-- A property; `safe` tells whether a question mark precedes the point. -/
  | property (object : Expression) (safe : Bool) (name : String)
  | method (object : Expression) (safe : Bool) (name : String) (args : Items)
  | index (object : Expression) (safe : Bool) (place : Expression)
  | closure (params : List String) (body : Expression)
  | blockClosure (params : List String) (body : Statements)
  | block (body : Statements)
  | choice (condition : Expression) (yes : Statements)
  /-- A choice with another branch, which is a block or a choice. -/
  | choiceElse (condition : Expression) (yes : Statements) (no : Expression)

/-- What stands between two brackets, separated by commas: arguments, elements, or entries with their keys. The last
item may end in a comma. -/
inductive Items where
  | nil
  | last (key : Option Key) (value : Expression)
  | cons (key : Option Key) (value : Expression) (rest : Items)

/-- Statements. -/
inductive Statement where
  | expression (e : Expression)
  | declare (constant : Bool) (name : String)
  | define (constant : Bool) (name : String) (value : Expression)
  | assign (target : Expression) (op : Option Operator) (value : Expression)
  | whileLoop (condition : Expression) (body : Statements)
  | loop (body : Statements)
  | forLoop (name : String) (counter : Option String) (items : Expression) (body : Statements)
  | tryCatch (body : Statements) (name : Option String) (handler : Statements)
  | function (name : String) (params : List String) (body : Statements)

/-- The statements of a block. -/
inductive Statements where
  | nil
  /-- A last statement without a semicolon. -/
  | last (s : Statement)
  | cons (s : Statement) (rest : Statements)
  /-- A statement that ends in a block and has no semicolon. -/
  | next (s : Statement) (rest : Statements)

end

abbrev word (name : String) : Token := .ident name false

def nameList : List String → List Token
  | [] => []
  | [name] => [word name]
  | name :: rest => word name :: .punct ',' :: nameList rest

/-- The parameters of a closure between their bars. -/
def paramTokens (params : List String) : List Token :=
  .punct '|' :: nameList params ++ [.punct '|']

/-- The names of modules in front of a function, each with its colons. -/
def pathTokens (path : List String) : List Token :=
  path.flatMap fun name => [word name, .punct ':', .punct ':']

def pointTokens (safe : Bool) : List Token :=
  (if safe then [.punct '?'] else []) ++ [.punct '.']

def keyTokens : Option Key → List Token
  | none => []
  | some (.word name) => [word name, .punct ':']
  | some (.text content) => [.text content, .punct ':']

/-- The word that a declaration begins with. -/
def declarer (constant : Bool) : String := if constant then "const" else "let"

def loopNames (name : String) (counter : Option String) : List String := name :: counter.toList

def loopTokens (name : String) : Option String → List Token
  | none => [word name]
  | some counter => .punct '(' :: nameList [name, counter] ++ [.punct ')']

/-- The name of a caught error as it is written. -/
def catchTokens : Option String → List Token
  | none => []
  | some name => [.punct '(', word name, .punct ')']

mutual

def Expression.tokens : Expression → List Token
  | .variable name dollar => [.ident name dollar]
  | .number point => .number :: if point then [.punct '.'] else []
  | .truth value => [word (if value then "true" else "false")]
  | .text content => [.text content]
  | .embedded inner rest => .punct '(' :: (inner.tokens ++ .punct ')' :: rest.tokens)
  | .signed sign operand => .punct sign.char :: operand.tokens
  | .binary left op right => left.tokens ++ (op.tokens ++ right.tokens)
  | .parens inner => .punct '(' :: (inner.tokens ++ [.punct ')'])
  | .array items => .punct '[' :: (items.tokens ++ [.punct ']'])
  | .map entries => .punct '#' :: .punct '\x7b' :: (entries.tokens ++ [.punct '\x7d'])
  | .call path function args =>
    pathTokens path ++ word function :: .punct '(' :: (args.tokens ++ [.punct ')'])
  | .property object safe name => object.tokens ++ (pointTokens safe ++ [word name])
  | .method object safe name args =>
    object.tokens ++ (pointTokens safe ++ word name :: .punct '(' :: (args.tokens ++ [.punct ')']))
  | .index object safe place =>
    object.tokens ++ ((if safe then [.punct '?'] else []) ++ .punct '[' :: (place.tokens ++ [.punct ']']))
  | .closure params body => paramTokens params ++ body.tokens
  | .blockClosure params body => paramTokens params ++ .punct '\x7b' :: (body.tokens ++ [.punct '\x7d'])
  | .block body => .punct '\x7b' :: (body.tokens ++ [.punct '\x7d'])
  | .choice condition yes =>
    word "if" :: (condition.tokens ++ .punct '\x7b' :: (yes.tokens ++ [.punct '\x7d']))
  | .choiceElse condition yes no =>
    word "if" :: (condition.tokens ++ .punct '\x7b' :: (yes.tokens ++ .punct '\x7d' :: word "else" :: no.tokens))

def Items.tokens : Items → List Token
  | .nil => []
  | .last key value => keyTokens key ++ value.tokens
  | .cons key value rest => keyTokens key ++ (value.tokens ++ .punct ',' :: rest.tokens)

def Statement.tokens : Statement → List Token
  | .expression e => e.tokens
  | .declare constant name => [word (declarer constant), word name]
  | .define constant name value =>
    word (declarer constant) :: word name :: .punct '=' :: value.tokens
  | .assign target op value =>
    target.tokens ++ ((op.elim [] Operator.tokens) ++ .punct '=' :: value.tokens)
  | .whileLoop condition body =>
    word "while" :: (condition.tokens ++ .punct '\x7b' :: (body.tokens ++ [.punct '\x7d']))
  | .loop body => word "loop" :: .punct '\x7b' :: (body.tokens ++ [.punct '\x7d'])
  | .forLoop name counter items body =>
    word "for" :: (loopTokens name counter ++
      word "in" :: (items.tokens ++ .punct '\x7b' :: (body.tokens ++ [.punct '\x7d'])))
  | .tryCatch body name handler =>
    word "try" :: .punct '\x7b' :: (body.tokens ++ .punct '\x7d' :: word "catch" ::
      (catchTokens name ++ .punct '\x7b' :: (handler.tokens ++ [.punct '\x7d'])))
  | .function name params body =>
    word "fn" :: word name :: .punct '(' :: (nameList params ++ .punct ')' :: .punct '\x7b' ::
      (body.tokens ++ [.punct '\x7d']))

def Statements.tokens : Statements → List Token
  | .nil => []
  | .last s => s.tokens
  | .cons s rest => s.tokens ++ .punct ';' :: rest.tokens
  | .next s rest => s.tokens ++ rest.tokens

end

attribute [simp] Expression.tokens Items.tokens Statement.tokens Statements.tokens

def Statement.binds : Statement → List String
  | .declare _ name | .define _ name _ => [name]
  | _ => []

mutual

/-- The free occurrences of names of variables in an expression that stands where `bound` is bound. Reserved names are
no variables. `functions` tells whether the bodies of functions count. -/
def Expression.free (functions : Bool) (bound : List String) : Expression → List String
  | .variable name _ => if isReserved name || bound.contains name then [] else [name]
  | .number _ | .truth _ | .text _ => []
  | .embedded inner rest => inner.free functions bound ++ rest.free functions bound
  | .signed _ operand => operand.free functions bound
  | .binary left _ right => left.free functions bound ++ right.free functions bound
  | .parens inner => inner.free functions bound
  | .array items => items.free functions bound
  | .map entries => entries.free functions bound
  | .call _ _ args => args.free functions bound
  | .property object _ _ => object.free functions bound
  | .method object _ _ args => object.free functions bound ++ args.free functions bound
  | .index object _ place => object.free functions bound ++ place.free functions bound
  | .closure params body => body.free functions (params ++ bound)
  | .blockClosure params body => body.free functions (params ++ bound)
  | .block body => body.free functions bound
  | .choice condition yes => condition.free functions bound ++ yes.free functions bound
  | .choiceElse condition yes no =>
    condition.free functions bound ++ (yes.free functions bound ++ no.free functions bound)

def Items.free (functions : Bool) (bound : List String) : Items → List String
  | .nil => []
  | .last _ value => value.free functions bound
  | .cons _ value rest => value.free functions bound ++ rest.free functions bound

def Statement.free (functions : Bool) (bound : List String) : Statement → List String
  | .expression e => e.free functions bound
  | .declare _ _ => []
  | .define _ _ value => value.free functions bound
  | .assign target _ value => target.free functions bound ++ value.free functions bound
  | .whileLoop condition body => condition.free functions bound ++ body.free functions bound
  | .loop body => body.free functions bound
  | .forLoop name counter items body =>
    items.free functions bound ++ body.free functions (loopNames name counter ++ bound)
  | .tryCatch body name handler => body.free functions bound ++ handler.free functions (name.toList ++ bound)
  | .function _ params body => if functions then body.free functions (params ++ bound) else []

/-- The free occurrences in statements. A declared name is bound in the statements after it. -/
def Statements.free (functions : Bool) (bound : List String) : Statements → List String
  | .nil => []
  | .last s => s.free functions bound
  | .cons s rest | .next s rest => s.free functions bound ++ rest.free functions (s.binds ++ bound)

end

attribute [simp] Expression.free Items.free Statement.free Statements.free

namespace Expression

def startsWithBar : Expression → Bool
  | .closure _ _ | .blockClosure _ _ => true
  | .binary e _ _ | .property e _ _ | .method e _ _ _ | .index e _ _ => e.startsWithBar
  | _ => false

def startsWithBrace : Expression → Bool
  | .block _ => true
  | .binary e _ _ | .property e _ _ | .method e _ _ _ | .index e _ _ => e.startsWithBrace
  | _ => false

/-- Whether the expression ends in the body of a closure without a block, which goes on as long as it can. -/
def isOpen : Expression → Bool
  | .closure _ _ => true
  | .embedded _ e | .signed _ e | .binary _ _ e => e.isOpen
  | _ => false

/-- Whether the expression ends in a number that ends in its decimal point. -/
def endsInPoint : Expression → Bool
  | .number point => point
  | .embedded _ e | .signed _ e | .binary _ _ e | .closure _ e => e.endsInPoint
  | _ => false

def endsInTruth : Expression → Bool
  | .truth _ => true
  | .embedded _ e | .signed _ e | .binary _ _ e | .closure _ e => e.endsInTruth
  | _ => false

def isTextual : Expression → Bool
  | .text _ | .embedded _ _ => true
  | _ => false

def isPlace : Expression → Bool
  | .variable _ _ | .property _ _ _ | .index _ _ _ => true
  | _ => false

def isBlock : Expression → Bool
  | .block _ | .choice _ _ | .choiceElse _ _ _ => true
  | _ => false

end Expression

def Statement.startsWithBar : Statement → Bool
  | .expression e | .assign e _ _ => e.startsWithBar
  | _ => false

/-- Whether a statement ends in a block, so that it needs no semicolon. -/
def Statement.endsInBlock : Statement → Bool
  | .expression e => e.isBlock
  | .whileLoop _ _ | .loop _ | .forLoop _ _ _ _ | .tryCatch _ _ _ | .function _ _ _ => true
  | _ => false

def Statements.startsWithBar : Statements → Bool
  | .nil => false
  | .last s | .cons s _ | .next s _ => s.startsWithBar

def Items.keyed (keys : Bool) : Items → Bool
  | .nil => true
  | .last key _ => key.isSome == keys
  | .cons key _ rest => key.isSome == keys && rest.keyed keys

mutual

/-- Whether no brace occurs in the expression. -/
def Expression.braceless : Expression → Bool
  | .variable _ _ | .number _ | .truth _ | .text _ => true
  | .embedded e rest => e.braceless && rest.braceless
  | .signed _ e | .parens e | .property e _ _ | .closure _ e => e.braceless
  | .binary left _ right => left.braceless && right.braceless
  | .array items | .call _ _ items => items.braceless
  | .method e _ _ args => e.braceless && args.braceless
  | .index e _ place => e.braceless && place.braceless
  | .map _ | .blockClosure _ _ | .block _ | .choice _ _ | .choiceElse _ _ _ => false

def Items.braceless : Items → Bool
  | .nil => true
  | .last _ e => e.braceless
  | .cons _ e rest => e.braceless && rest.braceless

end

attribute [simp] Expression.braceless Items.braceless

mutual

/-- Whether a name occurs free inside a brace of an expression that stands where `bound` is bound. -/
def Expression.hides (name : String) (bound : List String) : Expression → Bool
  | .variable _ _ | .number _ | .truth _ | .text _ => false
  | .embedded e rest => e.hides name bound || rest.hides name bound
  | .signed _ e | .parens e | .property e _ _ => e.hides name bound
  | .binary left _ right => left.hides name bound || right.hides name bound
  | .array items | .call _ _ items => items.hides name bound
  | .map entries => (entries.free true bound).contains name
  | .method e _ _ args => e.hides name bound || args.hides name bound
  | .index e _ place => e.hides name bound || place.hides name bound
  | .closure params e => e.hides name (params ++ bound)
  | .blockClosure params body => (body.free true (params ++ bound)).contains name
  | .block body => (body.free true bound).contains name
  | .choice condition yes => condition.hides name bound || (yes.free true bound).contains name
  | .choiceElse condition yes no =>
    condition.hides name bound || (yes.free true bound).contains name || no.hides name bound

/-- Whether a name occurs free inside a brace of items. -/
def Items.hides (name : String) (bound : List String) : Items → Bool
  | .nil => false
  | .last _ e => e.hides name bound
  | .cons _ e rest => e.hides name bound || rest.hides name bound

end

/-- Words that bind names wherever they stand. -/
def bindingWords : List String := ["let", "const", "as", "fn", "for", "catch"]

/-- Whether a name can be given to a variable of a script. -/
def isIdentifier (name : String) : Bool := isNameShape name.toList && !isKeyword name

/-- Whether a word can name a function, a module or a key. -/
def isPlainWord (name : String) : Bool := isNameShape name.toList && !bindingWords.contains name

def Key.isPlain : Key → Bool
  | .word name => isPlainWord name
  | .text _ => true

mutual

/-- Whether an expression belongs to the language where `bound` is bound: names have the form of names, dollar signs
stand in front of free variables only, and what is written is read back as the same tree. -/
def Expression.isValid (bound : List String) : Expression → Bool
  | .variable name dollar =>
    isIdentifier name && (!dollar || (!isReserved name && !bound.contains name))
  | .number _ | .truth _ | .text _ => true
  | .embedded inner rest => inner.isValid bound && rest.isValid bound && rest.isTextual
  | .signed _ e | .parens e => e.isValid bound
  | .binary left _ right => left.isValid bound && !left.isOpen && right.isValid bound
  | .array items => items.isValid bound && items.keyed false
  | .map entries => entries.isValid bound && entries.keyed true
  | .call path function args =>
    path.all isPlainWord && isPlainWord function && args.isValid bound && args.keyed false
  | .property e _ name => e.isValid bound && !e.isOpen && isIdentifier name
  | .method e _ name args =>
    e.isValid bound && !e.isOpen && isPlainWord name && args.isValid bound && args.keyed false
  | .index e _ place => e.isValid bound && !e.isOpen && place.isValid bound
  | .closure params body =>
    params.all isIdentifier && body.isValid (params ++ bound) && !body.startsWithBrace
  | .blockClosure params body => params.all isIdentifier && body.isValid (params ++ bound)
  | .block body => body.isValid bound
  | .choice condition yes => condition.isValid bound && yes.isValid bound
  | .choiceElse condition yes no =>
    condition.isValid bound && yes.isValid bound && no.isValid bound && no.isBlock

def Items.isValid (bound : List String) : Items → Bool
  | .nil => true
  | .last key e => key.all Key.isPlain && e.isValid bound
  | .cons key e rest => key.all Key.isPlain && e.isValid bound && rest.isValid bound

def Statement.isValid (bound : List String) : Statement → Bool
  | .expression e => e.isValid bound
  | .declare _ name => isIdentifier name
  | .define _ name value => isIdentifier name && value.isValid bound
  | .assign target op value =>
    target.isValid bound && target.isPlace && op.all Operator.assigns && value.isValid bound
  | .whileLoop condition body => condition.isValid bound && body.isValid bound
  | .loop body => body.isValid bound
  | .forLoop name counter items body =>
    (loopNames name counter).all isIdentifier && items.isValid bound &&
      body.isValid (loopNames name counter ++ bound)
  | .tryCatch body name handler =>
    body.isValid bound && name.all isIdentifier && handler.isValid (name.toList ++ bound)
  | .function name params body =>
    isPlainWord name && params.all isIdentifier && body.isValid (params ++ bound)

def Statements.isValid (bound : List String) : Statements → Bool
  | .nil => true
  | .last s => s.isValid bound
  | .cons s rest => s.isValid bound && rest.isValid (s.binds ++ bound)
  | .next s rest => s.isValid bound && s.endsInBlock && rest.isValid bound

end

mutual

/-- Whether the walk over the tokens of an expression tells bars and scopes as the language does: a single bar follows
what can be seen to be an operand, and no property follows a number that ends in its point. `braces` tells whether the
items of a loop may hold braces. -/
def Expression.isRegular (braces : Bool) : Expression → Bool
  | .variable _ _ | .number _ | .truth _ | .text _ => true
  | .embedded e rest => e.isRegular braces && rest.isRegular braces
  | .signed _ e | .parens e | .closure _ e => e.isRegular braces
  | .binary left op right =>
    left.isRegular braces && right.isRegular braces &&
      (op != .bar || (!left.endsInPoint && !left.endsInTruth && !right.startsWithBar))
  | .array items | .map items | .call _ _ items => items.isRegular braces
  | .property e _ _ => e.isRegular braces && !e.endsInPoint
  | .method e _ _ args => e.isRegular braces && args.isRegular braces
  | .index e _ place => e.isRegular braces && place.isRegular braces
  | .blockClosure _ body | .block body => body.isRegular braces
  | .choice condition yes => condition.isRegular braces && !condition.isOpen && yes.isRegular braces
  | .choiceElse condition yes no =>
    condition.isRegular braces && !condition.isOpen && yes.isRegular braces && no.isRegular braces

def Items.isRegular (braces : Bool) : Items → Bool
  | .nil => true
  | .last _ e => e.isRegular braces
  | .cons _ e rest => e.isRegular braces && rest.isRegular braces

/-- Whether a statement is regular: the condition or the items of a loop do not end in a closure without a block, a
brace in the items of a loop holds no name that is bound in the body only, and a caught error has a name. -/
def Statement.isRegular (braces : Bool) : Statement → Bool
  | .expression e | .define _ _ e => e.isRegular braces
  | .declare _ _ => true
  | .assign target _ value => target.isRegular braces && value.isRegular braces
  | .whileLoop condition body => condition.isRegular braces && !condition.isOpen && body.isRegular braces
  | .loop body | .function _ _ body => body.isRegular braces
  | .forLoop name counter items body =>
    items.isRegular braces && !items.isOpen &&
      (if braces then (loopNames name counter).all (fun x => !items.hides x []) else items.braceless) &&
      body.isRegular braces
  | .tryCatch body name handler => body.isRegular braces && name.isSome && handler.isRegular braces

/-- Whether statements are regular: no closure follows the brace of a statement without a semicolon. -/
def Statements.isRegular (braces : Bool) : Statements → Bool
  | .nil => true
  | .last s => s.isRegular braces
  | .cons s rest => s.isRegular braces && rest.isRegular braces
  | .next s rest => s.isRegular braces && rest.isRegular braces && !rest.startsWithBar

end

end ReactiveNotebook.Analysis
