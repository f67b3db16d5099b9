import ReactiveNotebook.Decimal.Read
import ReactiveNotebook.Script.Fault

/-!
# Tokens of scripts and expressions

A text is cut into tokens, each with its place. Blanks and comments between tokens are dropped. A backtick
text with embedded expressions becomes a token for each piece, and the tokens of an expression stand between
braces. What is no token is one that carries the cause of the fault, so that a reader reports it only when it
gets there.
-/
namespace ReactiveNotebook.Script

inductive Token where
  | int (n : Int64)
  | float (x : Double)
  | char (c : Char)
  | str (s : String)
  /-- A piece of a text that an embedded expression follows. -/
  | piece (s : String)
  | name (s : String)
  /-- A keyword or symbol. -/
  | word (s : String)
  /-- A word or symbol that is kept for later use, or is a name with a special meaning. -/
  | reserved (s : String)
  | bad (cause : SyntaxCause)
  | finish

instance : Inhabited Token := ⟨.finish⟩

namespace Token

def text : Token → String
  | .int n => toString n
  | .float x => Decimal.Layout.display.text x
  | .char c => String.singleton c
  | .str s => s!"\"{s}\""
  | .piece _ => "string"
  | .name s | .word s | .reserved s => s
  | .bad cause => cause.message
  | .finish => "\x7bEOF\x7d"

def keywords : List String := [
  "true", "false", "let", "const", "if", "else", "switch", "do", "while", "until", "loop", "for", "in",
  "continue", "break", "fn", "private", "return", "throw", "try", "catch", "import", "export", "as", "_"]

def keptWords : List String := [
  "public", "protected", "super", "new", "use", "module", "package", "var", "static", "shared", "with",
  "is", "goto", "exit", "match", "case", "default", "void", "null", "nil", "spawn", "thread", "go", "sync",
  "async", "await", "yield"]

def specialFunctions : List String := [
  "print", "debug", "type_of", "eval", "Fn", "call", "curry", "is_def_fn", "is_def_var", "is_shared"]

/-- Names of functions with a special meaning that may be called as methods. -/
def specialMethods : List String := ["type_of", "call", "curry", "is_shared"]

def isReservedWord (s : String) : Bool :=
  keptWords.contains s || specialFunctions.contains s || s == "this"

/-- The symbols, of which the longest one that fits is taken, and whether each is in use. -/
def symbols : List (String × Bool) := [
  ("===", false), ("!==", false), ("...", false), ("..=", true), ("**=", true), ("<<=", true),
  (">>=", true), ("::<", false),
  ("()", true), ("(*", false), ("*)", false), ("**", true), ("*=", true), ("++", false), ("+=", true),
  ("--", false), ("-=", true), ("->", false), ("/=", true), ("%=", true), ("..", true), ("==", true),
  ("=>", true), ("<=", true), ("<-", false), ("<<", true), ("<|", false), (">=", true), (">>", true),
  ("!=", true), ("!.", false), ("||", true), ("|=", true), ("|>", false), ("&&", true), ("&=", true),
  ("^=", true), ("::", true), (":=", false), (":;", false), ("??", true), ("?.", true), ("?[", true),
  ("#\x7b", true), ("#!", false),
  ("\x7b", true), ("\x7d", true), ("(", true), (")", true), ("[", true), ("]", true), ("+", true),
  ("-", true), ("*", true), ("/", true), ("%", true), (";", true), (",", true), (".", true), (":", true),
  ("=", true), ("<", true), (">", true), ("!", true), ("|", true), ("&", true), ("^", true),
  ("~", false), ("#", false), ("@", false), ("$", false), ("?", false)]

/-- The reason why a symbol or word cannot be used at all. -/
def refusal? (s : String) : Option String :=
  match s with
  | "===" => some "'===' is not a valid operator. This is not JavaScript! Should it be '=='?"
  | "!==" => some "'!==' is not a valid operator. This is not JavaScript! Should it be '!='?"
  | "->" => some "'->' is not a valid symbol. This is not C or C++!"
  | "<-" => some "'<-' is not a valid symbol. This is not Go! Should it be '<='?"
  | ":=" => some "':=' is not a valid assignment operator. This is not Go or Pascal! Should it be simply '='?"
  | ":;" => some "':;' is not a valid symbol. Should it be '::'?"
  | "::<" => some "'::<>' is not a valid symbol. This is not Rust! Should it be '::'?"
  | "(*" | "*)" => some "'(* .. *)' is not a valid comment format. This is not Pascal! Should it be '/* .. */'?"
  | "#" => some "'#' is not a valid symbol. Should it be '#\x7b'?"
  | "eval" => some "reserved keyword 'eval' is disabled"
  | _ => none

/-- The token of a word or symbol that is kept. -/
def ofReserved (s : String) : Token :=
  match refusal? s with
  | some reason => .bad (.badSymbol reason)
  | none => .reserved s

/-- Whether a name has a letter, with only underscores before it. -/
def isProperName (s : String) : Bool :=
  match s.toList.dropWhile (· == '_') with
  | c :: _ => c.isAlpha
  | [] => false

def ofWord (s : String) : Token :=
  if keywords.contains s then .word s
  else if isReservedWord s then ofReserved s
  else if isProperName s then .name s
  else .bad (.badName s)

/-- Whether a sign that follows the token belongs to a number. -/
def allowsSign : Token → Bool
  | .word s => [
      ";", ":", ",", "??", "..", "..=", "\x7b", "(", "[", "+", "+=", "-", "-=", "*", "*=", "/", "/=",
      "%", "%=", "**", "**=", "<<", "<<=", ">>", ">>=", "=", "==", "!=", "<", ">", "!", "<=", ">=", "|",
      "&", "if", "while", "until", "in", "!in", "&&", "&=", "||", "|=", "^", "^=", "return",
      "throw"].contains s
  | _ => false

end Token

abbrev Placed := Char × Position

def Position.after (p : Position) (c : Char) : Position :=
  if c == '\n' then ⟨p.line + 1, 1⟩ else ⟨p.line, p.column + 1⟩

/-- The first place of a text. -/
def Position.start : Position := ⟨1, 1⟩

def locate (p : Position) : List Char → List Placed
  | [] => []
  | c :: cs => (c, p) :: locate (p.after c) cs

def endPlace (p : Position) (cs : List Char) : Position := cs.foldl .after p

namespace Token

/-- Whether the characters begin with those of `word`; what follows them. -/
def dropWord? : List Char → List Placed → Option (List Placed)
  | [], cs => some cs
  | w :: ws, (c, _) :: cs => if w == c then dropWord? ws cs else none
  | _ :: _, [] => none

/-- The text of a number as it is read, latest character first. -/
structure NumberText where
  chars : List Char
  base : Option Nat
  point : Bool
  exponent : Bool

/-- Whether a character is a digit of a number with the given base. -/
def isDigitOf (base : Option Nat) (c : Char) : Bool :=
  c.isDigit || (base == some 16 && (('a' ≤ c && c ≤ 'f') || ('A' ≤ c && c ≤ 'F')))

/-- The base that a letter after a zero stands for. -/
def base? (c : Char) : Option Nat :=
  match c.toLower with
  | 'x' => some 16
  | 'o' => some 8
  | 'b' => some 2
  | _ => none

/-- Reads the text of a number after its first digit. -/
def numberText (t : NumberText) : List Placed → NumberText × List Placed
  | [] => (t, [])
  | ('_', _) :: rest => numberText t rest
  | (c, p) :: rest =>
    if isDigitOf t.base c then numberText { t with chars := c :: t.chars } rest
    else if c == '.' && !t.point && t.base.isNone then
      match rest with
      | [] => ({ t with chars := '0' :: '.' :: t.chars }, [])
      | (d, _) :: _ =>
        if d.isDigit then numberText { t with chars := '.' :: t.chars, point := true } rest
        else if d == '_' || d == '.' || d.isAlpha then (t, (c, p) :: rest)
        else numberText { t with chars := '0' :: '.' :: t.chars } rest
    else if c == 'e' && !t.exponent && t.base.isNone then
      match rest with
      | [] => (t, (c, p) :: rest)
      | (d, q) :: after =>
        if d.isDigit then numberText { t with chars := 'e' :: t.chars, exponent := true } ((d, q) :: after)
        else if d == '+' || d == '-' then
          numberText { t with chars := d :: 'e' :: t.chars, exponent := true } after
        else (t, (c, p) :: rest)
    else if t.chars == ['0'] then
      match base? c with
      | some base => numberText { t with chars := c :: t.chars, base := some base } rest
      | none => (t, (c, p) :: rest)
    else (t, (c, p) :: rest)

/-- The number that digits denote in a base; none if one of them is no digit of the base. -/
def ofDigits? (base : Nat) (cs : List Char) : Option Nat :=
  cs.foldlM (fun n c =>
    let d := if c.isDigit then c.toNat - '0'.toNat else c.toLower.toNat - 'a'.toNat + 10
    if d < base then some (base * n + d) else none) 0

/-- The token of the text of a number. A decimal integer beyond the range of integers is a float; the
digits of another base are the bits of an integer. -/
def ofNumberText (negative : Bool) (t : NumberText) : Token :=
  let digits := t.chars.reverse
  let whole := if negative then '-' :: digits else digits
  let fault := Token.bad (.badNumber (String.ofList whole))
  match t.base with
  | none =>
    match Decimal.readInt64? whole with
    | some n => .int n
    | none =>
      match Decimal.readFloat? whole with
      | some x => .float x
      | none => fault
  | some base =>
    match digits.drop 2 with
    | [] => fault
    | ds =>
      match ofDigits? base ds with
      | none => fault
      | some n =>
        if Nat.pow 2 64 ≤ n then fault
        else
          let n := Int64.ofNat n
          .int (if negative then -n else n)

inductive TextEnd where
  | closed
  /-- An embedded expression begins. -/
  | embedded

/-- The character that stands for an escaped one. -/
def escaped? (c : Char) : Option Char :=
  match c with
  | '\\' => some '\\'
  | 't' => some '\t'
  | 'n' => some '\n'
  | 'r' => some '\r'
  | _ => none

/-- The number of digits that follow the letter of a numeric escape. -/
def escapeDigits (c : Char) : Nat :=
  match c with
  | 'x' => 2
  | 'u' => 4
  | 'U' => 8
  | _ => 0

/-- Reads the digits of a numeric escape. `seen` is the escape so far, `at_` its last place. -/
def readEscape (seen : List Char) (at_ : Position) :
    Nat → Nat → List Placed → Except SyntaxFault (Char × List Placed)
  | 0, n, rest =>
    if n.isValidChar then .ok (Char.ofNat n, rest)
    else .error ⟨.badEscape (String.ofList seen.reverse), at_⟩
  | _ + 1, _, [] => .error ⟨.badEscape (String.ofList seen.reverse), at_⟩
  | count + 1, n, (c, p) :: rest =>
    match ofDigits? 16 [c] with
    | some d =>
      if c.isAlphanum then readEscape (c :: seen) p count (16 * n + d) rest
      else .error ⟨.badEscape (String.ofList (c :: seen).reverse), p⟩
    | none => .error ⟨.badEscape (String.ofList (c :: seen).reverse), p⟩

/-- Drops the blanks with which a continued line begins, up to the given column. -/
def skipIndent (column : Nat) : List Placed → List Placed
  | [] => []
  | (c, p) :: rest =>
    if c.isWhitespace && c != '\n' && p.column < column then skipIndent column rest else (c, p) :: rest

/-- Reads a text with escapes after its opening quote, which stands at `start`. A doubled quote is one
quote. With `joins` a backslash at the end of a line continues the text on the next one. The fuel bounds the
number of characters. -/
def readText (quote : Char) (joins : Bool) (start : Position) :
    Nat → List Char → List Placed → Except SyntaxFault (String × List Placed)
  | 0, _, _ => .error ⟨.outOfFuel, start⟩
  | fuel + 1, seen, cs =>
    match cs with
    | [] => .error ⟨.openString, start⟩
    | ('\\', p) :: rest =>
      match rest with
      | [] => .error ⟨.openString, start⟩
      | (c, q) :: rest =>
        if c == quote then readText quote joins start fuel (quote :: seen) rest
        else if escapeDigits c != 0 then
          match readEscape [c, '\\'] q (escapeDigits c) 0 rest with
          | .ok (c, rest) => readText quote joins start fuel (c :: seen) rest
          | .error fault => .error fault
        else if c == '\n' then
          if joins then readText quote joins start fuel seen (skipIndent (start.column + 1) rest)
          else .error ⟨.openString, start⟩
        else
          match escaped? c with
          | some c => readText quote joins start fuel (c :: seen) rest
          | none =>
            if c == '\r' then readText quote joins start fuel seen (('\\', p) :: rest)
            else .error ⟨.badEscape (String.ofList ['\\', c]), q⟩
    | (c, _) :: rest =>
      if c == quote then
        match rest with
        | (d, _) :: more =>
          if d == quote then readText quote joins start fuel (quote :: seen) more
          else .ok (String.ofList seen.reverse, rest)
        | [] => .ok (String.ofList seen.reverse, rest)
      else if c == '\n' then .error ⟨.openString, start⟩
      else if c == '\r' && (rest.head?.map (·.1)) == some '\n' then readText quote joins start fuel seen rest
      else readText quote joins start fuel (c :: seen) rest

/-- Reads a backtick text up to its end or to an embedded expression. -/
def readPiece (start : Position) (seen : List Char) :
    List Placed → Except SyntaxFault (String × TextEnd × List Placed)
  | [] => .error ⟨.openString, start⟩
  | ('\x60', _) :: ('\x60', _) :: rest => readPiece start ('\x60' :: seen) rest
  | ('\x60', _) :: rest => .ok (String.ofList seen.reverse, .closed, rest)
  | ('$', _) :: ('\x7b', p) :: rest => .ok (String.ofList seen.reverse, .embedded, ('\x7b', p) :: rest)
  | ('\r', _) :: ('\n', _) :: rest => readPiece start ('\n' :: seen) rest
  | (c, _) :: rest => readPiece start (c :: seen) rest

/-- Drops a line break right after an opening backtick. -/
def dropFirstBreak : List Placed → List Placed
  | ('\n', _) :: rest => rest
  | ('\r', _) :: ('\n', _) :: rest => rest
  | ('\r', _) :: rest => rest
  | cs => cs

/-- Drops the rest of a comment that ends with its line. -/
def dropLine : List Placed → List Placed
  | [] => []
  | ('\n', p) :: rest => ('\n', p) :: rest
  | _ :: rest => dropLine rest

/-- Drops the rest of a comment with the given number of openings. An open comment ends the text. -/
def dropComment : Nat → List Placed → List Placed
  | _, [] => []
  | 0, cs => cs
  | depth + 1, ('*', _) :: ('/', _) :: rest => dropComment depth rest
  | depth + 1, ('/', _) :: ('*', _) :: rest => dropComment (depth + 2) rest
  | depth + 1, _ :: rest => dropComment (depth + 1) rest

/-- Whether a character is a blank between tokens. -/
def isSpace (c : Char) : Bool := c.isWhitespace || c == '\x0b' || c == '\x0c'

/-- Drops blanks and comments. The fuel bounds the number of characters. -/
def skip : Nat → List Placed → List Placed
  | 0, cs => cs
  | fuel + 1, cs =>
    match cs with
    | ('/', _) :: ('/', _) :: rest => skip fuel (dropLine rest)
    | ('/', _) :: ('*', _) :: rest => skip fuel (dropComment 1 rest)
    | (c, p) :: rest => if isSpace c then skip fuel rest else (c, p) :: rest
    | [] => []

abbrev Located := Token × Position

/-- The state in which a text is cut. -/
structure Scan where
  /-- Whether a sign before a digit belongs to the number. -/
  sign : Bool
  /-- For every text that an embedded expression interrupts, the braces open inside the expression. -/
  braces : List Nat

/-- The longest symbol with which the characters begin. -/
def symbol? (cs : List Placed) : Option (String × Bool × List Placed) :=
  symbols.findSome? fun (s, used) => (dropWord? s.toList cs).map fun rest => (s, used, rest)

/-- The tokens of a piece of a backtick text, with what follows. -/
def pieceTokens (s : Scan) (start at_ : Position) (cs : List Placed) : Scan × Located × List Placed :=
  match readPiece start [] cs with
  | .error fault => (s, (.bad fault.cause, fault.pos), [])
  | .ok (text, .closed, rest) => ({ s with sign := false }, (.str text, at_), rest)
  | .ok (text, .embedded, rest) =>
    ({ sign := false, braces := 0 :: s.braces }, (.piece text, at_), rest)

/-- Keeps account of the braces inside embedded expressions. -/
def Scan.track (s : Scan) (word : String) : Scan :=
  match s.braces with
  | [] => s
  | n :: outer =>
    if word == "\x7b" || word == "#\x7b" then { s with braces := (n + 1) :: outer }
    else if word == "\x7d" then { s with braces := (n - 1) :: outer }
    else s

def startsName (c : Char) : Bool := c.isAlpha || c == '_'

def continuesName (c : Char) : Bool := c.isAlphanum || c == '_'

/-- The token with which characters that start with `c` at `p` begin, with what follows. The fuel bounds the
number of characters. -/
def next (fuel : Nat) (s : Scan) (c : Char) (p : Position) (rest : List Placed) : Scan × Located × List Placed :=
  let plain (token : Token) (rest : List Placed) : Scan × Located × List Placed :=
    ({ s with sign := token.allowsSign }, (token, p), rest)
  let number (negative : Bool) (digit : Char) (rest : List Placed) : Scan × Located × List Placed :=
    let (t, rest) := numberText ⟨[digit], none, false, false⟩ rest
    plain (ofNumberText negative t) rest
  let signed? : Option (Char × List Placed) :=
    match c, rest with
    | '-', (d, _) :: more => if s.sign && d.isDigit then some (d, more) else none
    | _, _ => none
  match signed? with
  | some (d, more) => number true d more
  | none =>
    if c.isDigit then number false c rest
    else if startsName c then
      let word := c :: (rest.takeWhile fun x => continuesName x.1).map (·.1)
      plain (ofWord (String.ofList word)) (rest.dropWhile fun x => continuesName x.1)
    else if c == '"' then
      match readText '"' true p fuel [] rest with
      | .ok (text, rest) => plain (.str text) rest
      | .error fault => (s, (.bad fault.cause, fault.pos), [])
    else if c == '\'' then
      if (rest.head?.map (·.1)) == some '\'' then plain (.bad (.badCharacter "")) []
      else
        match readText '\'' false p fuel [] rest with
        | .ok (text, rest) =>
          match text.toList with
          | [c] => plain (.char c) rest
          | _ => plain (.bad (.badCharacter text)) rest
        | .error fault => (s, (.bad fault.cause, fault.pos), [])
    else if c == '\x60' then pieceTokens s p p (dropFirstBreak rest)
    else
      let cs := (c, p) :: rest
      match dropWord? "!in".toList cs with
      | some after =>
        if (after.head?.map fun x => continuesName x.1).getD false then plain (.word "!") rest
        else plain (.word "!in") after
      | none =>
        match symbol? cs with
        | none => plain (.bad (.unexpected (String.singleton c))) rest
        | some (w, true, rest) => let (s, t, rest) := plain (.word w) rest; (s.track w, t, rest)
        | some (w, false, rest) => plain (ofReserved w) rest

/-- Cuts characters into tokens. Right after an embedded expression the text around it goes on. The fuel
bounds the number of characters. -/
def cut (finish : Position) : Nat → Scan → List Placed → List Located
  | 0, _, _ => [(.finish, finish)]
  | fuel + 1, s, cs =>
    match skip (fuel + 1) cs with
    | [] => [(.finish, finish)]
    | (c, p) :: rest =>
      match next (fuel + 1) s c p rest with
      | (s, token, rest) =>
        match token.1, s.braces with
        | .word "\x7d", 0 :: outer =>
          let at_ := match rest with
            | (_, q) :: _ => q
            | [] => finish
          let (s, text, rest) := pieceTokens { s with braces := outer } at_ at_ rest
          token :: text :: cut finish fuel s rest
        | _, _ => token :: cut finish fuel s rest

/-- Drops a first line that names the program to run the text with. -/
def dropProgramLine (cs : List Placed) : List Placed :=
  match cs with
  | ('#', _) :: ('!', _) :: rest => dropLine rest
  | _ => cs

/-- The tokens of a text. The last one marks the end. -/
def scan (text : String) : List Located :=
  let cs := text.toList
  cut (endPlace .start cs) (cs.length + 1) ⟨true, []⟩ (dropProgramLine (locate .start cs))

end Token

end ReactiveNotebook.Script
