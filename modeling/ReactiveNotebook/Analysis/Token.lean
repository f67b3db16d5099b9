import ReactiveNotebook.Text.Blank
import ReactiveNotebook.Analysis.Name

/-!
# Tokens for dependency analysis

Only what the analysis of names needs is told apart: identifiers, texts with their contents, numbers and
single characters. Comments and blanks leave no token. The expressions inside a backtick text are read as if
they stood in parentheses, so their names count.
-/
namespace ReactiveNotebook.Analysis

/-- A token. `sigil` tells whether a dollar sign precedes the identifier. -/
inductive Token where
  | ident (name : String) (sigil : Bool)
  | text (content : String)
  | number
  | punct (c : Char)
  deriving DecidableEq, Repr

namespace Token

def isPunct (t : Token) (c : Char) : Bool :=
  match t with
  | .punct d => d == c
  | _ => false

def ident? : Token → Option String
  | .ident name _ => some name
  | _ => none

end Token

/-- Whether the text goes on with a decimal digit. -/
def startsWithDigit : List Char → Bool
  | c :: _ => c.isDigit
  | [] => false

/-- What follows the end of a block comment, if it ends. -/
def afterComment : List Char → Option (List Char)
  | '*' :: '/' :: rest => some rest
  | _ :: rest => afterComment rest
  | [] => none

/-- Reads a text up to its closing quote: the content without backslashes, whether it was closed, and what
follows. -/
def readText (quote : Char) : List Char → List Char × Bool × List Char
  | [] => ([], false, [])
  | '\\' :: [] => ([], false, [])
  | '\\' :: c :: rest =>
    let (content, closed, after) := readText quote rest
    (c :: content, closed, after)
  | c :: rest =>
    if c == quote then ([], true, rest)
    else
      let (content, closed, after) := readText quote rest
      (c :: content, closed, after)

/-- What follows a number whose last character was `last`. -/
def afterNumber (last : Char) : List Char → List Char
  | [] => []
  | c :: rest =>
    if isNameRest c then afterNumber c rest
    else if c == '.' && startsWithDigit rest then afterNumber c rest
    else if (c == '+' || c == '-') && (last == 'e' || last == 'E') && startsWithDigit rest then
      afterNumber c rest
    else c :: rest

/-- Splits an embedded expression from what follows its closing brace, of which `depth` more are due. -/
def readEmbedded (depth : Nat) : List Char → List Char × List Char
  | [] => ([], [])
  | c :: rest =>
    if c == '\x7d' && depth == 0 then ([], rest)
    else
      let deeper := if c == '\x7b' then depth + 1 else if c == '\x7d' then depth - 1 else depth
      let (inner, after) := readEmbedded deeper rest
      (c :: inner, after)

/-- What reading a text yields: its tokens, and the byte offset of the first text or comment that never
closes. -/
structure Lexed where
  tokens : List Token
  unterminated : Option Nat
  deriving DecidableEq, Repr

namespace Lexed

/-- Nothing read yet. -/
def nil : Lexed := ⟨[], none⟩

def cons (t : Token) (l : Lexed) : Lexed := ⟨t :: l.tokens, l.unterminated⟩

/-- Puts what was read before in front; an earlier offset wins. -/
def append (a b : Lexed) : Lexed := ⟨a.tokens ++ b.tokens, a.unterminated.or b.unterminated⟩

end Lexed

mutual

/-- Reads the tokens of `cs`, which begins at byte `offset`. The fuel bounds the number of steps. -/
def lexFrom : Nat → Nat → List Char → Lexed
  | 0, _, _ => .nil
  | _ + 1, _, [] => .nil
  | fuel + 1, offset, c :: rest =>
    let after := offset + c.utf8Size
    if Text.isBlank c then lexFrom fuel after rest
    else if c == '/' && rest.head? == some '/' then
      let comment := rest.takeWhile (· != '\n')
      lexFrom fuel (after + Text.byteLength comment) (rest.dropWhile (· != '\n'))
    else if c == '/' && rest.head? == some '*' then
      match afterComment (rest.drop 1) with
      | some next => lexFrom fuel (after + (Text.byteLength rest - Text.byteLength next)) next
      | none => ⟨[], some offset⟩
    else if c == '"' || c == '\'' then
      let (content, closed, next) := readText c rest
      let here : Lexed := ⟨[.text (String.ofList content)], if closed then none else some offset⟩
      here.append (lexFrom fuel (after + (Text.byteLength rest - Text.byteLength next)) next)
    else if c == '\x60' then lexBacktick fuel offset after [] rest
    else if c.isDigit then
      let next := afterNumber c rest
      .cons .number (lexFrom fuel (after + (Text.byteLength rest - Text.byteLength next)) next)
    else if c == '$' && (rest.head?.map isNameStart).getD false then
      let name := rest.takeWhile isNameRest
      .cons (.ident (String.ofList name) true)
        (lexFrom fuel (after + Text.byteLength name) (rest.dropWhile isNameRest))
    else if isNameStart c then
      let name := rest.takeWhile isNameRest
      .cons (.ident (String.ofList (c :: name)) false)
        (lexFrom fuel (after + Text.byteLength name) (rest.dropWhile isNameRest))
    else .cons (.punct c) (lexFrom fuel after rest)

/-- Reads on inside a backtick text that began at byte `start`. `cs` begins at byte `offset`, and `content`
holds the characters of the text so far in reverse. The text token follows those of the embedded
expressions. -/
def lexBacktick : Nat → Nat → Nat → List Char → List Char → Lexed
  | 0, _, _, _, _ => .nil
  | _ + 1, start, _, content, [] => ⟨[.text (String.ofList content.reverse)], some start⟩
  | fuel + 1, start, offset, content, c :: rest =>
    let after := offset + c.utf8Size
    if c == '\x60' then .cons (.text (String.ofList content.reverse)) (lexFrom fuel after rest)
    else if c == '$' && rest.head? == some '\x7b' then
      let (inner, next) := readEmbedded 0 (rest.drop 1)
      let embedded := lexFrom fuel (after + 1) inner
      let here : Lexed := ⟨.punct '(' :: embedded.tokens ++ [.punct ')'], embedded.unterminated⟩
      here.append (lexBacktick fuel start (after + (Text.byteLength rest - Text.byteLength next)) content next)
    else lexBacktick fuel start after (c :: content) rest

end

/-- The tokens of a text. -/
def lex (cs : List Char) : Lexed :=
  lexFrom (cs.length + 1) 0 cs

/-- Removes the dollar signs in front of names outside texts. `previous` is the character before `cs`,
`quote` the quote of an open text and `escaped` whether an odd number of backslashes has just been read in
it. -/
def stripFrom : Option Char → Option Char → Bool → List Char → List Char
  | _, _, _, [] => []
  | previous, quote, escaped, c :: rest =>
    match quote with
    | some q =>
      if c == '\\' then c :: stripFrom (some c) quote (!escaped) rest
      else c :: stripFrom (some c) (if c == q && !escaped then none else quote) false rest
    | none =>
      if c == '"' || c == '\'' || c == '\x60' then c :: stripFrom (some c) (some c) false rest
      else if c == '$' && (rest.head?.map isNameStart).getD false && !(previous.map isNameRest).getD false then
        stripFrom (some c) none false rest
      else c :: stripFrom (some c) none false rest

/-- A text in which names carry no dollar sign. -/
def stripSigils (s : String) : String :=
  String.ofList (stripFrom none none false s.toList)

end ReactiveNotebook.Analysis
