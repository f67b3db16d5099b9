import ReactiveNotebook.Config
import ReactiveNotebook.Decimal.Read
import ReactiveNotebook.Json.Reader

/-!
# Reading settings

Settings are written in TOML: one `key = value` per line, with comments. Each of the seven keys may be given
once; its value is a count, a truth value or a list of texts. Everything else is refused, so tables and
nested keys need not be read.
-/
namespace ReactiveNotebook.Config

inductive Setting where
  | count (n : Nat)
  | flag (b : Bool)
  | texts (items : List String)
  deriving DecidableEq, Repr

def isLineSpace (c : Char) : Bool := c == ' ' || c == '\t'

/-- Drops blanks inside a line. -/
def skipLineSpace (cs : List Char) : List Char := cs.dropWhile isLineSpace

/-- Whether a character may stand in a comment or a literal text. -/
def isPrintable (c : Char) : Bool := c == '\t' || (0x20 ≤ c.toNat && c.toNat != 0x7f)

def dropBreak? : List Char → Option (List Char)
  | '\n' :: rest => some rest
  | '\r' :: '\n' :: rest => some rest
  | _ => none

def dropComment (cs : List Char) : List Char :=
  match cs with
  | '#' :: rest => rest.dropWhile isPrintable
  | _ => cs

/-- Drops blanks, line breaks and comments. The fuel bounds the number of lines. -/
def skipLines : Nat → List Char → List Char
  | 0, cs => cs
  | fuel + 1, cs =>
    let rest := dropComment (skipLineSpace cs)
    match dropBreak? rest with
    | some rest => skipLines fuel rest
    | none => rest

/-- Reads a text without escapes after its opening quote. -/
def readLiteralText? (cs : List Char) : Option (List Char × List Char) :=
  let content := cs.takeWhile fun c => c != '\'' && isPrintable c
  match cs.drop content.length with
  | '\'' :: rest => some (content, rest)
  | _ => none

/-- Reads a text of several lines without escapes, after its opening quotes. One or two quotes may stand
before the closing ones. -/
def readLongLiteral? : List Char → Option (List Char × List Char)
  | '\'' :: '\'' :: '\'' :: '\'' :: '\'' :: rest => some (['\'', '\''], rest)
  | '\'' :: '\'' :: '\'' :: '\'' :: rest => some (['\''], rest)
  | '\'' :: '\'' :: '\'' :: rest => some ([], rest)
  | '\r' :: '\n' :: rest => (readLongLiteral? rest).map fun (content, after) => ('\r' :: '\n' :: content, after)
  | c :: rest =>
    if isPrintable c || c == '\n' then (readLongLiteral? rest).map fun (content, after) => (c :: content, after)
    else none
  | [] => none

/-- The character that hexadecimal digits stand for. -/
def hexChar? (ds : List Char) : Option Char := do
  let n ← ds.foldlM (fun n d => return 16 * n + (← Json.hexDigit? d)) 0
  if n.isValidChar then some (Char.ofNat n) else none

def readEscape? : List Char → Option (Char × List Char)
  | 'b' :: rest => some ('\x08', rest)
  | 't' :: rest => some ('\t', rest)
  | 'n' :: rest => some ('\n', rest)
  | 'f' :: rest => some ('\x0c', rest)
  | 'r' :: rest => some ('\r', rest)
  | '"' :: rest => some ('"', rest)
  | '\\' :: rest => some ('\\', rest)
  | 'u' :: rest => if rest.length < 4 then none else (hexChar? (rest.take 4)).map fun c => (c, rest.drop 4)
  | 'U' :: rest => if rest.length < 8 then none else (hexChar? (rest.take 8)).map fun c => (c, rest.drop 8)
  | _ => none

/-- Drops the blanks and line breaks after a backslash that ends a line. -/
def skipContinuation (cs : List Char) : Option (List Char) :=
  match dropBreak? (skipLineSpace cs) with
  | some rest => some (rest.dropWhile fun c => isLineSpace c || c == '\n' || c == '\r')
  | none => none

/-- Reads a text with escapes after its opening quotes: on one line, or, if `long`, on several, where one or
two quotes may stand before the closing ones. The fuel bounds the number of characters. -/
def readEscapedText? (long : Bool) : Nat → List Char → Option (List Char × List Char)
  | 0, _ => none
  | fuel + 1, cs =>
    let push (c : Char) (rest : List Char) : Option (List Char × List Char) :=
      (readEscapedText? long fuel rest).map fun (content, after) => (c :: content, after)
    match cs with
    | [] => none
    | '"' :: rest =>
      if !long then some ([], rest)
      else
        match rest with
        | '"' :: '"' :: '"' :: '"' :: after => some (['"', '"'], after)
        | '"' :: '"' :: '"' :: after => some (['"'], after)
        | '"' :: '"' :: after => some ([], after)
        | _ => push '"' rest
    | '\\' :: rest =>
      match (if long then skipContinuation rest else none) with
      | some rest => readEscapedText? long fuel rest
      | none => (readEscape? rest).bind fun (c, rest) => push c rest
    | '\r' :: '\n' :: rest => if long then push '\n' rest else none
    | c :: rest => if isPrintable c || (long && c == '\n') then push c rest else none

def dropFirstBreak (cs : List Char) : List Char := (dropBreak? cs).getD cs

def readText? (cs : List Char) : Option (List Char × List Char) :=
  match cs with
  | '"' :: '"' :: '"' :: rest => readEscapedText? true (rest.length + 1) (dropFirstBreak rest)
  | '"' :: rest => readEscapedText? false (rest.length + 1) rest
  | '\'' :: '\'' :: '\'' :: rest => readLongLiteral? (dropFirstBreak rest)
  | '\'' :: rest => readLiteralText? rest
  | _ => none

/-- Digits of a base, of which each underscore stands between two. -/
def readDigits? (isDigit : Char → Bool) (base : Nat) (cs : List Char) : Option Nat :=
  go cs false 0
where
  go : List Char → Bool → Nat → Option Nat
    | [], afterDigit, n => if afterDigit then some n else none
    | c :: rest, afterDigit, n =>
      if isDigit c then go rest true (base * n + (Json.hexDigit? c).getD 0)
      else if c == '_' && afterDigit && (rest.head?.map isDigit).getD false then go rest false n
      else none

/-- The count a word denotes, within the range of signed words. Negative numbers are no counts, but zero may
have any sign. -/
def readCount? (word : List Char) : Option Nat :=
  let based (base : Nat) (isDigit : Char → Bool) (ds : List Char) : Option Nat := readDigits? isDigit base ds
  let decimal (ds : List Char) : Option Nat :=
    match ds with
    | '0' :: _ :: _ => none
    | _ => readDigits? Char.isDigit 10 ds
  let n? := match word with
    | '0' :: 'x' :: ds => based 16 (fun c => (Json.hexDigit? c).isSome) ds
    | '0' :: 'o' :: ds => based 8 (fun c => '0' ≤ c && c ≤ '7') ds
    | '0' :: 'b' :: ds => based 2 (fun c => c == '0' || c == '1') ds
    | '+' :: ds => decimal ds
    | '-' :: ds => (decimal ds).filter (· == 0)
    | ds => decimal ds
  n?.filter (· < Nat.pow 2 63)

/-- Reads the texts of a list up to its closing bracket. The fuel bounds their number. -/
def readTexts? : Nat → List Char → Option (List String × List Char)
  | 0, _ => none
  | fuel + 1, cs => do
    match skipLines (cs.length + 1) cs with
    | ']' :: rest => some ([], rest)
    | cs =>
      let (content, rest) ← readText? cs
      let item := String.ofList content
      match skipLines (rest.length + 1) rest with
      | ']' :: rest => some ([item], rest)
      | ',' :: rest =>
        let (items, after) ← readTexts? fuel rest
        some (item :: items, after)
      | _ => none

def isWordChar (c : Char) : Bool := c.isAlphanum || c == '_' || c == '-' || c == '+' || c == '.' || c == ':'

def readSetting? (cs : List Char) : Option (Setting × List Char) :=
  match cs with
  | '[' :: rest => (readTexts? (rest.length + 1) rest).map fun (items, after) => (.texts items, after)
  | _ =>
    let word := cs.takeWhile isWordChar
    let after := cs.drop word.length
    if word == "true".toList then some (.flag true, after)
    else if word == "false".toList then some (.flag false, after)
    else (readCount? word).map fun n => (.count n, after)

/-- Reads a key: a word, or a text on one line. -/
def readKey? (cs : List Char) : Option (String × List Char) :=
  match cs with
  | '"' :: rest => (readEscapedText? false (rest.length + 1) rest).map fun (k, after) => (String.ofList k, after)
  | '\'' :: rest => (readLiteralText? rest).map fun (k, after) => (String.ofList k, after)
  | _ =>
    let word := cs.takeWhile fun c => c.isAlphanum || c == '_' || c == '-'
    if word.isEmpty then none else some (String.ofList word, cs.drop word.length)

/-- Applies a setting. Unknown keys and values of the wrong kind are refused. -/
def with? (c : Config) (key : String) (s : Setting) : Option Config :=
  match key, s with
  | "settle_window_ms", .count n => some { c with settleWindowMs := n }
  | "parallel_scripts", .flag b => some { c with parallelScripts := b }
  | "max_operations", .count n => some { c with maxOperations := n }
  | "max_call_levels", .count n => some { c with maxCallLevels := n }
  | "max_string_size", .count n => some { c with maxStringSize := n }
  | "max_array_size", .count n => some { c with maxArraySize := n }
  | "modules", .texts items => some { c with modules := items }
  | _, _ => none

/-- Applies the settings of a text to those so far. `seen` are the keys given before; the fuel bounds the
number of settings. -/
def readSettings? : Nat → List String → Config → List Char → Option Config
  | 0, _, _, _ => none
  | fuel + 1, seen, config, cs => do
    match skipLines (cs.length + 1) cs with
    | [] => some config
    | cs =>
      let (key, rest) ← readKey? cs
      let .cons '=' rest := skipLineSpace rest | none
      let (setting, rest) ← readSetting? (skipLineSpace rest)
      let config ← config.with? key setting
      if seen.contains key then none
      else
        match dropComment (skipLineSpace rest) with
        | [] => some config
        | rest => readSettings? fuel (key :: seen) config (← dropBreak? rest)

def dropMark (cs : List Char) : List Char :=
  match cs with
  | '\ufeff' :: rest => rest
  | _ => cs

/-- The settings a text denotes; those it does not mention keep their standard. -/
def read? (text : String) : Option Config :=
  let cs := dropMark text.toList
  readSettings? (cs.length + 1) [] .standard cs

end ReactiveNotebook.Config
