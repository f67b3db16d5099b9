import ReactiveNotebook.Json.Number

/-!
# Reading JSON

A reader yields a value and what follows it, or nothing if the text is malformed. Values may be nested up to
a fixed depth.
-/
namespace ReactiveNotebook.Json

def isSpace (c : Char) : Bool :=
  c == ' ' || c == '\n' || c == '\t' || c == '\r'

/-- Drops blanks. -/
def skipSpace (cs : List Char) : List Char := cs.dropWhile isSpace

def hexDigit? (c : Char) : Option Nat :=
  if c.isDigit then some (c.toNat - '0'.toNat)
  else if 'a' ≤ c && c ≤ 'f' then some (c.toNat - 'a'.toNat + 10)
  else if 'A' ≤ c && c ≤ 'F' then some (c.toNat - 'A'.toNat + 10)
  else none

/-- The value of four hexadecimal digits. -/
def hexUnit? (a b c d : Char) : Option Nat := do
  return (((← hexDigit? a) * 16 + (← hexDigit? b)) * 16 + (← hexDigit? c)) * 16 + (← hexDigit? d)

/-- Whether a unit is the first half of a pair. -/
def isHighHalf (n : Nat) : Bool := 0xd800 ≤ n && n ≤ 0xdbff

/-- Whether a unit is the second half of a pair. -/
def isLowHalf (n : Nat) : Bool := 0xdc00 ≤ n && n ≤ 0xdfff

/-- The character that a backslash and a letter stand for. -/
def simpleEscape? : Char → Option Char
  | '"' => some '"'
  | '\\' => some '\\'
  | '/' => some '/'
  | 'b' => some '\x08'
  | 'f' => some '\x0c'
  | 'n' => some '\n'
  | 'r' => some '\r'
  | 't' => some '\t'
  | _ => none

def readText? : List Char → Option (List Char × List Char)
  | [] => none
  | '"' :: rest => some ([], rest)
  | '\\' :: 'u' :: a :: b :: c :: d :: rest =>
    match hexUnit? a b c d with
    | none => none
    | some n =>
      if isLowHalf n then none
      else if isHighHalf n then
        match rest with
        | '\\' :: 'u' :: e :: f :: g :: h :: rest =>
          match hexUnit? e f g h with
          | none => none
          | some m =>
            if isLowHalf m then
              (readText? rest).map fun (content, after) =>
                (Char.ofNat (0x10000 + (n - 0xd800) * 0x400 + (m - 0xdc00)) :: content, after)
            else none
        | _ => none
      else (readText? rest).map fun (content, after) => (Char.ofNat n :: content, after)
  | '\\' :: c :: rest =>
    match simpleEscape? c with
    | none => none
    | some x => (readText? rest).map fun (content, after) => (x :: content, after)
  | c :: rest =>
    if c.toNat < 0x20 || c == '\\' then none
    else (readText? rest).map fun (content, after) => (c :: content, after)

def dropWord? (word : List Char) (cs : List Char) : Option (List Char) :=
  if word.isPrefixOf cs then some (cs.drop word.length) else none

mutual

/-- Reads a value at its first character. `depth` more levels may be opened; the fuel bounds the steps. -/
def readValue? : Nat → Nat → List Char → Option (Json × List Char)
  | 0, _, _ => none
  | fuel + 1, depth, cs =>
    match cs with
    | 'n' :: _ => (dropWord? "null".toList cs).map fun rest => (.null, rest)
    | 't' :: _ => (dropWord? "true".toList cs).map fun rest => (.bool true, rest)
    | 'f' :: _ => (dropWord? "false".toList cs).map fun rest => (.bool false, rest)
    | '"' :: rest => (readText? rest).map fun (content, after) => (.str (String.ofList content), after)
    | '[' :: rest =>
      if depth = 0 then none
      else
        match skipSpace rest with
        | ']' :: after => some (.arr [], after)
        | rest => (readItems? fuel (depth - 1) rest).map fun (items, after) => (.arr items, after)
    | '\x7b' :: rest =>
      if depth = 0 then none
      else
        match skipSpace rest with
        | '\x7d' :: after => some (.obj [], after)
        | rest => (readFields? fuel (depth - 1) rest).map fun (fields, after) => (.obj fields, after)
    | _ => readNumber? cs

def readItems? : Nat → Nat → List Char → Option (List Json × List Char)
  | 0, _, _ => none
  | fuel + 1, depth, cs => do
    let (item, rest) ← readValue? fuel depth cs
    match skipSpace rest with
    | ']' :: after => some ([item], after)
    | ',' :: rest =>
      let (items, after) ← readItems? fuel depth (skipSpace rest)
      some (item :: items, after)
    | _ => none

def readFields? : Nat → Nat → List Char → Option (List (String × Json) × List Char)
  | 0, _, _ => none
  | fuel + 1, depth, cs => do
    let .cons '"' rest := cs | none
    let (name, rest) ← readText? rest
    let .cons ':' rest := skipSpace rest | none
    let (value, rest) ← readValue? fuel depth (skipSpace rest)
    let field := (String.ofList name, value)
    match skipSpace rest with
    | '\x7d' :: after => some ([field], after)
    | ',' :: rest =>
      let (fields, after) ← readFields? fuel depth (skipSpace rest)
      some (field :: fields, after)
    | _ => none

end

/-- How many levels of arrays and objects may be nested. -/
def deepest : Nat := 127

/-- Reads the value at the start of a text, after blanks. -/
def read? (cs : List Char) : Option (Json × List Char) :=
  readValue? (2 * cs.length + 2) deepest (skipSpace cs)

end ReactiveNotebook.Json
