import ReactiveNotebook.Text.CaseTable
import ReactiveNotebook.Text.Quoted

/-!
# Upper and lower case

Case mapping follows the Unicode tables, so one character may become several. A capital sigma at the end
of a word becomes the final small sigma.
-/
namespace ReactiveNotebook.Text

/-- The image of a code point under the first run that contains it. -/
def mapRuns (runs : Array CaseRun) (n : Nat) : Option Nat :=
  runs.findSome? (·.image? n)

def upperChar (c : Char) : List Char :=
  if c.toNat < 0x80 then [c.toUpper]
  else
    match upperSpecial.find? (·.1 == c.toNat) with
    | some (_, ns) => ns.map Char.ofNat
    | none => [((mapRuns upperRuns c.toNat).map Char.ofNat).getD c]

/-- The lower case of a character that stands by itself. -/
def lowerChar (c : Char) : List Char :=
  if c.toNat < 0x80 then [c.toLower]
  else if c.toNat == 0x130 then ['i', Char.ofNat 0x307]
  else [((mapRuns lowerRuns c.toNat).map Char.ofNat).getD c]

/-- Characters that do not separate a word for the purpose of the final sigma. -/
def isCaseIgnorable (c : Char) : Bool :=
  ['\'', '.', ':', '^', '\x60', '\xa8', '\xad', '\xaf', '\xb4', '\xb7', '\xb8', '\u2019'].contains c
    || (0x300 ≤ c.toNat && c.toNat ≤ 0x36f)

def isCased (c : Char) : Bool :=
  upperChar c != [c] || lowerChar c != [c]

/-- Whether the nearest character that counts, in the given order, has a case. -/
def meetsCased (cs : List Char) : Bool :=
  match cs.dropWhile isCaseIgnorable with
  | [] => false
  | c :: _ => isCased c

/-- The lower case of the characters that follow `before`, which is held in reverse. -/
def lowerAfter (before : List Char) : List Char → List Char
  | [] => []
  | c :: rest =>
    let image :=
      if c.toNat == 0x3a3 then
        [if meetsCased before && !meetsCased rest then Char.ofNat 0x3c2 else Char.ofNat 0x3c3]
      else lowerChar c
    image ++ lowerAfter (c :: before) rest

def upper (s : String) : String :=
  String.ofList (s.toList.flatMap upperChar)

def lower (s : String) : String :=
  String.ofList (lowerAfter [] s.toList)

end ReactiveNotebook.Text
