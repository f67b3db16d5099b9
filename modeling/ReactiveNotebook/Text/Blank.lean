/-!
# Blank characters and trimming

The blanks are the characters with the Unicode property `White_Space`. Trimming drops them at both ends
of a text; the words of a text are what they separate.
-/
namespace ReactiveNotebook.Text

/-- Whether a character has the Unicode property `White_Space`. -/
def isBlank (c : Char) : Bool :=
  let n := c.toNat
  (9 ≤ n && n ≤ 13) || n == 0x20 || n == 0x85 || n == 0xa0 || n == 0x1680 || (0x2000 ≤ n && n ≤ 0x200a)
    || n == 0x2028 || n == 0x2029 || n == 0x202f || n == 0x205f || n == 0x3000

/-- The ASCII blanks: space, tab, line feed, form feed and carriage return. -/
def isAsciiBlank (c : Char) : Bool :=
  c == ' ' || c == '\t' || c == '\n' || c == '\x0c' || c == '\r'

/-- Drops the leading characters that satisfy `p`, and the trailing ones. -/
def dropEnds (p : Char → Bool) (cs : List Char) : List Char :=
  (((cs.dropWhile p).reverse).dropWhile p).reverse

/-- A list of characters without its leading and trailing blanks. -/
def trimList (cs : List Char) : List Char :=
  dropEnds isBlank cs

/-- A text without its leading and trailing blanks. -/
def trim (s : String) : String :=
  String.ofList (trimList s.toList)

def allBlank (s : String) : Bool :=
  s.toList.all isBlank

/-- The number of bytes of a list of characters in UTF-8. -/
def byteLength (cs : List Char) : Nat :=
  cs.foldl (fun n c => n + c.utf8Size) 0

/-- Splits at every character that satisfies `p`; a text without one is a single piece. -/
def splitAt (p : Char → Bool) : List Char → List (List Char)
  | [] => [[]]
  | c :: cs =>
    match splitAt p cs with
    | [] => [[]]
    | piece :: pieces => if p c then [] :: piece :: pieces else (c :: piece) :: pieces

def join (sep : String) (pieces : List String) : String :=
  String.intercalate sep pieces

@[simp] theorem trimList_nil : trimList [] = [] := rfl

end ReactiveNotebook.Text
