import ReactiveNotebook.Text.HiddenTable

/-!
# Quoted text

A quoted text stands between two equal quotes. Inside, the quote, the backslash and the common control
characters are written with a backslash and a letter, and every other hidden character by its number in
lower-case hexadecimal.
-/
namespace ReactiveNotebook.Text

/-- The hexadecimal digits of a number, without leading zeros. -/
def hexDigits (n : Nat) : List Char :=
  Nat.toDigits 16 n

/-- Whether one of the ranges from position `lo` up to `hi` contains `n`; the ranges ascend. -/
def inRanges (ranges : Array (Nat × Nat)) (n : Nat) : Bool :=
  search 32 0 ranges.size
where
  search : Nat → Nat → Nat → Bool
    | 0, _, _ => false
    | fuel + 1, lo, hi =>
      if lo < hi then
        let mid := (lo + hi) / 2
        match ranges[mid]? with
        | none => false
        | some (a, b) =>
          if n < a then search fuel lo mid
          else if b < n then search fuel (mid + 1) hi
          else true
      else false

/-- Whether quoted text shows a character by its number. -/
def isHidden (c : Char) : Bool :=
  c.toNat < 0x20 || (0x7f ≤ c.toNat && inRanges hiddenRanges c.toNat)

def quoteChar (q : Char) (c : Char) : List Char :=
  if c == q || c == '\\' then ['\\', c]
  else if c == '\n' then ['\\', 'n']
  else if c == '\r' then ['\\', 'r']
  else if c == '\t' then ['\\', 't']
  else if c.toNat == 0 then ['\\', '0']
  else if isHidden c then ['\\', 'u', '\x7b'] ++ hexDigits c.toNat ++ ['\x7d']
  else [c]

def quoteWith (q : Char) (cs : List Char) : String :=
  String.ofList (q :: cs.flatMap (quoteChar q) ++ [q])

def quote (s : String) : String :=
  quoteWith '"' s.toList

example : quote "a\"b\\\n\x1b" = "\"a\\\"b\\\\\\n\\u\x7b1b\x7d\"" := by decide +kernel

end ReactiveNotebook.Text
