import ReactiveNotebook.Analysis.Warning
import ReactiveNotebook.Format.Filter

/-!
# Templates

A template is text with placeholders between double braces. A placeholder holds an expression and may end in
a bar with the name and arguments of a filter. An opening mark without a closing one is plain text and
yields a warning.
-/
namespace ReactiveNotebook.Analysis

open ReactiveNotebook.Format (Filter)

def placeholderOpen : String := "\x7b\x7b"

def placeholderClose : String := "\x7d\x7d"

/-- An expression with the filter that its value goes through. -/
structure Placeholder where
  expression : String
  filter : Option Filter
  deriving DecidableEq, Repr

/-- A piece of a template. -/
inductive Part where
  | text (content : String)
  | placeholder (p : Placeholder)
  deriving DecidableEq, Repr

/-- Splits at the first place where the character `c` stands twice. -/
def splitAtPair (c : Char) : List Char → Option (List Char × List Char)
  | [] => none
  | a :: rest =>
    if a == c && rest.head? == some c then some ([], rest.drop 1)
    else (splitAtPair c rest).map fun (before, after) => (a :: before, after)

/-- Splits at the bar that separates the expression from the filter: the first bar outside texts that is not
one of a pair. `quote` is the quote of an open text, and `skip` passes over one character. -/
def splitAtBar : Option Char → Bool → List Char → Option (List Char × List Char)
  | _, _, [] => none
  | quote, true, c :: rest =>
    (splitAtBar quote false rest).map fun (before, after) => (c :: before, after)
  | some q, false, c :: rest =>
    (splitAtBar (if c == q then none else some q) (c == '\\') rest).map fun (before, after) =>
      (c :: before, after)
  | none, false, c :: rest =>
    if c == '|' && rest.head? != some '|' then some ([], rest)
    else
      let quote := if c == '"' || c == '\'' || c == '\x60' then some c else none
      (splitAtBar quote (c == '|') rest).map fun (before, after) => (c :: before, after)

/-- Reads what stands between the marks of a placeholder. -/
def Placeholder.read (inner : List Char) : Placeholder :=
  let trimmed (cs : List Char) : String := String.ofList (Text.trimList cs)
  match splitAtBar none false inner with
  | none => ⟨trimmed inner, none⟩
  | some (expression, filter) =>
    match (Text.splitAt (· == ',') filter).map trimmed with
    | [] => ⟨trimmed expression, none⟩
    | name :: args => ⟨trimmed expression, if name.isEmpty then none else some ⟨name, args⟩⟩

def textPart (cs : List Char) : List Part :=
  if cs.isEmpty then [] else [.text (String.ofList cs)]

/-- Splits the text that begins at byte `offset` into parts; the fuel bounds the number of placeholders. -/
def splitTemplate : Nat → Nat → List Char → List Part × List Warning
  | 0, _, cs => (textPart cs, [])
  | fuel + 1, offset, cs =>
    match splitAtPair '\x7b' cs with
    | none => (textPart cs, [])
    | some (before, rest) =>
      match splitAtPair '\x7d' rest with
      | none => (textPart cs, [.unterminatedPlaceholder (offset + Text.byteLength before)])
      | some (inner, after) =>
        let taken := Text.byteLength cs - Text.byteLength after
        let (parts, warnings) := splitTemplate fuel (offset + taken) after
        (textPart before ++ .placeholder (.read inner) :: parts, warnings)

def parseTemplate (template : String) : List Part × List Warning :=
  splitTemplate (template.length + 1) 0 template.toList

def templateReads (template : String) : Names × List Warning :=
  let (parts, warnings) := parseTemplate template
  parts.foldl (fun (reads, warnings) part =>
    match part with
    | .text _ => (reads, warnings)
    | .placeholder p =>
      let (names, more) := expressionReads p.expression
      (reads.union names, warnings ++ more)) (∅, warnings)

end ReactiveNotebook.Analysis
