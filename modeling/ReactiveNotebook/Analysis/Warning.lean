import ReactiveNotebook.Analysis.FreeName

/-!
# Reads of scripts and expressions

Analysis never fails. Malformed text contributes what it can, or nothing, and yields a warning with the byte
offset of the construct that never closes.
-/
namespace ReactiveNotebook.Analysis

/-- A problem found in the text of a cell. -/
inductive Warning where
  | unterminatedPlaceholder (offset : Nat)
  | unterminatedLiteral (offset : Nat)
  deriving DecidableEq, Repr

namespace Warning

def message : Warning → String
  | .unterminatedPlaceholder offset => s!"Unterminated placeholder at byte {offset}"
  | .unterminatedLiteral offset => s!"Unterminated string or comment at byte {offset}"

end Warning

/-- The variables a script reads. A script with an open text is analyzed as far as its tokens go. -/
def scriptReads (source : String) : Names × List Warning :=
  let lexed := lex source.toList
  (freeNames lexed.tokens, lexed.unterminated.toList.map .unterminatedLiteral)

/-- The variables an expression reads. An expression with an open text reads nothing. -/
def expressionReads (text : String) : Names × List Warning :=
  let lexed := lex text.toList
  match lexed.unterminated with
  | some offset => (∅, [.unterminatedLiteral offset])
  | none => (freeNames lexed.tokens, [])

def exportEstimate (source : String) : Names :=
  exportedNames (lex source.toList).tokens

end ReactiveNotebook.Analysis
