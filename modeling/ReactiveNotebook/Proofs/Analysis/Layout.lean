import Mathlib.Tactic
import ReactiveNotebook.Analysis.Token

/-!
# Layouts of texts

A text is laid out as a sequence of blanks, comments, texts, numbers, names and single characters. Each of them
reaches as far as it can, which depends on what follows it.
-/
namespace ReactiveNotebook.Analysis

/-- Whether the characters can stand between two quotes: a quote inside is escaped. -/
def isTextBody (quote : Char) : List Char → Bool
  | [] => true
  | ['\\'] => false
  | '\\' :: _ :: cs => isTextBody quote cs
  | c :: cs => c != quote && isTextBody quote cs

/-- What the characters between two quotes stand for. -/
def unescape : List Char → List Char
  | [] => []
  | ['\\'] => []
  | '\\' :: c :: cs => c :: unescape cs
  | c :: cs => c :: unescape cs

/-- Whether a number whose last character was `last` goes on with `c`, which `next` follows. -/
def goesOn (last c : Char) (next : List Char) : Bool :=
  isNameRest c || (c == '.' && startsWithDigit next) ||
    ((c == '+' || c == '-') && (last == 'e' || last == 'E') && startsWithDigit next)

/-- Whether a number goes on with the characters after `last` and ends before `next`. -/
def isNumberRest (last : Char) (next : List Char) : List Char → Bool
  | [] =>
    match next with
    | [] => true
    | c :: cs => !goesOn last c cs
  | c :: cs => goesOn last c (cs ++ next) && isNumberRest c next cs

/-- Whether the braces are balanced, with `depth` open ones before. -/
def isBalanced (depth : ℕ) : List Char → Bool
  | [] => depth == 0
  | c :: cs =>
    !(c == '\x7d' && depth == 0) &&
      isBalanced (if c == '\x7b' then depth + 1 else if c == '\x7d' then depth - 1 else depth) cs

/-- Whether a name goes on with the characters. -/
def startsWithNameRest (cs : List Char) : Bool := (cs.head?.map isNameRest).getD false

/-- Whether the characters begin with a name. -/
def startsWithName (cs : List Char) : Bool := (cs.head?.map isNameStart).getD false

/-- Whether a character that `next` follows is a token of its own. -/
def isSign (c : Char) (next : List Char) : Bool :=
  !Text.isBlank c && !(c == '"' || c == '\'' || c == '\x60') && !c.isDigit && !isNameStart c &&
    !(c == '/' && (next.head? == some '/' || next.head? == some '*')) && !(c == '$' && startsWithName next)

mutual

/-- A stretch of text that is read in one piece. -/
inductive Lexeme where
  | blank (c : Char)
  /-- A comment up to the end of its line. -/
  | line (body : List Char)
  | comment (body : List Char)
  /-- A text between two quotes. -/
  | text (quote : Char) (body : List Char)
  /-- A backtick text. -/
  | template (pieces : Pieces)
  | number (first : Char) (rest : List Char)
  | name (dollar : Bool) (first : Char) (rest : List Char)
  | sign (c : Char)

/-- What stands between two backticks. -/
inductive Pieces where
  | nil
  | char (c : Char) (rest : Pieces)
  | embedded (inner : Layout) (rest : Pieces)

/-- Stretches of text one after the other. -/
inductive Layout where
  | nil
  | cons (first : Lexeme) (rest : Layout)

end

mutual

/-- The characters of a stretch of text. -/
def Lexeme.chars : Lexeme → List Char
  | .blank c => [c]
  | .line body => '/' :: '/' :: body
  | .comment body => '/' :: '*' :: (body ++ ['*', '/'])
  | .text quote body => quote :: (body ++ [quote])
  | .template pieces => '\x60' :: pieces.chars
  | .number first rest => first :: rest
  | .name dollar first rest => (if dollar then ['$'] else []) ++ first :: rest
  | .sign c => [c]

/-- The characters of a backtick text after its first one. -/
def Pieces.chars : Pieces → List Char
  | .nil => ['\x60']
  | .char c rest => c :: rest.chars
  | .embedded inner rest => '$' :: '\x7b' :: (inner.chars ++ '\x7d' :: rest.chars)

/-- The characters of a text. -/
def Layout.chars : Layout → List Char
  | .nil => []
  | .cons first rest => first.chars ++ rest.chars

end

/-- The characters of a backtick text outside the embedded expressions. -/
def Pieces.plain : Pieces → List Char
  | .nil => []
  | .char c rest => c :: rest.plain
  | .embedded _ rest => rest.plain

mutual

def Lexeme.tokens : Lexeme → List Token
  | .blank _ | .line _ | .comment _ => []
  | .text _ body => [.text (String.ofList (unescape body))]
  | .template pieces => pieces.tokens ++ [.text (String.ofList pieces.plain)]
  | .number _ _ => [.number]
  | .name dollar first rest => [.ident (String.ofList (first :: rest)) dollar]
  | .sign c => [.punct c]

/-- The tokens of the expressions embedded in a backtick text. -/
def Pieces.tokens : Pieces → List Token
  | .nil => []
  | .char _ rest => rest.tokens
  | .embedded inner rest => .punct '(' :: (inner.tokens ++ .punct ')' :: rest.tokens)

def Layout.tokens : Layout → List Token
  | .nil => []
  | .cons first rest => first.tokens ++ rest.tokens

end

mutual

/-- Whether a stretch of text reaches just as far as `next`. -/
def Lexeme.fits (next : List Char) : Lexeme → Bool
  | .blank c => Text.isBlank c
  | .line body => !body.contains '\n' && (next.head?.all (· == '\n'))
  | .comment body => (afterComment body).isNone
  | .text quote body => (quote == '"' || quote == '\'') && isTextBody quote body
  | .template pieces => pieces.isProper
  | .number first rest => first.isDigit && isNumberRest first next rest
  | .name _ first rest => isNameStart first && rest.all isNameRest && !startsWithNameRest next
  | .sign c => isSign c next

/-- Whether a backtick text is made of the pieces. -/
def Pieces.isProper : Pieces → Bool
  | .nil => true
  | .char c rest => c != '\x60' && !(c == '$' && rest.chars.head? == some '\x7b') && rest.isProper
  | .embedded inner rest => isBalanced 0 inner.chars && inner.isProper && rest.isProper

/-- Whether every stretch of text reaches just as far as the next one. -/
def Layout.isProper : Layout → Bool
  | .nil => true
  | .cons first rest => first.fits rest.chars && rest.isProper

end

/-- The tokens can be written as the characters. -/
def Writes (ts : List Token) (cs : List Char) : Prop :=
  ∃ layout : Layout, layout.isProper = true ∧ layout.chars = cs ∧ layout.tokens = ts

section
variable {c d : Char}

lemma isNameRest_of_isNameStart (h : isNameStart c = true) : isNameRest c = true := by
  simp only [isNameStart, isNameRest, Char.isAlphanum, Bool.or_eq_true] at h ⊢
  tauto

lemma isNameRest_of_isDigit (h : c.isDigit = true) : isNameRest c = true := by
  simp [isNameRest, Char.isAlphanum, h]

lemma ne_of_isNameRest (h : isNameRest c = true) (hd : isNameRest d = false) : c ≠ d := by
  rintro rfl
  rw [h] at hd
  cases hd

lemma isAlpha_iff : c.isAlpha = true ↔ (65 ≤ c.toNat ∧ c.toNat ≤ 90) ∨ (97 ≤ c.toNat ∧ c.toNat ≤ 122) := by
  change (decide (c.val ≥ 'A'.val ∧ c.val ≤ 'Z'.val) ||
    (decide (c.val ≥ 'a'.val) && decide (c.val ≤ 'z'.val))) = true ↔ _
  simp only [Bool.or_eq_true, Bool.and_eq_true, decide_eq_true_eq, ge_iff_le, UInt32.le_iff_toNat_le]
  exact Iff.rfl

lemma isDigit_iff : c.isDigit = true ↔ 48 ≤ c.toNat ∧ c.toNat ≤ 57 := by
  simp only [Char.isDigit, Bool.and_eq_true, decide_eq_true_eq, ge_iff_le, UInt32.le_iff_toNat_le]
  exact Iff.rfl

lemma toNat_of_isNameRest (h : isNameRest c = true) : 48 ≤ c.toNat ∧ c.toNat ≤ 122 := by
  simp only [isNameRest, Char.isAlphanum, Bool.or_eq_true, isAlpha_iff, isDigit_iff, beq_iff_eq] at h
  rcases h with (h | h) | rfl
  · omega
  · omega
  · decide

lemma not_isDigit_of_isNameStart (h : isNameStart c = true) : c.isDigit = false := by
  rw [Bool.eq_false_iff, Ne, isDigit_iff]
  simp only [isNameStart, Bool.or_eq_true, isAlpha_iff, beq_iff_eq] at h
  rcases h with h | rfl
  · omega
  · decide

lemma not_isBlank_of_isNameRest (h : isNameRest c = true) : Text.isBlank c = false := by
  obtain ⟨hlow, hhigh⟩ := toNat_of_isNameRest h
  simp only [Text.isBlank, Bool.or_eq_false_iff, Bool.and_eq_false_iff, decide_eq_false_iff_not, beq_eq_false_iff_ne]
  omega

end

section
variable {cs next body : List Char} {quote : Char}

lemma afterComment_append (h : afterComment body = none) : afterComment (body ++ '*' :: '/' :: next) = some next := by
  fun_induction afterComment body with
  | case1 => cases h
  | case2 c cs hc ih =>
    rw [List.cons_append, afterComment]
    · exact ih h
    · rintro rest rfl hrest
      cases cs with
      | nil => cases hrest
      | cons d cs =>
        obtain ⟨rfl, rfl⟩ := List.cons_eq_cons.1 hrest
        exact hc _ rfl rfl
  | case3 => rfl

lemma exists_of_afterComment (h : afterComment cs = some next) :
    ∃ body, cs = body ++ '*' :: '/' :: next ∧ afterComment body = none := by
  fun_induction afterComment cs with
  | case1 rest =>
    obtain rfl := Option.some.inj h
    exact ⟨[], rfl, rfl⟩
  | case2 c cs hc ih =>
    obtain ⟨body, rfl, hbody⟩ := ih h
    refine ⟨c :: body, rfl, ?_⟩
    rw [afterComment]
    · exact hbody
    · rintro rest rfl rfl
      exact hc _ rfl rfl
  | case3 => cases h

lemma ne_backslash {c : Char} (h : c = '\\' → cs = [] → False)
    (h' : ∀ (d : Char) (rest : List Char), c = '\\' → cs = d :: rest → False) : c ≠ '\\' := fun hc => by
  cases cs with
  | nil => exact h hc rfl
  | cons d rest => exact h' d rest hc rfl

lemma readText_cons {c : Char} (hc : c ≠ '\\') :
    readText quote (c :: cs) =
      if c == quote then ([], true, cs) else (c :: (readText quote cs).1, (readText quote cs).2) := by
  rw [readText]
  · intro h
    exact absurd h hc
  · intro _ _ h
    exact absurd h hc

lemma isTextBody_cons {c : Char} (hc : c ≠ '\\') :
    isTextBody quote (c :: cs) = (c != quote && isTextBody quote cs) := by
  rw [isTextBody]
  · intro h
    exact absurd h hc
  · intro _ _ h
    exact absurd h hc

lemma unescape_cons {c : Char} (hc : c ≠ '\\') : unescape (c :: cs) = c :: unescape cs := by
  rw [unescape]
  · intro h
    exact absurd h hc
  · intro _ _ h
    exact absurd h hc

lemma readText_append (hquote : quote ≠ '\\') (h : isTextBody quote body = true) :
    readText quote (body ++ quote :: next) = (unescape body, true, next) := by
  fun_induction isTextBody quote body with
  | case1 =>
    rw [List.nil_append, readText_cons hquote, beq_self_eq_true, if_pos rfl]
    rfl
  | case2 => cases h
  | case3 c cs ih =>
    have hread := ih h
    simp only [List.cons_append, readText, hread, unescape]
  | case4 c cs hc hc' ih =>
    have hc := ne_backslash hc hc'
    obtain ⟨hne, hcs⟩ := Bool.and_eq_true_iff.1 h
    rw [List.cons_append, readText_cons hc, if_neg (by simpa using hne), ih hcs, unescape_cons hc]

lemma exists_of_readText (h : (readText quote cs).2.1 = true) :
    ∃ body, cs = body ++ quote :: (readText quote cs).2.2 ∧ isTextBody quote body = true ∧
      unescape body = (readText quote cs).1 := by
  fun_induction readText quote cs with
  | case1 => cases h
  | case2 => cases h
  | case3 c cs content closed after hread ih =>
    rw [hread] at ih
    obtain ⟨body, hcs, hbody, hcontent⟩ := ih h
    exact ⟨'\\' :: c :: body, congrArg (fun cs => '\\' :: c :: cs) hcs, hbody, congrArg (c :: ·) hcontent⟩
  | case4 c cs hc hc' heq =>
    obtain rfl := eq_of_beq heq
    exact ⟨[], rfl, rfl, rfl⟩
  | case5 c cs hc hc' hne content closed after hread ih =>
    have hc := ne_backslash hc hc'
    rw [hread] at ih
    obtain ⟨body, hcs, hbody, hcontent⟩ := ih h
    refine ⟨c :: body, congrArg (c :: ·) hcs, ?_, ?_⟩
    · rw [isTextBody_cons hc, hbody, Bool.and_true]
      simpa using hne
    · rw [unescape_cons hc, hcontent]

lemma afterNumber_cons (last c : Char) (cs : List Char) :
    afterNumber last (c :: cs) = if goesOn last c cs then afterNumber c cs else c :: cs := by
  rw [afterNumber, goesOn]
  generalize (c == '.' && startsWithDigit cs) = point
  generalize ((c == '+' || c == '-') && (last == 'e' || last == 'E') && startsWithDigit cs) = exponent
  cases isNameRest c <;> cases point <;> cases exponent <;> rfl

lemma afterNumber_append {last : Char} (h : isNumberRest last next body = true) :
    afterNumber last (body ++ next) = next := by
  induction body generalizing last with
  | nil =>
    cases next with
    | nil => rfl
    | cons c cs =>
      rw [List.nil_append, afterNumber_cons, if_neg (by simpa [isNumberRest] using h)]
  | cons c body ih =>
    obtain ⟨hc, hbody⟩ := Bool.and_eq_true_iff.1 h
    rw [List.cons_append, afterNumber_cons, if_pos hc, ih hbody]

lemma exists_of_afterNumber (last : Char) (cs : List Char) :
    ∃ body, cs = body ++ afterNumber last cs ∧ isNumberRest last (afterNumber last cs) body = true := by
  induction cs generalizing last with
  | nil => exact ⟨[], rfl, rfl⟩
  | cons c cs ih =>
    rw [afterNumber_cons]
    split
    · next hc =>
      obtain ⟨body, hcs, hbody⟩ := ih c
      refine ⟨c :: body, congrArg (c :: ·) hcs, ?_⟩
      rw [isNumberRest, ← hcs, hc, hbody]
      rfl
    · next hc => exact ⟨[], rfl, by simpa [isNumberRest] using hc⟩

lemma readEmbedded_append {depth : ℕ} (h : isBalanced depth body = true) :
    readEmbedded depth (body ++ '\x7d' :: next) = (body, next) := by
  induction body generalizing depth with
  | nil =>
    obtain rfl : depth = 0 := eq_of_beq h
    rfl
  | cons c body ih =>
    obtain ⟨hc, hbody⟩ := Bool.and_eq_true_iff.1 h
    rw [List.cons_append, readEmbedded, if_neg (by simpa only [Bool.not_eq_true', Bool.not_eq_true] using hc)]
    simp only [ih hbody]

lemma exists_of_readEmbedded {depth : ℕ} (h : (readEmbedded depth cs).2 ≠ []) :
    isBalanced depth (readEmbedded depth cs).1 = true ∧
      cs = (readEmbedded depth cs).1 ++ '\x7d' :: (readEmbedded depth cs).2 := by
  induction cs generalizing depth with
  | nil => exact absurd rfl h
  | cons c cs ih =>
    rw [readEmbedded] at h ⊢
    split
    · next hc =>
      obtain ⟨hc, hdepth⟩ := Bool.and_eq_true_iff.1 hc
      obtain rfl := eq_of_beq hc
      exact ⟨hdepth, rfl⟩
    · next hc =>
      rw [if_neg hc] at h
      obtain ⟨hbody, hcs⟩ := ih h
      refine ⟨?_, congrArg (c :: ·) hcs⟩
      rw [isBalanced, hbody, Bool.and_true]
      simpa only [Bool.not_eq_true', Bool.not_eq_true] using hc

end

end ReactiveNotebook.Analysis
