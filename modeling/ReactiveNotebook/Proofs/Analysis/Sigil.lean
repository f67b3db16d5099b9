import ReactiveNotebook.Proofs.Analysis.Lexing

/-!
# Removing dollar signs

A text without its dollar signs has the same tokens, now without dollar signs, where both scanners see the same texts:
no comment leaves a quote open, backtick texts have no dollar sign in their embedded expressions, and a name with a
dollar sign stands apart from what precedes it.
-/
namespace ReactiveNotebook.Analysis

variable {cs next body : List Char} {c quote : Char} {previous opened : Option Char} {escaped : Bool}

def quoteAfter (opened : Option Char) (escaped : Bool) (c : Char) : Option Char :=
  match opened with
  | some quote => if c != '\\' && c == quote && !escaped then none else some quote
  | none => if c == '"' || c == '\'' || c == '\x60' then some c else none

def escapedAfter (opened : Option Char) (escaped : Bool) (c : Char) : Bool := opened.isSome && c == '\\' && !escaped

def openQuote (opened : Option Char) (escaped : Bool) : List Char → Option Char
  | [] => opened
  | c :: cs => openQuote (quoteAfter opened escaped c) (escapedAfter opened escaped c) cs

/-- Whether the characters begin with a dollar sign and a name. -/
def startsWithSigil : List Char → Bool
  | [] => false
  | c :: cs => c == '$' && startsWithName cs

/-- One step of the scan. -/
lemma stripFrom_cons (previous opened : Option Char) (escaped : Bool) (c : Char) (cs : List Char) :
    stripFrom previous opened escaped (c :: cs) =
      (if opened.isNone && startsWithSigil (c :: cs) && !previous.any isNameRest then [] else [c]) ++
        stripFrom (some c) (quoteAfter opened escaped c) (escapedAfter opened escaped c) cs := by
  have hprevious : (previous.map isNameRest).getD false = previous.any isNameRest := by cases previous <;> rfl
  cases opened with
  | some quote =>
    rw [stripFrom]
    by_cases hc : c = '\\'
    · subst hc
      simp [quoteAfter, escapedAfter]
    · simp [quoteAfter, escapedAfter, hc, beq_false_of_ne hc]
  | none =>
    rw [stripFrom, hprevious]
    by_cases hc : (c == '"' || c == '\'' || c == '\x60') = true
    · have hdollar : (c == '$') = false := by
        rcases Bool.or_eq_true_iff.1 hc with h | h
        · rcases Bool.or_eq_true_iff.1 h with h | h <;> rw [eq_of_beq h] <;> rfl
        · rw [eq_of_beq h]
          rfl
      simp only [hc, if_true, quoteAfter, escapedAfter, startsWithSigil, hdollar]
      rfl
    · simp only [if_neg hc, quoteAfter, escapedAfter, startsWithSigil, startsWithName, Option.isNone_none,
        Option.isSome_none, Bool.true_and, Bool.false_and]
      split <;> rfl

/-- A character that is no dollar sign in front of a name stays. -/
lemma stripFrom_keep (h : startsWithSigil (c :: cs) = true → opened.isSome = true ∨ previous.any isNameRest = true) :
    stripFrom previous opened escaped (c :: cs) =
      c :: stripFrom (some c) (quoteAfter opened escaped c) (escapedAfter opened escaped c) cs := by
  rw [stripFrom_cons, if_neg]
  · rfl
  · simp only [Bool.and_eq_true, Bool.not_eq_true', Option.isNone_iff_eq_none]
    rintro ⟨⟨rfl, hsigil⟩, hprevious⟩
    rcases h hsigil with h | h
    · cases h
    · rw [hprevious] at h
      cases h

lemma stripFrom_sublist (cs : List Char) (previous opened : Option Char) (escaped : Bool) :
    (stripFrom previous opened escaped cs).Sublist cs := by
  induction cs generalizing previous opened escaped with
  | nil => exact List.nil_sublist _
  | cons c cs ih =>
    rw [stripFrom_cons]
    split
    · exact (ih _ _ _).trans (List.sublist_cons_self c cs)
    · exact (ih _ _ _).cons_cons c

lemma startsWithSigil_of_isNameStart (h : isNameStart c = true) : startsWithSigil (c :: cs) = false := by
  have hne : (c == '$') = false := beq_false_of_ne (ne_of_isNameRest (isNameRest_of_isNameStart h) rfl)
  rw [startsWithSigil, hne, Bool.false_and]

/-- The first character stays, or it is a dollar sign and a name comes first. -/
lemma head?_stripFrom (cs : List Char) :
    (stripFrom previous opened escaped cs).head? = cs.head? ∨
      startsWithSigil cs = true ∧ startsWithName (stripFrom previous opened escaped cs) = true := by
  cases cs with
  | nil => exact .inl rfl
  | cons c cs =>
    rw [stripFrom_cons]
    split
    · next h =>
      simp only [Bool.and_eq_true, Bool.not_eq_true', Option.isNone_iff_eq_none] at h
      obtain ⟨⟨rfl, hsigil⟩, -⟩ := h
      refine .inr ⟨hsigil, ?_⟩
      obtain ⟨-, hname⟩ := Bool.and_eq_true_iff.1 hsigil
      cases cs with
      | nil => cases hname
      | cons d cs =>
        rw [List.nil_append, stripFrom_keep]
        · exact hname
        · intro hd
          rw [startsWithSigil_of_isNameStart hname] at hd
          cases hd
    · exact .inl rfl

lemma stripFrom_none_escaped (cs : List Char) :
    stripFrom previous none escaped cs = stripFrom previous none false cs := by
  cases cs with
  | nil => rfl
  | cons c cs =>
    rw [stripFrom_cons, stripFrom_cons]
    rfl

/-- Where no quote is open, the scan goes on as it begins, unless a dollar sign and a name come together. -/
lemma stripFrom_append (hclosed : openQuote opened escaped body = none)
    (hjoin : startsWithName next = true → body.getLast? ≠ some '$') :
    stripFrom previous opened escaped (body ++ next) =
      stripFrom previous opened escaped body ++ stripFrom (body.getLast?.or previous) none false next := by
  induction body generalizing previous opened escaped with
  | nil =>
    obtain rfl : opened = none := hclosed
    exact stripFrom_none_escaped next
  | cons c body ih =>
    have hlast : ((c :: body).getLast?).or previous = body.getLast?.or (some c) := by
      rw [List.getLast?_cons]
      cases body.getLast? <;> rfl
    have hsigil : startsWithSigil (c :: (body ++ next)) = startsWithSigil (c :: body) := by
      cases body with
      | cons d body => rfl
      | nil =>
        rw [startsWithSigil, startsWithSigil, List.nil_append]
        cases hname : startsWithName next with
        | false => rfl
        | true =>
          have hne : c ≠ '$' := fun h => hjoin hname (congrArg some h)
          rw [beq_false_of_ne hne]
          rfl
    rw [List.cons_append, stripFrom_cons, stripFrom_cons, hsigil, hlast, List.append_assoc, ih hclosed]
    intro hname
    have hne := hjoin hname
    rw [List.getLast?_cons] at hne
    cases hbody : body.getLast? with
    | none => nofun
    | some d => simpa [hbody] using hne

lemma openQuote_append (hclosed : openQuote opened escaped body = none) :
    openQuote opened escaped (body ++ next) = openQuote none false next := by
  induction body generalizing opened escaped with
  | nil =>
    obtain rfl : opened = none := hclosed
    cases next <;> rfl
  | cons c body ih => exact ih hclosed

/-- A token without its dollar sign. -/
def Token.bare : Token → Token
  | .ident name _ => .ident name false
  | t => t

/-- What a stretch of text becomes without dollar signs. -/
def Lexeme.bare : Lexeme → Lexeme
  | .line body => .line (stripFrom (some '/') none false body)
  | .comment body => .comment (stripFrom (some '*') none false body)
  | .name _ first rest => .name false first rest
  | l => l

/-- Whether a name can go on where the stretch ends. -/
def Lexeme.joins : Lexeme → Bool
  | .number _ _ | .name _ _ _ => true
  | .sign c => c == '$'
  | _ => false

/-- Whether the scan sees the stretch as the lexer does: a comment leaves no quote open, and a backtick text is closed
and stays as it is. -/
def Lexeme.isStrippable : Lexeme → Bool
  | .line body | .comment body => (openQuote none false body).isNone
  | .template pieces =>
    (openQuote (some '\x60') false pieces.chars).isNone &&
      stripFrom (some '\x60') (some '\x60') false pieces.chars == pieces.chars &&
      pieces.tokens.all fun t => t.bare == t
  | _ => true

/-- What a text becomes without dollar signs. -/
def Layout.bare : Layout → Layout
  | .nil => .nil
  | .cons first rest => .cons first.bare rest.bare

/-- Whether the scan sees every stretch as the lexer does, and no name with a dollar sign joins what precedes it. -/
def Layout.isStrippable : Layout → Bool
  | .nil => true
  | .cons first rest => first.isStrippable && !(first.joins && startsWithSigil rest.chars) && rest.isStrippable

/-- A character that the scan passes over outside texts. -/
def IsPlain (c : Char) : Prop := quoteAfter none false c = none ∧ c ≠ '$'

lemma isPlain_of_isNameRest (h : isNameRest c = true) : IsPlain c := by
  have hne {d : Char} (hd : isNameRest d = false) : (c == d) = false := beq_false_of_ne (ne_of_isNameRest h hd)
  refine ⟨?_, ne_of_isNameRest h rfl⟩
  rw [quoteAfter, hne (d := '"') rfl, hne (d := '\'') rfl, hne (d := '\x60') rfl]
  rfl

/-- What a number is made of. -/
lemma of_mem_number {first : Char} (h : isNumberRest first next body = true) (hc : c ∈ body) :
    isNameRest c = true ∨ c = '.' ∨ c = '+' ∨ c = '-' := by
  induction body generalizing first with
  | nil => cases hc
  | cons d body ih =>
    obtain ⟨hd, hbody⟩ := Bool.and_eq_true_iff.1 h
    rcases List.mem_cons.1 hc with rfl | hc
    · simp only [goesOn, Bool.or_eq_true, Bool.and_eq_true, beq_iff_eq] at hd
      tauto
    · exact ih hbody hc

lemma isPlain_of_mem_number {first : Char} (h : isNumberRest first next body = true) (hc : c ∈ body) : IsPlain c := by
  rcases of_mem_number h hc with hc | rfl | rfl | rfl
  · exact isPlain_of_isNameRest hc
  · exact ⟨rfl, by decide⟩
  · exact ⟨rfl, by decide⟩
  · exact ⟨rfl, by decide⟩

lemma openQuote_plain (h : ∀ c ∈ body, IsPlain c) : openQuote none escaped body = none := by
  induction body generalizing escaped with
  | nil => rfl
  | cons c body ih =>
    obtain ⟨hc, hbody⟩ := List.forall_mem_cons.1 h
    exact (congrArg (openQuote · _ body) hc.1).trans (ih hbody)

lemma stripFrom_plain (h : ∀ c ∈ body, IsPlain c) : stripFrom previous none escaped body = body := by
  induction body generalizing previous escaped with
  | nil => rfl
  | cons c body ih =>
    obtain ⟨hc, hbody⟩ := List.forall_mem_cons.1 h
    have hsigil : startsWithSigil (c :: body) = false := by
      rw [startsWithSigil, beq_false_of_ne hc.2, Bool.false_and]
    have hquote : quoteAfter none escaped c = none := hc.1
    rw [stripFrom_keep (by simp [hsigil]), hquote, ih hbody]

lemma stripFrom_open (quote c : Char) (cs : List Char) :
    stripFrom previous (some quote) escaped (c :: cs) =
      c :: stripFrom (some c) (quoteAfter (some quote) escaped c) (escapedAfter (some quote) escaped c) cs :=
  stripFrom_keep fun _ => .inl rfl

/-- A text stays as it is up to its closing quote. -/
lemma scan_text (previous : Option Char) (h : isTextBody quote body = true) (hquote : quote ≠ '\\') :
    openQuote (some quote) false (body ++ [quote]) = none ∧
      stripFrom previous (some quote) false (body ++ [quote]) = body ++ [quote] := by
  fun_induction isTextBody quote body generalizing previous with
  | case1 =>
    have hclosed : quoteAfter (some quote) false quote = none := by simp [quoteAfter, hquote]
    rw [List.nil_append, stripFrom_open, hclosed]
    exact ⟨hclosed, rfl⟩
  | case2 => cases h
  | case3 c cs ih =>
    have hquotes : quoteAfter (some quote) false '\\' = some quote ∧ quoteAfter (some quote) true c = some quote := by
      simp [quoteAfter]
    have hescapes : escapedAfter (some quote) false '\\' = true ∧ escapedAfter (some quote) true c = false := by
      simp [escapedAfter]
    obtain ⟨hclosed, hsame⟩ := ih (some c) h
    exact ⟨by simpa only [List.cons_append, openQuote, hquotes, hescapes] using hclosed,
      by simp only [List.cons_append, stripFrom_open, hquotes, hescapes, hsame]⟩
  | case4 c cs hc hc' ih =>
    obtain ⟨hne, hcs⟩ := Bool.and_eq_true_iff.1 h
    have hopen : quoteAfter (some quote) false c = some quote := by simpa [quoteAfter] using fun _ => hne
    have hplain : escapedAfter (some quote) false c = false := by simp [escapedAfter, ne_backslash hc hc']
    obtain ⟨hclosed, hsame⟩ := ih (some c) hcs
    exact ⟨by simpa only [List.cons_append, openQuote, hopen, hplain] using hclosed,
      by simp only [List.cons_append, stripFrom_open, hopen, hplain, hsame]⟩

lemma quoteAfter_of_isBlank (h : Text.isBlank c = true) : quoteAfter none false c = none := by
  have hne {d : Char} (hd : Text.isBlank d = false) : (c == d) = false :=
    beq_false_of_ne fun hcd => by rw [hcd, hd] at h; cases h
  rw [quoteAfter, hne (d := '"') rfl, hne (d := '\'') rfl, hne (d := '\x60') rfl]
  rfl

lemma isPlain_of_mem_digits {first : Char} {rest : List Char} (h : (Lexeme.number first rest).fits next = true)
    (hc : c ∈ first :: rest) : IsPlain c := by
  obtain ⟨hfirst, hrest⟩ := Bool.and_eq_true_iff.1 h
  rcases List.mem_cons.1 hc with rfl | hc
  · exact isPlain_of_isNameRest (isNameRest_of_isDigit hfirst)
  · exact isPlain_of_mem_number hrest hc

lemma isNameRest_of_mem_name {dollar : Bool} {first : Char} {rest : List Char}
    (h : (Lexeme.name dollar first rest).fits next = true) (hc : c ∈ first :: rest) : isNameRest c = true := by
  obtain ⟨hname, -⟩ := Bool.and_eq_true_iff.1 h
  obtain ⟨hfirst, hrest⟩ := Bool.and_eq_true_iff.1 hname
  rcases List.mem_cons.1 hc with rfl | hc
  · exact isNameRest_of_isNameStart hfirst
  · exact List.all_eq_true.1 hrest c hc

lemma quoteAfter_of_isSign (h : isSign c next = true) : quoteAfter none false c = none := by
  simp only [isSign, Bool.and_eq_true, Bool.not_eq_true'] at h
  rw [quoteAfter, h.1.1.1.1.2]
  rfl

/-- The scan leaves no quote open after a stretch of text. -/
lemma Lexeme.openQuote_chars {l : Lexeme} (h : l.fits next = true) (hstrip : l.isStrippable = true) :
    openQuote none false l.chars = none := by
  cases l with
  | blank c => exact quoteAfter_of_isBlank h
  | line body => exact Option.isNone_iff_eq_none.1 hstrip
  | comment body => exact openQuote_append (Option.isNone_iff_eq_none.1 hstrip)
  | text quote body =>
    obtain ⟨hquote, hbody⟩ := Bool.and_eq_true_iff.1 h
    rcases Bool.or_eq_true_iff.1 hquote with h | h <;> obtain rfl := eq_of_beq h
    · exact (scan_text none hbody (by decide)).1
    · exact (scan_text none hbody (by decide)).1
  | template pieces =>
    simp only [Lexeme.isStrippable, Bool.and_eq_true] at hstrip
    exact Option.isNone_iff_eq_none.1 hstrip.1.1
  | number first rest => exact openQuote_plain fun c hc => isPlain_of_mem_digits h hc
  | name dollar first rest =>
    have hplain : openQuote none false (first :: rest) = none :=
      openQuote_plain fun c hc => isPlain_of_isNameRest (isNameRest_of_mem_name h hc)
    cases dollar <;> exact hplain
  | sign c => exact quoteAfter_of_isSign h

lemma stripFrom_singleton (c : Char) : stripFrom previous none false [c] = [c] := by
  rw [stripFrom_keep]
  · rfl
  · simp [startsWithSigil, startsWithName]

lemma stripFrom_slash (cs : List Char) :
    stripFrom previous none false ('/' :: cs) = '/' :: stripFrom (some '/') none false cs :=
  stripFrom_keep (by simp [startsWithSigil])

/-- What the scan makes of a stretch of text. -/
lemma Lexeme.stripFrom_chars {l : Lexeme} (h : l.fits next = true) (hstrip : l.isStrippable = true)
    (hdollar : startsWithSigil (l.chars ++ next) = true → previous.any isNameRest = false) :
    stripFrom previous none false l.chars = l.bare.chars := by
  cases l with
  | blank c => exact stripFrom_singleton c
  | line body => simp only [Lexeme.chars, Lexeme.bare, stripFrom_slash]
  | comment body =>
    have hstar : stripFrom (some '/') none false ('*' :: (body ++ ['*', '/'])) =
        '*' :: stripFrom (some '*') none false (body ++ ['*', '/']) := stripFrom_keep (by simp [startsWithSigil])
    simp only [Lexeme.chars, Lexeme.bare, stripFrom_slash]
    rw [hstar, stripFrom_append (Option.isNone_iff_eq_none.1 hstrip) fun hname => by cases hname]
    rfl
  | text quote body =>
    obtain ⟨hquote, hbody⟩ := Bool.and_eq_true_iff.1 h
    rcases Bool.or_eq_true_iff.1 hquote with h | h <;> obtain rfl := eq_of_beq h
    · exact congrArg _ (scan_text (some '"') hbody (by decide)).2
    · exact congrArg _ (scan_text (some '\'') hbody (by decide)).2
  | template pieces =>
    simp only [Lexeme.isStrippable, Bool.and_eq_true] at hstrip
    exact congrArg _ (eq_of_beq hstrip.1.2)
  | number first rest => exact stripFrom_plain fun c hc => isPlain_of_mem_digits h hc
  | name dollar first rest =>
    have hplain {previous : Option Char} : stripFrom previous none false (first :: rest) = first :: rest :=
      stripFrom_plain fun c hc => isPlain_of_isNameRest (isNameRest_of_mem_name h hc)
    cases dollar with
    | false => exact hplain
    | true =>
      obtain ⟨hname, -⟩ := Bool.and_eq_true_iff.1 h
      have hstart : startsWithSigil ('$' :: first :: rest) = true := (Bool.and_eq_true_iff.1 hname).1
      have hprevious : previous.any isNameRest = false := hdollar (Bool.and_eq_true_iff.1 hname).1
      simp only [Lexeme.chars, Lexeme.bare, if_true, List.singleton_append]
      rw [stripFrom_cons, hstart, hprevious]
      exact hplain
  | sign c => exact stripFrom_singleton c

lemma Pieces.getLast?_chars : ∀ pieces : Pieces, pieces.chars.getLast? = some '\x60'
  | .nil => rfl
  | .char _ rest => by simp [Pieces.chars, List.getLast?_cons, rest.getLast?_chars]
  | .embedded _ rest => by simp [Pieces.chars, List.getLast?_cons, rest.getLast?_chars]

/-- What a stretch of text ends in. -/
lemma Lexeme.getLast?_chars {l : Lexeme} (h : l.fits next = true) :
    l.joins = true ∨ next.head?.all (· == '\n') = true ∨
      ∃ c, l.chars.getLast? = some c ∧ isNameRest c = false ∧ c ≠ '$' := by
  cases l with
  | blank c =>
    refine .inr (.inr ⟨c, rfl, ?_, ?_⟩)
    · refine Bool.eq_false_iff.2 fun hc => ?_
      rw [Lexeme.fits, not_isBlank_of_isNameRest hc] at h
      cases h
    · rintro rfl
      cases h
  | line body => exact .inr (.inl (Bool.and_eq_true_iff.1 h).2)
  | comment body => exact .inr (.inr ⟨'/', by simp [Lexeme.chars, List.getLast?_cons], rfl, by decide⟩)
  | text quote body =>
    obtain ⟨hquote, -⟩ := Bool.and_eq_true_iff.1 h
    refine .inr (.inr ⟨quote, by simp [Lexeme.chars, List.getLast?_cons], ?_⟩)
    rcases Bool.or_eq_true_iff.1 hquote with h | h <;> obtain rfl := eq_of_beq h <;> decide
  | template pieces =>
    exact .inr (.inr ⟨'\x60', by simp [Lexeme.chars, List.getLast?_cons, pieces.getLast?_chars], rfl, by decide⟩)
  | number first rest => exact .inl rfl
  | name dollar first rest => exact .inl rfl
  | sign c =>
    by_cases hc : c = '$'
    · exact .inl (beq_iff_eq.2 hc)
    · refine .inr (.inr ⟨c, rfl, ?_, hc⟩)
      simp only [Lexeme.fits, isSign, Bool.and_eq_true, Bool.not_eq_true'] at h
      have hdigit := h.1.1.1.2
      have hname := h.1.1.2
      simp only [isNameStart, Bool.or_eq_false_iff] at hname
      simp [isNameRest, Char.isAlphanum, hdigit, hname]

/-- A dollar sign at the end of a stretch of text belongs to no name. -/
lemma Lexeme.getLast?_chars_ne {l : Lexeme} (h : l.fits next = true) (hnext : startsWithName next = true) :
    l.chars.getLast? ≠ some '$' := by
  rcases l.getLast?_chars h with hjoins | hend | ⟨c, hc, -, hne⟩
  · cases l with
    | number first rest => exact fun hc => (isPlain_of_mem_digits h (List.mem_of_getLast? hc)).2 rfl
    | name dollar first rest =>
      have hplain : (first :: rest).getLast? ≠ some '$' := fun hc => by
        cases isNameRest_of_mem_name h (List.mem_of_getLast? hc)
      cases dollar with
      | false => exact hplain
      | true => simpa [Lexeme.chars] using hplain
    | sign c =>
      obtain rfl : c = '$' := eq_of_beq hjoins
      simp [Lexeme.fits, isSign, hnext] at h
    | _ => cases hjoins
  · cases next with
    | nil => cases hnext
    | cons d next =>
      obtain rfl : d = '\n' := eq_of_beq hend
      cases hnext
  · rw [hc]
    exact fun h => hne (Option.some.inj h)

/-- Where no name can go on, a dollar sign in front of a name is removed. -/
lemma Lexeme.any_getLast?_chars {l : Lexeme} (h : l.fits next = true)
    (hjoins : (l.joins && startsWithSigil next) = false) (hnext : startsWithSigil next = true) :
    l.chars.getLast?.any isNameRest = false := by
  rcases l.getLast?_chars h with hl | hend | ⟨c, hc, hrest, -⟩
  · rw [hl, hnext] at hjoins
    cases hjoins
  · cases next with
    | nil => cases hnext
    | cons d next =>
      obtain rfl : d = '\n' := eq_of_beq hend
      cases hnext
  · rw [hc]
    exact hrest

lemma Lexeme.getLast?_chars_or (l : Lexeme) (previous : Option Char) :
    l.chars.getLast?.or previous = l.chars.getLast? := by
  cases h : l.chars.getLast? with
  | none =>
    have hpos := l.chars_pos
    rw [List.getLast?_eq_none_iff.1 h] at hpos
    cases hpos
  | some c => rfl

/-- What the scan makes of a text. -/
lemma Layout.stripFrom_chars : ∀ (layout : Layout) (previous : Option Char), layout.isProper = true →
    layout.isStrippable = true → (startsWithSigil layout.chars = true → previous.any isNameRest = false) →
    stripFrom previous none false layout.chars = layout.bare.chars
  | .nil, _, _, _, _ => rfl
  | .cons first rest, previous, h, hstrip, hdollar => by
    obtain ⟨hfits, hrest⟩ := Bool.and_eq_true_iff.1 h
    obtain ⟨hstrips, hstripRest⟩ := Bool.and_eq_true_iff.1 hstrip
    obtain ⟨hstripFirst, hjoins⟩ := Bool.and_eq_true_iff.1 hstrips
    rw [Bool.not_eq_true'] at hjoins
    rw [Layout.chars, stripFrom_append (first.openQuote_chars hfits hstripFirst) (first.getLast?_chars_ne hfits),
      first.stripFrom_chars hfits hstripFirst hdollar, first.getLast?_chars_or,
      rest.stripFrom_chars _ hrest hstripRest (first.any_getLast?_chars hfits hjoins)]
    rfl

lemma Lexeme.tokens_bare {l : Lexeme} (hstrip : l.isStrippable = true) : l.bare.tokens = l.tokens.map Token.bare := by
  cases l with
  | template pieces =>
    obtain ⟨-, hpieces⟩ := Bool.and_eq_true_iff.1 hstrip
    have hsame : pieces.tokens.map Token.bare = pieces.tokens :=
      (List.map_congr_left fun t ht => eq_of_beq (List.all_eq_true.1 hpieces t ht)).trans (List.map_id _)
    simp [Lexeme.bare, Lexeme.tokens, hsame, Token.bare]
  | _ => rfl

lemma Layout.tokens_bare : ∀ layout : Layout, layout.isStrippable = true →
    layout.bare.tokens = layout.tokens.map Token.bare
  | .nil, _ => rfl
  | .cons first rest, hstrip => by
    obtain ⟨hstrips, hstripRest⟩ := Bool.and_eq_true_iff.1 hstrip
    obtain ⟨hstripFirst, -⟩ := Bool.and_eq_true_iff.1 hstrips
    rw [Layout.bare, Layout.tokens, Layout.tokens, List.map_append, first.tokens_bare hstripFirst,
      rest.tokens_bare hstripRest]

/-- Whether the first character has a property that neither dollar signs nor names have. -/
lemma any_head?_stripFrom (f : Char → Bool) (hdollar : f '$' = false)
    (hname : ∀ c, isNameStart c = true → f c = false) (cs : List Char) :
    (stripFrom previous opened escaped cs).head?.any f = cs.head?.any f := by
  rcases head?_stripFrom cs with h | ⟨hsigil, hstart⟩
  · rw [h]
  · cases cs with
    | nil => cases hsigil
    | cons c cs =>
      obtain rfl : c = '$' := eq_of_beq (Bool.and_eq_true_iff.1 hsigil).1
      rw [List.head?_cons, Option.any_some, hdollar]
      cases hhead : (stripFrom previous opened escaped ('$' :: cs)).head? with
      | none => rfl
      | some d =>
        rw [startsWithName, hhead] at hstart
        exact hname d hstart

lemma head?_stripFrom_of_not_sigil (h : startsWithSigil cs = false) :
    (stripFrom previous opened escaped cs).head? = cs.head? := by
  rcases head?_stripFrom cs with hhead | ⟨hsigil, -⟩
  · exact hhead
  · rw [h] at hsigil
    cases hsigil

lemma startsWithDigit_stripFrom (cs : List Char) :
    startsWithDigit (stripFrom previous opened escaped cs) = startsWithDigit cs := by
  have hhead (cs : List Char) : startsWithDigit cs = cs.head?.any Char.isDigit := by cases cs <;> rfl
  rw [hhead, hhead]
  exact any_head?_stripFrom _ rfl (fun c hc => not_isDigit_of_isNameStart hc) cs

lemma head?_stripFrom_beq {d : Char} (hd : isNameStart d = false) (hdollar : d ≠ '$') (cs : List Char) :
    ((stripFrom previous opened escaped cs).head? == some d) = (cs.head? == some d) := by
  have hhead (cs : List Char) : (cs.head? == some d) = cs.head?.any (· == d) := by cases cs <;> rfl
  rw [hhead, hhead]
  refine any_head?_stripFrom (· == d) (beq_false_of_ne hdollar.symm) (fun c hc => ?_) cs
  refine beq_false_of_ne ?_
  rintro rfl
  rw [hc] at hd
  cases hd

lemma afterComment_cons (c : Char) (cs : List Char) :
    afterComment (c :: cs) = if c == '*' && cs.head? == some '/' then some cs.tail else afterComment cs := by
  split
  · next h =>
    obtain ⟨hc, hhead⟩ := Bool.and_eq_true_iff.1 h
    obtain rfl := eq_of_beq hc
    obtain ⟨rest, rfl⟩ := List.head?_eq_some_iff.1 (eq_of_beq hhead)
    rfl
  · next h =>
    rw [afterComment]
    rintro rest rfl rfl
    exact h rfl

/-- No comment ends where none ended before. -/
lemma afterComment_stripFrom (h : afterComment cs = none) :
    afterComment (stripFrom previous opened escaped cs) = none := by
  induction cs generalizing previous opened escaped with
  | nil => rfl
  | cons c cs ih =>
    rw [afterComment_cons] at h
    split at h
    · cases h
    · next hc =>
      rw [stripFrom_cons]
      split
      · exact ih h
      · rw [List.singleton_append, afterComment_cons, head?_stripFrom_beq (by decide) (by decide), if_neg hc, ih h]

lemma goesOn_stripFrom (last c : Char) (cs : List Char) :
    goesOn last c (stripFrom previous opened escaped cs) = goesOn last c cs := by
  rw [goesOn, goesOn, startsWithDigit_stripFrom]

lemma isNumberRest_stripFrom {last : Char} (h : isNumberRest last next body = true)
    (hsigil : startsWithSigil next = false) : isNumberRest last (stripFrom previous none false next) body = true := by
  induction body generalizing last with
  | nil =>
    cases next with
    | nil => rfl
    | cons c cs =>
      rw [stripFrom_keep (by simp [hsigil])]
      simpa [isNumberRest, goesOn_stripFrom] using h
  | cons c body ih =>
    obtain ⟨hc, hbody⟩ := Bool.and_eq_true_iff.1 h
    refine Bool.and_eq_true_iff.2 ⟨?_, ih hbody⟩
    cases body with
    | nil => exact (goesOn_stripFrom last c next).trans hc
    | cons d body => exact hc

lemma isSign_stripFrom (hsigil : (c == '$' && startsWithSigil next) = false) :
    isSign c (stripFrom previous none false next) = isSign c next := by
  have hname : (c == '$' && startsWithName (stripFrom previous none false next)) =
      (c == '$' && startsWithName next) := by
    cases hc : c == '$' with
    | false => rfl
    | true =>
      rw [hc, Bool.true_and] at hsigil
      rw [startsWithName, startsWithName, head?_stripFrom_of_not_sigil hsigil]
  rw [isSign, isSign, hname, head?_stripFrom_beq (by decide) (by decide), head?_stripFrom_beq (by decide) (by decide)]

/-- What a stretch of text becomes fits what follows it becomes. -/
lemma Lexeme.fits_bare {l : Lexeme} (h : l.fits next = true) (hjoins : (l.joins && startsWithSigil next) = false) :
    l.bare.fits (stripFrom previous none false next) = true := by
  cases l with
  | blank c => exact h
  | line body =>
    obtain ⟨hbody, hend⟩ := Bool.and_eq_true_iff.1 h
    have hsigil : startsWithSigil next = false := by
      cases next with
      | nil => rfl
      | cons c cs =>
        obtain rfl : c = '\n' := eq_of_beq hend
        rfl
    rw [Lexeme.bare, Lexeme.fits, head?_stripFrom_of_not_sigil hsigil, hend, Bool.and_true, Bool.not_eq_true',
      Bool.eq_false_iff, Ne, List.contains_iff_mem]
    intro hmem
    simp [(stripFrom_sublist _ _ _ _).subset hmem] at hbody
  | comment body =>
    exact Option.isNone_iff_eq_none.2 (afterComment_stripFrom (Option.isNone_iff_eq_none.1 h))
  | text quote body => exact h
  | template pieces => exact h
  | number first rest =>
    obtain ⟨hfirst, hrest⟩ := Bool.and_eq_true_iff.1 h
    exact Bool.and_eq_true_iff.2 ⟨hfirst, isNumberRest_stripFrom hrest hjoins⟩
  | name dollar first rest =>
    obtain ⟨hname, hend⟩ := Bool.and_eq_true_iff.1 h
    refine Bool.and_eq_true_iff.2 ⟨hname, ?_⟩
    rw [startsWithNameRest, head?_stripFrom_of_not_sigil hjoins]
    exact hend
  | sign c => exact (isSign_stripFrom hjoins).trans h

lemma Layout.isProper_bare : ∀ (layout : Layout), layout.isProper = true → layout.isStrippable = true →
    layout.bare.isProper = true
  | .nil, _, _ => rfl
  | .cons first rest, h, hstrip => by
    obtain ⟨hfits, hrest⟩ := Bool.and_eq_true_iff.1 h
    obtain ⟨hstrips, hstripRest⟩ := Bool.and_eq_true_iff.1 hstrip
    obtain ⟨hstripFirst, hjoins⟩ := Bool.and_eq_true_iff.1 hstrips
    rw [Bool.not_eq_true'] at hjoins
    have hchars := rest.stripFrom_chars _ hrest hstripRest (first.any_getLast?_chars hfits hjoins)
    refine Bool.and_eq_true_iff.2 ⟨?_, rest.isProper_bare hrest hstripRest⟩
    rw [← hchars]
    exact first.fits_bare hfits hjoins

/-- A text without its dollar signs has the same tokens without theirs, and no open literal. -/
theorem lex_stripSigils (layout : Layout) {text : String} (hproper : layout.isProper = true)
    (hchars : layout.chars = text.toList) (hstrip : layout.isStrippable = true) :
    lex (stripSigils text).toList = ⟨(lex text.toList).tokens.map Token.bare, none⟩ := by
  have htokens : lex text.toList = ⟨layout.tokens, none⟩ := lex_eq_iff.2 ⟨layout, hproper, hchars, rfl⟩
  rw [lex_eq_iff, htokens, stripSigils, String.toList_ofList, ← hchars]
  exact ⟨layout.bare, layout.isProper_bare hproper hstrip,
    (layout.stripFrom_chars none hproper hstrip fun _ => rfl).symm, layout.tokens_bare hstrip⟩

/-- A dollar sign in a text or in a comment with a quoted word does no harm. -/
theorem lex_stripSigils_quoted :
    lex (stripSigils "/* a \"$y\" */ $x * f('$y')").toList =
      ⟨(lex "/* a \"$y\" */ $x * f('$y')".toList).tokens.map Token.bare, none⟩ :=
  lex_stripSigils
    (.cons (.comment " a \"$y\" ".toList) <| .cons (.blank ' ') <| .cons (.name true 'x' []) <| .cons (.blank ' ') <|
      .cons (.sign '*') <| .cons (.blank ' ') <| .cons (.name false 'f' []) <| .cons (.sign '(') <|
      .cons (.text '\'' "$y".toList) <| .cons (.sign ')') .nil)
    (by decide) (by decide) (by decide)

/-- An apostrophe in a comment opens a text for the scan alone, and the dollar signs after it stay. -/
theorem lex_stripSigils_after_apostrophe :
    (lex "/* don't round */ $x * 2".toList).unterminated = none ∧
      (lex (stripSigils "/* don't round */ $x * 2").toList).tokens ≠
        (lex "/* don't round */ $x * 2".toList).tokens.map Token.bare := by
  decide

end ReactiveNotebook.Analysis
