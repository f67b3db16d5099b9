import ReactiveNotebook.Cell.Basic
import ReactiveNotebook.Proofs.Analysis.Cut
import ReactiveNotebook.Proofs.Analysis.FilterBar

/-!
# Where literals stay open

The offset of a warning is the place of the literal or placeholder that never closes, also in nested embedded
expressions: in the text of a formula or a script, and of a template for a placeholder. A literal in a placeholder is
counted from the start of its trimmed expression.
-/
namespace ReactiveNotebook.Analysis

variable {cs before after front back next : List Char} {c : Char} {fuel offset start o n : ℕ}

/-- Whether the characters begin with a quote, a backtick or the mark of a comment. -/
def startsLiteral : List Char → Bool
  | '/' :: '*' :: _ => true
  | c :: _ => c == '"' || c == '\'' || c == '\x60'
  | [] => false

/-- Whether a stretch of text is a text, a backtick text or a comment with an end of its own. -/
def Lexeme.isLiteral : Lexeme → Bool
  | .text _ _ | .template _ | .comment _ => true
  | _ => false

/-- A literal begins with the characters, and none that begins there is closed. -/
def OpensLiteral (cs : List Char) : Prop :=
  startsLiteral cs = true ∧ ∀ l : Lexeme, l.isLiteral = true → l.fits [] = true → ¬ l.chars <+: cs

/-- `offset` bytes after the start of the characters begins a literal that is not closed before the end of the
characters, or before the brace at the end of the embedded expression that it stands in. -/
def OpenLiteralAt (offset : ℕ) (cs : List Char) : Prop :=
  ∃ before literal after, cs = before ++ literal ++ after ∧ Text.byteLength before = offset ∧ OpensLiteral literal ∧
    after.head?.all (· == '\x7d') = true

lemma startsLiteral_append (h : startsLiteral cs = true) : startsLiteral (cs ++ after) = true := by
  fun_cases startsLiteral cs with
  | case1 => rfl
  | case2 c cs hslash =>
    rw [startsLiteral] at h
    · simp only [Bool.or_eq_true, beq_iff_eq] at h
      rcases h with (rfl | rfl) | rfl <;> rfl
    · exact hslash
  | case3 => cases h

lemma OpensLiteral.openLiteralAt (h : OpensLiteral cs) : OpenLiteralAt 0 cs := ⟨[], cs, [], by simp, rfl, h, rfl⟩

/-- Characters in front of an open literal move it on. -/
lemma OpenLiteralAt.behind (h : OpenLiteralAt n cs) (front : List Char) :
    OpenLiteralAt (Text.byteLength front + n) (front ++ cs) := by
  obtain ⟨before, literal, after, rfl, rfl, hopen, hafter⟩ := h
  exact ⟨front ++ before, literal, after, by simp, by simp, hopen, hafter⟩

/-- A literal that is open in an embedded expression is open in what follows its brace. -/
lemma OpenLiteralAt.embedded (h : OpenLiteralAt n cs) (hback : back.head?.all (· == '\x7d') = true) :
    OpenLiteralAt n (cs ++ back) := by
  obtain ⟨before, literal, after, rfl, hoffset, hopen, hafter⟩ := h
  refine ⟨before, literal, after ++ back, by simp, hoffset, hopen, ?_⟩
  cases after with
  | nil => exact hback
  | cons c after => exact hafter

lemma opensLiteral_comment {body : List Char} (h : afterComment body = none) : OpensLiteral ('/' :: '*' :: body) := by
  refine ⟨rfl, fun l hl hfits hchars => ?_⟩
  obtain ⟨next, hnext⟩ := hchars
  cases l with
  | comment inside =>
    have hinside : inside ++ '*' :: '/' :: next = body := by simpa [Lexeme.chars] using hnext
    rw [← hinside, afterComment_append (Option.isNone_iff_eq_none.1 hfits)] at h
    cases h
  | text quote inside =>
    obtain ⟨rfl, -⟩ := List.cons_eq_cons.1 hnext
    cases hfits
  | template pieces => cases hnext
  | _ => cases hl

lemma opensLiteral_text (hquote : (c == '"' || c == '\'') = true) (h : (readText c cs).2.1 = false) :
    OpensLiteral (c :: cs) := by
  have hc : c ≠ '/' ∧ c ≠ '\\' ∧ c ≠ '\x60' := by
    rcases Bool.or_eq_true_iff.1 hquote with h | h <;> obtain rfl := eq_of_beq h <;> decide
  refine ⟨?_, fun l hl hfits hchars => ?_⟩
  · rw [startsLiteral, hquote]
    · rfl
    · exact fun _ hslash => absurd hslash hc.1
  obtain ⟨next, hnext⟩ := hchars
  cases l with
  | comment inside =>
    obtain ⟨rfl, -⟩ := List.cons_eq_cons.1 hnext
    exact hc.1 rfl
  | text quote inside =>
    obtain ⟨rfl, rfl⟩ : quote = c ∧ inside ++ quote :: next = cs := by simpa [Lexeme.chars] using hnext
    rw [readText_append hc.2.1 (Bool.and_eq_true_iff.1 hfits).2] at h
    cases h
  | template pieces =>
    obtain ⟨rfl, -⟩ := List.cons_eq_cons.1 hnext
    exact hc.2.2 rfl
  | _ => cases hl

lemma opensLiteral_template (h : ∀ pieces : Pieces, pieces.isProper = true → ¬ pieces.chars <+: cs) :
    OpensLiteral ('\x60' :: cs) := by
  refine ⟨rfl, fun l hl hfits hchars => ?_⟩
  cases l with
  | comment inside => cases (List.cons_prefix_cons.1 hchars).1
  | text quote inside =>
    obtain ⟨rfl, -⟩ := List.cons_prefix_cons.1 hchars
    cases hfits
  | template pieces => exact h pieces hfits (List.cons_prefix_cons.1 hchars).2
  | _ => cases hl

/-- Outside of backtick texts one step meets an open literal or goes on with what follows a stretch of text. -/
lemma exists_of_unterminated (hc : c ≠ '\x60') (h : (lexFrom (fuel + 1) offset (c :: cs)).unterminated = some o) :
    o = offset ∧ OpensLiteral (c :: cs) ∨
      ∃ front next, front ++ next = c :: cs ∧
        (lexFrom fuel (offset + Text.byteLength front) next).unterminated = some o := by
  rcases lexFrom_step hc fuel offset cs with ⟨l, next, -, hchars, hstep⟩ | ⟨hoffset, hopen⟩
  · rw [hstep] at h
    exact .inr ⟨l.chars, next, hchars, h⟩
  · rw [hoffset] at h
    refine .inl ⟨(Option.some.inj h).symm, ?_⟩
    rcases hopen with ⟨body, hbody, hafter⟩ | ⟨hquote, hclosed⟩
    · rw [hbody]
      exact opensLiteral_comment hafter
    · exact opensLiteral_text hquote hclosed

/-- An embedded expression ends with the characters or at a brace. -/
lemma exists_of_readEmbedded_end (depth : ℕ) (cs : List Char) :
    ∃ back, cs = (readEmbedded depth cs).1 ++ back ∧ back.head?.all (· == '\x7d') = true ∧
      back.tail = (readEmbedded depth cs).2 := by
  induction cs generalizing depth with
  | nil => exact ⟨[], rfl, rfl, rfl⟩
  | cons c cs ih =>
    rw [readEmbedded]
    split
    · next hclose => exact ⟨c :: cs, rfl, (Bool.and_eq_true_iff.1 hclose).1, rfl⟩
    · obtain ⟨back, hcs, hback, htail⟩ :=
        ih (if c == '\x7b' then depth + 1 else if c == '\x7d' then depth - 1 else depth)
      exact ⟨back, congrArg (c :: ·) hcs, hback, htail⟩

/-- A backtick text that goes on with an embedded expression is closed only if it is closed behind the expression. -/
lemma exists_of_prefix_embedded {pieces : Pieces} (h : pieces.isProper = true)
    (hcs : pieces.chars <+: '$' :: '\x7b' :: cs) :
    ∃ rest : Pieces, rest.isProper = true ∧ rest.chars <+: (readEmbedded 0 cs).2 := by
  cases pieces with
  | nil => cases (List.cons_prefix_cons.1 hcs).1
  | char c rest =>
    obtain ⟨rfl, hrest⟩ := List.cons_prefix_cons.1 hcs
    obtain ⟨next, hnext⟩ := hrest
    have hhead : rest.chars.head? = some '\x7b' := by rw [← rest.head?_chars next, hnext]; rfl
    simp [Pieces.isProper, hhead] at h
  | embedded inner rest =>
    obtain ⟨next, hnext⟩ := hcs
    obtain ⟨hinner, hrest⟩ := Bool.and_eq_true_iff.1 h
    obtain ⟨hbalanced, -⟩ := Bool.and_eq_true_iff.1 hinner
    have hsplit : cs = inner.chars ++ '\x7d' :: (rest.chars ++ next) := by
      simpa [Pieces.chars] using hnext.symm
    rw [hsplit, readEmbedded_append hbalanced]
    exact ⟨rest, hrest, next, rfl⟩

/-- A backtick text that goes on with a character is closed only if it is closed behind the character. -/
lemma exists_of_prefix_char {pieces : Pieces} (hc : c ≠ '\x60') (hplain : (c == '$' && cs.head? == some '\x7b') = false)
    (h : pieces.isProper = true) (hcs : pieces.chars <+: c :: cs) :
    ∃ rest : Pieces, rest.isProper = true ∧ rest.chars <+: cs := by
  cases pieces with
  | nil => exact absurd (List.cons_prefix_cons.1 hcs).1.symm hc
  | char d rest => exact ⟨rest, (Bool.and_eq_true_iff.1 h).2, (List.cons_prefix_cons.1 hcs).2⟩
  | embedded inner rest =>
    obtain ⟨rfl, next, rfl⟩ := List.cons_prefix_cons.1 hcs
    cases hplain

/-- One step inside a backtick text reaches its end, an open literal in an embedded expression, or what follows. -/
lemma exists_of_unterminated_backtick {content : List Char}
    (h : (lexBacktick (fuel + 1) start offset content (c :: cs)).unterminated = some o) :
    (c = '\x60' ∧ (lexFrom fuel (offset + c.utf8Size) cs).unterminated = some o) ∨
      (∃ inner back, c :: cs = '$' :: '\x7b' :: (inner ++ back) ∧ back.head?.all (· == '\x7d') = true ∧
        (lexFrom fuel (offset + Text.byteLength ['$', '\x7b']) inner).unterminated = some o) ∨
      ∃ front next content', front ++ next = c :: cs ∧
        (lexBacktick fuel start (offset + Text.byteLength front) content' next).unterminated = some o ∧
        ∀ pieces : Pieces, pieces.isProper = true → pieces.chars <+: c :: cs →
          ∃ rest : Pieces, rest.isProper = true ∧ rest.chars <+: next := by
  rw [lexBacktick] at h
  split_ifs at h with htick hopen
  · exact .inl ⟨eq_of_beq htick, h⟩
  · obtain ⟨rfl, rest, rfl⟩ : c = '$' ∧ ∃ rest, cs = '\x7b' :: rest := by
      obtain ⟨hdollar, hbrace⟩ := Bool.and_eq_true_iff.1 hopen
      exact ⟨eq_of_beq hdollar, List.head?_eq_some_iff.1 (eq_of_beq hbrace)⟩
    obtain ⟨back, hrest, hback, htail⟩ := exists_of_readEmbedded_end 0 rest
    simp only [List.drop_one, List.tail_cons, Lexed.append] at h
    refine .inr ?_
    cases hinner : (lexFrom fuel (offset + '$'.utf8Size + 1) (readEmbedded 0 rest).1).unterminated with
    | some o' =>
      rw [hinner] at h
      obtain rfl : o' = o := Option.some.inj h
      exact .inl ⟨_, back, congrArg ('$' :: '\x7b' :: ·) hrest, hback, hinner⟩
    | none =>
      rw [hinner, Option.none_or] at h
      have hsplit :
          ('\x7b' :: (readEmbedded 0 rest).1 ++ back.take 1) ++ (readEmbedded 0 rest).2 = '\x7b' :: rest := by
        rw [List.append_assoc, ← htail, ← List.drop_one, List.take_append_drop, List.cons_append, ← hrest]
      rw [Text.byteLength_sub hsplit] at h
      refine .inr ⟨'$' :: ('\x7b' :: (readEmbedded 0 rest).1 ++ back.take 1), (readEmbedded 0 rest).2, content,
        ?_, ?_, ?_⟩
      · exact congrArg ('$' :: ·) hsplit
      · simpa only [Text.byteLength_cons, Nat.add_assoc] using h
      · exact fun pieces => exists_of_prefix_embedded
  · exact .inr (.inr ⟨[c], cs, c :: content, rfl, by simpa using h,
      fun pieces => exists_of_prefix_char (by simpa using htick) (Bool.eq_false_iff.2 hopen)⟩)

/-- The offset that the lexer reports is that of an open literal, or inside a backtick text that of the text itself,
which is closed nowhere. -/
lemma openLiteralAt_of_unterminated (fuel : ℕ) :
    (∀ (offset : ℕ) (cs : List Char) (o : ℕ), (lexFrom fuel offset cs).unterminated = some o →
      ∃ n, o = offset + n ∧ OpenLiteralAt n cs) ∧
    ∀ (start offset : ℕ) (content cs : List Char) (o : ℕ),
      (lexBacktick fuel start offset content cs).unterminated = some o →
        (o = start ∧ ∀ pieces : Pieces, pieces.isProper = true → ¬ pieces.chars <+: cs) ∨
          ∃ n, o = offset + n ∧ OpenLiteralAt n cs := by
  induction fuel with
  | zero => exact ⟨fun _ _ _ h => (by cases h), fun _ _ _ _ _ h => (by cases h)⟩
  | succ fuel ih =>
    obtain ⟨ih, ihTick⟩ := ih
    -- an open literal in what is left is one in the whole
    have behind {offset o : ℕ} {next cs : List Char} (front : List Char) (hcs : front ++ next = cs)
        (h : ∃ n, o = offset + Text.byteLength front + n ∧ OpenLiteralAt n next) :
        ∃ n, o = offset + n ∧ OpenLiteralAt n cs := by
      obtain ⟨n, rfl, hopen⟩ := h
      exact ⟨Text.byteLength front + n, Nat.add_assoc _ _ _, hcs ▸ hopen.behind front⟩
    refine ⟨fun offset cs o h => ?_, fun start offset content cs o h => ?_⟩
    · cases cs with
      | nil => cases h
      | cons c cs =>
        by_cases hc : c = '\x60'
        · subst hc
          rw [lexFrom_tick] at h
          rcases ihTick _ _ _ _ _ h with ⟨rfl, hpieces⟩ | hlater
          · exact ⟨0, rfl, (opensLiteral_template hpieces).openLiteralAt⟩
          · exact behind ['\x60'] rfl hlater
        · rcases exists_of_unterminated hc h with ⟨rfl, hopen⟩ | ⟨front, next, hcs, hnext⟩
          · exact ⟨0, rfl, hopen.openLiteralAt⟩
          · exact behind front hcs (ih _ _ _ hnext)
    · cases cs with
      | nil =>
        refine .inl ⟨(Option.some.inj h).symm, fun pieces _ hprefix => ?_⟩
        cases pieces <;> cases List.prefix_nil.1 hprefix
      | cons c cs =>
        rcases exists_of_unterminated_backtick h with ⟨rfl, hnext⟩ | ⟨inner, back, hcs, hback, hinner⟩ |
          ⟨front, next, content', hcs, hnext, hpieces⟩
        · exact .inr (behind ['\x60'] rfl (ih _ _ _ hnext))
        · obtain ⟨n, hn, hopen⟩ := ih _ _ _ hinner
          exact .inr (behind ['$', '\x7b'] hcs.symm ⟨n, hn, hopen.embedded hback⟩)
        · rcases ihTick _ _ _ _ _ hnext with ⟨rfl, hnone⟩ | hlater
          · refine .inl ⟨rfl, fun pieces hproper hprefix => ?_⟩
            obtain ⟨rest, hrest, hnextPrefix⟩ := hpieces pieces hproper hprefix
            exact hnone rest hrest hnextPrefix
          · exact .inr (behind front hcs hlater)

/-- The offset that a text is read with as unterminated is that of an open literal. -/
lemma openLiteralAt_of_lex (h : (lex cs).unterminated = some o) : OpenLiteralAt o cs := by
  obtain ⟨n, rfl, hopen⟩ := (openLiteralAt_of_unterminated (cs.length + 1)).1 0 cs o h
  rwa [Nat.zero_add]

/-- The warnings about the expression of a placeholder. -/
def Part.warnings : Part → List Warning
  | .text _ => []
  | .placeholder p => (expressionReads p.expression).2

lemma templateReads_snd (template : String) :
    (templateReads template).2 = (parseTemplate template).2 ++ (parseTemplate template).1.flatMap Part.warnings := by
  rw [templateReads]
  obtain ⟨parts, warnings⟩ := parseTemplate template
  dsimp only
  generalize (∅ : Names) = reads
  induction parts generalizing reads warnings with
  | nil => simp
  | cons part parts ih =>
    rw [List.foldl_cons, List.flatMap_cons]
    cases part with
    | text _ => exact ih warnings reads
    | placeholder p => exact (ih _ _).trans (List.append_assoc _ _ _)

/-- An opening mark stands `offset` bytes after the start of the characters, and no closing mark follows it. -/
def OpenPlaceholderAt (offset : ℕ) (cs : List Char) : Prop :=
  ∃ before after, cs = before ++ placeholderOpen.toList ++ after ∧ Text.byteLength before = offset ∧
    ¬ placeholderClose.toList <:+: after

/-- The expression of the placeholder stands `base` bytes after the start of the characters, behind an opening mark and
blanks. -/
def Placeholder.StandsAt (p : Placeholder) (base : ℕ) (cs : List Char) : Prop :=
  ∃ before blanks after, cs = before ++ placeholderOpen.toList ++ blanks ++ p.expression.toList ++ after ∧
    Text.byteLength (before ++ placeholderOpen.toList ++ blanks) = base ∧ blanks.all Text.isBlank = true

lemma Placeholder.exists_expression (inner : List Char) :
    ∃ blanks after, inner = blanks ++ (Placeholder.read inner).expression.toList ++ after ∧
      blanks.all Text.isBlank = true := by
  rw [Placeholder.expression_read, String.toList_ofList]
  obtain ⟨rest, hrest⟩ : ∃ rest, inner = ((splitAtBar none false inner).map Prod.fst).getD inner ++ rest := by
    cases hsplit : splitAtBar none false inner with
    | none => exact ⟨[], (List.append_nil inner).symm⟩
    | some parts => exact ⟨_, eq_of_splitAtBar hsplit⟩
  obtain ⟨blanks, blanks', htrim, hblanks, -⟩ :=
    Text.exists_trimList (((splitAtBar none false inner).map Prod.fst).getD inner)
  refine ⟨blanks, blanks' ++ rest, ?_, hblanks⟩
  rw [← List.append_assoc, ← htrim, ← hrest]

lemma placeholder_not_mem_textPart (p : Placeholder) (cs : List Char) : Part.placeholder p ∉ textPart cs := by
  cases cs <;> simp [textPart]

/-- Every placeholder of a cut stands behind an opening mark. -/
lemma Cut.IsOf.standsAt {cut : Cut} (h : cut.IsOf cs) {p : Placeholder} (hp : .placeholder p ∈ cut.parts) :
    ∃ base, p.StandsAt base cs := by
  obtain ⟨s, hs, rfl⟩ : ∃ s ∈ cut.segments, .read s.inner = p := by
    rcases List.mem_append.1 hp with hp | hp
    · obtain ⟨s, hs, hp⟩ := List.mem_flatMap.1 hp
      rcases List.mem_append.1 hp with hp | hp
      · exact absurd hp (placeholder_not_mem_textPart p _)
      · exact ⟨s, hs, (Part.placeholder.inj (List.eq_of_mem_singleton hp)).symm⟩
    · exact absurd hp (placeholder_not_mem_textPart p _)
  obtain ⟨front, back, hsegments⟩ := List.mem_iff_append.1 hs
  obtain ⟨blanks, after, hinner, hblanks⟩ := Placeholder.exists_expression s.inner
  refine ⟨_, front.flatMap Segment.chars ++ s.before, blanks,
    after ++ placeholderClose.toList ++ back.flatMap Segment.chars ++ cut.rest, ?_, rfl, hblanks⟩
  rw [← h.chars, Cut.covered, hsegments, List.flatMap_append, List.flatMap_cons, Segment.chars]
  conv_lhs => rw [hinner]
  simp only [List.append_assoc]

lemma openLiteralAt_of_expressionReads {text : String} {w : Warning} (h : w ∈ (expressionReads text).2) :
    ∃ offset, w = .unterminatedLiteral offset ∧ OpenLiteralAt offset text.toList := by
  rw [expressionReads] at h
  cases hlex : (lex text.toList).unterminated with
  | none =>
    rw [hlex] at h
    cases h
  | some offset =>
    rw [hlex] at h
    exact ⟨offset, List.eq_of_mem_singleton h, openLiteralAt_of_lex hlex⟩

/-- A warning about the marks of a template points to an opening mark that is never closed. -/
lemma Cut.Warns.openPlaceholderAt {cut : Cut} {warnings : List Warning} (hcut : cut.IsOf cs)
    (h : cut.Warns 0 warnings) {w : Warning} (hw : w ∈ warnings) :
    ∃ offset, w = .unterminatedPlaceholder offset ∧ OpenPlaceholderAt offset cs := by
  rcases h with ⟨-, rfl⟩ | ⟨before, after, hrest, -, rfl⟩
  · cases hw
  · refine ⟨_, List.eq_of_mem_singleton hw, cut.covered ++ before, after, ?_, (Nat.zero_add _).symm, ?_⟩
    · rw [← hcut.chars, hrest]
      simp only [List.append_assoc]
    · rintro ⟨inner, back, rfl⟩
      exact hcut.rest ⟨before, inner, back, by rw [hrest]; simp only [List.append_assoc]⟩

/-- The offset of a warning points to the construct in the text of the cell that is not closed. For a literal in a
placeholder it counts from the start of the trimmed expression. -/
theorem offset_of_mem_warnings {content : Content} {w : Warning} (h : w ∈ content.analyze.warnings) :
    match content, w with
    | .markdown template, .unterminatedLiteral offset =>
      ∃ (p : Placeholder) (base : ℕ), .placeholder p ∈ (parseTemplate template).1 ∧ p.StandsAt base template.toList ∧
        OpenLiteralAt offset p.expression.toList
    | content, .unterminatedLiteral offset => OpenLiteralAt offset content.text.toList
    | content, .unterminatedPlaceholder offset => OpenPlaceholderAt offset content.text.toList := by
  cases content with
  | script source =>
    obtain ⟨offset, hoffset, rfl⟩ := List.mem_map.1 h
    exact openLiteralAt_of_lex (Option.mem_toList.1 hoffset)
  | formula expression output =>
    replace h : w ∈ (expressionReads expression).2 := h
    obtain ⟨offset, rfl, hopen⟩ := openLiteralAt_of_expressionReads h
    exact hopen
  | input literal output => cases h
  | markdown template =>
    obtain ⟨cut, hcut, hparts, hwarns⟩ := exists_cut_of_parseTemplate template
    replace h : w ∈ (templateReads template).2 := h
    rw [templateReads_snd] at h
    rcases List.mem_append.1 h with h | h
    · obtain ⟨offset, rfl, hopen⟩ := hwarns.openPlaceholderAt hcut h
      exact hopen
    · obtain ⟨part, hpart, hw⟩ := List.mem_flatMap.1 h
      cases part with
      | text _ => cases hw
      | placeholder p =>
        obtain ⟨offset, rfl, hopen⟩ := openLiteralAt_of_expressionReads hw
        obtain ⟨base, hbase⟩ := hcut.standsAt (hparts ▸ hpart)
        exact ⟨p, base, hpart, hbase, hopen⟩

/-- The text in an expression that is embedded in an embedded expression is counted from the start of the script. -/
theorem offset_of_nested_literal :
    Warning.unterminatedLiteral 21 ∈ (Content.script "let é = `a $\x7b `b $\x7b 'c \x7d` \x7d`;").analyze.warnings ∧
      OpenLiteralAt 21 "let é = `a $\x7b `b $\x7b 'c \x7d` \x7d`;".toList := by
  have h : Warning.unterminatedLiteral 21 ∈
      (Content.script "let é = `a $\x7b `b $\x7b 'c \x7d` \x7d`;").analyze.warnings := by decide
  exact ⟨h, offset_of_mem_warnings h⟩

/-- The text in a placeholder is counted from the start of the expression, and at that place of the template there is a
blank. -/
theorem offset_of_literal_in_placeholder :
    Warning.unterminatedLiteral 4 ∈ (Content.markdown "\x7b\x7b 1 + 'a \x7d\x7d").analyze.warnings ∧
      ¬ OpenLiteralAt 4 "\x7b\x7b 1 + 'a \x7d\x7d".toList := by
  refine ⟨by decide, ?_⟩
  have hblank : ∀ i ≤ 12, Text.byteLength ("\x7b\x7b 1 + 'a \x7d\x7d".toList.take i) = 4 →
      startsLiteral ("\x7b\x7b 1 + 'a \x7d\x7d".toList.drop i) = false := by decide
  rintro ⟨before, literal, after, hchars, hoffset, ⟨hstart, -⟩, -⟩
  have hlength : before.length ≤ 12 := by
    have hle := (List.prefix_append before (literal ++ after)).length_le
    rw [← List.append_assoc, ← hchars] at hle
    exact hle
  have hrest := hblank before.length hlength
  rw [hchars, List.append_assoc, List.take_left, List.drop_left] at hrest
  rw [startsLiteral_append hstart] at hrest
  cases hrest hoffset

end ReactiveNotebook.Analysis
