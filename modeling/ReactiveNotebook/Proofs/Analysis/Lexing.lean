import ReactiveNotebook.Proofs.Analysis.Layout
import ReactiveNotebook.Proofs.Text

/-!
# The lexer reads layouts

A text has tokens and no open literal exactly when it can be written with these tokens.
-/
namespace ReactiveNotebook.Analysis

variable {cs next body : List Char} {ts : List Token} {c quote : Char}

/-- The lexer reads the tokens and meets no open literal, wherever the characters stand. -/
def Reads (cs : List Char) (ts : List Token) : Prop :=
  ∀ fuel offset : ℕ, cs.length < fuel → lexFrom fuel offset cs = ⟨ts, none⟩

lemma reads_nil : Reads [] [] := fun fuel offset hfuel => by
  obtain ⟨fuel, rfl⟩ := Nat.exists_eq_succ_of_ne_zero (Nat.ne_zero_of_lt hfuel)
  rfl

/-- What is read first is put in front of what follows. -/
lemma Reads.of_step (hnext : Reads next ts) (here : List Token) (hlength : next.length < cs.length)
    (hstep : ∀ fuel offset : ℕ, ∃ after : ℕ, lexFrom (fuel + 1) offset cs =
      ⟨here ++ (lexFrom fuel after next).tokens, (lexFrom fuel after next).unterminated⟩) :
    Reads cs (here ++ ts) := fun fuel offset hfuel => by
  obtain ⟨fuel, rfl⟩ := Nat.exists_eq_succ_of_ne_zero (Nat.ne_zero_of_lt hfuel)
  obtain ⟨after, hafter⟩ := hstep fuel offset
  rw [hafter, hnext fuel after (by omega)]

lemma reads_blank (hc : Text.isBlank c = true) (hnext : Reads next ts) : Reads (c :: next) ts :=
  hnext.of_step [] (Nat.lt_succ_self _) fun fuel offset => ⟨_, by rw [lexFrom, if_pos hc]; rfl⟩

lemma dropWhile_line (hbody : (!body.contains '\n') = true) (hend : next.head?.all (· == '\n') = true) :
    ('/' :: (body ++ next)).dropWhile (· != '\n') = next := by
  have hline : ∀ c ∈ '/' :: body, (c != '\n') = true := by
    simp only [List.mem_cons, forall_eq_or_imp]
    refine ⟨by decide, fun c hc => ?_⟩
    rw [bne_iff_ne]
    rintro rfl
    simp [hc] at hbody
  rw [← List.cons_append, List.dropWhile_append_of_pos hline]
  cases next with
  | nil => rfl
  | cons c next => rw [List.dropWhile_cons_of_neg (by simpa using hend)]

lemma reads_line (hbody : (!body.contains '\n') = true) (hend : next.head?.all (· == '\n') = true)
    (hnext : Reads next ts) : Reads ('/' :: '/' :: (body ++ next)) ts :=
  hnext.of_step [] (by simp; omega) fun fuel offset => ⟨_, by
    rw [lexFrom, if_neg (by decide), if_pos (by rfl), dropWhile_line hbody hend]
    rfl⟩

lemma reads_comment (hbody : (afterComment body).isNone = true) (hnext : Reads next ts) :
    Reads ('/' :: '*' :: (body ++ '*' :: '/' :: next)) ts :=
  hnext.of_step [] (by simp; omega) fun fuel offset => ⟨_, by
    rw [lexFrom, if_neg (by decide), if_neg (by simp), if_pos (by rfl), List.drop_one, List.tail_cons,
      afterComment_append (Option.isNone_iff_eq_none.1 hbody)]
    rfl⟩

lemma reads_text (hquote : (quote == '"' || quote == '\'') = true) (hbody : isTextBody quote body = true)
    (hnext : Reads next ts) :
    Reads (quote :: (body ++ quote :: next)) (.text (String.ofList (unescape body)) :: ts) :=
  hnext.of_step [.text (String.ofList (unescape body))] (by simp; omega) fun fuel offset => ⟨_, by
    have hfirst : quote ≠ '\\' ∧ (quote == '/') = false ∧ Text.isBlank quote = false := by
      rcases Bool.or_eq_true_iff.1 hquote with h | h <;> obtain rfl := eq_of_beq h <;> decide
    simp only [lexFrom, hfirst.2.1, hfirst.2.2, hquote, readText_append hfirst.1 hbody, Bool.false_and,
      Bool.false_eq_true, if_false, if_true]
    rfl⟩

/-- A character of a name starts neither a comment nor a text. -/
lemma lexFrom_of_isNameRest (hc : isNameRest c = true) (fuel offset : ℕ) (cs : List Char) :
    lexFrom (fuel + 1) offset (c :: cs) =
      if c.isDigit then
        .cons .number (lexFrom fuel (offset + c.utf8Size + (Text.byteLength cs - Text.byteLength (afterNumber c cs)))
          (afterNumber c cs))
      else
        .cons (.ident (String.ofList (c :: cs.takeWhile isNameRest)) false)
          (lexFrom fuel (offset + c.utf8Size + Text.byteLength (cs.takeWhile isNameRest))
            (cs.dropWhile isNameRest)) := by
  have hne {d : Char} (hd : isNameRest d = false) : (c == d) = false := beq_false_of_ne (ne_of_isNameRest hc hd)
  have hstart : c.isDigit = false → isNameStart c = true := fun h => by
    simpa [isNameRest, isNameStart, Char.isAlphanum, h] using hc
  simp only [lexFrom, not_isBlank_of_isNameRest hc, hne (d := '/') rfl, hne (d := '"') rfl, hne (d := '\'') rfl,
    hne (d := '\x60') rfl, hne (d := '$') rfl, Bool.false_and, Bool.or_self, Bool.false_eq_true, if_false]
  split
  · rfl
  · next hd => rw [if_pos (hstart (Bool.eq_false_iff.2 hd))]

lemma reads_number (hc : c.isDigit = true) (hbody : isNumberRest c next body = true) (hnext : Reads next ts) :
    Reads (c :: (body ++ next)) (.number :: ts) :=
  hnext.of_step [.number] (by simp) fun fuel offset => ⟨_, by
    rw [lexFrom_of_isNameRest (isNameRest_of_isDigit hc), if_pos hc, afterNumber_append hbody]
    rfl⟩

lemma takeWhile_name (hbody : body.all isNameRest = true) (hend : (!startsWithNameRest next) = true) :
    (body ++ next).takeWhile isNameRest = body ∧ (body ++ next).dropWhile isNameRest = next := by
  rw [List.all_eq_true] at hbody
  rw [List.takeWhile_append_of_pos hbody, List.dropWhile_append_of_pos hbody]
  cases next with
  | nil => simp
  | cons c next =>
    have hc : ¬ isNameRest c = true := by simpa [startsWithNameRest] using hend
    rw [List.takeWhile_cons_of_neg hc, List.dropWhile_cons_of_neg hc, List.append_nil]
    exact ⟨rfl, rfl⟩

lemma reads_name (dollar : Bool) (hc : isNameStart c = true) (hbody : body.all isNameRest = true)
    (hend : (!startsWithNameRest next) = true) (hnext : Reads next ts) :
    Reads ((if dollar then ['$'] else []) ++ c :: (body ++ next))
      (.ident (String.ofList (c :: body)) dollar :: ts) := by
  obtain ⟨htake, hdrop⟩ := takeWhile_name hbody hend
  have hrest := isNameRest_of_isNameStart hc
  cases dollar with
  | false =>
    exact hnext.of_step [.ident (String.ofList (c :: body)) false] (by simp) fun fuel offset => ⟨_, by
      refine (lexFrom_of_isNameRest hrest fuel offset _).trans ?_
      rw [if_neg (by simp [not_isDigit_of_isNameStart hc]), htake, hdrop]
      rfl⟩
  | true =>
    have hname : ('$' == '$' && ((c :: (body ++ next)).head?.map isNameStart).getD false) = true := by simpa using hc
    exact hnext.of_step [.ident (String.ofList (c :: body)) true] (by simp; omega) fun fuel offset => ⟨_, by
      rw [if_pos rfl, List.singleton_append, lexFrom, if_neg (by decide), if_neg (by simp), if_neg (by simp),
        if_neg (by decide), if_neg (by decide), if_neg (by decide), if_pos hname, List.takeWhile_cons_of_pos hrest,
        List.dropWhile_cons_of_pos hrest, htake, hdrop]
      rfl⟩

lemma reads_sign (hc : isSign c next = true) (hnext : Reads next ts) : Reads (c :: next) (.punct c :: ts) :=
  hnext.of_step [.punct c] (Nat.lt_succ_self _) fun fuel offset => ⟨_, by
    simp only [isSign, startsWithName, Bool.and_eq_true, Bool.not_eq_true', Bool.or_eq_false_iff] at hc
    obtain ⟨⟨⟨⟨⟨hblank, hquote, htick⟩, hdigit⟩, hname⟩, hcomment⟩, hdollar⟩ := hc
    rw [Bool.and_or_distrib_left, Bool.or_eq_false_iff] at hcomment
    simp only [lexFrom, hblank, hquote, htick, hdigit, hname, hcomment.1, hcomment.2, hdollar, Bool.or_self,
      Bool.false_eq_true, if_false]
    rfl⟩

lemma lexFrom_tick (fuel offset : ℕ) (cs : List Char) :
    lexFrom (fuel + 1) offset ('\x60' :: cs) = lexBacktick fuel offset (offset + '\x60'.utf8Size) [] cs := by
  rw [lexFrom, if_neg (by decide), if_neg (by simp), if_neg (by simp), if_neg (by decide), if_pos (by rfl)]

lemma lexBacktick_tick (fuel start offset : ℕ) (content : List Char) :
    lexBacktick (fuel + 1) start offset content ('\x60' :: cs) =
      .cons (.text (String.ofList content.reverse)) (lexFrom fuel (offset + '\x60'.utf8Size) cs) := by
  rw [lexBacktick, if_pos (by rfl)]

lemma lexBacktick_char (h : (c != '\x60') = true) (h' : (!(c == '$' && cs.head? == some '\x7b')) = true)
    (fuel start offset : ℕ) (content : List Char) :
    lexBacktick (fuel + 1) start offset content (c :: cs) =
      lexBacktick fuel start (offset + c.utf8Size) (c :: content) cs := by
  rw [lexBacktick, if_neg (by simpa using h), if_neg (by simpa only [Bool.not_eq_true', Bool.not_eq_true] using h')]

lemma lexBacktick_embedded (h : isBalanced 0 body = true) (fuel start offset : ℕ) (content : List Char) :
    lexBacktick (fuel + 1) start offset content ('$' :: '\x7b' :: (body ++ '\x7d' :: next)) =
      Lexed.append ⟨.punct '(' :: (lexFrom fuel (offset + '$'.utf8Size + 1) body).tokens ++ [.punct ')'],
          (lexFrom fuel (offset + '$'.utf8Size + 1) body).unterminated⟩
        (lexBacktick fuel start (offset + '$'.utf8Size +
          (Text.byteLength ('\x7b' :: (body ++ '\x7d' :: next)) - Text.byteLength next)) content next) := by
  rw [lexBacktick, if_neg (by decide), if_pos (by rfl), List.drop_one, List.tail_cons, readEmbedded_append h]

lemma Pieces.head?_chars (pieces : Pieces) (next : List Char) :
    (pieces.chars ++ next).head? = pieces.chars.head? := by
  cases pieces <;> rfl

mutual

lemma Lexeme.reads {next : List Char} {ts : List Token} :
    ∀ l : Lexeme, l.fits next = true → Reads next ts → Reads (l.chars ++ next) (l.tokens ++ ts)
  | .blank _, h, hnext => reads_blank h hnext
  | .line _, h, hnext => reads_line (Bool.and_eq_true_iff.1 h).1 (Bool.and_eq_true_iff.1 h).2 hnext
  | .comment body, h, hnext => by
    have hread := reads_comment h hnext
    simpa [Lexeme.chars, Lexeme.tokens] using hread
  | .text quote body, h, hnext => by
    obtain ⟨hquote, hbody⟩ := Bool.and_eq_true_iff.1 h
    have hread := reads_text hquote hbody hnext
    simpa [Lexeme.chars, Lexeme.tokens] using hread
  | .template pieces, h, hnext => fun fuel offset hfuel => by
    obtain ⟨fuel, rfl⟩ := Nat.exists_eq_succ_of_ne_zero (Nat.ne_zero_of_lt hfuel)
    have hread := pieces.reads h hnext fuel offset (offset + '\x60'.utf8Size) [] (Nat.lt_of_succ_lt_succ hfuel)
    simpa [Lexeme.chars, Lexeme.tokens, lexFrom_tick] using hread
  | .number _ _, h, hnext => reads_number (Bool.and_eq_true_iff.1 h).1 (Bool.and_eq_true_iff.1 h).2 hnext
  | .name dollar first rest, h, hnext => by
    obtain ⟨hname, hend⟩ := Bool.and_eq_true_iff.1 h
    obtain ⟨hfirst, hrest⟩ := Bool.and_eq_true_iff.1 hname
    have hread := reads_name dollar hfirst hrest hend hnext
    simpa [Lexeme.chars, Lexeme.tokens] using hread
  | .sign _, h, hnext => reads_sign h hnext

lemma Pieces.reads {next : List Char} {ts : List Token} :
    ∀ pieces : Pieces, pieces.isProper = true → Reads next ts →
      ∀ (fuel start offset : ℕ) (content : List Char), (pieces.chars ++ next).length < fuel →
        lexBacktick fuel start offset content (pieces.chars ++ next) =
          ⟨pieces.tokens ++ .text (String.ofList (content.reverse ++ pieces.plain)) :: ts, none⟩
  | .nil, _, hnext, fuel, start, offset, content, hfuel => by
    obtain ⟨fuel, rfl⟩ := Nat.exists_eq_succ_of_ne_zero (Nat.ne_zero_of_lt hfuel)
    have hread := hnext fuel (offset + '\x60'.utf8Size) (Nat.lt_of_succ_lt_succ hfuel)
    simp [Pieces.chars, Pieces.tokens, Pieces.plain, lexBacktick_tick, hread, Lexed.cons]
  | .char c rest, h, hnext, fuel, start, offset, content, hfuel => by
    obtain ⟨fuel, rfl⟩ := Nat.exists_eq_succ_of_ne_zero (Nat.ne_zero_of_lt hfuel)
    obtain ⟨hplain, hrest⟩ := Bool.and_eq_true_iff.1 h
    obtain ⟨hc, hdollar⟩ := Bool.and_eq_true_iff.1 hplain
    have hread := rest.reads hrest hnext fuel start (offset + c.utf8Size) (c :: content)
      (Nat.lt_of_succ_lt_succ hfuel)
    rw [← rest.head?_chars next] at hdollar
    simp [Pieces.chars, Pieces.tokens, Pieces.plain, lexBacktick_char hc hdollar, hread]
  | .embedded inner rest, h, hnext, fuel, start, offset, content, hfuel => by
    obtain ⟨fuel, rfl⟩ := Nat.exists_eq_succ_of_ne_zero (Nat.ne_zero_of_lt hfuel)
    obtain ⟨hinners, hrest⟩ := Bool.and_eq_true_iff.1 h
    obtain ⟨hbalanced, hinner⟩ := Bool.and_eq_true_iff.1 hinners
    have hlength : inner.chars.length + 1 + (rest.chars ++ next).length < fuel := by
      simp only [Pieces.chars, List.length_append, List.length_cons] at hfuel ⊢
      omega
    simp [Pieces.chars, Pieces.tokens, Pieces.plain, lexBacktick_embedded hbalanced,
      inner.reads hinner fuel _ (by omega), rest.reads hrest hnext fuel _ _ _ (by omega), Lexed.append]

lemma Layout.reads : ∀ layout : Layout, layout.isProper = true → Reads layout.chars layout.tokens
  | .nil, _ => reads_nil
  | .cons first rest, h => by
    obtain ⟨hfirst, hrest⟩ := Bool.and_eq_true_iff.1 h
    exact first.reads hfirst (rest.reads hrest)

end

lemma Writes.cons {l : Lexeme} (hnext : Writes ts next) (h : l.fits next = true) :
    Writes (l.tokens ++ ts) (l.chars ++ next) := by
  obtain ⟨layout, hproper, rfl, rfl⟩ := hnext
  exact ⟨.cons l layout, Bool.and_eq_true_iff.2 ⟨h, hproper⟩, rfl, rfl⟩

lemma Lexed.cons_eq {t : Token} {l : Lexed} (h : l.cons t = ⟨ts, none⟩) : ∃ us, l = ⟨us, none⟩ ∧ ts = t :: us := by
  obtain ⟨us, offset⟩ := l
  obtain ⟨rfl, rfl⟩ := Lexed.mk.inj h
  exact ⟨us, rfl, rfl⟩

lemma Lexed.append_eq {l m : Lexed} (h : l.append m = ⟨ts, none⟩) :
    ∃ us vs, l = ⟨us, none⟩ ∧ m = ⟨vs, none⟩ ∧ ts = us ++ vs := by
  obtain ⟨us, offset⟩ := l
  obtain ⟨vs, offset'⟩ := m
  obtain ⟨rfl, hnone⟩ := Lexed.mk.inj h
  obtain ⟨rfl, rfl⟩ := Option.or_eq_none_iff.1 hnone
  exact ⟨us, vs, rfl, rfl, rfl⟩

lemma takeWhile_append_dropWhile_name (cs : List Char) :
    (cs.takeWhile isNameRest).all isNameRest = true ∧ (!startsWithNameRest (cs.dropWhile isNameRest)) = true := by
  refine ⟨List.all_takeWhile, ?_⟩
  cases h : cs.dropWhile isNameRest with
  | nil => rfl
  | cons c next =>
    have hc := List.head_dropWhile_not (p := isNameRest) (l := cs) (by simp [h])
    simpa [startsWithNameRest, h] using hc

lemma takeWhile_append_dropWhile_line (cs : List Char) :
    (!(cs.takeWhile (· != '\n')).contains '\n') = true ∧ (cs.dropWhile (· != '\n')).head?.all (· == '\n') = true := by
  constructor
  · rw [Bool.not_eq_true', Bool.eq_false_iff]
    intro h
    have hc := List.all_eq_true.1 List.all_takeWhile _ (List.contains_iff_mem.1 h)
    simp at hc
  · cases h : cs.dropWhile (· != '\n') with
    | nil => rfl
    | cons c next =>
      have hc := List.head_dropWhile_not (p := (· != '\n')) (l := cs) (by simp [h])
      simpa [h] using hc

lemma exists_cons_of_head? {d : Char} (h : (c == '/' && cs.head? == some d) = true) :
    c = '/' ∧ ∃ rest, cs = d :: rest := by
  obtain ⟨hc, hd⟩ := Bool.and_eq_true_iff.1 h
  exact ⟨eq_of_beq hc, List.head?_eq_some_iff.1 (eq_of_beq hd)⟩

lemma Lexeme.chars_pos (l : Lexeme) : 0 < l.chars.length := by
  cases l with
  | name dollar => cases dollar <;> exact Nat.succ_pos _
  | _ => exact Nat.succ_pos _

/-- One step of the lexer outside of backtick texts takes one stretch of text, unless a comment or a text begins there
and is not closed. -/
lemma lexFrom_step (hc : c ≠ '\x60') (fuel offset : ℕ) (cs : List Char) :
    (∃ (l : Lexeme) (next : List Char), l.fits next = true ∧ l.chars ++ next = c :: cs ∧
      lexFrom (fuel + 1) offset (c :: cs) =
        ⟨l.tokens ++ (lexFrom fuel (offset + Text.byteLength l.chars) next).tokens,
          (lexFrom fuel (offset + Text.byteLength l.chars) next).unterminated⟩) ∨
      (lexFrom (fuel + 1) offset (c :: cs)).unterminated = some offset ∧
        ((∃ body, c :: cs = '/' :: '*' :: body ∧ afterComment body = none) ∨
          (c == '"' || c == '\'') = true ∧ (readText c cs).2.1 = false) := by
  generalize hread : lexFrom (fuel + 1) offset (c :: cs) = lexed
  rw [lexFrom] at hread
  split_ifs at hread with hblank hline hcomment hquote htick hdigit hdollar hname <;> subst hread
  · refine .inl ⟨.blank c, cs, hblank, rfl, ?_⟩
    simp [Lexeme.chars, Lexeme.tokens]
  · obtain ⟨rfl, rest, rfl⟩ := exists_cons_of_head? hline
    obtain ⟨hbody, hend⟩ := takeWhile_append_dropWhile_line rest
    refine .inl ⟨.line (rest.takeWhile (· != '\n')), rest.dropWhile (· != '\n'), ?_, ?_, ?_⟩
    · rw [Lexeme.fits, hbody, hend]
      rfl
    · simp [Lexeme.chars]
    · simp [Lexeme.chars, Lexeme.tokens, Nat.add_assoc]
  · obtain ⟨rfl, rest, rfl⟩ := exists_cons_of_head? hcomment
    rw [List.drop_one, List.tail_cons]
    cases hafter : afterComment rest with
    | none => exact .inr ⟨rfl, .inl ⟨rest, rfl, hafter⟩⟩
    | some next =>
      obtain ⟨body, rfl, hbody⟩ := exists_of_afterComment hafter
      refine .inl ⟨.comment body, next, by simp [Lexeme.fits, hbody], by simp [Lexeme.chars], ?_⟩
      have hsplit : ('*' :: (body ++ ['*', '/'])) ++ next = '*' :: (body ++ '*' :: '/' :: next) := by simp
      dsimp only
      rw [Text.byteLength_sub hsplit]
      simp [Lexeme.chars, Lexeme.tokens, Nat.add_assoc]
  · cases hclosed : (readText c cs).2.1 with
    | false => exact .inr ⟨by simp [Lexed.append, hclosed], .inr ⟨hquote, rfl⟩⟩
    | true =>
      obtain ⟨body, hcs, hbody, hcontent⟩ := exists_of_readText hclosed
      have hsplit : (body ++ [c]) ++ (readText c cs).2.2 = cs := by
        rw [List.append_assoc]
        exact hcs.symm
      refine .inl ⟨.text c body, (readText c cs).2.2, ?_, ?_, ?_⟩
      · rw [Lexeme.fits, hquote, hbody]
        rfl
      · exact congrArg (c :: ·) hsplit
      · simp [Lexeme.chars, Lexeme.tokens, Lexed.append, hcontent, hclosed, Text.byteLength_sub hsplit, Nat.add_assoc]
  · exact absurd (eq_of_beq htick) hc
  · obtain ⟨body, hcs, hbody⟩ := exists_of_afterNumber c cs
    refine .inl ⟨.number c body, afterNumber c cs, ?_, ?_, ?_⟩
    · rw [Lexeme.fits, hdigit, hbody]
      rfl
    · rw [Lexeme.chars, List.cons_append, ← hcs]
    · simp [Lexeme.chars, Lexeme.tokens, Lexed.cons, Text.byteLength_sub hcs.symm, Nat.add_assoc]
  · obtain ⟨hc, hstart⟩ := Bool.and_eq_true_iff.1 hdollar
    obtain rfl := eq_of_beq hc
    cases cs with
    | nil => cases hstart
    | cons d cs =>
      have hrest := isNameRest_of_isNameStart hstart
      obtain ⟨hname, hend⟩ := takeWhile_append_dropWhile_name cs
      refine .inl ⟨.name true d (cs.takeWhile isNameRest), cs.dropWhile isNameRest, ?_, ?_, ?_⟩
      · rw [Lexeme.fits, hname, hend, Bool.and_true, Bool.and_true]
        exact hstart
      · simp [Lexeme.chars]
      · simp [Lexeme.chars, Lexeme.tokens, Lexed.cons, hrest, Nat.add_assoc]
  · obtain ⟨hrest, hend⟩ := takeWhile_append_dropWhile_name cs
    refine .inl ⟨.name false c (cs.takeWhile isNameRest), cs.dropWhile isNameRest, ?_, ?_, ?_⟩
    · rw [Lexeme.fits, hname, hrest, hend]
      rfl
    · simp [Lexeme.chars]
    · simp [Lexeme.chars, Lexeme.tokens, Lexed.cons, Nat.add_assoc]
  · refine .inl ⟨.sign c, cs, ?_, rfl, ?_⟩
    · have hslash : (c == '/' && (cs.head? == some '/' || cs.head? == some '*')) = false := by
        rw [Bool.and_or_distrib_left, Bool.eq_false_iff.2 hline, Bool.eq_false_iff.2 hcomment]
        rfl
      rw [Lexeme.fits, isSign, startsWithName, hslash, Bool.eq_false_iff.2 hblank, Bool.eq_false_iff.2 hquote,
        Bool.eq_false_iff.2 htick, Bool.eq_false_iff.2 hdigit, Bool.eq_false_iff.2 hdollar, Bool.eq_false_iff.2 hname]
      rfl
    · simp [Lexeme.chars, Lexeme.tokens, Lexed.cons]

/-- One step of the lexer takes one stretch of text. -/
lemma exists_lexeme {fuel offset : ℕ} (hc : c ≠ '\x60') (h : lexFrom (fuel + 1) offset (c :: cs) = ⟨ts, none⟩) :
    ∃ (l : Lexeme) (next : List Char) (us : List Token) (after : ℕ), l.fits next = true ∧ l.chars ++ next = c :: cs ∧
      lexFrom fuel after next = ⟨us, none⟩ ∧ l.tokens ++ us = ts := by
  rcases lexFrom_step hc fuel offset cs with ⟨l, next, hfits, hchars, hstep⟩ | ⟨hopen, -⟩
  · rw [hstep] at h
    obtain ⟨htokens, hnone⟩ := Lexed.mk.inj h
    exact ⟨l, next, _, _, hfits, hchars, congrArg (Lexed.mk _) hnone, htokens⟩
  · rw [h] at hopen
    cases hopen

/-- One step inside a backtick text reaches its end, or takes an embedded expression or a single character. -/
lemma exists_piece {fuel start offset : ℕ} {content : List Char} (hfuel : cs.length < fuel)
    (h : lexBacktick (fuel + 1) start offset content (c :: cs) = ⟨ts, none⟩) :
    (c = '\x60' ∧ ∃ (us : List Token) (after : ℕ), lexFrom fuel after cs = ⟨us, none⟩ ∧
      ts = .text (String.ofList content.reverse) :: us) ∨
    (∃ (inner next : List Char) (us vs : List Token) (after after' : ℕ), isBalanced 0 inner = true ∧
      c :: cs = '$' :: '\x7b' :: (inner ++ '\x7d' :: next) ∧ lexFrom fuel after inner = ⟨us, none⟩ ∧
      lexBacktick fuel start after' content next = ⟨vs, none⟩ ∧ ts = .punct '(' :: us ++ .punct ')' :: vs) ∨
    ((c != '\x60') = true ∧ (!(c == '$' && cs.head? == some '\x7b')) = true ∧
      ∃ after : ℕ, lexBacktick fuel start after (c :: content) cs = ⟨ts, none⟩) := by
  by_cases hc : c = '\x60'
  · subst hc
    rw [lexBacktick_tick] at h
    obtain ⟨us, hus, rfl⟩ := Lexed.cons_eq h
    exact .inl ⟨rfl, us, _, hus, rfl⟩
  by_cases hopen : (c == '$' && cs.head? == some '\x7b') = true
  · obtain ⟨hdollar, hbrace⟩ := Bool.and_eq_true_iff.1 hopen
    obtain rfl := eq_of_beq hdollar
    obtain ⟨rest, rfl⟩ := List.head?_eq_some_iff.1 (eq_of_beq hbrace)
    rw [lexBacktick, if_neg (by decide), if_pos hopen, List.drop_one, List.tail_cons] at h
    obtain ⟨us, vs, hus, hvs, rfl⟩ := Lexed.append_eq h
    obtain ⟨rfl, hclosed⟩ := Lexed.mk.inj hus
    -- at the end of the characters the backtick text would be open
    have hnext : (readEmbedded 0 rest).2 ≠ [] := fun hnil => by
      obtain ⟨fuel, rfl⟩ := Nat.exists_eq_succ_of_ne_zero (Nat.ne_zero_of_lt hfuel)
      rw [hnil] at hvs
      cases hvs
    obtain ⟨hbalanced, hrest⟩ := exists_of_readEmbedded hnext
    refine .inr (.inl ⟨_, _, _, vs, _, _, hbalanced, ?_, congrArg (Lexed.mk _) hclosed, hvs, by simp⟩)
    rw [← hrest]
  · have hplain : (!(c == '$' && cs.head? == some '\x7b')) = true := by
      simpa only [Bool.not_eq_true', Bool.not_eq_true] using hopen
    rw [lexBacktick_char (bne_iff_ne.2 hc) hplain] at h
    exact .inr (.inr ⟨bne_iff_ne.2 hc, hplain, _, h⟩)

/-- Tokens that have been read can be written as the text, also inside a backtick text, whose pieces then come
first. -/
lemma writes_of_lexFrom (fuel : ℕ) :
    (∀ (offset : ℕ) (cs : List Char) (ts : List Token), cs.length < fuel →
      lexFrom fuel offset cs = ⟨ts, none⟩ → Writes ts cs) ∧
    ∀ (start offset : ℕ) (content cs : List Char) (ts : List Token), cs.length < fuel →
      lexBacktick fuel start offset content cs = ⟨ts, none⟩ →
        ∃ (pieces : Pieces) (next : List Char) (us : List Token), pieces.isProper = true ∧ Writes us next ∧
          pieces.chars ++ next = cs ∧
          pieces.tokens ++ .text (String.ofList (content.reverse ++ pieces.plain)) :: us = ts := by
  induction fuel with
  | zero => exact ⟨fun _ _ _ h => absurd h (Nat.not_lt_zero _), fun _ _ _ _ _ h => absurd h (Nat.not_lt_zero _)⟩
  | succ fuel ih =>
    obtain ⟨ih, ihTick⟩ := ih
    refine ⟨fun offset cs ts hfuel h => ?_, fun start offset content cs ts hfuel h => ?_⟩
    · cases cs with
      | nil =>
        obtain ⟨rfl, -⟩ := Lexed.mk.inj h
        exact ⟨.nil, rfl, rfl, rfl⟩
      | cons c cs =>
        replace hfuel : cs.length < fuel := Nat.lt_of_succ_lt_succ hfuel
        by_cases hc : c = '\x60'
        · subst hc
          rw [lexFrom_tick] at h
          obtain ⟨pieces, next, us, hproper, hnext, rfl, rfl⟩ := ihTick offset _ [] cs ts hfuel h
          have hwrites := hnext.cons (l := .template pieces) hproper
          simpa [Lexeme.chars, Lexeme.tokens] using hwrites
        · obtain ⟨l, next, us, after, hfits, hchars, hus, rfl⟩ := exists_lexeme hc h
          have hlength := congrArg List.length hchars
          have hpos := l.chars_pos
          simp only [List.length_append, List.length_cons] at hlength
          rw [← hchars]
          exact (ih after next us (by omega) hus).cons hfits
    · cases cs with
      | nil => cases h
      | cons c cs =>
        replace hfuel : cs.length < fuel := Nat.lt_of_succ_lt_succ hfuel
        rcases exists_piece hfuel h with ⟨rfl, us, after, hus, rfl⟩ |
          ⟨inner, next, us, vs, after, after', hbalanced, hcs, hus, hvs, rfl⟩ | ⟨hc, hplain, after, hts⟩
        · exact ⟨.nil, cs, us, rfl, ih after cs us hfuel hus, rfl, by simp [Pieces.tokens, Pieces.plain]⟩
        · have hlength := congrArg List.length hcs
          simp only [List.length_append, List.length_cons] at hlength
          obtain ⟨layout, hlayout, rfl, rfl⟩ := ih after inner us (by omega) hus
          obtain ⟨pieces, next, us, hpieces, hnext, rfl, rfl⟩ := ihTick start after' content next vs (by omega) hvs
          refine ⟨.embedded layout pieces, next, us, ?_, hnext, ?_, by simp [Pieces.tokens, Pieces.plain]⟩
          · rw [Pieces.isProper, hbalanced, hlayout, hpieces]
            rfl
          · rw [hcs]
            simp [Pieces.chars]
        · obtain ⟨pieces, next, us, hpieces, hnext, rfl, rfl⟩ := ihTick start after (c :: content) cs ts hfuel hts
          refine ⟨.char c pieces, next, us, ?_, hnext, rfl, by simp [Pieces.tokens, Pieces.plain]⟩
          rw [pieces.head?_chars next] at hplain
          rw [Pieces.isProper, hc, hplain, hpieces]
          rfl

/-- The lexer reads the tokens without meeting an open literal exactly from what they can be written as. -/
theorem lex_eq_iff : lex cs = ⟨ts, none⟩ ↔ Writes ts cs := by
  refine ⟨fun h => (writes_of_lexFrom (cs.length + 1)).1 0 cs ts (Nat.lt_succ_self _) h, ?_⟩
  rintro ⟨layout, hproper, rfl, rfl⟩
  exact layout.reads hproper _ 0 (Nat.lt_succ_self _)

end ReactiveNotebook.Analysis
