import ReactiveNotebook.Analysis.Template
import ReactiveNotebook.Proofs.Analysis.Sigil
import ReactiveNotebook.Proofs.Text

/-!
# The bar in front of a filter

A placeholder is split at the first bar that is a token of its own and not one of a pair, where the scan for the bar
sees the stretches of text before it as the lexer does: it passes over the comments and the backtick texts. The
expression is then read from whole tokens.
-/
namespace ReactiveNotebook.Analysis

variable {cs next body : List Char} {ts : List Token} {c quote : Char} {opened : Option Char} {skip : Bool}

/-- Whether the scan stops at `c`, which `cs` follows: outside of texts, at a bar that begins no pair. -/
def stopsAt (opened : Option Char) (skip : Bool) (c : Char) (cs : List Char) : Bool :=
  opened.isNone && !skip && c == '|' && cs.head? != some '|'

/-- The quote that is open after the character `c`, and whether the next character is passed over. -/
def scanAfter (opened : Option Char) (skip : Bool) (c : Char) : Option Char × Bool :=
  match opened, skip with
  | _, true => (opened, false)
  | some quote, false => (if c == quote then none else some quote, c == '\\')
  | none, false => (quoteAfter none false c, c == '|')

/-- Whether the scan passes over the characters: it does not stop, and ends outside of texts. -/
def passes (opened : Option Char) (skip : Bool) : List Char → Bool
  | [] => opened.isNone && !skip
  | c :: cs => !stopsAt opened skip c cs && passes (scanAfter opened skip c).1 (scanAfter opened skip c).2 cs

/-- One step of the scan. -/
lemma splitAtBar_cons (opened : Option Char) (skip : Bool) (c : Char) (cs : List Char) :
    splitAtBar opened skip (c :: cs) =
      if stopsAt opened skip c cs then some ([], cs)
      else (splitAtBar (scanAfter opened skip c).1 (scanAfter opened skip c).2 cs).map
        fun parts => (c :: parts.1, parts.2) := by
  cases skip with
  | true => simp [splitAtBar, stopsAt, scanAfter]
  | false =>
    cases opened with
    | some quote => simp [splitAtBar, stopsAt, scanAfter]
    | none => simp [splitAtBar, stopsAt, scanAfter, quoteAfter]

/-- The scan leaves out only the bar at which it stops. -/
lemma eq_of_splitAtBar {before after : List Char} (h : splitAtBar opened skip cs = some (before, after)) :
    cs = before ++ '|' :: after := by
  induction cs generalizing opened skip before with
  | nil => simp [splitAtBar] at h
  | cons c cs ih =>
    rw [splitAtBar_cons] at h
    split at h
    · next hstop =>
      obtain ⟨rfl, rfl⟩ := Prod.mk.inj (Option.some.inj h)
      simp only [stopsAt, Bool.and_eq_true, beq_iff_eq] at hstop
      rw [hstop.1.2]
      rfl
    · obtain ⟨parts, hparts, heq⟩ := Option.map_eq_some_iff.1 h
      obtain ⟨rfl, rfl⟩ := Prod.mk.inj heq
      exact congrArg (c :: ·) (ih hparts)

lemma stopsAt_append (h : stopsAt opened skip c body = false) : stopsAt opened skip c (body ++ next) = false := by
  cases body with
  | cons d body => exact h
  | nil =>
    have hend : (([] : List Char).head? != some '|') = true := rfl
    rw [stopsAt, hend, Bool.and_true] at h
    rw [stopsAt, h, Bool.false_and]

/-- The scan goes on after what it passes over. -/
lemma splitAtBar_append (h : passes opened skip body = true) :
    splitAtBar opened skip (body ++ next) =
      (splitAtBar none false next).map fun parts => (body ++ parts.1, parts.2) := by
  induction body generalizing opened skip with
  | nil =>
    obtain ⟨hopened, hskip⟩ := Bool.and_eq_true_iff.1 h
    obtain rfl := Option.isNone_iff_eq_none.1 hopened
    obtain rfl : skip = false := by simpa using hskip
    simp
  | cons c body ih =>
    obtain ⟨hstop, hbody⟩ := Bool.and_eq_true_iff.1 h
    rw [Bool.not_eq_true'] at hstop
    rw [List.cons_append, splitAtBar_cons, stopsAt_append hstop, ih hbody]
    simp [Function.comp_def]

/-- Whether the scan sees the stretch as the lexer does: it passes over a comment and over a backtick text. -/
def Lexeme.isTransparent (l : Lexeme) : Bool :=
  match l with
  | .line _ | .comment _ | .template _ => passes none false l.chars
  | _ => true

/-- Whether the scan sees every stretch as the lexer does. -/
def Layout.isTransparent : Layout → Bool
  | .nil => true
  | .cons first rest => first.isTransparent && rest.isTransparent

/-- Splits at the first bar that is a token of its own and not one of a pair; pairs are taken from left to right. -/
def Layout.splitAtBar : Layout → Option (Layout × Layout)
  | .nil => none
  | .cons (.sign '|') (.cons (.sign '|') rest) =>
    rest.splitAtBar.map fun parts => (.cons (.sign '|') (.cons (.sign '|') parts.1), parts.2)
  | .cons (.sign '|') rest => some (.nil, rest)
  | .cons first rest => rest.splitAtBar.map fun parts => (.cons first parts.1, parts.2)

def Layout.beforeBar (layout : Layout) : Layout := (layout.splitAtBar.map Prod.fst).getD layout

lemma stopsAt_eq_false (hc : c ≠ '|') : stopsAt opened skip c cs = false := by
  simp [stopsAt, hc]

/-- The scan passes over characters outside of texts that are neither quotes nor bars. -/
lemma passes_plain (h : ∀ c ∈ body, quoteAfter none false c = none ∧ c ≠ '|') : passes none false body = true := by
  induction body with
  | nil => rfl
  | cons c body ih =>
    obtain ⟨⟨hquote, hbar⟩, hbody⟩ := List.forall_mem_cons.1 h
    rw [passes, stopsAt_eq_false hbar, scanAfter, hquote, beq_false_of_ne hbar, ih hbody]
    rfl

/-- The scan passes over a text up to its closing quote. -/
lemma passes_text (h : isTextBody quote body = true) (hquote : quote ≠ '\\') :
    passes (some quote) false (body ++ [quote]) = true := by
  fun_induction isTextBody quote body with
  | case1 => simp [passes, stopsAt, scanAfter, hquote]
  | case2 => cases h
  | case3 c cs ih => simpa [passes, stopsAt, scanAfter, hquote.symm] using ih h
  | case4 c cs hc hc' ih =>
    obtain ⟨hne, hcs⟩ := Bool.and_eq_true_iff.1 h
    have hplain := ne_backslash hc hc'
    simpa [passes, stopsAt, scanAfter, beq_false_of_ne hplain, bne_iff_ne.1 hne] using ih hcs

/-- Only a bar begins with a bar. -/
lemma Lexeme.eq_sign_of_head? {l : Lexeme} (h : l.fits next = true) (hbar : l.chars.head? = some '|') :
    l = .sign '|' := by
  cases l with
  | blank c =>
    obtain rfl : c = '|' := Option.some.inj hbar
    cases h
  | text quote body =>
    obtain rfl : quote = '|' := Option.some.inj hbar
    cases h
  | number first rest =>
    obtain rfl : first = '|' := Option.some.inj hbar
    cases h
  | name dollar first rest =>
    cases dollar with
    | true => cases hbar
    | false =>
      obtain rfl : first = '|' := Option.some.inj hbar
      cases h
  | sign c => exact congrArg _ (Option.some.inj hbar)
  | _ => cases hbar

/-- The scan passes over every stretch other than a bar. -/
lemma Lexeme.passes_chars {l : Lexeme} (h : l.fits next = true) (htransparent : l.isTransparent = true)
    (hbar : l ≠ .sign '|') : passes none false l.chars = true := by
  have hne {c : Char} (hc : isNameRest c = true) : c ≠ '|' := ne_of_isNameRest hc rfl
  cases l with
  | blank c =>
    refine passes_plain fun d hd => ?_
    obtain rfl := List.mem_singleton.1 hd
    refine ⟨quoteAfter_of_isBlank h, ?_⟩
    rintro rfl
    cases h
  | line body => exact htransparent
  | comment body => exact htransparent
  | template pieces => exact htransparent
  | text quote body =>
    obtain ⟨hquote, hbody⟩ := Bool.and_eq_true_iff.1 h
    rcases Bool.or_eq_true_iff.1 hquote with h | h <;> obtain rfl := eq_of_beq h <;>
      exact passes_text hbody (by decide)
  | number first rest =>
    refine passes_plain fun c hc => ⟨(isPlain_of_mem_digits h hc).1, ?_⟩
    obtain ⟨hfirst, hrest⟩ := Bool.and_eq_true_iff.1 h
    rcases List.mem_cons.1 hc with rfl | hc
    · exact hne (isNameRest_of_isDigit hfirst)
    · rcases of_mem_number hrest hc with hc | rfl | rfl | rfl
      · exact hne hc
      all_goals decide
  | name dollar first rest =>
    have hplain : ∀ c ∈ first :: rest, quoteAfter none false c = none ∧ c ≠ '|' := fun c hc =>
      ⟨(isPlain_of_isNameRest (isNameRest_of_mem_name h hc)).1, hne (isNameRest_of_mem_name h hc)⟩
    cases dollar with
    | false => exact passes_plain hplain
    | true => exact passes_plain (List.forall_mem_cons.2 ⟨⟨rfl, by decide⟩, hplain⟩)
  | sign c =>
    refine passes_plain fun d hd => ?_
    obtain rfl := List.mem_singleton.1 hd
    exact ⟨quoteAfter_of_isSign h, fun hd => hbar (congrArg _ hd)⟩

/-- What begins with a bar is laid out with one. -/
lemma Layout.exists_of_head? {layout : Layout} (h : layout.isProper = true) (hbar : layout.chars.head? = some '|') :
    ∃ rest, layout = .cons (.sign '|') rest := by
  cases layout with
  | nil => cases hbar
  | cons first rest =>
    obtain ⟨hfits, -⟩ := Bool.and_eq_true_iff.1 h
    have hne : first.chars ≠ [] := List.length_pos_iff.1 first.chars_pos
    rw [Layout.chars, List.head?_append_of_ne_nil _ hne] at hbar
    exact ⟨rest, congrArg (Layout.cons · rest) (Lexeme.eq_sign_of_head? hfits hbar)⟩

lemma Layout.beforeBar_pair (rest : Layout) :
    beforeBar (.cons (.sign '|') (.cons (.sign '|') rest)) =
      .cons (.sign '|') (.cons (.sign '|') rest.beforeBar) := by
  rw [beforeBar, beforeBar, splitAtBar]
  cases rest.splitAtBar <;> rfl

lemma Layout.splitAtBar_cons {first : Lexeme} (hbar : first ≠ .sign '|') (rest : Layout) :
    splitAtBar (.cons first rest) = rest.splitAtBar.map fun parts => (.cons first parts.1, parts.2) := by
  rw [splitAtBar]
  · exact fun _ h => absurd h hbar
  · exact hbar

lemma Layout.beforeBar_cons {first : Lexeme} (hbar : first ≠ .sign '|') (rest : Layout) :
    beforeBar (.cons first rest) = .cons first rest.beforeBar := by
  rw [beforeBar, beforeBar, splitAtBar_cons hbar]
  cases rest.splitAtBar <;> rfl

/-- The scan splits a text where its layout is split. -/
lemma Layout.splitAtBar_chars {layout : Layout} (h : layout.isProper = true)
    (htransparent : layout.beforeBar.isTransparent = true) :
    Analysis.splitAtBar none false layout.chars =
      layout.splitAtBar.map fun parts => (parts.1.chars, parts.2.chars) := by
  induction layout using Layout.splitAtBar.induct with
  | case1 => rfl
  | case2 rest ih =>
    obtain ⟨-, hrest⟩ := Bool.and_eq_true_iff.1 (Bool.and_eq_true_iff.1 h).2
    rw [beforeBar_pair] at htransparent
    have hscan : Analysis.splitAtBar none false (['|', '|'] ++ rest.chars) =
        (Analysis.splitAtBar none false rest.chars).map fun parts => (['|', '|'] ++ parts.1, parts.2) :=
      splitAtBar_append rfl
    rw [ih hrest htransparent] at hscan
    refine hscan.trans ?_
    rw [splitAtBar, Option.map_map, Option.map_map]
    rfl
  | case3 rest hsingle =>
    obtain ⟨-, hrest⟩ := Bool.and_eq_true_iff.1 h
    have hstop : stopsAt none false '|' rest.chars = true := by
      by_contra hgo
      obtain ⟨rest', rfl⟩ := Layout.exists_of_head? hrest (by simpa [stopsAt] using hgo)
      exact hsingle rest' rfl
    have hsplit : splitAtBar (.cons (.sign '|') rest) = some (.nil, rest) := by
      rw [splitAtBar]
      exact hsingle
    have hscan := Analysis.splitAtBar_cons none false '|' rest.chars
    rw [if_pos hstop] at hscan
    rw [hsplit]
    exact hscan
  | case4 first rest _ hbar ih =>
    obtain ⟨hfits, hrest⟩ := Bool.and_eq_true_iff.1 h
    rw [beforeBar_cons hbar] at htransparent
    obtain ⟨hfirst, htransparent⟩ := Bool.and_eq_true_iff.1 htransparent
    rw [chars, splitAtBar_append (Lexeme.passes_chars hfits hfirst hbar), ih hrest htransparent,
      splitAtBar_cons hbar, Option.map_map, Option.map_map]
    rfl

section
variable {xs ys : List Char} {l : Lexeme} {b : Char}

lemma startsWithDigit_append (hys : startsWithDigit ys = false) : startsWithDigit (xs ++ ys) = startsWithDigit xs := by
  cases xs with
  | nil => exact hys
  | cons c xs => rfl

lemma goesOn_append {last : Char} (hys : startsWithDigit ys = false) :
    goesOn last c (xs ++ ys) = goesOn last c xs := by
  rw [goesOn, goesOn, startsWithDigit_append hys]

lemma isNumberRest_of_append {last : Char} (hys : startsWithDigit ys = false)
    (h : isNumberRest last (xs ++ ys) body = true) : isNumberRest last xs body = true := by
  induction body generalizing last with
  | nil =>
    cases xs with
    | nil => rfl
    | cons c xs => simpa [isNumberRest, goesOn_append hys] using h
  | cons c body ih =>
    obtain ⟨hc, hbody⟩ := Bool.and_eq_true_iff.1 h
    rw [← List.append_assoc, goesOn_append hys] at hc
    exact Bool.and_eq_true_iff.2 ⟨hc, ih hbody⟩

/-- A stretch of text reaches as far if the text ends earlier, before anything but a digit. -/
lemma Lexeme.fits_of_append (hys : startsWithDigit ys = false) (h : l.fits (xs ++ ys) = true) : l.fits xs = true := by
  cases l with
  | line body =>
    obtain ⟨hbody, hend⟩ := Bool.and_eq_true_iff.1 h
    refine Bool.and_eq_true_iff.2 ⟨hbody, ?_⟩
    cases xs with
    | nil => rfl
    | cons c xs => exact hend
  | number first rest =>
    obtain ⟨hfirst, hrest⟩ := Bool.and_eq_true_iff.1 h
    exact Bool.and_eq_true_iff.2 ⟨hfirst, isNumberRest_of_append hys hrest⟩
  | name dollar first rest =>
    obtain ⟨hname, hend⟩ := Bool.and_eq_true_iff.1 h
    refine Bool.and_eq_true_iff.2 ⟨hname, ?_⟩
    cases xs with
    | nil => rfl
    | cons c xs => exact hend
  | sign c =>
    cases xs with
    | cons d xs => exact h
    | nil =>
      simp only [Lexeme.fits, isSign, Bool.and_eq_true] at h ⊢
      exact ⟨⟨h.1.1, by simp⟩, by simp [startsWithName]⟩
  | _ => exact h

/-- What stands before the bar is laid out by itself. -/
lemma Layout.isProper_beforeBar {layout : Layout} (h : layout.isProper = true) :
    layout.beforeBar.isProper = true ∧
      ∃ back, layout.chars = layout.beforeBar.chars ++ back ∧ startsWithDigit back = false := by
  induction layout using Layout.splitAtBar.induct with
  | case1 => exact ⟨rfl, [], rfl, rfl⟩
  | case2 rest ih =>
    obtain ⟨-, hrest⟩ := Bool.and_eq_true_iff.1 (Bool.and_eq_true_iff.1 h).2
    obtain ⟨hbefore, back, hchars, hback⟩ := ih hrest
    rw [beforeBar_pair]
    exact ⟨hbefore, back, congrArg (['|', '|'] ++ ·) hchars, hback⟩
  | case3 rest hsingle =>
    have hbefore : beforeBar (.cons (.sign '|') rest) = .nil := by
      rw [beforeBar, splitAtBar]
      · rfl
      · exact hsingle
    rw [hbefore]
    exact ⟨rfl, '|' :: rest.chars, rfl, rfl⟩
  | case4 first rest _ hbar ih =>
    obtain ⟨hfits, hrest⟩ := Bool.and_eq_true_iff.1 h
    obtain ⟨hbefore, back, hchars, hback⟩ := ih hrest
    rw [hchars] at hfits
    rw [beforeBar_cons hbar]
    refine ⟨Bool.and_eq_true_iff.2 ⟨Lexeme.fits_of_append hback hfits, hbefore⟩, back, ?_, hback⟩
    rw [chars, chars, hchars, List.append_assoc]

/-- A stretch of text that ends in a blank is this blank or a comment up to the end of its line. -/
lemma Lexeme.exists_of_blank_end (h : l.fits next = true) (hb : Text.isBlank b = true) (hl : l.chars = xs ++ [b]) :
    l = .blank b ∧ xs = [] ∨ ∃ body, l = .line (body ++ [b]) ∧ xs = '/' :: '/' :: body := by
  have hlast : l.chars.getLast? = some b := by rw [hl, List.getLast?_concat]
  have hname (hrest : isNameRest b = true) : False := by
    rw [not_isBlank_of_isNameRest hrest] at hb
    cases hb
  cases l with
  | blank c =>
    obtain rfl : c = b := Option.some.inj hlast
    exact .inl ⟨rfl, by simpa [Lexeme.chars] using hl⟩
  | line body =>
    rcases List.eq_nil_or_concat body with rfl | ⟨body, d, rfl⟩
    · obtain rfl : '/' = b := Option.some.inj hlast
      cases hb
    · have hbody : ('/' :: '/' :: body) ++ [d] = xs ++ [b] := by rw [← hl]; simp [Lexeme.chars]
      obtain ⟨rfl, hd⟩ := List.append_inj' hbody rfl
      obtain rfl := List.singleton_inj.1 hd
      exact .inr ⟨body, by rw [List.concat_eq_append], rfl⟩
  | comment body =>
    obtain rfl : '/' = b := by simpa [Lexeme.chars, List.getLast?_cons] using hlast
    cases hb
  | text quote body =>
    obtain rfl : quote = b := by simpa [Lexeme.chars, List.getLast?_cons] using hlast
    obtain ⟨hquote, -⟩ := Bool.and_eq_true_iff.1 h
    rcases Bool.or_eq_true_iff.1 hquote with h | h <;> obtain rfl := eq_of_beq h <;> cases hb
  | template pieces =>
    obtain rfl : '\x60' = b := by simpa [Lexeme.chars, List.getLast?_cons, pieces.getLast?_chars] using hlast
    cases hb
  | number first rest =>
    obtain ⟨hfirst, hrest⟩ := Bool.and_eq_true_iff.1 h
    rcases List.mem_cons.1 (List.mem_of_getLast? hlast) with rfl | hmem
    · exact (hname (isNameRest_of_isDigit hfirst)).elim
    · rcases of_mem_number hrest hmem with hmem | rfl | rfl | rfl
      · exact (hname hmem).elim
      all_goals cases hb
  | name dollar first rest =>
    have hlast : (first :: rest).getLast? = some b := by
      cases dollar with
      | false => exact hlast
      | true => simpa [Lexeme.chars, List.getLast?_cons] using hlast
    exact (hname (isNameRest_of_mem_name h (List.mem_of_getLast? hlast))).elim
  | sign c =>
    obtain rfl : c = b := Option.some.inj hlast
    simp [Lexeme.fits, isSign, hb] at h

lemma Layout.eq_nil_of_chars {layout : Layout} (h : layout.chars = []) : layout = .nil := by
  cases layout with
  | nil => rfl
  | cons first rest =>
    have hpos := first.chars_pos
    rw [(List.append_eq_nil_iff.1 h).1] at hpos
    cases hpos

/-- A blank at the end of a text leaves no token. -/
lemma Layout.writes_of_blank_end : ∀ (layout : Layout) (xs : List Char), Text.isBlank b = true →
    layout.isProper = true → layout.chars = xs ++ [b] → Writes layout.tokens xs
  | .nil, xs, _, _, hchars => by simp [Layout.chars] at hchars
  | .cons first rest, xs, hb, h, hchars => by
    obtain ⟨hfits, hrest⟩ := Bool.and_eq_true_iff.1 h
    -- the blank ends what follows the first stretch, or the first stretch if nothing follows it
    rcases List.eq_nil_or_concat rest.chars with hnil | ⟨inside, d, hd⟩
    · obtain rfl := Layout.eq_nil_of_chars hnil
      have hfirst : first.chars = xs ++ [b] := by simpa [Layout.chars] using hchars
      rcases Lexeme.exists_of_blank_end hfits hb hfirst with ⟨rfl, rfl⟩ | ⟨body, rfl, rfl⟩
      · exact ⟨.nil, rfl, rfl, rfl⟩
      · obtain ⟨hbody, -⟩ := Bool.and_eq_true_iff.1 hfits
        refine ⟨.cons (.line body) .nil, ?_, by simp [Layout.chars, Lexeme.chars], rfl⟩
        simp only [List.contains_append, Bool.not_or, Bool.and_eq_true] at hbody
        simp only [Layout.isProper, Lexeme.fits, hbody.1]
        rfl
    · rw [List.concat_eq_append] at hd
      rw [Layout.chars, hd, ← List.append_assoc] at hchars
      obtain ⟨rfl, hlast⟩ := List.append_inj' hchars rfl
      have hdigit : startsWithDigit [b] = false := by
        refine Bool.eq_false_iff.2 fun hd => ?_
        rw [not_isBlank_of_isNameRest (isNameRest_of_isDigit hd)] at hb
        cases hb
      rw [hlast] at hd
      rw [hd] at hfits
      exact (rest.writes_of_blank_end inside hb hrest hd).cons (Lexeme.fits_of_append hdigit hfits)

lemma Writes.of_blank_start (hb : Text.isBlank b = true) (h : Writes ts (b :: xs)) : Writes ts xs := by
  have hlex := lex_eq_iff.2 h
  rw [lex, lexFrom, if_pos hb] at hlex
  exact (writes_of_lexFrom (b :: xs).length).1 _ xs ts (Nat.lt_succ_self _) hlex

lemma Writes.of_blanks_start {front : List Char} (hfront : front.all Text.isBlank = true)
    (h : Writes ts (front ++ xs)) : Writes ts xs := by
  induction front with
  | nil => exact h
  | cons b front ih =>
    obtain ⟨hb, hfront⟩ := Bool.and_eq_true_iff.1 hfront
    exact ih hfront (h.of_blank_start hb)

lemma Writes.of_blanks_end {back : List Char} (hback : back.all Text.isBlank = true) (h : Writes ts (xs ++ back)) :
    Writes ts xs := by
  induction back using List.reverseRecOn with
  | nil => rwa [List.append_nil] at h
  | append_singleton back b ih =>
    rw [List.all_append, Bool.and_eq_true] at hback
    obtain ⟨layout, hproper, hchars, rfl⟩ := h
    rw [← List.append_assoc] at hchars
    refine ih hback.1 (layout.writes_of_blank_end _ ?_ hproper hchars)
    simpa using hback.2

/-- Blanks at the ends of a text leave no tokens. -/
lemma Writes.trim (h : Writes ts cs) : Writes ts (Text.trimList cs) := by
  obtain ⟨front, back, hcs, hfront, hback⟩ := Text.exists_trimList cs
  rw [hcs, List.append_assoc] at h
  exact (h.of_blanks_start hfront).of_blanks_end hback

end

lemma Placeholder.expression_read (inner : List Char) :
    (Placeholder.read inner).expression =
      String.ofList (Text.trimList (((splitAtBar none false inner).map Prod.fst).getD inner)) := by
  rw [Placeholder.read]
  cases splitAtBar none false inner with
  | none => rfl
  | some parts =>
    dsimp only
    cases (Text.splitAt (· == ',') parts.2).map fun cs => String.ofList (Text.trimList cs) <;> rfl

/-- A placeholder is split at the first bar that is a token of its own and not one of a pair, and its expression has
the tokens before that bar. -/
theorem splitAtBar_eq_of_layout (layout : Layout) {inner : List Char} (hproper : layout.isProper = true)
    (hchars : layout.chars = inner) (htransparent : layout.beforeBar.isTransparent = true) :
    splitAtBar none false inner = layout.splitAtBar.map (fun parts => (parts.1.chars, parts.2.chars)) ∧
      lex (Placeholder.read inner).expression.toList = ⟨layout.beforeBar.tokens, none⟩ := by
  subst hchars
  have hsplit := Layout.splitAtBar_chars hproper htransparent
  refine ⟨hsplit, ?_⟩
  obtain ⟨hbefore, -⟩ := Layout.isProper_beforeBar hproper
  have hwrites : Writes layout.beforeBar.tokens layout.beforeBar.chars := ⟨_, hbefore, rfl, rfl⟩
  have hexpression :
      ((splitAtBar none false layout.chars).map Prod.fst).getD layout.chars = layout.beforeBar.chars := by
    rw [hsplit, Layout.beforeBar]
    cases layout.splitAtBar <;> rfl
  rw [Placeholder.expression_read, hexpression, String.toList_ofList, lex_eq_iff]
  exact hwrites.trim

/-- Neither a pair of bars nor a bar in a text separates the filter. -/
theorem splitAtBar_behind_texts :
    splitAtBar none false "a /* x */ || `b|c` | upper".toList =
        some ("a /* x */ || `b|c` ".toList, " upper".toList) ∧
      lex (Placeholder.read "a /* x */ || `b|c` | upper".toList).expression.toList =
        ⟨[.ident "a" false, .punct '|', .punct '|', .text "b|c"], none⟩ :=
  splitAtBar_eq_of_layout
    (.cons (.name false 'a' []) <| .cons (.blank ' ') <| .cons (.comment " x ".toList) <| .cons (.blank ' ') <|
      .cons (.sign '|') <| .cons (.sign '|') <| .cons (.blank ' ') <|
      .cons (.template (.char 'b' (.char '|' (.char 'c' .nil)))) <| .cons (.blank ' ') <| .cons (.sign '|') <|
      .cons (.blank ' ') <| .cons (.name false 'u' "pper".toList) .nil)
    (by decide) (by decide) (by decide)

/-- A backslash is no escape in a backtick text, but the scan takes it for one: it misses the end of the first text, and
stops at the bar inside the second. -/
theorem splitAtBar_inside_text :
    ∃ layout : Layout, layout.isProper = true ∧ layout.chars = "`C:\\` + `|`".toList ∧ layout.splitAtBar = none ∧
      splitAtBar none false "`C:\\` + `|`".toList = some ("`C:\\` + `".toList, "`".toList) :=
  ⟨.cons (.template (.char 'C' (.char ':' (.char '\\' .nil)))) <| .cons (.blank ' ') <| .cons (.sign '+') <|
      .cons (.blank ' ') <| .cons (.template (.char '|' .nil)) .nil,
    by decide, by decide, by decide, by decide⟩

end ReactiveNotebook.Analysis
