import Mathlib.Tactic
import ReactiveNotebook.Proofs.Text
import ReactiveNotebook.Render

/-!
# Templates cut at their marks

A template is cut in one way only: each placeholder begins at the first opening mark after the placeholder before it
and ends at the first closing mark after that. The parts of a template are those of its cut, so nothing of the template
is lost, and its only warning is about an opening mark that no closing mark follows.
-/
namespace ReactiveNotebook

namespace Analysis

variable {c : Char} {cs before after : List Char}

lemma pair_infix_cons {a : Char} :
    [c, c] <:+: a :: cs ↔ (a == c && cs.head? == some c) = true ∨ [c, c] <:+: cs := by
  rw [List.infix_cons_iff, List.cons_prefix_cons, Bool.and_eq_true, beq_iff_eq, beq_iff_eq, eq_comm (a := c)]
  refine or_congr_left (and_congr_right fun _ => ?_)
  cases cs with
  | nil => simp
  | cons b cs => simp [List.cons_prefix_cons, eq_comm]

lemma not_pair_infix_singleton : ¬ [c, c] <:+: [c] := fun h => by
  simpa using h.length_le

lemma splitAtPair_eq_none_iff : splitAtPair c cs = none ↔ ¬ [c, c] <:+: cs := by
  induction cs with
  | nil => simp [splitAtPair]
  | cons a cs ih =>
    rw [splitAtPair, pair_infix_cons]
    split
    · next h => simp [h]
    · next h => simp [h, ih]

lemma splitAtPair_append (h : ¬ [c, c] <:+: before ++ [c]) :
    splitAtPair c (before ++ c :: c :: after) = some (before, after) := by
  induction before with
  | nil => simp [splitAtPair]
  | cons a before ih =>
    rw [List.cons_append, pair_infix_cons, not_or] at h
    have hhead : (before ++ c :: c :: after).head? = (before ++ [c]).head? := by cases before <;> rfl
    rw [List.cons_append, splitAtPair, hhead, if_neg h.1, ih h.2]
    rfl

/-- A text is split at its first pair: none begins before it, not even with the character in front of it. -/
lemma eq_of_splitAtPair (h : splitAtPair c cs = some (before, after)) :
    cs = before ++ c :: c :: after ∧ ¬ [c, c] <:+: before ++ [c] := by
  induction cs generalizing before with
  | nil => cases h
  | cons a cs ih =>
    rw [splitAtPair] at h
    split at h
    · next hpair =>
      obtain ⟨ha, hhead⟩ := Bool.and_eq_true_iff.1 hpair
      obtain rfl := eq_of_beq ha
      obtain ⟨rest, rfl⟩ := List.head?_eq_some_iff.1 (eq_of_beq hhead)
      obtain ⟨rfl, rfl⟩ := Prod.mk.inj (Option.some.inj h)
      exact ⟨rfl, not_pair_infix_singleton⟩
    · next hpair =>
      obtain ⟨⟨before, after⟩, hsplit, heq⟩ := Option.map_eq_some_iff.1 h
      obtain ⟨rfl, rfl⟩ := Prod.mk.inj heq
      obtain ⟨rfl, hfirst⟩ := ih hsplit
      have hhead : (before ++ c :: c :: after).head? = (before ++ [c]).head? := by cases before <;> rfl
      refine ⟨rfl, ?_⟩
      rw [List.cons_append, pair_infix_cons, not_or, ← hhead]
      exact ⟨hpair, hfirst⟩

/-- What follows a pair ends what follows the first pair. -/
lemma suffix_of_splitAtPair {front back : List Char}
    (h : splitAtPair c (front ++ c :: c :: back) = some (before, after)) : back <:+ after := by
  induction front generalizing before with
  | nil =>
    simp only [List.nil_append, splitAtPair, List.head?_cons, beq_self_eq_true, Bool.and_self, if_true] at h
    obtain ⟨-, rfl⟩ := Prod.mk.inj (Option.some.inj h)
    exact List.suffix_refl back
  | cons a front ih =>
    rw [List.cons_append, splitAtPair] at h
    split at h
    · obtain ⟨-, rfl⟩ := Prod.mk.inj (Option.some.inj h)
      cases front with
      | nil => exact List.suffix_cons c back
      | cons b front => exact ⟨front ++ [c, c], by simp⟩
    · obtain ⟨⟨before, after⟩, hsplit, heq⟩ := Option.map_eq_some_iff.1 h
      obtain ⟨-, rfl⟩ := Prod.mk.inj heq
      exact ih hsplit

lemma toList_placeholderOpen : placeholderOpen.toList = ['\x7b', '\x7b'] := rfl

lemma toList_placeholderClose : placeholderClose.toList = ['\x7d', '\x7d'] := rfl

/-- A placeholder with the text before it. -/
structure Segment where
  before : List Char
  inner : List Char

namespace Segment

def chars (s : Segment) : List Char :=
  s.before ++ placeholderOpen.toList ++ s.inner ++ placeholderClose.toList

def parts (s : Segment) : List Part := textPart s.before ++ [.placeholder (.read s.inner)]

/-- The marks of a segment are the first ones: no opening mark begins in the text before the placeholder, and no
closing mark begins inside. -/
structure IsProper (s : Segment) : Prop where
  before : ¬ placeholderOpen.toList <:+: s.before ++ ['\x7b']
  inner : ¬ placeholderClose.toList <:+: s.inner ++ ['\x7d']

variable {s : Segment} {inner rest : List Char}

lemma chars_append (s : Segment) (after : List Char) :
    s.chars ++ after = s.before ++ '\x7b' :: '\x7b' :: (s.inner ++ '\x7d' :: '\x7d' :: after) := by
  simp [chars, toList_placeholderOpen, toList_placeholderClose]

lemma IsProper.splitAtPair_open (h : s.IsProper) (after : List Char) :
    splitAtPair '\x7b' (s.chars ++ after) = some (s.before, s.inner ++ '\x7d' :: '\x7d' :: after) := by
  have hbefore : ¬ ['\x7b', '\x7b'] <:+: s.before ++ ['\x7b'] := h.before
  rw [chars_append, splitAtPair_append hbefore]

lemma IsProper.splitAtPair_close (h : s.IsProper) (after : List Char) :
    splitAtPair '\x7d' (s.inner ++ '\x7d' :: '\x7d' :: after) = some (s.inner, after) :=
  splitAtPair_append h.inner

/-- The first two marks are those of a segment. -/
lemma isProper_of_splitAtPair (hopen : splitAtPair '\x7b' cs = some (before, rest))
    (hclose : splitAtPair '\x7d' rest = some (inner, after)) :
    IsProper ⟨before, inner⟩ ∧ cs = chars ⟨before, inner⟩ ++ after := by
  obtain ⟨rfl, hbefore⟩ := eq_of_splitAtPair hopen
  obtain ⟨rfl, hinner⟩ := eq_of_splitAtPair hclose
  exact ⟨⟨hbefore, hinner⟩, (chars_append ⟨before, inner⟩ after).symm⟩

end Segment

/-- Some characters hold a complete placeholder. -/
def HoldsPlaceholder (cs : List Char) : Prop :=
  ∃ before inner after, cs = before ++ placeholderOpen.toList ++ inner ++ placeholderClose.toList ++ after

/-- There is a complete placeholder exactly if a closing mark follows the first opening mark. -/
lemma holdsPlaceholder_iff :
    HoldsPlaceholder cs ↔
      ∃ before rest, splitAtPair '\x7b' cs = some (before, rest) ∧ splitAtPair '\x7d' rest ≠ none := by
  simp only [ne_eq, splitAtPair_eq_none_iff, not_not]
  constructor
  · rintro ⟨front, inner, back, rfl⟩
    simp only [toList_placeholderOpen, toList_placeholderClose, List.append_assoc, List.cons_append, List.nil_append]
    cases hsplit : splitAtPair '\x7b' (front ++ '\x7b' :: '\x7b' :: (inner ++ '\x7d' :: '\x7d' :: back)) with
    | none =>
      exact absurd ⟨front, inner ++ '\x7d' :: '\x7d' :: back, by simp⟩ (splitAtPair_eq_none_iff.1 hsplit)
    | some split =>
      refine ⟨split.1, split.2, rfl, List.IsInfix.trans ⟨inner, back, ?_⟩ (suffix_of_splitAtPair hsplit).isInfix⟩
      simp
  · rintro ⟨before, rest, hsplit, inner, back, rfl⟩
    obtain ⟨rfl, -⟩ := eq_of_splitAtPair hsplit
    exact ⟨before, inner, back, by simp [toList_placeholderOpen, toList_placeholderClose]⟩

/-- A template cut at its marks: its placeholders with the texts before them, and the text after the last one. -/
structure Cut where
  segments : List Segment
  rest : List Char

namespace Cut

/-- The characters up to the end of the last placeholder. -/
def covered (cut : Cut) : List Char := cut.segments.flatMap Segment.chars

def parts (cut : Cut) : List Part := cut.segments.flatMap Segment.parts ++ textPart cut.rest

/-- The cut is one of the characters: it has them all, and takes every placeholder as early as possible. -/
structure IsOf (cut : Cut) (cs : List Char) : Prop where
  chars : cut.covered ++ cut.rest = cs
  proper : ∀ s ∈ cut.segments, s.IsProper
  rest : ¬ HoldsPlaceholder cut.rest

/-- The warnings about a cut that begins at byte `offset`: the first opening mark after the last placeholder is never
closed. -/
def Warns (cut : Cut) (offset : ℕ) (warnings : List Warning) : Prop :=
  (¬ placeholderOpen.toList <:+: cut.rest ∧ warnings = []) ∨
    ∃ before after, cut.rest = before ++ placeholderOpen.toList ++ after ∧
      ¬ placeholderOpen.toList <:+: before ++ ['\x7b'] ∧
      warnings = [.unterminatedPlaceholder (offset + Text.byteLength (cut.covered ++ before))]

variable {cut other : Cut} {s : Segment} {segments : List Segment} {rest : List Char} {offset : ℕ}

/-- A cut with a placeholder in front. -/
lemma IsOf.cons (h : cut.IsOf after) (hs : s.IsProper) : IsOf ⟨s :: cut.segments, cut.rest⟩ (s.chars ++ after) where
  chars := by rw [← h.chars]; simp [covered]
  proper := List.forall_mem_cons.2 ⟨hs, h.proper⟩
  rest := h.rest

/-- What follows the first placeholder of a cut. -/
lemma IsOf.exists_of_cons (h : IsOf ⟨s :: segments, rest⟩ cs) :
    ∃ after, cs = s.chars ++ after ∧ s.IsProper ∧ IsOf ⟨segments, rest⟩ after := by
  obtain ⟨hs, hsegments⟩ := List.forall_mem_cons.1 h.proper
  exact ⟨_, by rw [← h.chars]; simp [covered], hs, rfl, hsegments, h.rest⟩

lemma holdsPlaceholder_of_isProper (hs : s.IsProper) (after : List Char) : HoldsPlaceholder (s.chars ++ after) :=
  holdsPlaceholder_iff.2 ⟨_, _, hs.splitAtPair_open after, by simp [hs.splitAtPair_close after]⟩

/-- Two segments that characters begin with are the same. -/
lemma segment_unique {t : Segment} {after' : List Char} (hs : s.IsProper) (ht : t.IsProper)
    (h : s.chars ++ after = t.chars ++ after') : s = t ∧ after = after' := by
  have hopen := hs.splitAtPair_open after
  rw [h, ht.splitAtPair_open after'] at hopen
  obtain ⟨hbefore, hrest⟩ := Prod.mk.inj (Option.some.inj hopen)
  have hclose := hs.splitAtPair_close after
  rw [← hrest, ht.splitAtPair_close after'] at hclose
  obtain ⟨hinner, hafter⟩ := Prod.mk.inj (Option.some.inj hclose)
  cases s
  cases t
  exact ⟨congrArg₂ Segment.mk hbefore.symm hinner.symm, hafter.symm⟩

/-- There is one cut of the characters only. -/
lemma IsOf.unique (h : cut.IsOf cs) (h' : other.IsOf cs) : other = cut := by
  obtain ⟨segments, rest⟩ := cut
  induction segments generalizing other cs with
  | nil =>
    obtain rfl : rest = cs := h.chars
    obtain ⟨segments', rest'⟩ := other
    cases segments' with
    | nil => rw [show rest' = rest from h'.chars]
    | cons t segments' =>
      obtain ⟨after, rfl, ht, -⟩ := h'.exists_of_cons
      exact absurd (holdsPlaceholder_of_isProper ht after) h.rest
  | cons s segments ih =>
    obtain ⟨after, rfl, hs, hafter⟩ := h.exists_of_cons
    obtain ⟨segments', rest'⟩ := other
    cases segments' with
    | nil =>
      obtain rfl : rest' = s.chars ++ after := h'.chars
      exact absurd (holdsPlaceholder_of_isProper hs after) h'.rest
    | cons t segments' =>
      obtain ⟨after', hchars, ht, hafter'⟩ := h'.exists_of_cons
      obtain ⟨rfl, rfl⟩ := segment_unique hs ht hchars
      obtain ⟨rfl, rfl⟩ := Cut.mk.inj (ih hafter' hafter)
      rfl

/-- The segment in front of a cut moves its warnings on. -/
lemma Warns.cons {warnings : List Warning} (h : cut.Warns (offset + Text.byteLength s.chars) warnings) :
    Warns ⟨s :: cut.segments, cut.rest⟩ offset warnings := by
  rcases h with h | ⟨before, after, hrest, hfirst, hwarnings⟩
  · exact .inl h
  · refine .inr ⟨before, after, hrest, hfirst, hwarnings.trans ?_⟩
    simp [covered, Nat.add_assoc]

end Cut

/-- Splitting cuts the characters at their marks. -/
lemma exists_cut_of_splitTemplate {fuel : ℕ} (offset : ℕ) (hfuel : cs.length < fuel) :
    ∃ cut : Cut, cut.IsOf cs ∧ (splitTemplate fuel offset cs).1 = cut.parts ∧
      cut.Warns offset (splitTemplate fuel offset cs).2 := by
  induction fuel generalizing offset cs with
  | zero => exact absurd hfuel (Nat.not_lt_zero _)
  | succ fuel ih =>
    rw [splitTemplate]
    cases hopen : splitAtPair '\x7b' cs with
    | none =>
      refine ⟨⟨[], cs⟩, ⟨rfl, by simp, ?_⟩, rfl, .inl ⟨splitAtPair_eq_none_iff.1 hopen, rfl⟩⟩
      simp [holdsPlaceholder_iff, hopen]
    | some split =>
      obtain ⟨before, rest⟩ := split
      dsimp only
      cases hclose : splitAtPair '\x7d' rest with
      | none =>
        obtain ⟨hcs, hfirst⟩ := eq_of_splitAtPair hopen
        refine ⟨⟨[], cs⟩, ⟨rfl, by simp, ?_⟩, rfl, .inr ⟨before, rest, ?_, hfirst, rfl⟩⟩
        · simp [holdsPlaceholder_iff, hopen, hclose]
        · simp [hcs, toList_placeholderOpen]
      | some split =>
        obtain ⟨inner, after⟩ := split
        obtain ⟨hproper, rfl⟩ := Segment.isProper_of_splitAtPair hopen hclose
        have htaken : Text.byteLength (Segment.chars ⟨before, inner⟩ ++ after) - Text.byteLength after =
            Text.byteLength (Segment.chars ⟨before, inner⟩) :=
          Text.byteLength_sub rfl
        have hlength : after.length < fuel := by
          simp only [Segment.chars_append, List.length_append, List.length_cons] at hfuel
          omega
        obtain ⟨cut, hcut, hparts, hwarns⟩ :=
          ih (offset + Text.byteLength (Segment.chars ⟨before, inner⟩)) hlength
        simp only [htaken]
        refine ⟨⟨⟨before, inner⟩ :: cut.segments, cut.rest⟩, hcut.cons hproper, ?_, hwarns.cons⟩
        simp [hparts, Cut.parts, Segment.parts]

lemma exists_cut_of_parseTemplate (template : String) :
    ∃ cut : Cut, cut.IsOf template.toList ∧ (parseTemplate template).1 = cut.parts ∧
      cut.Warns 0 (parseTemplate template).2 := by
  obtain ⟨cut, hcut, hparts, hwarns⟩ := exists_cut_of_splitTemplate 0 (Nat.lt_succ_self template.toList.length)
  rw [String.length_toList] at hparts hwarns
  exact ⟨cut, hcut, hparts, hwarns⟩

def Part.isText : Part → Bool
  | .text _ => true
  | .placeholder _ => false

lemma not_mem_textPart (cs : List Char) : Part.text "" ∉ textPart cs := by
  cases cs with
  | nil => simp [textPart]
  | cons c cs => simp [textPart, ← String.toList_inj]

/-- Two parts that are not both text. -/
def Part.Apart (p q : Part) : Prop := p.isText = false ∨ q.isText = false

lemma isChain_textPart (cs : List Char) : (textPart cs).IsChain Part.Apart := by
  cases cs <;> simp [textPart]

lemma isChain_textPart_append {ps : List Part} (h : ps.IsChain Part.Apart) (cs : List Char) (p : Placeholder) :
    (textPart cs ++ .placeholder p :: ps).IsChain Part.Apart := by
  have hplaceholder : (Part.placeholder p :: ps).IsChain Part.Apart :=
    List.isChain_cons.2 ⟨fun q _ => .inl rfl, h⟩
  cases cs with
  | nil => exact hplaceholder
  | cons c cs => exact List.isChain_cons.2 ⟨by simp [Part.Apart, Part.isText], hplaceholder⟩

namespace Cut

variable {cut : Cut}

/-- No text of a cut template is empty. -/
lemma not_mem_parts (cut : Cut) : Part.text "" ∉ cut.parts := by
  simp [parts, Segment.parts, not_mem_textPart]

/-- Between two texts of a cut template there is a placeholder. -/
lemma isChain_parts (cut : Cut) : cut.parts.IsChain Part.Apart := by
  obtain ⟨segments, rest⟩ := cut
  induction segments with
  | nil => exact isChain_textPart rest
  | cons s segments ih =>
    have hparts : parts ⟨s :: segments, rest⟩ =
        textPart s.before ++ .placeholder (.read s.inner) :: parts ⟨segments, rest⟩ := by
      simp [parts, Segment.parts]
    rw [hparts]
    exact isChain_textPart_append ih _ _

end Cut

/-- A single text is rendered as it is. -/
lemma render_of_parts_eq_textPart (l : Language) (inputs : Inputs) {template : String}
    (h : (parseTemplate template).1 = textPart template.toList) : l.render template inputs = .ok template := by
  rw [Language.render, h]
  cases hcs : template.toList with
  | nil =>
    obtain rfl : template = "" := String.toList_eq_nil_iff.1 hcs
    rfl
  | cons c cs =>
    have hwhole : String.ofList (c :: cs) = template := by rw [← hcs, String.ofList_toList]
    simp [textPart, hwhole, Language.renderPart, String.join, bind, Except.bind, pure, Except.pure]

/-- A template is cut in one way only, its parts are those of the cut, and its only warning is about the first opening
mark after the last placeholder. Without a complete placeholder it is rendered as it is. -/
theorem parseTemplate_cut (l : Language) (inputs : Inputs) (template : String) :
    ∃ cut : Cut, cut.IsOf template.toList ∧ (∀ other : Cut, other.IsOf template.toList → other = cut) ∧
      (parseTemplate template).1 = cut.parts ∧ cut.Warns 0 (parseTemplate template).2 ∧
      Part.text "" ∉ (parseTemplate template).1 ∧ (parseTemplate template).1.IsChain Part.Apart ∧
      (¬ HoldsPlaceholder template.toList → l.render template inputs = .ok template) := by
  obtain ⟨cut, hcut, hparts, hwarns⟩ := exists_cut_of_parseTemplate template
  refine ⟨cut, hcut, fun other h => hcut.unique h, hparts, hwarns, ?_, ?_, fun hholds => ?_⟩
  · rw [hparts]
    exact cut.not_mem_parts
  · rw [hparts]
    exact cut.isChain_parts
  · have hwhole : Cut.IsOf ⟨[], template.toList⟩ template.toList := ⟨rfl, by simp, hholds⟩
    refine render_of_parts_eq_textPart l inputs ?_
    rw [hparts, ← hcut.unique hwhole]
    rfl

/-- Of three braces the first two are the mark. -/
example : parseTemplate "\x7b\x7b\x7ba\x7d\x7d\x7d" = ([.placeholder ⟨"\x7ba", none⟩, .text "\x7d"], []) := by decide

end Analysis

end ReactiveNotebook
