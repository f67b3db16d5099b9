import Mathlib.Tactic
import ReactiveNotebook.Decimal.Read

/-!
# How numbers are spelled

An integer is spelled as a sign, which may be missing, and digits. A decimal number has digits before or after a
point, or both, and may have an exponent. Reading accepts these spellings, and besides them the words for infinity
and for the value that is no number.
-/
namespace ReactiveNotebook.Decimal

/-- A sign as it stands before a number. -/
inductive Sign where
  | none | plus | minus
  deriving DecidableEq

namespace Sign

def text : Sign → List Char
  | none => []
  | plus => ['+']
  | minus => ['-']

/-- Whether the number is negative. -/
def isMinus : Sign → Bool
  | minus => true
  | _ => false

end Sign

/-- A character that a sign is made of. -/
def isSign (c : Char) : Bool := c == '+' || c == '-'

/-- An integer as it is spelled. -/
structure Integer where
  sign : Sign
  digits : List Char
  digits_ne_nil : digits ≠ []
  isDigit_digits : ∀ c ∈ digits, c.isDigit = true

namespace Integer

def text (i : Integer) : List Char := i.sign.text ++ i.digits

def value (i : Integer) : ℤ := if i.sign.isMinus then -(ofDigits i.digits : ℤ) else ofDigits i.digits

/-- There is a digit in an integer. -/
lemma exists_digit (i : Integer) : ∃ c ∈ i.text, c.isDigit = true := by
  obtain ⟨c, hc⟩ := List.exists_mem_of_ne_nil _ i.digits_ne_nil
  exact ⟨c, List.mem_append_right _ hc, i.isDigit_digits c hc⟩

end Integer

/-- The exponent of a decimal number with the letter before it. -/
structure Exponent where
  letter : Char
  integer : Integer
  isLetter : letter = 'e' ∨ letter = 'E'

/-- A decimal number as it is spelled. -/
structure Numeral where
  sign : Sign
  whole : List Char
  /-- What stands behind the point, if there is a point. -/
  fraction : Option (List Char)
  exponent : Option Exponent
  digits_ne_nil : whole ++ fraction.getD [] ≠ []
  isDigit_digits : ∀ c ∈ whole ++ fraction.getD [], c.isDigit = true

namespace Numeral

def exponentText : Option Exponent → List Char
  | some e => e.letter :: e.integer.text
  | none => []

/-- The exponent that a missing exponent stands for is zero. -/
def exponentValue : Option Exponent → ℤ
  | some e => e.integer.value
  | none => 0

def fractionText : Option (List Char) → List Char
  | some ds => '.' :: ds
  | none => []

def text (d : Numeral) : List Char :=
  d.sign.text ++ (d.whole ++ (fractionText d.fraction ++ exponentText d.exponent))

/-- The digits of a decimal number, without its sign and its exponent. -/
def mantissa (d : Numeral) : Mantissa where
  digits := ofDigits (d.whole ++ d.fraction.getD [])
  count := (d.whole ++ d.fraction.getD []).length
  exponent := -(d.fraction.getD []).length

def value (d : Numeral) : Double := nearestDecimal d.sign.isMinus d.mantissa (exponentValue d.exponent)

end Numeral

variable {cs ds rest word : List Char} {n : ℤ} {x : Double} {sign : Sign} {c : Char}

lemma exists_sign (cs : List Char) :
    ∃ sign : Sign, cs = sign.text ++ (takeSign cs).2 ∧ (takeSign cs).1 = sign.isMinus := by
  unfold takeSign
  split
  · exact ⟨.minus, rfl, rfl⟩
  · exact ⟨.plus, rfl, rfl⟩
  · exact ⟨.none, rfl, rfl⟩

/-- A sign is read off what does not begin with another one. -/
lemma takeSign_append (h : ∀ c ∈ rest.head?, isSign c = false) :
    takeSign (sign.text ++ rest) = (sign.isMinus, rest) := by
  cases sign with
  | plus => rfl
  | minus => rfl
  | none =>
    change takeSign rest = (false, rest)
    unfold takeSign
    split
    · exact absurd (h '-' rfl) (by decide)
    · exact absurd (h '+' rfl) (by decide)
    · rfl

lemma isSign_of_isDigit (h : c.isDigit = true) : isSign c = false := by
  rw [Bool.eq_false_iff]
  intro hsign
  simp only [isSign, Bool.or_eq_true, beq_iff_eq] at hsign
  rcases hsign with rfl | rfl <;> cases h

lemma readNat?_eq_some_iff {k : ℕ} :
    readNat? cs = some k ↔ cs ≠ [] ∧ (∀ c ∈ cs, c.isDigit = true) ∧ ofDigits cs = k := by
  unfold readNat?
  split
  · next h =>
    simp only [Bool.or_eq_true, List.isEmpty_iff, Bool.not_eq_true', List.all_eq_false] at h
    refine ⟨nofun, fun ⟨hne, hdigits, _⟩ => ?_⟩
    rcases h with hnil | ⟨c, hc, hno⟩
    · exact absurd hnil hne
    · exact absurd (hdigits c hc) hno
  · next h =>
    simp only [Bool.or_eq_true, List.isEmpty_iff, Bool.not_eq_true', not_or, Bool.not_eq_false,
      List.all_eq_true] at h
    exact ⟨fun hk => ⟨h.1, h.2, Option.some.inj hk⟩, fun hk => congrArg some hk.2.2⟩

lemma readInt?_eq (cs : List Char) : readInt? cs =
    (readNat? (takeSign cs).2).map fun k : ℕ => (if (takeSign cs).1 then -k else k : ℤ) := by
  unfold readInt?
  rcases takeSign cs with ⟨negative, digits⟩
  cases hread : readNat? digits <;> simp only [hread] <;> rfl

/-- Reading accepts integers as they are spelled. -/
theorem readInt?_eq_some_iff : readInt? cs = some n ↔ ∃ i : Integer, i.text = cs ∧ i.value = n := by
  rw [readInt?_eq]
  constructor
  · intro h
    obtain ⟨k, hk, rfl⟩ := Option.map_eq_some_iff.mp h
    obtain ⟨hne, hdigits, rfl⟩ := readNat?_eq_some_iff.mp hk
    obtain ⟨sign, htext, hminus⟩ := exists_sign cs
    refine ⟨⟨sign, (takeSign cs).2, hne, hdigits⟩, htext.symm, ?_⟩
    rw [Integer.value, hminus]
  · rintro ⟨i, rfl, rfl⟩
    have hsign : takeSign i.text = (i.sign.isMinus, i.digits) :=
      takeSign_append fun c hc => isSign_of_isDigit (i.isDigit_digits c (List.mem_of_head? hc))
    have hread : readNat? i.digits = some (ofDigits i.digits) :=
      readNat?_eq_some_iff.mpr ⟨i.digits_ne_nil, i.isDigit_digits, rfl⟩
    rw [hsign, hread]
    rfl

lemma fits64_iff : fits64 n = true ↔ -2 ^ 63 ≤ n ∧ n < 2 ^ 63 := by
  simp only [fits64, Bool.and_eq_true, decide_eq_true_eq]
  norm_num

/-- The range of a signed word limits the integers that are read as one. -/
theorem readInt64?_eq_some_iff {w : Int64} : readInt64? cs = some w ↔
    ∃ i : Integer, i.text = cs ∧ (-2 ^ 63 ≤ i.value ∧ i.value < 2 ^ 63) ∧ w = Int64.ofInt i.value := by
  unfold readInt64?
  constructor
  · intro h
    split at h
    · next n hn =>
      obtain ⟨i, hi, rfl⟩ := readInt?_eq_some_iff.mp hn
      split at h
      · next hfits => exact ⟨i, hi, fits64_iff.mp hfits, (Option.some.inj h).symm⟩
      · cases h
    · cases h
  · rintro ⟨i, hi, hfits, rfl⟩
    rw [readInt?_eq_some_iff.mpr ⟨i, hi, rfl⟩]
    simp only [fits64_iff.mpr hfits, if_true]

/-- Digits are read as far as they go. -/
lemma span_digits (hds : ∀ c ∈ ds, c.isDigit = true) (hrest : ∀ c ∈ rest.head?, c.isDigit = false) :
    (ds ++ rest).takeWhile Char.isDigit = ds ∧ (ds ++ rest).dropWhile Char.isDigit = rest := by
  rw [List.takeWhile_append_of_pos hds, List.dropWhile_append_of_pos hds]
  cases rest with
  | nil => simp
  | cons c rest =>
    have hc : c.isDigit = false := hrest c rfl
    simp [hc]

lemma isDigit_takeWhile (cs : List Char) : ∀ c ∈ cs.takeWhile Char.isDigit, c.isDigit = true :=
  List.all_eq_true.mp List.all_takeWhile

lemma readExponent?_eq_some_iff : readExponent? cs = some n ↔
    ∃ e, Numeral.exponentText e = cs ∧ Numeral.exponentValue e = n := by
  constructor
  · intro h
    unfold readExponent? at h
    split at h
    · exact ⟨none, rfl, Option.some.inj h⟩
    · next c rest =>
      split at h
      · next hletter =>
        obtain ⟨i, hi, rfl⟩ := readInt?_eq_some_iff.mp h
        simp only [Bool.or_eq_true, beq_iff_eq] at hletter
        exact ⟨some ⟨c, i, hletter⟩, congrArg (c :: ·) hi, rfl⟩
      · cases h
  · rintro ⟨e, rfl, rfl⟩
    cases e with
    | none => rfl
    | some e =>
      have hletter : (e.letter == 'e' || e.letter == 'E') = true := by simpa using e.isLetter
      change (if (e.letter == 'e' || e.letter == 'E') = true then readInt? e.integer.text else none) = _
      rw [if_pos hletter]
      exact readInt?_eq_some_iff.mpr ⟨e.integer, rfl, rfl⟩

lemma not_isDigit_head?_exponentText (e : Option Exponent) :
    ∀ c ∈ (Numeral.exponentText e).head?, c.isDigit = false := by
  intro c hc
  cases e with
  | none => cases hc
  | some e =>
    cases hc
    rcases e.isLetter with h | h <;> rw [h] <;> rfl

/-- What follows the sign of a decimal number is its digits and its exponent. -/
lemma readMantissa?_numeral (d : Numeral) :
    readMantissa? (d.whole ++ (Numeral.fractionText d.fraction ++ Numeral.exponentText d.exponent)) =
      some (d.mantissa, Numeral.exponentText d.exponent) := by
  obtain ⟨sign, whole, fraction, exponent, hne, hdigits⟩ := d
  have hexponent := not_isDigit_head?_exponentText exponent
  have hwhole : ∀ c ∈ whole, c.isDigit = true := fun c hc => hdigits c (List.mem_append_left _ hc)
  cases fraction with
  | none =>
    obtain ⟨htake, hdrop⟩ := span_digits hwhole hexponent
    have hne' : whole.isEmpty = false := by simpa using hne
    dsimp only [Numeral.fractionText, List.nil_append]
    unfold readMantissa?
    rw [htake, hdrop]
    split
    · next rest hpoint =>
      cases exponent with
      | none => cases hpoint
      | some e =>
        obtain ⟨hletter, -⟩ := List.cons.inj hpoint
        rcases e.isLetter with h | h <;> rw [h] at hletter <;> cases hletter
    · simp [hne', Numeral.mantissa]
  | some fraction =>
    have hfraction : ∀ c ∈ fraction, c.isDigit = true := fun c hc => hdigits c (List.mem_append_right _ hc)
    have hpoint : ∀ c ∈ ('.' :: (fraction ++ Numeral.exponentText exponent)).head?, c.isDigit = false := by
      intro c hc
      cases hc
      rfl
    obtain ⟨htake, hdrop⟩ := span_digits hwhole hpoint
    obtain ⟨htake', hdrop'⟩ := span_digits hfraction hexponent
    have hne' : (whole.isEmpty && fraction.isEmpty) = false := by
      rw [Bool.eq_false_iff]
      simpa [List.append_eq_nil_iff] using hne
    change readMantissa? (whole ++ '.' :: (fraction ++ Numeral.exponentText exponent)) = _
    unfold readMantissa?
    simp only [htake, hdrop, htake', hdrop', hne']
    simp [Numeral.mantissa]

/-- What is read as digits with a point, and as an exponent, are the digits and the exponent of a decimal number. -/
lemma exists_numeral {m : Mantissa} {e : ℤ} (hm : readMantissa? cs = some (m, rest)) (he : readExponent? rest = some e)
    (sign : Sign) : ∃ d : Numeral, d.sign = sign ∧ d.text = sign.text ++ cs ∧ d.mantissa = m ∧
      Numeral.exponentValue d.exponent = e := by
  obtain ⟨exponent, rfl, rfl⟩ := readExponent?_eq_some_iff.mp he
  have hspan : cs = cs.takeWhile Char.isDigit ++ cs.dropWhile Char.isDigit := List.takeWhile_append_dropWhile.symm
  unfold readMantissa? at hm
  split at hm
  · next tail hpoint =>
    dsimp only at hm
    split at hm
    · cases hm
    · next hne =>
      obtain ⟨hm, hrest⟩ := Prod.mk.inj (Option.some.inj hm)
      have hdigits : ∀ c ∈ cs.takeWhile Char.isDigit ++ tail.takeWhile Char.isDigit, c.isDigit = true := fun c hc =>
        (List.mem_append.mp hc).elim (isDigit_takeWhile _ c) (isDigit_takeWhile _ c)
      refine ⟨⟨sign, cs.takeWhile Char.isDigit, some (tail.takeWhile Char.isDigit), exponent, ?_, hdigits⟩, rfl, ?_,
        ?_, rfl⟩
      · simpa [List.append_eq_nil_iff] using hne
      · have htail : tail = tail.takeWhile Char.isDigit ++ Numeral.exponentText exponent := by
          rw [← hrest, List.takeWhile_append_dropWhile]
        rw [hpoint] at hspan
        conv_rhs => rw [hspan, htail]
        rfl
      · rw [← hm]
        simp [Numeral.mantissa]
  · dsimp only at hm
    split at hm
    · cases hm
    · next hne =>
      obtain ⟨hm, hrest⟩ := Prod.mk.inj (Option.some.inj hm)
      refine ⟨⟨sign, cs.takeWhile Char.isDigit, none, exponent, ?_, ?_⟩, rfl, ?_, ?_, rfl⟩
      · simpa using hne
      · simpa using isDigit_takeWhile cs
      · conv_rhs => rw [hspan, hrest]
        rfl
      · rw [← hm]
        simp [Numeral.mantissa]

/-- The words for infinity and for the value that is no number, in small letters. -/
def nonFiniteWords : List String := ["inf", "infinity", "nan"]

/-- Whether a word is one of these, in letters of any size. -/
def IsNonFiniteWord (word : List Char) : Prop := String.ofList (word.map Char.toLower) ∈ nonFiniteWords

/-- Whether a text is one of these words, with a sign before it or without one. -/
def SpellsNonFinite (cs : List Char) : Prop :=
  ∃ (sign : Sign) (word : List Char), cs = sign.text ++ word ∧ IsNonFiniteWord word

def wordLetters : List Char := "infinityan".toList

lemma all_wordLetters : (nonFiniteWords.all fun word => word.toList.all wordLetters.contains) = true := by
  decide +kernel

lemma toLower_mem_of_word (h : IsNonFiniteWord word) (hc : c ∈ word) : c.toLower ∈ wordLetters := by
  have hletters := List.all_eq_true.mp all_wordLetters _ h
  rw [String.toList_ofList] at hletters
  exact List.contains_iff_mem.mp (List.all_eq_true.mp hletters _ (List.mem_map_of_mem hc))

lemma toLower_of_isDigit (h : c.isDigit = true) : c.toLower = c := by
  unfold Char.toLower
  split
  · next hupper =>
    simp only [Char.isDigit, Bool.and_eq_true, decide_eq_true_eq] at h
    exact absurd (UInt32.le_trans hupper.1 h.2) (by decide)
  · rfl

lemma not_isDigit_of_word (h : IsNonFiniteWord word) (hc : c ∈ word) : c.isDigit = false := by
  have hmem := toLower_mem_of_word h hc
  rw [Bool.eq_false_iff]
  intro hdigit
  rw [toLower_of_isDigit hdigit] at hmem
  have hletters : (wordLetters.all fun c => !c.isDigit) = true := by decide +kernel
  have hletter := List.all_eq_true.mp hletters c hmem
  rw [hdigit] at hletter
  cases hletter

lemma not_isSign_of_word (h : IsNonFiniteWord word) (hc : c ∈ word) : isSign c = false := by
  have hmem := toLower_mem_of_word h hc
  rw [Bool.eq_false_iff]
  intro hsign
  simp only [isSign, Bool.or_eq_true, beq_iff_eq] at hsign
  rcases hsign with rfl | rfl <;> exact absurd hmem (by decide)

/-- None of these words has a digit in it. -/
lemma not_isDigit_of_spellsNonFinite (h : SpellsNonFinite cs) (hc : c ∈ cs) : c.isDigit = false := by
  obtain ⟨sign, word, rfl, hword⟩ := h
  rcases List.mem_append.mp hc with hc | hc
  · cases sign with
    | none => cases hc
    | plus => rw [List.mem_singleton.mp hc]; rfl
    | minus => rw [List.mem_singleton.mp hc]; rfl
  · exact not_isDigit_of_word hword hc

lemma readFloat?_eq_of_takeSign {negative : Bool} (hsign : takeSign cs = (negative, rest))
    (hword : ¬ IsNonFiniteWord rest) :
    readFloat? cs = (readMantissa? rest).bind fun p =>
      (readExponent? p.2).map fun e => nearestDecimal negative p.1 e := by
  simp only [IsNonFiniteWord, nonFiniteWords, List.mem_cons, List.not_mem_nil, or_false, not_or] at hword
  unfold readFloat?
  simp only [hsign, beq_iff_eq, hword, Bool.or_eq_true, or_self, if_false]
  cases readMantissa? rest with
  | none => rfl
  | some p =>
    dsimp only [Option.bind_some, bind, Option.bind]
    cases readExponent? p.2 <;> rfl

/-- The words are read as doubles. -/
lemma exists_readFloat?_of_spellsNonFinite (h : SpellsNonFinite cs) : ∃ x, readFloat? cs = some x := by
  obtain ⟨sign, word, rfl, hword⟩ := h
  have hsign : takeSign (sign.text ++ word) = (sign.isMinus, word) :=
    takeSign_append fun c hc => not_isSign_of_word hword (List.mem_of_head? hc)
  unfold readFloat?
  simp only [hsign]
  split
  · exact ⟨_, rfl⟩
  · next hfinite =>
    split
    · exact ⟨_, rfl⟩
    · next hnumber =>
      simp only [Bool.or_eq_true, beq_iff_eq, not_or] at hfinite hnumber
      simp only [IsNonFiniteWord, nonFiniteWords, List.mem_cons, List.not_mem_nil, or_false] at hword
      rcases hword with hword | hword | hword
      · exact absurd hword hfinite.1
      · exact absurd hword hfinite.2
      · exact absurd hword hnumber

/-- A text that is read as a double is one of these words, or a decimal number. -/
theorem exists_numeral_of_readFloat? (h : readFloat? cs = some x) :
    SpellsNonFinite cs ∨ ∃ d : Numeral, d.text = cs ∧ x = d.value := by
  obtain ⟨sign, htext, hminus⟩ := exists_sign cs
  rcases hsign : takeSign cs with ⟨negative, rest⟩
  rw [hsign] at htext hminus
  by_cases hword : IsNonFiniteWord rest
  · exact .inl ⟨sign, rest, htext, hword⟩
  · rw [readFloat?_eq_of_takeSign hsign hword] at h
    obtain ⟨⟨m, tail⟩, hm, hrest⟩ := Option.bind_eq_some_iff.mp h
    obtain ⟨e, he, rfl⟩ := Option.map_eq_some_iff.mp hrest
    obtain ⟨d, rfl, hd, rfl, rfl⟩ := exists_numeral hm he sign
    refine .inr ⟨d, hd.trans htext.symm, ?_⟩
    rw [show negative = d.sign.isMinus from hminus]
    rfl

namespace Numeral

variable (d : Numeral)

/-- What follows the sign of a decimal number. -/
def body : List Char := d.whole ++ (fractionText d.fraction ++ exponentText d.exponent)

lemma mem_body_of_mem_digits (hc : c ∈ d.whole ++ d.fraction.getD []) : c ∈ d.body := by
  rcases List.mem_append.mp hc with hc | hc
  · exact List.mem_append_left _ hc
  · refine List.mem_append_right _ (List.mem_append_left _ ?_)
    cases hfraction : d.fraction with
    | none => rw [hfraction] at hc; cases hc
    | some ds => rw [hfraction] at hc; exact List.mem_cons_of_mem _ hc

/-- There is a digit in a decimal number. -/
lemma exists_digit : ∃ c ∈ d.body, c.isDigit = true := by
  obtain ⟨c, hc⟩ := List.exists_mem_of_ne_nil _ d.digits_ne_nil
  exact ⟨c, d.mem_body_of_mem_digits hc, d.isDigit_digits c hc⟩

lemma not_isSign_head?_body : ∀ c ∈ d.body.head?, isSign c = false := by
  obtain ⟨sign, whole, fraction, exponent, hne, hdigits⟩ := d
  intro c hc
  cases whole with
  | cons first whole =>
    obtain rfl : first = c := Option.some.inj hc
    exact isSign_of_isDigit (hdigits first (by simp))
  | nil =>
    cases fraction with
    | none => exact absurd rfl hne
    | some ds => cases hc; rfl

/-- A decimal number is read as the double nearest to it. -/
theorem readFloat?_text : readFloat? d.text = some d.value := by
  have hsign : takeSign d.text = (d.sign.isMinus, d.body) := takeSign_append d.not_isSign_head?_body
  have hword : ¬ IsNonFiniteWord d.body := fun h => by
    obtain ⟨c, hc, hdigit⟩ := d.exists_digit
    exact Bool.false_ne_true ((not_isDigit_of_word h hc).symm.trans hdigit)
  rw [readFloat?_eq_of_takeSign hsign hword, body, readMantissa?_numeral, Option.bind_some,
    readExponent?_eq_some_iff.mpr ⟨d.exponent, rfl, rfl⟩]
  rfl

end Numeral

end ReactiveNotebook.Decimal
