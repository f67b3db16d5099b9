import Mathlib.Tactic
import ReactiveNotebook.Decimal.Fixed

/-!
# Amounts with a fixed number of places

The text of a finite double with a fixed number of places is a decimal numeral with exactly these places, and its
digits are those of the integer nearest to the scaled exact value, a tie going to the even neighbour.
-/
namespace ReactiveNotebook.Decimal

variable {ds : List Char} {n n' num den k : ℕ} {x : ℚ}

/-- Whether `n` is the integer nearest to `x`, a tie going to the even neighbour. -/
structure RoundsTo (x : ℚ) (n : ℕ) : Prop where
  near : |x - n| ≤ 1 / 2
  even_of_tie : |x - n| = 1 / 2 → Even n

lemma roundsTo_self (n : ℕ) : RoundsTo n n := by
  constructor <;> norm_num

/-- There is only one such integer. -/
lemma RoundsTo.unique (h : RoundsTo x n) (h' : RoundsTo x n') : n = n' := by
  wlog hle : n ≤ n' generalizing n n'
  · exact (this h' h (by omega)).symm
  by_contra hne
  obtain ⟨hlow, -⟩ := abs_le.mp h'.near
  obtain ⟨-, hhigh⟩ := abs_le.mp h.near
  have hstep : (n : ℚ) + 1 ≤ n' := by exact_mod_cast (by omega : n + 1 ≤ n')
  have hnext : n' = n + 1 := by
    have : (n' : ℚ) ≤ n + 1 := by linarith
    have : n' ≤ n + 1 := by exact_mod_cast this
    omega
  subst hnext
  push_cast at hlow hstep
  have hx : x = n + 1 / 2 := by linarith
  have hn := h.even_of_tie (by rw [hx]; norm_num)
  have hn' := h'.even_of_tie (by rw [hx]; push_cast; norm_num)
  exact (Nat.even_add_one.mp hn') hn

/-- Rounding a quotient, stated without division. -/
lemma roundsTo_div (hden : 0 < den) (hlow : 2 * num ≤ 2 * (n * den) + den) (hhigh : 2 * (n * den) ≤ 2 * num + den)
    (htie : 2 * num = 2 * (n * den) + den ∨ 2 * (n * den) = 2 * num + den → Even n) : RoundsTo (num / den) n := by
  have hden' : (0 : ℚ) < den := by exact_mod_cast hden
  have hlow' : 2 * (num : ℚ) ≤ 2 * (n * den) + den := by exact_mod_cast hlow
  have hhigh' : 2 * (n * den) ≤ 2 * (num : ℚ) + den := by exact_mod_cast hhigh
  have hcancel : (num : ℚ) / den * den = num := div_mul_cancel₀ _ hden'.ne'
  constructor
  · rw [abs_le]
    constructor <;> nlinarith
  · intro h
    refine htie ?_
    rcases eq_or_eq_neg_of_abs_eq h with h | h
    · left
      have : 2 * (num : ℚ) = 2 * (n * den) + den := by rw [← hcancel, sub_eq_iff_eq_add.mp h]; ring
      exact_mod_cast this
    · right
      have : 2 * (n * den) = 2 * (num : ℚ) + den := by rw [← hcancel, sub_eq_iff_eq_add.mp h]; ring
      exact_mod_cast this

theorem roundsTo_roundDiv (hden : 0 < den) : RoundsTo (num / den) (roundDiv num den) := by
  obtain ⟨hlow, hhigh⟩ := roundDiv_near num den hden
  refine roundsTo_div hden hlow hhigh fun htie => ?_
  have hnum := Nat.div_add_mod' num den
  have hlt := Nat.mod_lt num hden
  have hnext : (num / den + 1) * den = num / den * den + den := by ring
  rw [Nat.even_iff]
  -- only the middle of two integers is equally near to both, and there the rule takes the even one
  unfold roundDiv at htie ⊢
  dsimp only at htie ⊢
  split_ifs at htie ⊢ with hless hmore heven <;> first | exact heven | omega

lemma Ratio.ofBinary_value (m : ℕ) (q : ℤ) :
    ((Ratio.ofBinary m q).num : ℚ) / (Ratio.ofBinary m q).den = m * 2 ^ q := by
  cases q with
  | ofNat k => simp [Ratio.ofBinary]
  | negSucc k => simp [Ratio.ofBinary, zpow_negSucc, div_eq_mul_inv]

lemma ofDigitChars_pad (k n : ℕ) : Nat.ofDigitChars 10 (List.replicate k '0' ++ natDigits n) 0 = n := by
  rw [Nat.ofDigitChars_append, Nat.ofDigitChars_replicate_zero, Nat.mul_zero, natDigits, Nat.ofDigitChars_ten_toDigits]

lemma head?_natDigits (h : 0 < n) : (natDigits n).head? ≠ some '0' := by
  unfold natDigits
  induction n using Nat.strong_induction_on with
  | _ n ih =>
    by_cases hlt : n < 10
    · rw [Nat.toDigits_of_lt_base hlt]
      interval_cases n <;> decide
    · have hpos : 0 < n / 10 := by omega
      rw [Nat.toDigits_of_base_le (by norm_num) (by omega), List.head?_append_of_ne_nil _ Nat.toDigits_ne_nil]
      exact ih (n / 10) (by omega) hpos

lemma digit_eq_zero_iff {c : Char} (h : c.isDigit = true) : c.toNat - '0'.toNat = 0 ↔ c = '0' := by
  simp only [Char.isDigit, Bool.and_eq_true, decide_eq_true_eq] at h
  refine ⟨fun hzero => ?_, fun hc => by rw [hc]; rfl⟩
  have hlow : 48 ≤ c.toNat := h.1
  have hval : c.toNat = '0'.toNat := by
    change c.toNat - 48 = 0 at hzero
    change c.toNat = 48
    omega
  exact Char.ext (UInt32.toNat_inj.mp hval)

/-- Digits denote zero if they are zeros. -/
lemma ofDigitChars_eq_zero_iff (hds : ∀ c ∈ ds, c.isDigit = true) :
    Nat.ofDigitChars 10 ds 0 = 0 ↔ ∀ c ∈ ds, c = '0' := by
  induction ds with
  | nil => simp
  | cons c ds ih =>
    have hzero := digit_eq_zero_iff (hds c List.mem_cons_self)
    have ih := ih fun c hc => hds c (List.mem_cons_of_mem _ hc)
    rw [Nat.ofDigitChars_cons, Nat.ofDigitChars_eq_ofDigitChars_zero, Nat.mul_zero, Nat.zero_add, Nat.add_eq_zero_iff,
      ih, Nat.mul_eq_zero, hzero]
    simp

variable {width : ℕ}

lemma length_paddedDigits (width n : ℕ) : (paddedDigits width n).length = max width (natDigits n).length := by
  simp only [paddedDigits, List.length_append, List.length_replicate]
  omega

lemma isDigit_paddedDigits : ∀ c ∈ paddedDigits width n, c.isDigit = true := by
  intro c hc
  rcases List.mem_append.mp hc with hc | hc
  · rw [List.eq_of_mem_replicate hc]
    rfl
  · exact Nat.isDigit_of_mem_toDigits (by norm_num) le_rfl hc

/-- A zero stands in front only where it is needed to reach the width. -/
lemma head?_paddedDigits (h : width < (paddedDigits width n).length) (hwidth : 0 < width) :
    (paddedDigits width n).head? ≠ some '0' := by
  rw [length_paddedDigits, lt_max_iff] at h
  have hlength : width < (natDigits n).length := h.resolve_left (lt_irrefl _)
  have hpos : 0 < n := by
    rcases Nat.eq_zero_or_pos n with rfl | hpos
    · rw [natDigits, Nat.toDigits_zero, List.length_singleton] at hlength
      omega
    · exact hpos
  rw [paddedDigits, Nat.sub_eq_zero_of_le hlength.le]
  exact head?_natDigits hpos

/-- A decimal number without a sign as it is spelled: digits, and behind a point its places if it has any. -/
structure FixedNumeral where
  whole : List Char
  fraction : List Char
  whole_ne_nil : whole ≠ []
  eq_of_leading_zero : whole.head? = some '0' → whole = ['0']
  isDigit_digits : ∀ c ∈ whole ++ fraction, c.isDigit = true

namespace FixedNumeral

/-- The number of places behind the point. -/
def places (a : FixedNumeral) : ℕ := a.fraction.length

def text (a : FixedNumeral) : List Char := a.whole ++ if a.places = 0 then [] else '.' :: a.fraction

/-- The number that a numeral denotes, counted in units of its last place. -/
def units (a : FixedNumeral) : ℕ := Nat.ofDigitChars 10 (a.whole ++ a.fraction) 0

/-- The digits of `n`, of which the last ones stand behind the point. -/
def ofUnits (places n : ℕ) : FixedNumeral where
  whole := (paddedDigits (places + 1) n).take ((paddedDigits (places + 1) n).length - places)
  fraction := (paddedDigits (places + 1) n).drop ((paddedDigits (places + 1) n).length - places)
  whole_ne_nil := by
    have hlength := length_paddedDigits (places + 1) n
    rw [← List.length_pos_iff, List.length_take]
    omega
  eq_of_leading_zero := by
    have hlength := length_paddedDigits (places + 1) n
    rcases Nat.lt_or_ge (places + 1) (paddedDigits (places + 1) n).length with hlong | hshort
    · rw [List.head?_take, if_neg (by omega)]
      exact fun h => absurd h (head?_paddedDigits hlong (by omega))
    · rw [show (paddedDigits (places + 1) n).length - places = 1 by omega]
      cases paddedDigits (places + 1) n with
      | nil => nofun
      | cons c ds => exact fun h => congrArg (fun c => [c]) (Option.some.inj h)
  isDigit_digits := by
    rw [List.take_append_drop]
    exact isDigit_paddedDigits

@[simp] lemma places_ofUnits (places n : ℕ) : (ofUnits places n).places = places := by
  have hlength := length_paddedDigits (places + 1) n
  rw [FixedNumeral.places, ofUnits, List.length_drop]
  omega

@[simp] lemma units_ofUnits (places n : ℕ) : (ofUnits places n).units = n := by
  rw [units, ofUnits, List.take_append_drop]
  exact ofDigitChars_pad _ n

/-- A numeral with zeros behind its last place. -/
def extend (a : FixedNumeral) (k : ℕ) : FixedNumeral where
  whole := a.whole
  fraction := a.fraction ++ List.replicate k '0'
  whole_ne_nil := a.whole_ne_nil
  eq_of_leading_zero := a.eq_of_leading_zero
  isDigit_digits := by
    intro c hc
    rw [← List.append_assoc] at hc
    rcases List.mem_append.mp hc with hc | hc
    · exact a.isDigit_digits c hc
    · rw [List.eq_of_mem_replicate hc]
      rfl

@[simp] lemma places_extend (a : FixedNumeral) (k : ℕ) : (a.extend k).places = a.places + k := by
  simp [FixedNumeral.places, extend]

@[simp] lemma units_extend (a : FixedNumeral) (k : ℕ) : (a.extend k).units = a.units * 10 ^ k := by
  rw [units, extend, ← List.append_assoc, Nat.ofDigitChars_append, Nat.ofDigitChars_replicate_zero, Nat.mul_comm]
  rfl

/-- Whether a digit that is not zero is seen in a text. -/
def ShowsNonzero (cs : List Char) : Prop := ∃ c ∈ cs, c.isDigit = true ∧ c ≠ '0'

lemma mem_text_of_mem_digits {a : FixedNumeral} {c : Char} (h : c ∈ a.whole ++ a.fraction) : c ∈ a.text := by
  rcases List.mem_append.mp h with h | h
  · exact List.mem_append_left _ h
  · refine List.mem_append_right _ ?_
    have hplaces : a.places ≠ 0 := (List.length_pos_of_mem h).ne'
    rw [if_neg hplaces]
    exact List.mem_cons_of_mem _ h

lemma mem_digits_of_mem_text {a : FixedNumeral} {c : Char} (h : c ∈ a.text) (hc : c.isDigit = true) :
    c ∈ a.whole ++ a.fraction := by
  rcases List.mem_append.mp h with h | h
  · exact List.mem_append_left _ h
  · split_ifs at h
    · cases h
    · rcases List.mem_cons.mp h with rfl | h
      · cases hc
      · exact List.mem_append_right _ h

/-- A digit that is not zero is seen if the number is not zero. -/
lemma showsNonzero_text (a : FixedNumeral) : ShowsNonzero a.text ↔ a.units ≠ 0 := by
  rw [ne_eq, units, ofDigitChars_eq_zero_iff a.isDigit_digits]
  push Not
  constructor
  · rintro ⟨c, hc, hdigit, hne⟩
    exact ⟨c, mem_digits_of_mem_text hc hdigit, hne⟩
  · rintro ⟨c, hc, hne⟩
    exact ⟨c, mem_text_of_mem_digits hc, a.isDigit_digits c hc, hne⟩

/-- Zero is spelled in one way. -/
lemma text_of_units_eq_zero {a : FixedNumeral} (h : a.units = 0) :
    a.text = '0' :: if a.places = 0 then [] else '.' :: List.replicate a.places '0' := by
  have hzero := (ofDigitChars_eq_zero_iff a.isDigit_digits).mp h
  have hwhole : a.whole = ['0'] := by
    refine a.eq_of_leading_zero ?_
    obtain ⟨c, rest, hcons⟩ := List.exists_cons_of_ne_nil a.whole_ne_nil
    rw [hcons, List.head?_cons, hzero c (List.mem_append_left _ (hcons ▸ List.mem_cons_self))]
  have hfraction : a.fraction = List.replicate a.places '0' :=
    List.eq_replicate_iff.mpr ⟨rfl, fun c hc => hzero c (List.mem_append_right _ hc)⟩
  rw [text, hwhole, ← hfraction]
  rfl

end FixedNumeral

lemma fixedText_eq (r : Ratio) (places : ℕ) : fixedText r places =
    ((FixedNumeral.ofUnits (min places mostPlaces) (scaledAmount r (min places mostPlaces))).extend
      (places - min places mostPlaces)).text := by
  rw [FixedNumeral.text, FixedNumeral.places_extend, FixedNumeral.places_ofUnits,
    Nat.add_sub_cancel' (Nat.min_le_left ..)]
  unfold fixedText
  dsimp only
  split
  · next h => simp [h, FixedNumeral.ofUnits, FixedNumeral.extend]
  · rfl

/-- A number that has no more than the most places is rounded to the nearest amount, however many places there are. -/
lemma roundsTo_scaled {r : Ratio} (hden : r.den ∣ 10 ^ mostPlaces) (places : ℕ) :
    RoundsTo ((r.num / r.den : ℚ) * 10 ^ places)
      (scaledAmount r (min places mostPlaces) * 10 ^ (places - min places mostPlaces)) := by
  have hround (k : ℕ) : RoundsTo ((r.num / r.den : ℚ) * 10 ^ k) (scaledAmount r k) := by
    have hround : RoundsTo ((r.num * 10 ^ k : ℕ) / r.den) (scaledAmount r k) := roundsTo_roundDiv r.den_pos
    rw [div_mul_eq_mul_div]
    exact_mod_cast hround
  rcases Nat.le_total places mostPlaces with hfew | hmany
  · rw [Nat.min_eq_left hfew, Nat.sub_self, Nat.pow_zero, Nat.mul_one]
    exact hround places
  · -- all places of the number are there, so nothing is rounded off
    rw [Nat.min_eq_right hmany]
    obtain ⟨c, hc⟩ := hden
    have hne : (r.den : ℚ) ≠ 0 := by exact_mod_cast r.den_pos.ne'
    have hexact : (r.num / r.den : ℚ) * 10 ^ mostPlaces = (r.num * c : ℕ) := by
      have hcast : (10 : ℚ) ^ mostPlaces = r.den * c := by exact_mod_cast hc
      rw [hcast]
      push_cast
      field_simp
    have hscaled : scaledAmount r mostPlaces = r.num * c :=
      (hround mostPlaces).unique (hexact ▸ roundsTo_self _)
    have hsplit : (r.num / r.den : ℚ) * 10 ^ places = (r.num * c * 10 ^ (places - mostPlaces) : ℕ) := by
      rw [← Nat.add_sub_cancel' hmany, pow_add, ← mul_assoc, hexact, Nat.add_sub_cancel' hmany]
      push_cast
      ring
    rw [hscaled, hsplit]
    exact roundsTo_self _

/-- The text of a number with fixed places is a numeral with these places and the rounded amount. -/
theorem exists_fixedNumeral {r : Ratio} (hden : r.den ∣ 10 ^ mostPlaces) (places : ℕ) :
    ∃ a : FixedNumeral, fixedText r places = a.text ∧ a.places = places ∧
      RoundsTo ((r.num / r.den : ℚ) * 10 ^ places) a.units := by
  refine ⟨_, fixedText_eq r places, ?_, ?_⟩
  · rw [FixedNumeral.places_extend, FixedNumeral.places_ofUnits, Nat.add_sub_cancel' (Nat.min_le_left ..)]
  · rw [FixedNumeral.units_extend, FixedNumeral.units_ofUnits]
    exact roundsTo_scaled hden places

end ReactiveNotebook.Decimal
