import ReactiveNotebook.Format.Filter
import ReactiveNotebook.Proofs.Decimal.FixedText
import ReactiveNotebook.Proofs.Decimal.Magnitude

/-!
# Amounts of money

The amount that is shown is the magnitude of the double, correctly rounded to the places asked for. The sign is decided
before the amount is rounded: a negative double other than zero has a minus sign. So the sign is right unless a
negative double is rounded to zero, which is shown as minus zero.
-/
namespace ReactiveNotebook

open Decimal (FixedNumeral RoundsTo decode isNegative)
open Decimal.FixedNumeral (ShowsNonzero)

namespace Decimal

def magnitude (x : Double) : ℚ :=
  match decode x with
  | .finite _ m q => m * 2 ^ q
  | _ => 0

variable {x : Double} {negative : Bool} {m : ℕ} {q : ℤ}

lemma magnitude_eq (h : decode x = .finite negative m q) : magnitude x = m * 2 ^ q := by
  rw [magnitude, h]

lemma isNegative_eq (h : decode x = .finite negative m q) : isNegative x = negative := by
  rw [isNegative, h]

lemma magnitude_pos_iff (h : decode x = .finite negative m q) : 0 < magnitude x ↔ m ≠ 0 := by
  have hpow : (0 : ℚ) < 2 ^ q := by positivity
  rw [magnitude_eq h, mul_pos_iff_of_pos_right hpow, Nat.cast_pos, Nat.pos_iff_ne_zero]

/-- No double has more places than the most. -/
lemma den_dvd (h : leastExponent ≤ q) : (Ratio.ofBinary m q).den ∣ 10 ^ mostPlaces := by
  cases q with
  | ofNat k => exact one_dvd _
  | negSucc k =>
    have hk : k + 1 ≤ mostPlaces := by
      unfold leastExponent at h
      unfold mostPlaces
      omega
    exact (pow_dvd_pow 2 hk).trans (pow_dvd_pow_of_dvd (by norm_num) _)

end Decimal

namespace Format

variable {x : Double} {negative : Bool} {m places : ℕ} {q : ℤ} {symbol : String}

/-- An amount is the magnitude of the double rounded to the places. -/
structure Shows (x : Double) (places : ℕ) (a : FixedNumeral) : Prop where
  places_eq : a.places = places
  roundsTo : RoundsTo (Decimal.magnitude x * 10 ^ places) a.units

/-- The text of a finite double without its sign. -/
lemma exists_fixed_abs (h : decode x = .finite negative m q) (hplaces : places ≤ mostFieldPlaces) :
    ∃ a, Shows x places a ∧ fixed x.abs places = .ok (String.ofList a.text) := by
  have habs := Decimal.decode_abs h
  have hden : (Decimal.Ratio.ofBinary m q).den ∣ 10 ^ Decimal.mostPlaces := Decimal.den_dvd (Decimal.leastExponent_le h)
  obtain ⟨a, htext, ha, hround⟩ := Decimal.exists_fixedNumeral hden places
  rw [Decimal.Ratio.ofBinary_value, ← Decimal.magnitude_eq h] at hround
  refine ⟨a, ⟨ha, hround⟩, ?_⟩
  rw [fixed, habs]
  dsimp only
  rw [if_neg (by omega), fixedText, habs]
  dsimp only
  rw [Decimal.fixed?, habs, ← htext]
  rfl

/-- How an amount of money is put together. -/
theorem money_eq (h : decode x = .finite negative m q) (hplaces : places ≤ mostFieldPlaces) (symbol : String) :
    ∃ a, Shows x places a ∧
      money x symbol places = .ok ((if negative && m != 0 then "-" else "") ++ symbol ++ String.ofList a.text) := by
  obtain ⟨a, ha, hfixed⟩ := exists_fixed_abs h hplaces
  refine ⟨a, ha, ?_⟩
  rw [money, h]
  dsimp only
  rw [hfixed]
  rfl

variable {a : FixedNumeral}

/-- An amount is shown as zero if it is not more than half a unit of the last place. -/
lemma Shows.units_eq_zero_iff (ha : Shows x places a) (h : decode x = .finite negative m q) :
    a.units = 0 ↔ Decimal.magnitude x * 10 ^ places ≤ 1 / 2 := by
  have hnonneg : 0 ≤ Decimal.magnitude x * 10 ^ places := by
    rw [Decimal.magnitude_eq h]
    positivity
  constructor
  · intro hzero
    have hnear := ha.roundsTo.near
    rw [hzero, Nat.cast_zero, sub_zero, abs_of_nonneg hnonneg] at hnear
    exact hnear
  · intro hsmall
    refine ha.roundsTo.unique ⟨?_, fun _ => Even.zero⟩
    rwa [Nat.cast_zero, sub_zero, abs_of_nonneg hnonneg]

def zeroText (places : ℕ) : List Char := '0' :: if places = 0 then [] else '.' :: List.replicate places '0'

lemma Shows.text_eq (ha : Shows x places a) (hzero : a.units = 0) : a.text = zeroText places := by
  rw [FixedNumeral.text_of_units_eq_zero hzero, ha.places_eq, zeroText]

/-- Whether a finite double is negative and is rounded to zero without being zero. -/
structure Vanishes (x : Double) (places : ℕ) : Prop where
  negative : isNegative x = true
  magnitude_pos : 0 < Decimal.magnitude x
  small : Decimal.magnitude x * 10 ^ places ≤ 1 / 2

lemma money_of_vanishes (h : decode x = .finite negative m q) (hplaces : places ≤ mostFieldPlaces)
    (hvanishes : Vanishes x places) (symbol : String) :
    money x symbol places = .ok ("-" ++ symbol ++ String.ofList (zeroText places)) := by
  obtain ⟨a, ha, hmoney⟩ := money_eq h hplaces symbol
  have hsign : (negative && m != 0) = true := by
    rw [Bool.and_eq_true, bne_iff_ne, ← Decimal.magnitude_pos_iff h, ← Decimal.isNegative_eq h]
    exact ⟨hvanishes.negative, hvanishes.magnitude_pos⟩
  rw [hmoney, if_pos hsign, ha.text_eq ((ha.units_eq_zero_iff h).mpr hvanishes.small)]

/-- Whether an amount of money has a minus sign exactly if it is negative and shows a digit other than zero. -/
def SignedRight (x : Double) (symbol : String) (places : ℕ) : Prop :=
  ∃ a, Shows x places a ∧
    ((isNegative x = true ∧ ShowsNonzero a.text) ∧
        money x symbol places = .ok ("-" ++ symbol ++ String.ofList a.text) ∨
      ¬ (isNegative x = true ∧ ShowsNonzero a.text) ∧ money x symbol places = .ok (symbol ++ String.ofList a.text))

/-- Minus zero is signed wrongly. -/
lemma not_signedRight (h : decode x = .finite negative m q) (hplaces : places ≤ mostFieldPlaces)
    (hvanishes : Vanishes x places) : ¬ SignedRight x symbol places := by
  rintro ⟨a, ha, hright⟩
  have hzero := (ha.units_eq_zero_iff h).mpr hvanishes.small
  rcases hright with ⟨⟨-, hnonzero⟩, -⟩ | ⟨-, hmoney⟩
  · exact (FixedNumeral.showsNonzero_text a).mp hnonzero hzero
  · rw [money_of_vanishes h hplaces hvanishes, ha.text_eq hzero] at hmoney
    have hlength := congrArg String.length (Except.ok.inj hmoney)
    rw [String.length_append, String.length_append, String.length_append, show "-".length = 1 from rfl] at hlength
    omega

/-- The sign of an amount of money is right unless a negative amount is rounded to zero, which is shown as minus
zero. -/
theorem money_signed_right_iff (h : decode x = .finite negative m q) (hplaces : places ≤ mostFieldPlaces)
    (symbol : String) :
    (SignedRight x symbol places ↔ ¬ Vanishes x places) ∧
      (Vanishes x places → money x symbol places = .ok ("-" ++ symbol ++ String.ofList (zeroText places))) := by
  refine ⟨⟨fun hright hvanishes => not_signedRight h hplaces hvanishes hright, fun hvanishes => ?_⟩,
    fun hvanishes => money_of_vanishes h hplaces hvanishes symbol⟩
  obtain ⟨a, ha, hmoney⟩ := money_eq h hplaces symbol
  refine ⟨a, ha, ?_⟩
  by_cases hsign : (negative && m != 0) = true
  · rw [hmoney, if_pos hsign]
    rw [Bool.and_eq_true, bne_iff_ne, ← Decimal.magnitude_pos_iff h, ← Decimal.isNegative_eq h] at hsign
    have hunits : a.units ≠ 0 := fun hzero =>
      hvanishes ⟨hsign.1, hsign.2, (ha.units_eq_zero_iff h).mp hzero⟩
    exact .inl ⟨⟨hsign.1, (FixedNumeral.showsNonzero_text a).mpr hunits⟩, rfl⟩
  · rw [hmoney, if_neg hsign]
    rw [Bool.and_eq_true, bne_iff_ne, ← Decimal.magnitude_pos_iff h, ← Decimal.isNegative_eq h] at hsign
    refine .inr ⟨fun ⟨hnegative, hnonzero⟩ => ?_, by rw [String.empty_append]⟩
    -- the double is a zero, whose amount is zero however it is rounded
    refine (FixedNumeral.showsNonzero_text a).mp hnonzero ((ha.units_eq_zero_iff h).mpr ?_)
    have hzero : Decimal.magnitude x ≤ 0 := not_lt.mp fun hpos => hsign ⟨hnegative, hpos⟩
    have hscale : (0 : ℚ) ≤ 10 ^ places := by positivity
    linarith [mul_nonpos_of_nonpos_of_nonneg hzero hscale]

/-- A refund of twelve and a half is shown with its sign. -/
theorem refund_signed_right :
    decode (.ofBits 0xc029000000000000) = .finite true 0x19000000000000 (-49) ∧ 2 ≤ mostFieldPlaces ∧
      SignedRight (.ofBits 0xc029000000000000) "$" 2 := by
  have hdecode : decode (.ofBits 0xc029000000000000) = .finite true 0x19000000000000 (-49) := by decide +kernel
  refine ⟨hdecode, by decide, (money_signed_right_iff hdecode (by decide) "$").1.mpr fun hvanishes => ?_⟩
  have hsmall := hvanishes.small
  rw [Decimal.magnitude_eq hdecode] at hsmall
  norm_num at hsmall

/-- A tenth of a cent that is owed is shown as minus zero. -/
theorem tenth_of_cent_shown_as_minus_zero :
    money (.ofBits 0xbf50624dd2f1a9fc) "$" 2 = .ok "-$0.00" ∧
      ¬ SignedRight (.ofBits 0xbf50624dd2f1a9fc) "$" 2 := by
  have hdecode : decode (.ofBits 0xbf50624dd2f1a9fc) = .finite true 0x10624dd2f1a9fc (-62) := by decide +kernel
  refine ⟨by decide +kernel, not_signedRight hdecode (by decide) ⟨by decide +kernel, ?_, ?_⟩⟩
  · rw [Decimal.magnitude_eq hdecode]
    positivity
  · rw [Decimal.magnitude_eq hdecode]
    norm_num

end Format

end ReactiveNotebook
