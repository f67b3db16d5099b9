import ReactiveNotebook.Cell.Literal
import ReactiveNotebook.Proofs.Decimal.Numeral

/-!
# What a literal denotes

The trimmed text of a literal is nothing, a quoted text, a truth value, an integer in the range of a signed word, or a
decimal number; and any other text denotes itself. The one exception are the words for infinity and for the value that
is no number, which denote doubles although they are neither spelled as decimal numbers nor have a digit.
-/
namespace ReactiveNotebook

open Decimal (Integer Numeral SpellsNonFinite)
open Script (Value)

variable {text : String} {cs : List Char} {v : Value}

/-- Whether a text begins and ends with a double quote. -/
def IsQuoted (cs : List Char) : Prop := 2 ≤ cs.length ∧ cs.head? = some '"' ∧ cs.getLast? = some '"'

/-- What stands between the quotes. -/
def inner (cs : List Char) : List Char := (cs.drop 1).dropLast

instance : Decidable (IsQuoted cs) := by unfold IsQuoted; infer_instance

lemma unquote?_eq (cs : List Char) : unquote? cs = if IsQuoted cs then some (inner cs) else none := by
  cases cs with
  | nil => rfl
  | cons c rest =>
    by_cases hc : c = '"'
    · subst hc
      cases rest with
      | nil => rfl
      | cons d rest =>
        have hlast : ('"' :: d :: rest).getLast? = (d :: rest).getLast? := List.getLast?_cons_cons
        simp only [unquote?, IsQuoted, inner, hlast]
        simp
    · have hhead : ¬ IsQuoted (c :: rest) := fun h => hc (Option.some.inj h.2.1)
      rw [if_neg hhead]
      unfold unquote?
      split
      · next heq => exact absurd (List.cons.inj heq).1 hc
      · rfl

lemma inner_ne_self (h : cs ≠ []) : inner cs ≠ cs := by
  intro heq
  have hlength := congrArg List.length heq
  have hpos := List.length_pos_iff.mpr h
  simp only [inner, List.length_dropLast, List.length_drop] at hlength
  omega

def trimmed (text : String) : List Char := Text.trimList text.toList

/-- What a text denotes that is not empty, is not quoted and is no truth value. -/
def readWord (cs : List Char) : Value :=
  match Decimal.readInt64? cs, Decimal.readFloat? cs with
  | some n, _ => .int n
  | none, some x => .float x
  | none, none => .str (String.ofList cs)

lemma readLiteral_eq (text : String) : readLiteral text =
    if trimmed text = [] then .unit
    else if IsQuoted (trimmed text) then .str (String.ofList (inner (trimmed text)))
    else if trimmed text = "true".toList then .bool true
    else if trimmed text = "false".toList then .bool false
    else readWord (trimmed text) := by
  have hword (w : String) : (String.ofList (trimmed text) == w) = decide (trimmed text = w.toList) := by
    rw [Bool.eq_iff_iff, beq_iff_eq, decide_eq_true_eq]
    exact ⟨fun h => h ▸ String.toList_ofList.symm, fun h => h ▸ String.ofList_toList⟩
  unfold readLiteral
  simp only [← show trimmed text = Text.trimList text.toList from rfl, List.isEmpty_iff, unquote?_eq, hword,
    decide_eq_true_eq]
  split
  · rfl
  · split_ifs <;> rfl

/-- The four kinds of texts that are decided before numbers are looked for. -/
def IsDecided (cs : List Char) : Prop := cs = [] ∨ IsQuoted cs ∨ cs = "true".toList ∨ cs = "false".toList

lemma readInt?_quote (rest : List Char) : Decimal.readInt? ('"' :: rest) = none := by
  rw [Decimal.readInt?_eq]
  have hread : Decimal.readNat? ('"' :: rest) = none := rfl
  change (Decimal.readNat? ('"' :: rest)).map _ = none
  rw [hread]
  rfl

lemma readFloat?_quote (rest : List Char) : Decimal.readFloat? ('"' :: rest) = none := by
  have hword : ¬ Decimal.IsNonFiniteWord ('"' :: rest) := fun h =>
    absurd (Decimal.toLower_mem_of_word h List.mem_cons_self) (by decide)
  have hsign : Decimal.takeSign ('"' :: rest) = (false, '"' :: rest) := rfl
  rw [Decimal.readFloat?_eq_of_takeSign hsign hword]
  rfl

/-- No number is among them. -/
lemma no_number_of_isDecided (h : IsDecided cs) : Decimal.readInt64? cs = none ∧ Decimal.readFloat? cs = none := by
  rcases h with rfl | hquoted | rfl | rfl
  · decide +kernel
  · cases cs with
    | nil => cases hquoted.2.1
    | cons c rest =>
      obtain rfl : c = '"' := Option.some.inj hquoted.2.1
      rw [Decimal.readInt64?, readInt?_quote, readFloat?_quote]
      exact ⟨rfl, rfl⟩
  · decide +kernel
  · decide +kernel

lemma readLiteral_of_not_isDecided (h : ¬ IsDecided (trimmed text)) : readLiteral text = readWord (trimmed text) := by
  simp only [IsDecided, not_or] at h
  rw [readLiteral_eq, if_neg h.1, if_neg h.2.1, if_neg h.2.2.1, if_neg h.2.2.2]

/-- What is decided early is unit, a text or a truth value. -/
lemma readLiteral_of_isDecided (h : IsDecided (trimmed text)) : trimmed text = [] ∧ readLiteral text = .unit ∨
    IsQuoted (trimmed text) ∧ readLiteral text = .str (String.ofList (inner (trimmed text))) ∨
    ∃ b : Bool, trimmed text = (toString b).toList ∧ readLiteral text = .bool b := by
  rw [readLiteral_eq]
  by_cases hnil : trimmed text = []
  · exact .inl ⟨hnil, if_pos hnil⟩
  · rw [if_neg hnil]
    by_cases hquoted : IsQuoted (trimmed text)
    · exact .inr (.inl ⟨hquoted, if_pos hquoted⟩)
    · rw [if_neg hquoted]
      rcases (h.resolve_left hnil).resolve_left hquoted with htrue | hfalse
      · exact .inr (.inr ⟨true, htrue, if_pos htrue⟩)
      · have htrue : trimmed text ≠ "true".toList := by rw [hfalse]; decide
        rw [if_neg htrue]
        exact .inr (.inr ⟨false, hfalse, if_pos hfalse⟩)

lemma not_isDecided_of_readInt64? {n : Int64} (h : Decimal.readInt64? cs = some n) : ¬ IsDecided cs := by
  intro hdecided
  rw [(no_number_of_isDecided hdecided).1] at h
  cases h

lemma not_isDecided_of_readFloat? {x : Double} (h : Decimal.readFloat? cs = some x) : ¬ IsDecided cs := by
  intro hdecided
  rw [(no_number_of_isDecided hdecided).2] at h
  cases h

lemma readWord_cases (cs : List Char) :
    (∃ n, Decimal.readInt64? cs = some n ∧ readWord cs = .int n) ∨
    (∃ x, Decimal.readInt64? cs = none ∧ Decimal.readFloat? cs = some x ∧ readWord cs = .float x) ∨
    Decimal.readInt64? cs = none ∧ Decimal.readFloat? cs = none ∧ readWord cs = .str (String.ofList cs) := by
  unfold readWord
  cases hn : Decimal.readInt64? cs with
  | some n => exact .inl ⟨n, rfl, rfl⟩
  | none =>
    cases hx : Decimal.readFloat? cs with
    | some x => exact .inr (.inl ⟨x, rfl, rfl, rfl⟩)
    | none => exact .inr (.inr ⟨rfl, rfl, rfl⟩)

/-- What a literal denotes, as one of six cases. -/
inductive Denotes (cs : List Char) : Value → Prop
  | unit (h : cs = []) : Denotes cs .unit
  | quoted (h : IsQuoted cs) : Denotes cs (.str (String.ofList (inner cs)))
  | truth {b : Bool} (h : cs = (toString b).toList) : Denotes cs (.bool b)
  | integer {n : Int64} (h : Decimal.readInt64? cs = some n) : Denotes cs (.int n)
  | double {x : Double} (hn : Decimal.readInt64? cs = none) (h : Decimal.readFloat? cs = some x) : Denotes cs (.float x)
  | word (hd : ¬ IsDecided cs) (hn : Decimal.readInt64? cs = none) (h : Decimal.readFloat? cs = none) :
    Denotes cs (.str (String.ofList cs))

lemma denotes_readLiteral (text : String) : Denotes (trimmed text) (readLiteral text) := by
  by_cases hdecided : IsDecided (trimmed text)
  · rcases readLiteral_of_isDecided hdecided with ⟨h, heq⟩ | ⟨h, heq⟩ | ⟨b, h, heq⟩
    · exact heq ▸ .unit h
    · exact heq ▸ .quoted h
    · exact heq ▸ .truth h
  · rw [readLiteral_of_not_isDecided hdecided]
    rcases readWord_cases (trimmed text) with ⟨n, hn, heq⟩ | ⟨x, hn, hx, heq⟩ | ⟨hn, hx, heq⟩
    · exact heq ▸ .integer hn
    · exact heq ▸ .double hn hx
    · exact heq ▸ .word hdecided hn hx

lemma IsQuoted.ne_nil (h : IsQuoted cs) : cs ≠ [] := by
  rintro rfl
  cases h.2.1

lemma readLiteral_of_denotes (h : Denotes (trimmed text) v) : readLiteral text = v := by
  cases h with
  | unit h => rw [readLiteral_eq, if_pos h]
  | quoted h => rw [readLiteral_eq, if_neg h.ne_nil, if_pos h]
  | @truth b h => rw [readLiteral_eq, h]; cases b <;> rfl
  | integer h =>
    rw [readLiteral_of_not_isDecided (not_isDecided_of_readInt64? h), readWord, h]
  | double hn h =>
    rw [readLiteral_of_not_isDecided (not_isDecided_of_readFloat? h), readWord, hn, h]
  | word hd hn h => rw [readLiteral_of_not_isDecided hd, readWord, hn, h]

/-- The six cases exclude each other. -/
theorem readLiteral_eq_iff : readLiteral text = v ↔ Denotes (trimmed text) v :=
  ⟨fun h => h ▸ denotes_readLiteral text, readLiteral_of_denotes⟩

/-- Whether a text is a sign, which may be missing, and digits that denote a signed word. -/
def SpellsInt64 (cs : List Char) (n : Int64) : Prop :=
  ∃ i : Integer, i.text = cs ∧ (-2 ^ 63 ≤ i.value ∧ i.value < 2 ^ 63) ∧ n = Int64.ofInt i.value

/-- Whether a text has a digit and denotes a decimal number. -/
def SpellsDecimal (cs : List Char) (x : Double) : Prop :=
  (∃ c ∈ cs, c.isDigit = true) ∧ ∃ d : Numeral, d.text = cs ∧ x = d.value

/-- Whether a text denotes neither an integer nor a decimal number. -/
def SpellsNoNumber (cs : List Char) : Prop := (∀ n, ¬ SpellsInt64 cs n) ∧ ∀ x, ¬ SpellsDecimal cs x

/-- How a literal is classified by its trimmed text. -/
structure Classified (text : String) : Prop where
  unit : readLiteral text = .unit ↔ trimmed text = []
  truth (b : Bool) : readLiteral text = .bool b ↔ trimmed text = (toString b).toList
  quoted : readLiteral text = .str (String.ofList (inner (trimmed text))) ↔ IsQuoted (trimmed text)
  integer (n : Int64) : readLiteral text = .int n ↔ SpellsInt64 (trimmed text) n
  double (x : Double) : readLiteral text = .float x ↔
    SpellsDecimal (trimmed text) x ∧ ∀ n, ¬ SpellsInt64 (trimmed text) n
  word : readLiteral text = .str (String.ofList (trimmed text)) ↔
    ¬ IsDecided (trimmed text) ∧ SpellsNoNumber (trimmed text)
  /-- A word without digits denotes itself. -/
  digitless : ¬ IsDecided (trimmed text) → (∀ c ∈ trimmed text, c.isDigit = false) →
    readLiteral text = .str (String.ofList (trimmed text))

lemma spellsInt64_iff {n : Int64} : SpellsInt64 cs n ↔ Decimal.readInt64? cs = some n :=
  Decimal.readInt64?_eq_some_iff.symm

/-- Apart from the words for infinity and for the value that is no number, decimal numbers are what is read as a
double. -/
lemma spellsDecimal_iff {x : Double} (h : ¬ SpellsNonFinite cs) :
    SpellsDecimal cs x ↔ Decimal.readFloat? cs = some x := by
  constructor
  · rintro ⟨-, d, rfl, rfl⟩
    exact d.readFloat?_text
  · intro hx
    obtain ⟨d, rfl, rfl⟩ := (Decimal.exists_numeral_of_readFloat? hx).resolve_left h
    obtain ⟨c, hc, hdigit⟩ := d.exists_digit
    exact ⟨⟨c, List.mem_append_right _ hc, hdigit⟩, d, rfl, rfl⟩

lemma spellsNoNumber_iff (h : ¬ SpellsNonFinite cs) :
    SpellsNoNumber cs ↔ Decimal.readInt64? cs = none ∧ Decimal.readFloat? cs = none := by
  simp only [SpellsNoNumber, spellsInt64_iff, spellsDecimal_iff h, Option.eq_none_iff_forall_ne_some]

/-- The words have no digit, but denote doubles. -/
lemma not_classified (h : SpellsNonFinite (trimmed text)) : ¬ Classified text := by
  intro hclassified
  obtain ⟨x, hx⟩ := Decimal.exists_readFloat?_of_spellsNonFinite h
  have hdecided := not_isDecided_of_readFloat? hx
  have hword := hclassified.digitless hdecided fun c hc => Decimal.not_isDigit_of_spellsNonFinite h hc
  rw [readLiteral_of_not_isDecided hdecided] at hword
  rcases readWord_cases (trimmed text) with ⟨n, -, heq⟩ | ⟨y, -, -, heq⟩ | ⟨-, hnone, -⟩
  · rw [heq] at hword; cases hword
  · rw [heq] at hword; cases hword
  · rw [hx] at hnone; cases hnone

lemma denotes_inner_iff : Denotes cs (.str (String.ofList (inner cs))) ↔ IsQuoted cs := by
  refine ⟨fun h => ?_, .quoted⟩
  generalize hv : Value.str (String.ofList (inner cs)) = v at h
  cases h with
  | quoted h => exact h
  | word hd =>
    have hself : inner cs = cs := String.ofList_injective (Value.str.inj hv)
    exact absurd hself (inner_ne_self fun hnil => hd (.inl hnil))
  | unit | truth | integer | double => cases hv

lemma denotes_self_iff : Denotes cs (.str (String.ofList cs)) ↔
    ¬ IsDecided cs ∧ Decimal.readInt64? cs = none ∧ Decimal.readFloat? cs = none := by
  refine ⟨fun h => ?_, fun h => .word h.1 h.2.1 h.2.2⟩
  generalize hv : Value.str (String.ofList cs) = v at h
  cases h with
  | word hd hn h => exact ⟨hd, hn, h⟩
  | quoted h =>
    have hself : cs = inner cs := String.ofList_injective (Value.str.inj hv)
    exact absurd hself.symm (inner_ne_self h.ne_nil)
  | unit | truth | integer | double => cases hv

/-- A text without a digit denotes no number. -/
lemma spellsNoNumber_of_digitless (h : ∀ c ∈ cs, c.isDigit = false) : SpellsNoNumber cs := by
  constructor
  · rintro n ⟨i, hi, -⟩
    obtain ⟨c, hc, hdigit⟩ := i.exists_digit
    exact Bool.false_ne_true ((h c (hi ▸ hc)).symm.trans hdigit)
  · rintro x ⟨⟨c, hc, hdigit⟩, -⟩
    exact Bool.false_ne_true ((h c hc).symm.trans hdigit)

/-- The classification is right for every text but the words for infinity and for the value that is no number. -/
theorem classified_iff (text : String) : Classified text ↔ ¬ SpellsNonFinite (trimmed text) := by
  refine ⟨fun hclassified hword => not_classified hword hclassified, fun hword => ?_⟩
  have hself : readLiteral text = .str (String.ofList (trimmed text)) ↔
      ¬ IsDecided (trimmed text) ∧ SpellsNoNumber (trimmed text) := by
    rw [readLiteral_eq_iff, denotes_self_iff, spellsNoNumber_iff hword]
  constructor
  case unit =>
    rw [readLiteral_eq_iff]
    exact ⟨fun | .unit h => h, .unit⟩
  case truth =>
    intro b
    rw [readLiteral_eq_iff]
    exact ⟨fun | .truth h => h, .truth⟩
  case quoted => rw [readLiteral_eq_iff, denotes_inner_iff]
  case integer =>
    intro n
    rw [readLiteral_eq_iff, spellsInt64_iff]
    exact ⟨fun | .integer h => h, .integer⟩
  case double =>
    intro x
    rw [readLiteral_eq_iff, spellsDecimal_iff hword]
    simp only [spellsInt64_iff, ← Option.eq_none_iff_forall_ne_some]
    exact ⟨fun | .double hn h => ⟨h, hn⟩, fun h => .double h.2 h.1⟩
  case word => exact hself
  case digitless => exact fun hd hdigitless => hself.mpr ⟨hd, spellsNoNumber_of_digitless hdigitless⟩

/-- The word `inf` is read as the double infinity. -/
theorem infinite_word_read_as_number :
    (readLiteral "inf").same (.float .infinity) = true ∧ ¬ Classified "inf" := by
  have hword : Decimal.IsNonFiniteWord "inf".toList := by
    unfold Decimal.IsNonFiniteWord
    decide +kernel
  exact ⟨by decide +kernel, not_classified ⟨.none, "inf".toList, by decide +kernel, hword⟩⟩

end ReactiveNotebook
