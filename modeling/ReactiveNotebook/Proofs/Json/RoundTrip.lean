import Mathlib.Tactic
import ReactiveNotebook.Json.Reader
import ReactiveNotebook.Json.Writer

/-!
# Reading back written JSON

The indented text of a value yields the value again, wherever in a text it stands. Numbers are left out: whether one
ends where its text does depends on what follows.
-/
namespace ReactiveNotebook.Json

/-- A character that stands for itself. -/
lemma readText?_plain {c : Char} (hquote : c ≠ '"') (hslash : c ≠ '\\') (hc : 0x20 ≤ c.toNat) (cs : List Char) :
    readText? (c :: cs) = (readText? cs).map fun p => (c :: p.1, p.2) := by
  rw [readText?]
  · simp [hslash, hc.not_gt]
  · exact hquote
  · exact fun _ _ _ _ _ h => absurd h hslash
  · exact fun _ _ h => absurd h hslash

/-- A character that a backslash and a letter stand for. -/
lemma readText?_letter {l c : Char} (hl : simpleEscape? l = some c) (cs : List Char) :
    readText? ('\\' :: l :: cs) = (readText? cs).map fun p => (c :: p.1, p.2) := by
  rw [readText?]
  · rw [hl]
  · rintro a b c d rest rfl
    cases hl

/-- A character that is given by its number. -/
lemma readText?_unit {a b c d : Char} {n : ℕ} (hn : hexUnit? a b c d = some n) (hlow : isLowHalf n = false)
    (hhigh : isHighHalf n = false) (cs : List Char) :
    readText? ('\\' :: 'u' :: a :: b :: c :: d :: cs) =
      (readText? cs).map fun p => (Char.ofNat n :: p.1, p.2) := by
  rw [readText?]
  simp [hn, hlow, hhigh]

lemma hexUnit_control {n : ℕ} (hn : n < 0x20) :
    ∃ a b c d, hexUnit n = [a, b, c, d] ∧ hexUnit? a b c d = some n := by
  interval_cases n <;> exact ⟨_, _, _, _, rfl, rfl⟩

lemma readText?_escapeChar (c : Char) (cs : List Char) :
    readText? (escapeChar c ++ cs) = (readText? cs).map fun p => (c :: p.1, p.2) := by
  unfold escapeChar
  split_ifs with hslash h8 hc hn hr ht hcontrol
  · rcases Bool.or_eq_true .. ▸ hslash with h | h <;> obtain rfl := eq_of_beq h <;> exact readText?_letter rfl cs
  · exact eq_of_beq h8 ▸ readText?_letter rfl cs
  · exact eq_of_beq hc ▸ readText?_letter rfl cs
  · exact eq_of_beq hn ▸ readText?_letter rfl cs
  · exact eq_of_beq hr ▸ readText?_letter rfl cs
  · exact eq_of_beq ht ▸ readText?_letter rfl cs
  · obtain ⟨a, b, x, d, hunit, hread⟩ := hexUnit_control hcontrol
    have hlow : isLowHalf c.toNat = false := by simp [isLowHalf]; omega
    have hhigh : isHighHalf c.toNat = false := by simp [isHighHalf]; omega
    rw [hunit]
    exact (readText?_unit hread hlow hhigh cs).trans (by rw [Char.ofNat_toNat])
  · -- every character below the blank is escaped, so this one stands for itself
    simp only [Bool.or_eq_true, beq_iff_eq, not_or] at hslash
    exact readText?_plain hslash.1 hslash.2 (Nat.le_of_not_lt hcontrol) cs

/-- The inside of a quoted text, read back. -/
lemma readText?_quoted (cs rest : List Char) :
    readText? (cs.flatMap escapeChar ++ '"' :: rest) = some (cs, rest) := by
  induction cs with
  | nil => rw [List.flatMap_nil, List.nil_append, readText?]
  | cons c cs ih => rw [List.flatMap_cons, List.append_assoc, readText?_escapeChar, ih, Option.map_some]

lemma toList_quote (s : String) : (quote s).toList = '"' :: s.toList.flatMap escapeChar ++ ['"'] := by
  rw [quote, String.toList_ofList]

/-- The indentation of a line. -/
def margin (depth : ℕ) : List Char := List.replicate (2 * depth) ' '

/-- What follows the first entry of a list in brackets that stands `depth` levels deep. -/
def following (closing : Char) (depth : ℕ) : List String → List Char
  | [] => '\n' :: margin depth ++ [closing]
  | e :: es => ',' :: '\n' :: (margin (depth + 1) ++ (e.toList ++ following closing depth es))

lemma intercalate_lines (closing : Char) (depth : ℕ) (e : String) (es : List String) :
    ",\n".toList.intercalate ((e :: es).map fun e => margin (depth + 1) ++ e.toList) ++
        ("\n".toList ++ (margin depth ++ [closing])) =
      margin (depth + 1) ++ (e.toList ++ following closing depth es) := by
  induction es generalizing e with
  | nil => simp [following]
  | cons e' es ih =>
    have htail := ih e'
    rw [List.map_cons] at htail
    rw [following, List.map_cons, List.map_cons, List.intercalate_cons_cons, List.append_assoc, htail]
    simp

lemma toList_block_nil (opening closing : Char) (depth : ℕ) :
    (block (String.singleton opening) (String.singleton closing) depth []).toList = [opening, closing] := by
  simp [block]

lemma toList_block_cons (opening closing : Char) (depth : ℕ) (e : String) (es : List String) :
    (block (String.singleton opening) (String.singleton closing) depth (e :: es)).toList =
      opening :: '\n' :: (margin (depth + 1) ++ (e.toList ++ following closing depth es)) := by
  rw [← intercalate_lines]
  simp only [block, List.isEmpty_cons, Bool.false_eq_true, if_false, String.toList_append, String.toList_intercalate,
    List.map_map, Function.comp_def, String.toList_ofList, String.toList_singleton, List.append_assoc, margin]
  rfl

/-- A text whose first character is neither blank nor a closing bracket. -/
def Starts (cs : List Char) : Prop :=
  ∃ c rest, cs = c :: rest ∧ isSpace c = false ∧ c ≠ ']' ∧ c ≠ '\x7d'

lemma Starts.append {cs : List Char} (h : Starts cs) (rest : List Char) : Starts (cs ++ rest) := by
  obtain ⟨c, cs, rfl, hc⟩ := h
  exact ⟨c, cs ++ rest, rfl, hc⟩

lemma skipSpace_of_not_isSpace {c : Char} (hc : isSpace c = false) (cs : List Char) :
    skipSpace (c :: cs) = c :: cs := by
  rw [skipSpace, List.dropWhile_cons, hc]
  rfl

lemma skipSpace_line (depth : ℕ) (cs : List Char) : skipSpace ('\n' :: (margin depth ++ cs)) = skipSpace cs := by
  change List.dropWhile isSpace (margin depth ++ cs) = _
  refine List.dropWhile_append_of_pos fun c hc => ?_
  rw [List.eq_of_mem_replicate hc]
  rfl

lemma Starts.skipSpace_eq {cs : List Char} (h : Starts cs) : skipSpace cs = cs := by
  obtain ⟨c, cs, rfl, hc, -⟩ := h
  exact skipSpace_of_not_isSpace hc cs

lemma skipSpace_closing {closing : Char} (hc : isSpace closing = false) (depth : ℕ) (rest : List Char) :
    skipSpace (following closing depth [] ++ rest) = closing :: rest := by
  rw [following, List.cons_append, List.cons_append, List.append_assoc, skipSpace_line]
  exact skipSpace_of_not_isSpace hc rest

lemma skipSpace_comma (closing : Char) (depth : ℕ) (e : String) (es : List String) (rest : List Char) :
    skipSpace (following closing depth (e :: es) ++ rest) =
      ',' :: '\n' :: (margin (depth + 1) ++ (e.toList ++ (following closing depth es ++ rest))) := by
  rw [following, List.cons_append, skipSpace_of_not_isSpace rfl]
  simp

/-- Values without numbers, whose lists are nested at most `levels` deep. -/
inductive Plain : ℕ → Json → Prop
  | null {levels : ℕ} : Plain levels .null
  | bool {levels : ℕ} (b : Bool) : Plain levels (.bool b)
  | str {levels : ℕ} (s : String) : Plain levels (.str s)
  | arr {levels : ℕ} {items : List Json} (h : ∀ v ∈ items, Plain levels v) : Plain (levels + 1) (.arr items)
  | obj {levels : ℕ} {fields : List (String × Json)} (h : ∀ f ∈ fields, Plain levels f.2) :
    Plain (levels + 1) (.obj fields)

lemma starts_block {opening : Char} (h : Starts [opening]) (closing : Char) (depth : ℕ) (entries : List String) :
    Starts (block (String.singleton opening) (String.singleton closing) depth entries).toList := by
  cases entries with
  | nil =>
    rw [toList_block_nil]
    exact h.append [closing]
  | cons e es =>
    rw [toList_block_cons]
    exact h.append _

lemma Plain.starts {levels : ℕ} {v : Json} (h : Plain levels v) (depth : ℕ) : Starts (indented depth v).toList := by
  cases h with
  | null => exact ⟨'n', "ull".toList, by rw [indented]; rfl, rfl, by decide, by decide⟩
  | bool b =>
    cases b with
    | true => exact ⟨'t', "rue".toList, by rw [indented]; rfl, rfl, by decide, by decide⟩
    | false => exact ⟨'f', "alse".toList, by rw [indented]; rfl, rfl, by decide, by decide⟩
  | str s => exact ⟨'"', _, by rw [indented, toList_quote]; rfl, rfl, by decide, by decide⟩
  | arr =>
    rw [indented]
    exact starts_block ⟨'[', [], rfl, rfl, by decide, by decide⟩ ']' depth _
  | obj =>
    rw [indented]
    exact starts_block ⟨'\x7b', [], rfl, rfl, by decide, by decide⟩ '\x7d' depth _

/-- A value is read back wherever its text stands. -/
def Legible (levels : ℕ) (v : Json) : Prop :=
  ∀ depth fuel rest, (indented depth v).toList.length ≤ fuel →
    readValue? fuel levels ((indented depth v).toList ++ rest) = some (v, rest)

def fieldText (depth : ℕ) (f : String × Json) : String := quote f.1 ++ ": " ++ indented depth f.2

lemma toList_fieldText (depth : ℕ) (f : String × Json) :
    (fieldText depth f).toList =
      '"' :: (f.1.toList.flatMap escapeChar ++ '"' :: ':' :: ' ' :: (indented depth f.2).toList) := by
  rw [fieldText, String.toList_append, String.toList_append, toList_quote]
  simp

lemma indentedFields_cons (depth : ℕ) (f : String × Json) (fs : List (String × Json)) :
    indentedFields depth (f :: fs) = fieldText depth f :: indentedFields depth fs := by
  rw [indentedFields]
  rfl

lemma starts_fieldText (depth : ℕ) (f : String × Json) : Starts (fieldText depth f).toList :=
  ⟨'"', _, toList_fieldText depth f, rfl, by decide, by decide⟩

lemma length_following_cons (closing : Char) (depth : ℕ) (e : String) (es : List String) :
    e.toList.length + (following closing depth es).length + 2 ≤ (following closing depth (e :: es)).length := by
  simp only [following, List.length_cons, List.length_append]
  omega

lemma length_following_nil (closing : Char) (depth : ℕ) : 2 ≤ (following closing depth []).length := by
  simp [following]

/-- The last item of an array. -/
lemma readItems?_last {levels depth fuel : ℕ} {v : Json} {rest after : List Char} (hread : Legible levels v)
    (hfuel : (indented depth v).toList.length ≤ fuel) (hrest : skipSpace rest = ']' :: after) :
    readItems? (fuel + 1) levels ((indented depth v).toList ++ rest) = some ([v], after) := by
  rw [readItems?, hread depth fuel rest hfuel]
  simp only [Option.bind_eq_bind, Option.bind_some, hrest]

/-- An item that others follow. -/
lemma readItems?_more {levels depth fuel : ℕ} {v : Json} {rest after : List Char} (hread : Legible levels v)
    (hfuel : (indented depth v).toList.length ≤ fuel) (hrest : skipSpace rest = ',' :: after) :
    readItems? (fuel + 1) levels ((indented depth v).toList ++ rest) =
      (readItems? fuel levels (skipSpace after)).map fun p => (v :: p.1, p.2) := by
  rw [readItems?, hread depth fuel rest hfuel]
  simp only [Option.bind_eq_bind, Option.bind_some, hrest, Option.map_eq_bind, Function.comp_def]

/-- The value of a field stands behind its name and a colon. -/
lemma skipSpace_colon {levels : ℕ} {v : Json} (hplain : Plain levels v) (depth : ℕ) (rest : List Char) :
    skipSpace (' ' :: ((indented depth v).toList ++ rest)) = (indented depth v).toList ++ rest :=
  ((hplain.starts depth).append rest).skipSpace_eq

/-- The last field of an object. -/
lemma readFields?_last {levels depth fuel : ℕ} {f : String × Json} {rest after : List Char}
    (hplain : Plain levels f.2) (hread : Legible levels f.2) (hfuel : (fieldText depth f).toList.length ≤ fuel)
    (hrest : skipSpace rest = '\x7d' :: after) :
    readFields? (fuel + 1) levels ((fieldText depth f).toList ++ rest) = some ([f], after) := by
  rw [toList_fieldText] at hfuel ⊢
  simp only [List.length_cons, List.length_append] at hfuel
  rw [List.cons_append, List.append_assoc, readFields?]
  simp only [Option.bind_eq_bind, List.cons_append, readText?_quoted, Option.bind_some]
  rw [skipSpace_of_not_isSpace rfl]
  simp only [skipSpace_colon hplain, hread depth fuel rest (by omega), Option.bind_some, String.ofList_toList, hrest,
    Prod.mk.eta]

/-- A field that others follow. -/
lemma readFields?_more {levels depth fuel : ℕ} {f : String × Json} {rest after : List Char}
    (hplain : Plain levels f.2) (hread : Legible levels f.2) (hfuel : (fieldText depth f).toList.length ≤ fuel)
    (hrest : skipSpace rest = ',' :: after) :
    readFields? (fuel + 1) levels ((fieldText depth f).toList ++ rest) =
      (readFields? fuel levels (skipSpace after)).map fun p => (f :: p.1, p.2) := by
  rw [toList_fieldText] at hfuel ⊢
  simp only [List.length_cons, List.length_append] at hfuel
  rw [List.cons_append, List.append_assoc, readFields?]
  simp only [Option.bind_eq_bind, List.cons_append, readText?_quoted, Option.bind_some]
  rw [skipSpace_of_not_isSpace rfl]
  simp only [skipSpace_colon hplain, hread depth fuel rest (by omega), Option.bind_some, String.ofList_toList, hrest,
    Prod.mk.eta, Option.map_eq_bind, Function.comp_def]

/-- The items of an array are read back up to its end. -/
lemma readItems?_written {levels depth fuel : ℕ} {v : Json} {vs : List Json} {rest : List Char}
    (hplain : ∀ w ∈ v :: vs, Plain levels w) (hread : ∀ w ∈ v :: vs, Legible levels w)
    (hfuel : (indented (depth + 1) v).toList.length +
      (following ']' depth (indentedItems (depth + 1) vs)).length ≤ fuel) :
    readItems? fuel levels ((indented (depth + 1) v).toList ++
      (following ']' depth (indentedItems (depth + 1) vs) ++ rest)) = some (v :: vs, rest) := by
  -- each item costs a step, and at least one character of the text
  induction vs generalizing v fuel with
  | nil =>
    rw [indentedItems] at hfuel ⊢
    have hlen := length_following_nil ']' depth
    obtain ⟨fuel, rfl⟩ : ∃ n, fuel = n + 1 := ⟨fuel - 1, by omega⟩
    exact readItems?_last (hread v (.head [])) (by omega) (skipSpace_closing rfl depth rest)
  | cons w vs ih =>
    rw [indentedItems] at hfuel ⊢
    have hlen := length_following_cons ']' depth (indented (depth + 1) w) (indentedItems (depth + 1) vs)
    obtain ⟨fuel, rfl⟩ : ∃ n, fuel = n + 1 := ⟨fuel - 1, by omega⟩
    have hvs : readItems? fuel levels ((indented (depth + 1) w).toList ++
        (following ']' depth (indentedItems (depth + 1) vs) ++ rest)) = some (w :: vs, rest) :=
      ih (fun x hx => hplain x (.tail v hx)) (fun x hx => hread x (.tail v hx)) (by omega)
    have hstarts := (hplain w (.tail v (.head vs))).starts (depth + 1)
    rw [readItems?_more (hread v (.head _)) (by omega) (skipSpace_comma ..), skipSpace_line,
      (hstarts.append _).skipSpace_eq, hvs, Option.map_some]

/-- The fields of an object are read back up to its end. -/
lemma readFields?_written {levels depth fuel : ℕ} {f : String × Json} {fs : List (String × Json)} {rest : List Char}
    (hplain : ∀ g ∈ f :: fs, Plain levels g.2) (hread : ∀ g ∈ f :: fs, Legible levels g.2)
    (hfuel : (fieldText (depth + 1) f).toList.length +
      (following '\x7d' depth (indentedFields (depth + 1) fs)).length ≤ fuel) :
    readFields? fuel levels ((fieldText (depth + 1) f).toList ++
      (following '\x7d' depth (indentedFields (depth + 1) fs) ++ rest)) = some (f :: fs, rest) := by
  induction fs generalizing f fuel with
  | nil =>
    rw [indentedFields] at hfuel ⊢
    have hlen := length_following_nil '\x7d' depth
    obtain ⟨fuel, rfl⟩ : ∃ n, fuel = n + 1 := ⟨fuel - 1, by omega⟩
    exact readFields?_last (hplain f (.head [])) (hread f (.head [])) (by omega) (skipSpace_closing rfl depth rest)
  | cons g fs ih =>
    rw [indentedFields_cons] at hfuel ⊢
    have hlen := length_following_cons '\x7d' depth (fieldText (depth + 1) g) (indentedFields (depth + 1) fs)
    obtain ⟨fuel, rfl⟩ : ∃ n, fuel = n + 1 := ⟨fuel - 1, by omega⟩
    have hfs : readFields? fuel levels ((fieldText (depth + 1) g).toList ++
        (following '\x7d' depth (indentedFields (depth + 1) fs) ++ rest)) = some (g :: fs, rest) :=
      ih (fun x hx => hplain x (.tail f hx)) (fun x hx => hread x (.tail f hx)) (by omega)
    have hstarts := starts_fieldText (depth + 1) g
    rw [readFields?_more (hplain f (.head _)) (hread f (.head _)) (by omega) (skipSpace_comma ..), skipSpace_line,
      (hstarts.append _).skipSpace_eq, hfs, Option.map_some]

lemma readValue?_array {fuel levels : ℕ} {cs rest : List Char} (hstarts : Starts cs) (hskip : skipSpace rest = cs) :
    readValue? (fuel + 1) (levels + 1) ('[' :: rest) =
      (readItems? fuel levels cs).map fun p => (.arr p.1, p.2) := by
  obtain ⟨c, cs, rfl, -, hc, -⟩ := hstarts
  simp only [readValue?, Nat.add_eq_zero_iff, one_ne_zero, and_false, if_false, hskip, Nat.add_sub_cancel]
  split
  · next heq => exact absurd (List.cons.inj heq).1 hc
  · rfl

lemma readValue?_object {fuel levels : ℕ} {cs rest : List Char} (hstarts : Starts cs) (hskip : skipSpace rest = cs) :
    readValue? (fuel + 1) (levels + 1) ('\x7b' :: rest) =
      (readFields? fuel levels cs).map fun p => (.obj p.1, p.2) := by
  obtain ⟨c, cs, rfl, -, -, hc⟩ := hstarts
  simp only [readValue?, Nat.add_eq_zero_iff, one_ne_zero, and_false, if_false, hskip, Nat.add_sub_cancel]
  split
  · next heq => exact absurd (List.cons.inj heq).1 hc
  · rfl

lemma toList_indented_array (depth : ℕ) (v : Json) (vs : List Json) :
    (indented depth (.arr (v :: vs))).toList =
      '[' :: '\n' :: (margin (depth + 1) ++
        ((indented (depth + 1) v).toList ++ following ']' depth (indentedItems (depth + 1) vs))) := by
  rw [indented]
  exact toList_block_cons '[' ']' depth _ _

lemma toList_indented_object (depth : ℕ) (f : String × Json) (fs : List (String × Json)) :
    (indented depth (.obj (f :: fs))).toList =
      '\x7b' :: '\n' :: (margin (depth + 1) ++
        ((fieldText (depth + 1) f).toList ++ following '\x7d' depth (indentedFields (depth + 1) fs))) := by
  rw [indented]
  rw [indentedFields_cons]
  exact toList_block_cons '\x7b' '\x7d' depth _ _

/-- As no text is empty, there is fuel for one step. -/
lemma legible_of_starts {levels : ℕ} {v : Json} (hstarts : ∀ depth, Starts (indented depth v).toList)
    (hread : ∀ depth fuel rest, (indented depth v).toList.length ≤ fuel + 1 →
      readValue? (fuel + 1) levels ((indented depth v).toList ++ rest) = some (v, rest)) : Legible levels v := by
  intro depth fuel rest hfuel
  obtain ⟨c, cs, heq, -⟩ := hstarts depth
  cases fuel with
  | zero => simp [heq] at hfuel
  | succ fuel => exact hread depth fuel rest hfuel

/-- Whatever follows, the text of a value without numbers is read back. -/
theorem Plain.legible {levels : ℕ} {v : Json} (h : Plain levels v) : Legible levels v := by
  induction h with
  | null =>
    refine legible_of_starts (@Plain.null 0).starts fun depth fuel rest _ => ?_
    rw [indented]
    rfl
  | bool b =>
    refine legible_of_starts (@Plain.bool 0 b).starts fun depth fuel rest _ => ?_
    rw [indented]
    cases b <;> rfl
  | str s =>
    refine legible_of_starts (@Plain.str 0 s).starts fun depth fuel rest _ => ?_
    rw [indented, toList_quote]
    simp [readValue?, readText?_quoted]
  | @arr _ items hplain ih =>
    refine legible_of_starts (Plain.arr hplain).starts fun depth fuel rest hfuel => ?_
    cases items with
    | nil =>
      have htext : (indented depth (.arr [])).toList = ['[', ']'] := by
        rw [indented]
        exact toList_block_nil '[' ']' depth
      rw [htext]
      rfl
    | cons v vs =>
      rw [toList_indented_array] at hfuel ⊢
      simp only [List.length_cons, List.length_append] at hfuel
      have hstarts := ((hplain v (.head vs)).starts (depth + 1)).append
        (following ']' depth (indentedItems (depth + 1) vs) ++ rest)
      simp only [List.cons_append, List.append_assoc]
      rw [readValue?_array hstarts (by rw [skipSpace_line, hstarts.skipSpace_eq]),
        readItems?_written hplain ih (by omega), Option.map_some]
  | @obj _ fields hplain ih =>
    refine legible_of_starts (Plain.obj hplain).starts fun depth fuel rest hfuel => ?_
    cases fields with
    | nil =>
      have htext : (indented depth (.obj [])).toList = ['\x7b', '\x7d'] := by
        rw [indented]
        exact toList_block_nil '\x7b' '\x7d' depth
      rw [htext]
      rfl
    | cons f fs =>
      rw [toList_indented_object] at hfuel ⊢
      simp only [List.length_cons, List.length_append] at hfuel
      have hstarts := (starts_fieldText (depth + 1) f).append
        (following '\x7d' depth (indentedFields (depth + 1) fs) ++ rest)
      simp only [List.cons_append, List.append_assoc]
      rw [readValue?_object hstarts (by rw [skipSpace_line, hstarts.skipSpace_eq]),
        readFields?_written hplain ih (by omega), Option.map_some]

/-- The text of a value without numbers is read back from the start of a text. -/
theorem Plain.read?_indented {v : Json} (h : Plain deepest v) (rest : List Char) :
    read? ((indented 0 v).toList ++ rest) = some (v, rest) := by
  rw [read?, ((h.starts 0).append rest).skipSpace_eq]
  exact h.legible 0 _ rest (by simp only [List.length_append]; omega)

end ReactiveNotebook.Json
