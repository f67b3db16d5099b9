import Mathlib.Tactic
import ReactiveNotebook.Proofs.Analysis.Phrase

/-!
# The walk over tokens

What one step of the walk does, token by token, and what the brackets and separators do to the bindings in force. The
fuel of the walk never runs out, so the steps are stated without it.
-/
namespace ReactiveNotebook.Analysis

/-- Where the walk stands: the two tokens before the place, the bindings in force and the names read so far. -/
structure Spot where
  beforeLast : Option Token
  last : Option Token
  scopes : Scopes
  reads : Names

/-- The names that the walk has read in the end when it goes on from a spot over `ts`. -/
def walk (p : Spot) (ts : List Token) : Names :=
  freeNamesFrom (ts.length + 1) ⟨p.beforeLast, p.last, ts⟩ p.scopes p.reads

namespace Spot

def step (p : Spot) (t : Token) : Spot := { p with beforeLast := p.last, last := some t }

def past (p : Spot) (ts : List Token) : Spot := ts.foldl step p

def within (p : Spot) (s : Scopes) : Spot := { p with scopes := s }

def reading (p : Spot) (names : List String) : Spot := { p with reads := p.reads.insertAll names }

def cursor (p : Spot) (rest : List Token) : Cursor := ⟨p.beforeLast, p.last, rest⟩

section
variable (p : Spot) (t : Token) (ts : List Token) (s : Scopes) (names : List String)

@[simp] lemma scopes_step : (p.step t).scopes = p.scopes := rfl
@[simp] lemma reads_step : (p.step t).reads = p.reads := rfl
@[simp] lemma last_within : (p.within s).last = p.last := rfl
@[simp] lemma scopes_within : (p.within s).scopes = s := rfl
@[simp] lemma reads_within : (p.within s).reads = p.reads := rfl

@[simp] lemma past_append (us : List Token) : p.past (ts ++ us) = (p.past ts).past us :=
  List.foldl_append

@[simp] lemma scopes_past : (p.past ts).scopes = p.scopes := by
  induction ts generalizing p with
  | nil => rfl
  | cons t ts ih => exact ih (p.step t)

@[simp] lemma reads_past : (p.past ts).reads = p.reads := by
  induction ts generalizing p with
  | nil => rfl
  | cons t ts ih => exact ih (p.step t)

lemma skip_cursor (rest : List Token) :
    (p.cursor (ts ++ rest)).skip ts.length = (p.past ts).cursor rest := by
  induction ts generalizing p with
  | nil => rfl
  | cons t ts ih => exact ih (p.step t)

end

end Spot

lemma rest_skip (c : Cursor) (n : ℕ) : (c.skip n).rest = c.rest.drop n := by
  induction n generalizing c with
  | zero => rfl
  | succ n ih =>
    rw [Cursor.skip, ih]
    cases h : c.rest <;> simp [Cursor.next, h]

lemma Scopes.taken_punct_pos (s : Scopes) (last : Option Token) (c : Char) (rest : List Token) :
    0 < (s.punct last c rest).2 := by
  unfold Scopes.punct
  split <;> try exact Nat.one_pos
  split
  · exact Nat.two_pos
  · split
    · exact Nat.one_pos
    · exact Nat.succ_pos _

lemma Scopes.taken_binder_pos {s t : Scopes} {w : String} {rest : List Token} {n : ℕ}
    (h : s.binder? w rest = some (t, n)) : 0 < n := by
  unfold Scopes.binder? at h
  repeat' split at h
  all_goals first | contradiction | (cases h; exact Nat.succ_pos _)

lemma freeNamesFrom_fuel {m n : ℕ} {c : Cursor} (s : Scopes) (reads : Names) (hm : c.rest.length < m)
    (hn : c.rest.length < n) : freeNamesFrom m c s reads = freeNamesFrom n c s reads := by
  induction m generalizing n c s reads with
  | zero => exact absurd hm (Nat.not_lt_zero _)
  | succ m ih =>
    obtain ⟨n, rfl⟩ := Nat.exists_eq_succ_of_ne_zero (Nat.ne_zero_of_lt hn)
    rw [freeNamesFrom, freeNamesFrom]
    cases hr : c.rest with
    | nil => rfl
    | cons t rest =>
      have hlen : c.rest.length = rest.length + 1 := by rw [hr]; rfl
      -- each branch goes on at least one token later, with less fuel on both sides
      have later (k : ℕ) (hk : 0 < k) (s : Scopes) (reads : Names) :
          freeNamesFrom m (c.skip k) s reads = freeNamesFrom n (c.skip k) s reads := by
        refine ih s reads ?_ ?_ <;> rw [rest_skip, List.length_drop] <;> omega
      have next (s : Scopes) (reads : Names) :
          freeNamesFrom m c.next s reads = freeNamesFrom n c.next s reads :=
        later 1 Nat.one_pos s reads
      cases t with
      | punct p => exact later _ (s.taken_punct_pos _ _ _) _ _
      | ident name sigil =>
        dsimp only
        split
        · next h =>
          cases sigil with
          | true => simp at h
          | false => exact later _ (Scopes.taken_binder_pos h) _ _
        · exact next _ _
      | text _ => exact next _ _
      | number => exact next _ _

@[simp] lemma walk_nil (p : Spot) : walk p [] = p.reads := rfl

lemma freeNames_eq_walk (ts : List Token) : freeNames ts = walk ⟨none, none, .start, ∅⟩ ts := rfl

section
variable (p : Spot) (taken rest : List Token)

/-- The walk goes on after the tokens that a step takes. -/
lemma freeNamesFrom_skip (t : Token) (s : Scopes) (reads : Names) :
    freeNamesFrom (t :: (taken ++ rest)).length ((p.cursor (t :: (taken ++ rest))).skip (taken.length + 1)) s reads =
      walk { (p.step t).past taken with scopes := s, reads := reads } rest := by
  have h : (p.cursor (t :: (taken ++ rest))).skip (taken.length + 1) =
      ((p.step t).past taken).cursor rest := (p.step t).skip_cursor taken rest
  rw [h]
  refine freeNamesFrom_fuel s reads ?_ ?_ <;> simp only [Spot.cursor, List.length_cons, List.length_append] <;> omega

lemma walk_punct {c : Char} {s : Scopes}
    (h : p.scopes.punct p.last c (taken ++ rest) = (s, taken.length + 1)) :
    walk p (.punct c :: (taken ++ rest)) = walk (((p.step (.punct c)).past taken).within s) rest := by
  have hskip := freeNamesFrom_skip p taken rest (.punct c) s p.reads
  rw [walk, freeNamesFrom]
  simp only [h]
  refine hskip.trans ?_
  congr 1
  simp [Spot.within]

lemma walk_binder {w : String} {s : Scopes}
    (h : p.scopes.binder? w (taken ++ rest) = some (s, taken.length + 1)) :
    walk p (.ident w false :: (taken ++ rest)) = walk (((p.step (.ident w false)).past taken).within s) rest := by
  have hskip := freeNamesFrom_skip p taken rest (.ident w false) s p.reads
  rw [walk, freeNamesFrom]
  simp only [Bool.false_eq_true, if_false, h]
  refine hskip.trans ?_
  congr 1
  simp [Spot.within]

lemma walk_ident {name : String} {sigil : Bool} (h : sigil = true ∨ p.scopes.binder? name rest = none) :
    walk p (.ident name sigil :: rest) =
      walk ((p.step (.ident name sigil)).reading
        (if isRead p.scopes p.beforeLast p.last name sigil rest then [name] else [])) rest := by
  have hb : (if sigil then none else p.scopes.binder? name rest) = none := by
    rcases h with rfl | h
    · rfl
    · rw [h, ite_self]
  rw [walk, freeNamesFrom]
  simp only [hb]
  split <;> rfl

lemma walk_text (content : String) : walk p (.text content :: rest) = walk (p.step (.text content)) rest := rfl

lemma walk_number : walk p (.number :: rest) = walk (p.step .number) rest := rfl

end

/-- The characters that the walk heeds. -/
def heeded : List Char := ['|', '\x7b', '(', '[', '\x7d', ')', ']', ',', ';']

section
variable {p : Spot} {rest : List Token} {c : Char}

lemma walk_inert (hc : c ∉ heeded) : walk p (.punct c :: rest) = walk (p.step (.punct c)) rest := by
  refine walk_punct p [] rest (s := p.scopes) ?_
  unfold Scopes.punct
  split <;> first | rfl | exact absurd (by decide) hc

lemma walk_opening (hc : c = '(' ∨ c = '[' ∨ c = '\x7b') :
    walk p (.punct c :: rest) = walk ((p.step (.punct c)).within (p.scopes.enter (c == '\x7b'))) rest := by
  rcases hc with rfl | rfl | rfl <;> exact walk_punct p [] rest rfl

lemma walk_closing (hc : c = ')' ∨ c = ']' ∨ c = '\x7d') :
    walk p (.punct c :: rest) = walk ((p.step (.punct c)).within p.scopes.leave) rest := by
  rcases hc with rfl | rfl | rfl <;> exact walk_punct p [] rest rfl

lemma walk_comma :
    walk p (.punct ',' :: rest) = walk ((p.step (.punct ',')).within p.scopes.endClosures) rest :=
  walk_punct p [] rest rfl

lemma walk_semicolon :
    walk p (.punct ';' :: rest) = walk ((p.step (.punct ';')).within p.scopes.endStatement) rest :=
  walk_punct p [] rest rfl

/-- A single bar after an operand is an operator. -/
lemma walk_bar (hlast : isOperand p.last = true) (hrest : startsWith rest '|' = false) :
    walk p (.punct '|' :: rest) = walk (p.step (.punct '|')) rest := by
  refine walk_punct p [] rest (s := p.scopes) ?_
  simp [Scopes.punct, hlast, hrest]

/-- Two bars after an operand are an operator, elsewhere they are the parameters of a closure without any. -/
lemma walk_bars :
    walk p (.punct '|' :: .punct '|' :: rest) =
      walk (((p.step (.punct '|')).step (.punct '|')).within
        (if isOperand p.last then p.scopes else p.scopes.closure ∅ (startsWith rest '\x7b'))) rest := by
  refine walk_punct p [.punct '|'] rest ?_
  simp [Scopes.punct, startsWith, Token.isPunct]

end

/-- Whether what follows a variable leaves it one: neither arguments nor a colon follow. -/
def Ends (rest : List Token) : Prop := startsWith rest '(' = false ∧ startsWith rest ':' = false

/-- Whether a variable is read at the spot: it is neither a property nor in a module. -/
def Spot.IsReady (p : Spot) : Prop :=
  (p.last = some (.punct '.') → p.beforeLast = some (.punct '.')) ∧
    (p.last = some (.punct ':') → p.beforeLast ≠ some (.punct ':'))

lemma isPunct_eq_true_iff {t : Token} {c : Char} : t.isPunct c = true ↔ t = .punct c := by
  cases t <;> simp [Token.isPunct]

lemma map_isPunct_iff {t : Option Token} {c : Char} :
    (t.map (·.isPunct c)).getD false = true ↔ t = some (.punct c) := by
  cases t <;> simp [isPunct_eq_true_iff]

section
variable {p : Spot} {s : Scopes} {beforeLast last : Option Token} {rest : List Token} {name : String}

lemma isRead_reserved (h : isReserved name = true) : isRead s beforeLast last name false rest = false := by
  simp [isRead, h]

lemma isRead_call (h : startsWith rest '(' = true) : isRead s beforeLast last name false rest = false := by
  simp [isRead, h]

lemma isRead_key (h : startsWith rest ':' = true) : isRead s beforeLast last name false rest = false := by
  simp only [isRead, h]
  cases startsWith (rest.drop 1) ':' <;> simp

lemma isRead_property (hlast : last = some (.punct '.')) (hbefore : beforeLast ≠ some (.punct '.')) :
    isRead s beforeLast last name false rest = false := by
  have hb : (beforeLast.map (·.isPunct '.')).getD false = false :=
    Bool.eq_false_iff.2 fun h => hbefore (map_isPunct_iff.1 h)
  simp [isRead, map_isPunct_iff.2 hlast, hb]

lemma isRead_variable {sigil : Bool} (hready : p.IsReady) (hends : Ends rest) :
    isRead s p.beforeLast p.last name sigil rest = (sigil || !(isReserved name || s.isBound name)) := by
  have hproperty : (((p.last.map (·.isPunct '.')).getD false) && !((p.beforeLast.map (·.isPunct '.')).getD false))
      = false := by
    refine Bool.eq_false_iff.2 fun h => ?_
    obtain ⟨hlast, hbefore⟩ := Bool.and_eq_true_iff.1 h
    rw [map_isPunct_iff.2 (hready.1 (map_isPunct_iff.1 hlast))] at hbefore
    cases hbefore
  have hqualified : (((p.last.map (·.isPunct ':')).getD false) && ((p.beforeLast.map (·.isPunct ':')).getD false))
      = false := by
    refine Bool.eq_false_iff.2 fun h => ?_
    obtain ⟨hlast, hbefore⟩ := Bool.and_eq_true_iff.1 h
    exact hready.2 (map_isPunct_iff.1 hlast) (map_isPunct_iff.1 hbefore)
  simp only [isRead, hproperty, hqualified, hends.1, hends.2]
  cases sigil <;> simp

lemma binder?_eq_none {w : String} (h : w ∉ bindingWords) : s.binder? w rest = none := by
  unfold Scopes.binder?
  split <;> first | rfl | exact absurd (by decide) h

/-- A word that is not read and binds nothing. -/
lemma walk_skipped (hw : name ∉ bindingWords)
    (h : isRead p.scopes p.beforeLast p.last name false rest = false) :
    walk p (word name :: rest) = walk (p.step (word name)) rest := by
  rw [walk_ident p rest (.inr (binder?_eq_none hw)), h]
  rfl

/-- A word of the language that binds nothing. -/
lemma walk_keyword (hw : name ∉ bindingWords) (h : isReserved name = true) :
    walk p (word name :: rest) = walk (p.step (word name)) rest :=
  walk_skipped hw (isRead_reserved h)

end

lemma filterMap_ident?_nameList (params : List String) : (nameList params).filterMap Token.ident? = params := by
  induction params using nameList.induct with
  | case1 => rfl
  | case2 name => rfl
  | case3 name rest hrest ih =>
    rw [nameList]
    · exact congrArg (name :: ·) ih
    · exact hrest

lemma not_isPunct_of_mem_nameList {close : Char} (hclose : close ≠ ',') {params : List String} {t : Token}
    (ht : t ∈ nameList params) : (!t.isPunct close) = true := by
  induction params using nameList.induct with
  | case1 => cases ht
  | case2 name => rw [List.eq_of_mem_singleton ht]; rfl
  | case3 name rest hrest ih =>
    rw [nameList] at ht
    · rcases List.mem_cons.1 ht with rfl | ht
      · rfl
      · rcases List.mem_cons.1 ht with rfl | ht
        · simpa [Token.isPunct] using hclose.symm
        · exact ih ht
    · exact hrest

lemma namesUntil_nameList (close : Char) (hclose : close ≠ ',') (params : List String) (rest : List Token) :
    namesUntil close (nameList params ++ .punct close :: rest) =
      (Names.ofList params, (nameList params).length + 1) := by
  have hinside : (nameList params ++ .punct close :: rest).takeWhile (fun t => !t.isPunct close) =
      nameList params := by
    rw [List.takeWhile_append_of_pos fun t ht => not_isPunct_of_mem_nameList hclose ht,
      List.takeWhile_cons_of_neg (by simp [Token.isPunct]), List.append_nil]
  simp only [namesUntil, hinside, filterMap_ident?_nameList]

lemma startsWith_nameList {params : List String} (hparams : params ≠ []) (close c : Char) (rest : List Token) :
    startsWith (nameList params ++ .punct close :: rest) c = false := by
  induction params using nameList.induct with
  | case1 => exact absurd rfl hparams
  | case2 name => rfl
  | case3 name rest hrest ih =>
    rw [nameList]
    · rfl
    · exact hrest

section
variable (p : Spot) (rest : List Token)

/-- The parameters of a closure. -/
lemma walk_params (hlast : isOperand p.last = false) (params : List String) :
    walk p (paramTokens params ++ rest) =
      walk ((p.past (paramTokens params)).within
        (p.scopes.closure (Names.ofList params) (startsWith rest '\x7b'))) rest := by
  rcases eq_or_ne params [] with rfl | hparams
  · refine walk_bars.trans ?_
    rw [hlast]
    rfl
  · have hstart := startsWith_nameList hparams '|' '|' rest
    have hnames := namesUntil_nameList '|' (by decide) params rest
    have hstep := walk_punct p (nameList params ++ [.punct '|']) rest (c := '|')
      (s := p.scopes.closure (Names.ofList params) (startsWith rest '\x7b')) (by
        simp [Scopes.punct, hlast, hstart, hnames])
    simpa [paramTokens, Spot.past] using hstep

lemma last_params (params : List String) : (p.past (paramTokens params)).last = some (.punct '|') := by
  rw [paramTokens, Spot.past_append]
  rfl

/-- A declaration. -/
lemma walk_declarer (constant : Bool) (name : String) :
    walk p (word (declarer constant) :: word name :: rest) =
      walk (((p.step (word (declarer constant))).step (word name)).within (p.scopes.declare name)) rest := by
  cases constant <;> exact walk_binder p [word name] rest rfl

/-- The head of a function. -/
lemma walk_function (name : String) (params : List String) :
    walk p (word "fn" :: word name :: .punct '(' :: (nameList params ++ .punct ')' :: rest)) =
      walk (((p.past (word "fn" :: word name :: .punct '(' :: nameList params)).step (.punct ')')).within
        (p.scopes.await (Names.ofList params))) rest := by
  have hnames := namesUntil_nameList ')' (by decide) params rest
  have hstep := walk_binder p (word name :: .punct '(' :: (nameList params ++ [.punct ')'])) rest (w := "fn")
    (s := p.scopes.await (Names.ofList params)) (by
      simp [Scopes.binder?, startsWith, Token.isPunct, hnames])
  simpa [Spot.past] using hstep

/-- The name of a caught error. -/
lemma walk_catch (name : String) :
    walk p (word "catch" :: .punct '(' :: word name :: .punct ')' :: rest) =
      walk (((p.past [word "catch", .punct '(', word name]).step (.punct ')')).within
        (p.scopes.await (Names.ofList [name]))) rest :=
  walk_binder p [.punct '(', word name, .punct ')'] rest (w := "catch")
    (s := p.scopes.await (Names.ofList [name])) (by
      simp [Scopes.binder?, startsWith, namesUntil, Token.isPunct, Token.ident?])

/-- The names of a loop. -/
lemma walk_loop (name : String) (counter : Option String) :
    ∃ q : Spot, walk p (word "for" :: (loopTokens name counter ++ rest)) = walk q rest ∧
      q.scopes = p.scopes.await (Names.ofList (loopNames name counter)) ∧ q.reads = p.reads := by
  cases counter with
  | none => exact ⟨_, walk_binder p [word name] rest (w := "for") rfl, rfl, rfl⟩
  | some counter =>
    refine ⟨_, walk_binder p (loopTokens name (some counter)) rest (w := "for")
      (s := p.scopes.await (Names.ofList [name, counter])) ?_, rfl, ?_⟩
    · have hnames := namesUntil_nameList ')' (by decide) [name, counter] rest
      simp [Scopes.binder?, loopTokens, startsWith, Token.isPunct, hnames]
    · rw [Spot.reads_within, Spot.reads_past, Spot.reads_step]

end

end ReactiveNotebook.Analysis
