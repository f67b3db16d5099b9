import ReactiveNotebook.Proofs.Analysis.Bindings
import ReactiveNotebook.Proofs.Analysis.Walk

/-!
# What the walk does in a phrase

The walk over the tokens of a regular phrase comes out with the bindings it went in with, but for closures that are
still open, what the phrase declares and names that await their body, which the first brace takes. Here this is stated
for each kind of phrase, with the names that are read, and shown for operators, brackets and the items between them.
-/
namespace ReactiveNotebook.Analysis

variable {scope awaiting bound : List String} {braces braceless : Bool} {p q : Spot} {rest : List Token}

lemma insertAll_append (s : Names) (xs ys : List String) : s.insertAll (xs ++ ys) = (s.insertAll xs).insertAll ys :=
  List.foldl_append

/-- The walk stands where a variable is read, `awaiting` await their body and `bound` are in force. -/
structure Spot.Stands (p : Spot) (awaiting bound : List String) : Prop where
  scopes : p.scopes.Agrees awaiting bound
  ready : p.IsReady

/-- What the walk through an expression needs. The expression belongs to the language where `scope` is bound, which
need not be what the walk has bound. -/
structure Expression.Fits (e : Expression) (scope : List String) (braces : Bool) (awaiting bound : List String)
    (p : Spot) (rest : List Token) : Prop where
  valid : e.isValid scope = true
  regular : e.isRegular braces = true
  stands : p.Stands awaiting bound
  bar : e.startsWithBar = true → isOperand p.last = false
  ends : e.isBlock = false → Ends rest

/-- What the walk through an expression does. -/
structure Expression.Passed (e : Expression) (awaiting bound : List String) (p q : Spot) : Prop where
  reads : q.reads = p.reads.insertAll (e.taken awaiting bound)
  grows : (p.scopes.after e.braceless).Grows q.scopes (!e.isOpen)
  operand : e.endsInPoint = false → e.endsInTruth = false → isOperand q.last = true
  point : e.endsInPoint = false → q.last ≠ some (.punct '.')

/-- The walk passes through an expression wherever it fits. -/
def Expression.Passes (e : Expression) : Prop :=
  ∀ ⦃scope braces⦄ (awaiting bound : List String) (p : Spot) (rest : List Token),
    e.Fits scope braces awaiting bound p rest →
    ∃ q, walk p (e.tokens ++ rest) = walk q rest ∧ e.Passed awaiting bound p q

/-- What the walk through items needs: it stands after the opening bracket or a comma. -/
structure Items.Fits (items : Items) (scope : List String) (braces : Bool) (awaiting bound : List String) (p : Spot)
    (rest : List Token) : Prop where
  valid : items.isValid scope = true
  regular : items.isRegular braces = true
  stands : p.Stands awaiting bound
  level : p.scopes.endClosures = p.scopes
  start : isOperand p.last = false
  ends : Ends rest

/-- The walk passes through items wherever they fit. -/
def Items.Passes (items : Items) : Prop :=
  ∀ ⦃scope braces⦄ (awaiting bound : List String) (p : Spot) (rest : List Token),
    items.Fits scope braces awaiting bound p rest →
    ∃ q, walk p (items.tokens ++ rest) = walk q rest ∧
      q.reads = p.reads.insertAll (items.taken awaiting bound) ∧ (p.scopes.after items.braceless).Grows q.scopes false

/-- The walk stands between two statements of a block, where `s` is what the block has bound so far. -/
structure Spot.Between (p : Spot) (s : Scopes) (bound : List String) : Prop where
  block : s.AtBlock
  grows : s.Grows p.scopes true
  binds : s.Binds bound
  ready : p.IsReady

/-- The walk passes through a statement. What it declares is bound later. -/
def Statement.Passes (st : Statement) : Prop :=
  ∀ ⦃scope braces⦄ (bound : List String) (s : Scopes) (p : Spot) (rest : List Token), p.Between s bound →
    st.isValid scope = true → st.isRegular braces = true → (st.startsWithBar = true → isOperand p.last = false) →
    (st.endsInBlock = false → Ends rest) →
    ∃ q, walk p (st.tokens ++ rest) = walk q rest ∧ q.reads = p.reads.insertAll (st.taken bound) ∧
      (s.declareAll st.binds).Grows q.scopes st.endsInBlock ∧ (st.endsInBlock = true → q.IsReady)

/-- The walk passes through the statements of a block. What they bind goes with the closing brace. -/
def Statements.Passes (b : Statements) : Prop :=
  ∀ ⦃scope braces⦄ (bound : List String) (s : Scopes) (p : Spot) (rest : List Token), p.Between s bound →
    b.isValid scope = true → b.isRegular braces = true → (b.startsWithBar = true → isOperand p.last = false) →
    Ends rest →
    ∃ q, walk p (b.tokens ++ rest) = walk q rest ∧ q.reads = p.reads.insertAll (b.taken bound) ∧
      (s.inner ≠ [] → q.scopes.leave = s.leave)

lemma ends_nil : Ends [] := ⟨rfl, rfl⟩

lemma ends_punct {c : Char} (h : c ≠ '(') (h' : c ≠ ':') : Ends (.punct c :: rest) := by
  constructor <;> simpa [startsWith, Token.isPunct]

lemma ends_word (name : String) : Ends (word name :: rest) := ⟨rfl, rfl⟩

lemma Operator.ends (op : Operator) : Ends (op.tokens ++ rest) := by
  cases op <;> first | exact ends_word _ | exact ends_punct (by decide) (by decide)

lemma isReady_of_last {t : Token} (h : p.last = some t) (hpoint : t ≠ .punct '.') (hcolon : t ≠ .punct ':') :
    p.IsReady := by
  rw [Spot.IsReady, h]
  exact ⟨fun h => absurd (Option.some.inj h) hpoint, fun h => absurd (Option.some.inj h) hcolon⟩

lemma Spot.Stands.move (h : p.Stands awaiting bound) (hgrows : p.scopes.Grows q.scopes true) (hready : q.IsReady) :
    q.Stands awaiting bound :=
  ⟨h.scopes.grows hgrows, hready⟩

/-- Behind a phrase the names that await are those that no brace in it has taken. -/
lemma Spot.Stands.later (h : p.Stands awaiting bound) (hgrows : (p.scopes.after braceless).Grows q.scopes true)
    (hready : q.IsReady) : q.Stands (remaining braceless awaiting) bound :=
  ⟨h.scopes.after.grows hgrows, hready⟩

lemma Spot.Between.pending {s : Scopes} (h : p.Between s bound) : p.scopes.pending = ∅ :=
  h.grows.pending_eq.trans h.block.pending

lemma Spot.Between.stands {s : Scopes} (h : p.Between s bound) : p.Stands [] bound :=
  ⟨⟨h.grows.nested h.block.nested, h.grows.binds h.binds, fun name => by simp [h.pending]⟩, h.ready⟩

lemma ne_bindingWord_of_isIdentifier {name : String} (h : isIdentifier name = true) : name ∉ bindingWords := by
  intro hmem
  have hkey : isKeyword name = true := by
    simp only [bindingWords, List.mem_cons, List.not_mem_nil, or_false] at hmem
    rcases hmem with rfl | rfl | rfl | rfl | rfl | rfl <;> decide
  simp [isIdentifier, hkey] at h

lemma ne_bindingWord_of_isPlainWord {name : String} (h : isPlainWord name = true) : name ∉ bindingWords := by
  simpa [isPlainWord] using (Bool.and_eq_true_iff.1 h).2

lemma isOperand_of_isIdentifier {name : String} {dollar : Bool} (h : isIdentifier name = true) :
    isOperand (some (.ident name dollar)) = true := by
  have hkey := (Bool.and_eq_true_iff.1 h).2
  simp only [isOperand, hkey, Bool.or_true]

/-- What an expression begins with. -/
lemma Expression.exists_first (e : Expression) :
    ∃ t ts, e.tokens = t :: ts ∧ (e.startsWithBar = false → t ≠ .punct '|') ∧
      (e.startsWithBrace = false → t ≠ .punct '\x7b') := by
  have grow {t : Token} {ts us : List Token} {e : Expression} (h : e.tokens = t :: ts) :
      e.tokens ++ us = t :: (ts ++ us) := by rw [h]; rfl
  match e with
  | .binary left _ _ | .property left _ _ | .method left _ _ _ | .index left _ _ =>
    obtain ⟨t, ts, h, hbar, hbrace⟩ := left.exists_first
    exact ⟨t, _, grow h, hbar, hbrace⟩
  | .call [] _ _ | .call (_ :: _) _ _ | .variable _ _ | .number _ | .truth _ | .text _ | .choice _ _
  | .choiceElse _ _ _ => exact ⟨_, _, rfl, fun _ => nofun, fun _ => nofun⟩
  | .signed .minus _ | .signed .plus _ | .signed .not _ | .embedded _ _ | .parens _ | .array _ | .map _ =>
    exact ⟨_, _, rfl, fun _ => by decide, fun _ => by decide⟩
  | .closure _ _ | .blockClosure _ _ => exact ⟨.punct '|', _, rfl, nofun, fun _ => by decide⟩
  | .block _ => exact ⟨.punct '\x7b', _, rfl, fun _ => by decide, nofun⟩

lemma startsWith_cons {t : Token} {ts : List Token} {c : Char} : startsWith (t :: ts) c = t.isPunct c := rfl

lemma Expression.startsWith_bar {e : Expression} (h : e.startsWithBar = false) :
    startsWith (e.tokens ++ rest) '|' = false := by
  obtain ⟨t, ts, htokens, hbar, -⟩ := e.exists_first
  rw [htokens, List.cons_append, startsWith_cons, Bool.eq_false_iff]
  exact fun hpunct => hbar h (isPunct_eq_true_iff.1 hpunct)

lemma Expression.startsWith_brace {e : Expression} (h : e.startsWithBrace = false) :
    startsWith (e.tokens ++ rest) '\x7b' = false := by
  obtain ⟨t, ts, htokens, -, hbrace⟩ := e.exists_first
  rw [htokens, List.cons_append, startsWith_cons, Bool.eq_false_iff]
  exact fun hpunct => hbrace h (isPunct_eq_true_iff.1 hpunct)

lemma walk_inerts (p : Spot) (cs : List Char) (rest : List Token) (h : ∀ c ∈ cs, c ∉ heeded) :
    walk p (cs.map .punct ++ rest) = walk (p.past (cs.map .punct)) rest := by
  induction cs generalizing p with
  | nil => rfl
  | cons c cs ih =>
    have hc := h c List.mem_cons_self
    exact (walk_inert hc).trans (ih _ fun c hc => h c (List.mem_cons_of_mem _ hc))

lemma closure_empty_grows (s : Scopes) (block : Bool) : s.Grows (s.closure ∅ block) true := by
  cases block with
  | true => exact .refl s true
  | false => exact ⟨[⟨∅, s.depth, true⟩], rfl, by simp⟩

/-- An operator between its operands. Two bars after something that does not look like an operand open a closure
without parameters, which binds nothing. -/
lemma walk_operator (p : Spot) (op : Operator) (rest : List Token)
    (hbar : op = .bar → isOperand p.last = true ∧ startsWith rest '|' = false) :
    ∃ q, walk p (op.tokens ++ rest) = walk q rest ∧ q.reads = p.reads ∧ p.scopes.Grows q.scopes true ∧
      q.IsReady ∧ isOperand q.last = false := by
  by_cases hop : op = .bar ∨ op = .or ∨ op = .range
  · rcases hop with rfl | rfl | rfl
    · exact ⟨_, walk_bar (hbar rfl).1 (hbar rfl).2, rfl, .refl _ _,
        isReady_of_last rfl (by decide) (by decide), rfl⟩
    · refine ⟨_, walk_bars, rfl, ?_, isReady_of_last rfl (by decide) (by decide), rfl⟩
      rw [Spot.scopes_within]
      split
      · exact .refl _ _
      · exact closure_empty_grows _ _
    · exact ⟨_, walk_inerts p ['.', '.'] rest (by simp [heeded]), rfl, .refl _ _,
        ⟨fun _ => rfl, fun h => by cases h⟩, rfl⟩
  · have hsigns : ∀ c ∈ op.signs.toList, c ∉ heeded := by
      cases op <;> simp [Operator.signs, heeded] at hop ⊢
    have hwalk := walk_inerts p op.signs.toList
      ((if op = .within ∨ op = .notWithin then [word "in"] else []) ++ rest) hsigns
    rw [← List.append_assoc] at hwalk
    refine ⟨p.past op.tokens, ?_, by simp, by simpa using Scopes.Grows.refl _ _, ?_, ?_⟩
    · refine hwalk.trans ?_
      rw [Operator.tokens, Spot.past_append]
      split
      · exact walk_keyword (by decide) (by decide)
      · rfl
    · cases op <;> first
        | exact absurd (by decide) hop
        | exact isReady_of_last rfl (by decide) (by decide)
    · cases op <;> first | exact absurd (by decide) hop | rfl

def brackets : List (Char × Char) := [('(', ')'), ('[', ']'), ('\x7b', '\x7d')]

section
variable {c d : Char} {brace : Bool}

lemma opening_of_mem (h : (c, d) ∈ brackets) : c = '(' ∨ c = '[' ∨ c = '\x7b' := by
  simp only [brackets, List.mem_cons, Prod.mk.injEq, List.not_mem_nil, or_false] at h
  exact h.imp And.left (Or.imp And.left And.left)

lemma closing_of_mem (h : (c, d) ∈ brackets) : d = ')' ∨ d = ']' ∨ d = '\x7d' := by
  simp only [brackets, List.mem_cons, Prod.mk.injEq, List.not_mem_nil, or_false] at h
  exact h.imp And.right (Or.imp And.right And.right)

/-- Items between brackets. -/
lemma Items.Passes.bracketed {items : Items} (hitems : items.Passes) (p : Spot) (rest : List Token)
    (hc : (c, d) ∈ brackets) (hbrace : (c == '\x7b') = brace) (hnested : p.scopes.Nested)
    (hscopes : (p.scopes.enter brace).Agrees awaiting bound)
    (hvalid : items.isValid scope = true) (hregular : items.isRegular braces = true) :
    ∃ q, walk p (.punct c :: (items.tokens ++ .punct d :: rest)) = walk q rest ∧ q.last = some (.punct d) ∧
      q.scopes = p.scopes.after (!brace && items.braceless) ∧
      q.reads = p.reads.insertAll (items.taken awaiting bound) := by
  have hopen := opening_of_mem hc
  have hclose := closing_of_mem hc
  obtain ⟨q, hwalk, hreads, hgrows⟩ :=
    hitems awaiting bound ((p.step (.punct c)).within (p.scopes.enter brace)) (.punct d :: rest)
    { valid := hvalid
      regular := hregular
      stands :=
        { scopes := hscopes
          ready := isReady_of_last rfl (by rcases hopen with rfl | rfl | rfl <;> decide)
            (by rcases hopen with rfl | rfl | rfl <;> decide) }
      level := Scopes.endClosures_enter hnested _
      start := by rcases hopen with rfl | rfl | rfl <;> rfl
      ends := ends_punct (by rcases hclose with rfl | rfl | rfl <;> decide)
        (by rcases hclose with rfl | rfl | rfl <;> decide) }
  have hstep : walk p (.punct c :: (items.tokens ++ .punct d :: rest)) =
      walk ((p.step (.punct c)).within (p.scopes.enter brace)) (items.tokens ++ .punct d :: rest) :=
    hbrace ▸ walk_opening hopen
  exact ⟨_, hstep.trans (hwalk.trans (walk_closing hclose)), rfl, hnested.leave hgrows, hreads⟩

end

lemma isReady_key (hready : p.IsReady) (key : Option Key) : (p.past (keyTokens key)).IsReady := by
  cases key with
  | none => exact hready
  | some key => cases key <;> exact ⟨nofun, fun _ => nofun⟩

lemma isOperand_key (hstart : isOperand p.last = false) (key : Option Key) :
    isOperand (p.past (keyTokens key)).last = false := by
  cases key with
  | none => exact hstart
  | some key => cases key <;> rfl

/-- A key is not read. -/
lemma walk_key {key : Option Key} (hkey : key.all Key.isPlain = true) :
    walk p (keyTokens key ++ rest) = walk (p.past (keyTokens key)) rest := by
  match key with
  | none => rfl
  | some (.word name) =>
    exact (walk_skipped (ne_bindingWord_of_isPlainWord hkey) (isRead_key rfl)).trans (walk_inert (by decide))
  | some (.text content) => exact (walk_text p _ content).trans (walk_inert (by decide))

lemma Items.passes_nil : Items.nil.Passes := fun _ _ _ _ p _ _ => ⟨p, rfl, rfl, .refl _ _⟩

/-- What the value of an item needs after its key. -/
lemma Items.Fits.value {items : Items} {e : Expression} {rest' : List Token}
    (h : items.Fits scope braces awaiting bound p rest) (key : Option Key) (hvalid : e.isValid scope = true)
    (hregular : e.isRegular braces = true) (hends : Ends rest') :
    e.Fits scope braces awaiting bound (p.past (keyTokens key)) rest' where
  valid := hvalid
  regular := hregular
  stands := h.stands.move (by rw [Spot.scopes_past]; exact .refl _ _) (isReady_key h.stands.ready key)
  bar _ := isOperand_key h.start key
  ends _ := hends

lemma Items.passes_last (key : Option Key) {e : Expression} (he : e.Passes) : (Items.last key e).Passes := by
  intro scope braces awaiting bound p rest h
  obtain ⟨hkey, hvalid⟩ := Bool.and_eq_true_iff.1 h.valid
  obtain ⟨q, hwalk, hpassed⟩ := he _ _ _ _ (h.value key hvalid h.regular h.ends)
  refine ⟨q, ?_, ?_, ?_⟩
  · rw [Items.tokens, List.append_assoc, walk_key hkey, hwalk]
  · simpa using hpassed.reads
  · simpa using hpassed.grows.weaken (by simp)

lemma Items.passes_cons (key : Option Key) {e : Expression} {items : Items} (he : e.Passes)
    (hitems : items.Passes) : (Items.cons key e items).Passes := by
  intro scope braces awaiting bound p rest h
  obtain ⟨hfirst, hvalid'⟩ := Bool.and_eq_true_iff.1 h.valid
  obtain ⟨hkey, hvalid⟩ := Bool.and_eq_true_iff.1 hfirst
  obtain ⟨hregular, hregular'⟩ := Bool.and_eq_true_iff.1 h.regular
  obtain ⟨q, hwalk, hpassed⟩ := he _ _ _ (.punct ',' :: (items.tokens ++ rest))
    (h.value key hvalid hregular (ends_punct (by decide) (by decide)))
  have hgrows : (p.scopes.after e.braceless).Grows q.scopes false := by
    simpa using hpassed.grows.weaken (by simp)
  -- the comma ends the closures of the first item
  have hcomma : q.scopes.endClosures = p.scopes.after e.braceless :=
    hgrows.endClosures (Scopes.endClosures_after h.level)
  obtain ⟨q', hwalk', hreads', hgrows'⟩ :=
    hitems (remaining e.braceless awaiting) bound ((q.step (.punct ',')).within (p.scopes.after e.braceless)) rest
    { valid := hvalid'
      regular := hregular'
      stands := ⟨h.stands.scopes.after, isReady_of_last rfl (by decide) (by decide)⟩
      level := Scopes.endClosures_after h.level
      start := rfl
      ends := h.ends }
  refine ⟨q', ?_, ?_, ?_⟩
  · rw [Items.tokens, List.append_assoc, walk_key hkey, List.append_assoc, List.cons_append, hwalk, walk_comma,
      hcomma, hwalk']
  · rw [hreads', Items.taken, insertAll_append]
    simpa using congrArg (Names.insertAll · _) hpassed.reads
  · rw [Spot.scopes_within, Scopes.after_after] at hgrows'
    exact hgrows'

/-- An expression between round or square brackets. -/
lemma Expression.Passes.bracketed {e : Expression} {c d : Char} (he : e.Passes) (p : Spot) (rest : List Token)
    (hc : (c, d) ∈ brackets) (hround : (c == '\x7b') = false) (hscopes : p.scopes.Agrees awaiting bound)
    (hvalid : e.isValid scope = true) (hregular : e.isRegular braces = true) :
    ∃ q, walk p (.punct c :: (e.tokens ++ .punct d :: rest)) = walk q rest ∧ q.last = some (.punct d) ∧
      q.scopes = p.scopes.after e.braceless ∧ q.reads = p.reads.insertAll (e.taken awaiting bound) :=
  Items.Passes.bracketed (Items.passes_last none he) p rest hc hround hscopes.nested hscopes.enter_round hvalid hregular

end ReactiveNotebook.Analysis
