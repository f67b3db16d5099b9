import ReactiveNotebook.Proofs.Analysis.Passage

/-!
# The walk through expressions

One lemma for each kind of expression: when the walk passes through its parts, it passes through the expression.
-/
namespace ReactiveNotebook.Analysis

variable {scope awaiting bound names : List String} {braces : Bool} {p q : Spot} {rest : List Token}

namespace Expression

variable {e left right : Expression} {items : Items}

/-- What an operand needs that an expression begins with. -/
lemma Fits.first {rest' : List Token} (h : e.Fits scope braces awaiting bound p rest)
    (hvalid : left.isValid scope = true) (hregular : left.isRegular braces = true)
    (hbar : left.startsWithBar = true → e.startsWithBar = true) (hends : Ends rest') :
    left.Fits scope braces awaiting bound p rest' where
  valid := hvalid
  regular := hregular
  stands := h.stands
  bar hb := h.bar (hbar hb)
  ends _ := hends

/-- An expression that ends in a closing bracket has no closure left open. -/
lemma passed_of_closing {c : Char} (hc : c = ')' ∨ c = ']' ∨ c = '\x7d') (hlast : q.last = some (.punct c))
    (hreads : q.reads = p.reads.insertAll (e.taken awaiting bound))
    (hgrows : (p.scopes.after e.braceless).Grows q.scopes true) : e.Passed awaiting bound p q where
  reads := hreads
  grows := hgrows.weaken fun _ => rfl
  operand _ _ := by rw [hlast]; rcases hc with rfl | rfl | rfl <;> rfl
  point _ := by rw [hlast]; rcases hc with rfl | rfl | rfl <;> decide

/-- The names that a variable adds. -/
lemma taken_variable {name : String} {dollar : Bool}
    (h : (Expression.variable name dollar).Fits scope braces awaiting bound p rest) :
    (if isRead p.scopes p.beforeLast p.last name dollar rest then [name] else []) =
      (Expression.variable name dollar).taken awaiting bound := by
  have hbound : p.scopes.isBound name = bound.contains name := by
    rw [Bool.eq_iff_iff, h.stands.scopes.binds name, List.contains_iff_mem]
  rw [isRead_variable h.stands.ready (h.ends rfl), hbound, Expression.taken]
  cases dollar <;> cases isReserved name <;> cases bound.contains name <;> rfl

lemma passes_variable (name : String) (dollar : Bool) : (Expression.variable name dollar).Passes := by
  intro scope braces awaiting bound p rest h
  obtain ⟨hname, -⟩ := Bool.and_eq_true_iff.1 h.valid
  refine ⟨_, walk_ident p rest (.inr (binder?_eq_none (ne_bindingWord_of_isIdentifier hname))), ?_⟩
  rw [taken_variable h]
  exact
    { reads := rfl
      grows := .refl _ _
      operand := fun _ _ => isOperand_of_isIdentifier hname
      point := fun _ => nofun }

lemma passes_number (point : Bool) : (number point).Passes := by
  intro scope braces awaiting bound p rest h
  cases point with
  | false =>
    exact ⟨_, walk_number p rest,
      { reads := rfl, grows := .refl _ _, operand := fun _ _ => rfl, point := fun _ => nofun }⟩
  | true =>
    exact ⟨_, (walk_number p _).trans (walk_inert (by decide)),
      { reads := rfl, grows := .refl _ _, operand := nofun, point := nofun }⟩

lemma passes_truth (value : Bool) : (truth value).Passes := by
  intro scope braces awaiting bound p rest h
  refine ⟨_, walk_keyword (by cases value <;> decide) (by cases value <;> decide), ?_⟩
  exact { reads := rfl, grows := .refl _ _, operand := fun _ => nofun, point := fun _ => nofun }

lemma passes_text (content : String) : (text content).Passes := fun _ _ _ _ p rest _ =>
  ⟨_, walk_text p rest content,
    { reads := rfl, grows := .refl _ _, operand := fun _ _ => rfl, point := fun _ => nofun }⟩

lemma startsWithBar_of_isTextual (h : e.isTextual = true) : e.startsWithBar = false := by
  cases e <;> first | rfl | cases h

lemma passes_embedded (he : e.Passes) (hright : right.Passes) : (embedded e right).Passes := by
  intro scope braces awaiting bound p rest h
  obtain ⟨hvalids, htextual⟩ := Bool.and_eq_true_iff.1 h.valid
  obtain ⟨hvalid, hvalid'⟩ := Bool.and_eq_true_iff.1 hvalids
  obtain ⟨hregular, hregular'⟩ := Bool.and_eq_true_iff.1 h.regular
  obtain ⟨q, hwalk, hlast, hscopes, hreads⟩ := he.bracketed p (right.tokens ++ rest) (c := '(')
    (d := ')') (by decide) rfl h.stands.scopes hvalid hregular
  have hgrows : (p.scopes.after e.braceless).Grows q.scopes true := hscopes ▸ .refl _ _
  obtain ⟨q', hwalk', hpassed⟩ := hright _ _ q rest
    { valid := hvalid'
      regular := hregular'
      stands := h.stands.later hgrows (isReady_of_last hlast (by decide) (by decide))
      bar := fun hb => absurd hb (by simp [startsWithBar_of_isTextual htextual])
      ends := fun _ => h.ends rfl }
  refine ⟨q', ?_, ?_⟩
  · rw [← hwalk', ← hwalk]
    simp
  · exact
      { reads := by rw [hpassed.reads, hreads, Expression.taken, insertAll_append]
        grows := hgrows.next hpassed.grows
        operand := hpassed.operand
        point := hpassed.point }

lemma passes_signed (sign : Sign) (he : e.Passes) : (signed sign e).Passes := by
  intro scope braces awaiting bound p rest h
  obtain ⟨q, hwalk, hpassed⟩ := he awaiting bound (p.step (.punct sign.char)) rest
    { valid := h.valid
      regular := h.regular
      stands := h.stands.move (.refl _ _)
        (isReady_of_last rfl (by cases sign <;> decide) (by cases sign <;> decide))
      bar := fun _ => by cases sign <;> rfl
      ends := fun _ => h.ends rfl }
  exact ⟨q, (walk_inert (by cases sign <;> decide)).trans hwalk,
    hpassed.reads, hpassed.grows, hpassed.operand, hpassed.point⟩

lemma passes_binary (op : Operator) (hleft : left.Passes) (hright : right.Passes) :
    (binary left op right).Passes := by
  intro scope braces awaiting bound p rest h
  obtain ⟨hvalids, hvalid'⟩ := Bool.and_eq_true_iff.1 h.valid
  obtain ⟨hvalid, hopen⟩ := Bool.and_eq_true_iff.1 hvalids
  obtain ⟨hregulars, hbar⟩ := Bool.and_eq_true_iff.1 h.regular
  obtain ⟨hregular, hregular'⟩ := Bool.and_eq_true_iff.1 hregulars
  obtain ⟨q, hwalk, hpassed⟩ := hleft _ _ p (op.tokens ++ (right.tokens ++ rest))
    (h.first hvalid hregular id op.ends)
  obtain ⟨r, hwalk', hreads, hgrows', hready, hoperand⟩ := walk_operator q op (right.tokens ++ rest)
    (fun hop => by
      simp only [hop, bne_self_eq_false, Bool.false_or, Bool.and_eq_true, Bool.not_eq_true'] at hbar
      exact ⟨hpassed.operand hbar.1.1 hbar.1.2, startsWith_bar hbar.2⟩)
  have hgrows : (p.scopes.after left.braceless).Grows r.scopes true :=
    (hopen ▸ hpassed.grows : (p.scopes.after left.braceless).Grows q.scopes true).trans hgrows'
  obtain ⟨r', hwalk'', hpassed'⟩ := hright _ _ r rest
    { valid := hvalid'
      regular := hregular'
      stands := h.stands.later hgrows hready
      bar := fun _ => hoperand
      ends := fun _ => h.ends rfl }
  refine ⟨r', ?_, ?_⟩
  · rw [← hwalk'', ← hwalk', ← hwalk]
    simp
  · exact
      { reads := by rw [hpassed'.reads, hreads, hpassed.reads, Expression.taken, insertAll_append]
        grows := hgrows.next hpassed'.grows
        operand := hpassed'.operand
        point := hpassed'.point }

lemma passes_parens (he : e.Passes) : (parens e).Passes := by
  intro scope braces awaiting bound p rest h
  obtain ⟨q, hwalk, hlast, hscopes, hreads⟩ := he.bracketed p rest (c := '(') (d := ')')
    (by decide) rfl h.stands.scopes h.valid h.regular
  refine ⟨q, ?_, passed_of_closing (.inl rfl) hlast hreads (hscopes ▸ .refl _ _)⟩
  rw [← hwalk]
  simp

lemma passes_array (hitems : items.Passes) : (array items).Passes := by
  intro scope braces awaiting bound p rest h
  obtain ⟨q, hwalk, hlast, hscopes, hreads⟩ := hitems.bracketed p rest (c := '[') (d := ']') (by decide) rfl
    h.stands.scopes.nested h.stands.scopes.enter_round (Bool.and_eq_true_iff.1 h.valid).1 h.regular
  refine ⟨q, ?_, passed_of_closing (.inr (.inl rfl)) hlast hreads (hscopes ▸ .refl _ _)⟩
  rw [← hwalk]
  simp

lemma passes_map (hitems : items.Passes) : (map items).Passes := by
  intro scope braces awaiting bound p rest h
  obtain ⟨q, hwalk, hlast, hscopes, hreads⟩ := hitems.bracketed (p.step (.punct '#')) rest (c := '\x7b')
    (d := '\x7d') (by decide) rfl h.stands.scopes.nested h.stands.scopes.enter_brace
    (Bool.and_eq_true_iff.1 h.valid).1 h.regular
  refine ⟨q, ?_, passed_of_closing (.inr (.inr rfl)) hlast hreads (hscopes ▸ .refl _ _)⟩
  rw [← hwalk, ← walk_inert (by decide)]
  simp

/-- The modules in front of a function are not read. -/
lemma walk_path {path : List String} (hpath : path.all isPlainWord = true) :
    walk p (pathTokens path ++ rest) = walk (p.past (pathTokens path)) rest := by
  induction path generalizing p with
  | nil => rfl
  | cons name path ih =>
    obtain ⟨hname, hpath⟩ := Bool.and_eq_true_iff.1 hpath
    refine (walk_skipped (ne_bindingWord_of_isPlainWord hname) (isRead_key rfl)).trans ?_
    exact ((walk_inert (by decide)).trans ((walk_inert (by decide)).trans (ih hpath)))

/-- The name of a function with its arguments. -/
lemma walk_arguments (p : Spot) (rest : List Token) {name : String} (hname : isPlainWord name = true)
    (hitems : items.Passes) (hscopes : p.scopes.Agrees awaiting bound) (hvalid : items.isValid scope = true)
    (hregular : items.isRegular braces = true) :
    ∃ q, walk p (word name :: .punct '(' :: (items.tokens ++ .punct ')' :: rest)) = walk q rest ∧
      q.last = some (.punct ')') ∧ q.scopes = p.scopes.after items.braceless ∧
      q.reads = p.reads.insertAll (items.taken awaiting bound) := by
  obtain ⟨q, hwalk, hq⟩ := hitems.bracketed (p.step (word name)) rest (c := '(') (d := ')') (by decide) rfl
    hscopes.nested hscopes.enter_round hvalid hregular
  exact ⟨q, (walk_skipped (ne_bindingWord_of_isPlainWord hname) (isRead_call rfl)).trans hwalk, hq⟩

lemma passes_call (path : List String) (function : String) (hitems : items.Passes) :
    (call path function items).Passes := by
  intro scope braces awaiting bound p rest h
  obtain ⟨hvalids, -⟩ := Bool.and_eq_true_iff.1 h.valid
  obtain ⟨hnames, hvalid⟩ := Bool.and_eq_true_iff.1 hvalids
  obtain ⟨hpath, hfunction⟩ := Bool.and_eq_true_iff.1 hnames
  obtain ⟨q, hwalk, hlast, hscopes, hreads⟩ := walk_arguments (p.past (pathTokens path)) rest hfunction
    hitems (by simpa using h.stands.scopes) hvalid h.regular
  refine ⟨q, ?_, passed_of_closing (.inl rfl) hlast (by simpa using hreads)
    (by simpa [hscopes] using Scopes.Grows.refl _ _)⟩
  rw [← hwalk, ← walk_path hpath]
  simp

/-- The point in front of a property. -/
lemma walk_point (safe : Bool) : walk p (pointTokens safe ++ rest) = walk (p.past (pointTokens safe)) rest := by
  cases safe with
  | false => exact walk_inert (by decide)
  | true => exact (walk_inert (by decide)).trans (walk_inert (by decide))

/-- A name after a point is a property, unless another point precedes. -/
lemma isRead_past_point {safe : Bool} {name : String} (hlast : p.last ≠ some (.punct '.')) :
    isRead (p.past (pointTokens safe)).scopes (p.past (pointTokens safe)).beforeLast
      (p.past (pointTokens safe)).last name false rest = false := by
  cases safe with
  | false => exact isRead_property rfl hlast
  | true => exact isRead_property rfl nofun

lemma pointTokens_ends (safe : Bool) : Ends (pointTokens safe ++ rest) := by
  cases safe <;> exact ends_punct (by decide) (by decide)

lemma passes_property (safe : Bool) (name : String) (he : e.Passes) : (property e safe name).Passes := by
  intro scope braces awaiting bound p rest h
  obtain ⟨hvalids, hname⟩ := Bool.and_eq_true_iff.1 h.valid
  obtain ⟨hvalid, hopen⟩ := Bool.and_eq_true_iff.1 hvalids
  obtain ⟨hregular, hpoint⟩ := Bool.and_eq_true_iff.1 h.regular
  obtain ⟨q, hwalk, hpassed⟩ := he _ _ p (pointTokens safe ++ (word name :: rest))
    (h.first hvalid hregular id (pointTokens_ends safe))
  have hgrows : (p.scopes.after e.braceless).Grows q.scopes true := hopen ▸ hpassed.grows
  have hlast := hpassed.point (by simpa using hpoint)
  refine ⟨(q.past (pointTokens safe)).step (word name), ?_, ?_⟩
  · rw [← walk_skipped (ne_bindingWord_of_isIdentifier hname) (isRead_past_point hlast), ← walk_point, ← hwalk]
    simp
  · exact
      { reads := by simpa using hpassed.reads
        grows := by simpa [isOpen] using hgrows
        operand := fun _ _ => isOperand_of_isIdentifier hname
        point := fun _ => nofun }

lemma passes_method (safe : Bool) (name : String) (he : e.Passes) (hitems : items.Passes) :
    (method e safe name items).Passes := by
  intro scope braces awaiting bound p rest h
  obtain ⟨hvalids, -⟩ := Bool.and_eq_true_iff.1 h.valid
  obtain ⟨hobject, hvalid'⟩ := Bool.and_eq_true_iff.1 hvalids
  obtain ⟨hobject, hname⟩ := Bool.and_eq_true_iff.1 hobject
  obtain ⟨hvalid, hopen⟩ := Bool.and_eq_true_iff.1 hobject
  obtain ⟨hregular, hregular'⟩ := Bool.and_eq_true_iff.1 h.regular
  obtain ⟨q, hwalk, hpassed⟩ := he _ _ p
    (pointTokens safe ++ (word name :: .punct '(' :: (items.tokens ++ .punct ')' :: rest)))
    (h.first hvalid hregular id (pointTokens_ends safe))
  have hgrows : (p.scopes.after e.braceless).Grows q.scopes true := hopen ▸ hpassed.grows
  obtain ⟨r, hwalk', hlast, hscopes, hreads⟩ := walk_arguments (q.past (pointTokens safe)) rest hname
    hitems (by simpa using h.stands.scopes.after.grows hgrows) hvalid' hregular'
  have hgrows' : (q.scopes.after items.braceless).Grows r.scopes true := by simpa [hscopes] using .refl _ _
  refine ⟨r, ?_, passed_of_closing (.inl rfl) hlast ?_ (hgrows.next hgrows')⟩
  · rw [← hwalk', ← walk_point, ← hwalk]
    simp
  · rw [hreads, Expression.taken, insertAll_append, Spot.reads_past, hpassed.reads]

lemma passes_index (safe : Bool) (he : e.Passes) (hright : right.Passes) : (index e safe right).Passes := by
  intro scope braces awaiting bound p rest h
  obtain ⟨hvalids, hvalid'⟩ := Bool.and_eq_true_iff.1 h.valid
  obtain ⟨hvalid, hopen⟩ := Bool.and_eq_true_iff.1 hvalids
  obtain ⟨hregular, hregular'⟩ := Bool.and_eq_true_iff.1 h.regular
  obtain ⟨q, hwalk, hpassed⟩ := he _ _ p
    ((if safe then [.punct '?'] else []) ++ .punct '[' :: (right.tokens ++ .punct ']' :: rest))
    (h.first hvalid hregular id (by cases safe <;> exact ends_punct (by decide) (by decide)))
  have hgrows : (p.scopes.after e.braceless).Grows q.scopes true := hopen ▸ hpassed.grows
  obtain ⟨r, hwalk', hlast, hscopes, hreads⟩ := hright.bracketed
    (q.past (if safe then [.punct '?'] else [])) rest (c := '[') (d := ']') (by decide) rfl
    (by simpa using h.stands.scopes.after.grows hgrows) hvalid' hregular'
  have hgrows' : (q.scopes.after right.braceless).Grows r.scopes true := by simpa [hscopes] using .refl _ _
  have hmark {ts : List Token} : walk q ((if safe then [.punct '?'] else []) ++ ts) =
      walk (q.past (if safe then [.punct '?'] else [])) ts := by
    cases safe with
    | false => rfl
    | true => exact walk_inert (by decide)
  refine ⟨r, ?_, passed_of_closing (.inr (.inl rfl)) hlast ?_ (hgrows.next hgrows')⟩
  · rw [← hwalk', ← hmark, ← hwalk]
    simp
  · rw [hreads, Expression.taken, insertAll_append, Spot.reads_past, hpassed.reads]

lemma passes_closure (params : List String) (he : e.Passes) : (closure params e).Passes := by
  intro scope braces awaiting bound p rest h
  obtain ⟨hvalids, hbrace⟩ := Bool.and_eq_true_iff.1 h.valid
  obtain ⟨-, hvalid⟩ := Bool.and_eq_true_iff.1 hvalids
  have hbody : startsWith (e.tokens ++ rest) '\x7b' = false := startsWith_brace (by simpa using hbrace)
  have hwalk := walk_params p (e.tokens ++ rest) (h.bar rfl) params
  rw [hbody] at hwalk
  obtain ⟨q, hwalk', hpassed⟩ := he awaiting (params ++ bound)
    ((p.past (paramTokens params)).within (p.scopes.closure (Names.ofList params) false)) rest
    { valid := hvalid
      regular := h.regular
      stands :=
        { scopes := h.stands.scopes.closure params
          ready := isReady_of_last (last_params p params) (by decide) (by decide) }
      bar := fun _ => by rw [Spot.last_within, last_params]; rfl
      ends := fun _ => h.ends rfl }
  have hgrows := (Scopes.grows_closure p.scopes (Names.ofList params)).after e.braceless
  refine ⟨q, ?_, ?_⟩
  · rw [Expression.tokens, List.append_assoc, hwalk, hwalk']
  · exact
      { reads := by rw [hpassed.reads, Spot.reads_within, Spot.reads_past]; rfl
        grows := (hgrows.trans hpassed.grows).weaken nofun
        operand := hpassed.operand
        point := hpassed.point }

end Expression

/-- Statements between braces. They bind the names that await their body. -/
lemma Statements.Passes.braced {b : Statements} (hb : b.Passes) (p : Spot) (rest : List Token)
    (hscopes : p.scopes.Agrees awaiting bound) (hvalid : b.isValid scope = true)
    (hregular : b.isRegular braces = true) :
    ∃ q, walk p (.punct '\x7b' :: (b.tokens ++ .punct '\x7d' :: rest)) = walk q rest ∧
      q.last = some (.punct '\x7d') ∧ q.scopes = p.scopes.after false ∧
      q.reads = p.reads.insertAll (b.taken (awaiting ++ bound)) := by
  have hready : ((p.step (.punct '\x7b')).within (p.scopes.enter true)).IsReady :=
    isReady_of_last rfl (by decide) (by decide)
  obtain ⟨q, hwalk, hreads, hleave⟩ := hb _ _ _ (.punct '\x7d' :: rest)
    ⟨hscopes.nested.atBlock, .refl _ _, hscopes.enter_brace.binds, hready⟩ hvalid hregular (fun _ => rfl)
    (ends_punct (by decide) (by decide))
  have hclosed : q.scopes.leave = p.scopes.after false :=
    (hleave nofun).trans (hscopes.nested.leave_enter (.refl _ true))
  refine ⟨(q.step (.punct '\x7d')).within q.scopes.leave, ?_, rfl, hclosed, hreads⟩
  exact (walk_opening (.inr (.inr rfl))).trans (hwalk.trans (walk_closing (.inr (.inr rfl))))

namespace Expression

variable {e no : Expression} {b : Statements}

lemma passes_block (hb : b.Passes) : (block b).Passes := by
  intro scope braces awaiting bound p rest h
  obtain ⟨q, hwalk, hlast, hscopes, hreads⟩ := hb.braced p rest h.stands.scopes h.valid h.regular
  refine ⟨q, ?_, passed_of_closing (.inr (.inr rfl)) hlast hreads (hscopes ▸ .refl _ _)⟩
  rw [← hwalk]
  simp

lemma passes_blockClosure (params : List String) (hb : b.Passes) : (blockClosure params b).Passes := by
  intro scope braces awaiting bound p rest h
  obtain ⟨-, hvalid⟩ := Bool.and_eq_true_iff.1 h.valid
  have hwalk := walk_params p (.punct '\x7b' :: (b.tokens ++ .punct '\x7d' :: rest)) (h.bar rfl) params
  obtain ⟨q, hwalk', hlast, hscopes, hreads⟩ := hb.braced
    ((p.past (paramTokens params)).within (p.scopes.await (Names.ofList params))) rest
    (h.stands.scopes.await params) hvalid h.regular
  rw [List.append_assoc] at hreads
  refine ⟨q, ?_, passed_of_closing (.inr (.inr rfl)) hlast (by simpa using hreads) (hscopes ▸ .refl _ _)⟩
  rw [← hwalk']
  refine Eq.trans ?_ hwalk
  simp

/-- A condition with the block that follows it. -/
lemma Passes.conditional {w : String} (he : e.Passes) (p : Spot) (rest : List Token) (hw : w = "if" ∨ w = "while")
    (hb : b.Passes) (hscopes : p.scopes.Agrees awaiting bound) (hvalid : e.isValid scope = true)
    (hregular : e.isRegular braces = true) (hopen : (!e.isOpen) = true) (hvalid' : b.isValid scope = true)
    (hregular' : b.isRegular braces = true) :
    ∃ q, walk p (word w :: (e.tokens ++ .punct '\x7b' :: (b.tokens ++ .punct '\x7d' :: rest))) = walk q rest ∧
      q.last = some (.punct '\x7d') ∧ (p.scopes.after false).Grows q.scopes true ∧
      q.reads = p.reads.insertAll
        (e.taken awaiting bound ++ b.taken (remaining e.braceless awaiting ++ bound)) := by
  obtain ⟨q, hwalk, hpassed⟩ := he _ _ (p.step (word w))
    (.punct '\x7b' :: (b.tokens ++ .punct '\x7d' :: rest))
    { valid := hvalid
      regular := hregular
      stands := ⟨hscopes, isReady_of_last rfl nofun nofun⟩
      bar := fun _ => by rcases hw with rfl | rfl <;> rfl
      ends := fun _ => ends_punct (by decide) (by decide) }
  have hgrows : (p.scopes.after e.braceless).Grows q.scopes true := hopen ▸ hpassed.grows
  obtain ⟨r, hwalk', hlast, hscopes', hreads⟩ := hb.braced q rest (hscopes.after.grows hgrows) hvalid' hregular'
  refine ⟨r, ?_, hlast, ?_, ?_⟩
  · rw [← hwalk', ← hwalk]
    exact walk_keyword (by rcases hw with rfl | rfl <;> decide) (by rcases hw with rfl | rfl <;> decide)
  · simpa [hscopes'] using hgrows.next (.refl (q.scopes.after false) true)
  · rw [hreads, hpassed.reads, insertAll_append]
    rfl

lemma passes_choice (he : e.Passes) (hb : b.Passes) : (choice e b).Passes := by
  intro scope braces awaiting bound p rest h
  obtain ⟨hvalid, hvalid'⟩ := Bool.and_eq_true_iff.1 h.valid
  obtain ⟨hcondition, hregular'⟩ := Bool.and_eq_true_iff.1 h.regular
  obtain ⟨hregular, hopen⟩ := Bool.and_eq_true_iff.1 hcondition
  obtain ⟨q, hwalk, hlast, hgrows, hreads⟩ := he.conditional p rest (.inl rfl) hb h.stands.scopes hvalid hregular
    hopen hvalid' hregular'
  refine ⟨q, ?_, passed_of_closing (.inr (.inr rfl)) hlast hreads hgrows⟩
  rw [← hwalk]
  simp

lemma isBlock_shape (h : e.isBlock = true) :
    e.startsWithBar = false ∧ e.isOpen = false ∧ e.endsInPoint = false ∧ e.endsInTruth = false := by
  cases e <;> first | exact ⟨rfl, rfl, rfl, rfl⟩ | cases h

lemma passes_choiceElse (he : e.Passes) (hb : b.Passes) (hno : no.Passes) : (choiceElse e b no).Passes := by
  intro scope braces awaiting bound p rest h
  obtain ⟨hvalids, hblock⟩ := Bool.and_eq_true_iff.1 h.valid
  obtain ⟨hvalids, hvalidNo⟩ := Bool.and_eq_true_iff.1 hvalids
  obtain ⟨hvalid, hvalid'⟩ := Bool.and_eq_true_iff.1 hvalids
  obtain ⟨hregulars, hregularNo⟩ := Bool.and_eq_true_iff.1 h.regular
  obtain ⟨hcondition, hregular'⟩ := Bool.and_eq_true_iff.1 hregulars
  obtain ⟨hregular, hopen⟩ := Bool.and_eq_true_iff.1 hcondition
  obtain ⟨hbar, hclosed, hpoint, htruth⟩ := isBlock_shape hblock
  obtain ⟨q, hwalk, -, hgrows, hreads⟩ := he.conditional p (word "else" :: (no.tokens ++ rest)) (.inl rfl) hb
    h.stands.scopes hvalid hregular hopen hvalid' hregular'
  -- the first block has taken the names that awaited
  have hscopes : q.scopes.Agrees (remaining false awaiting) bound := h.stands.scopes.after.grows hgrows
  obtain ⟨r, hwalk', hpassed⟩ := hno [] bound (q.step (word "else")) rest
    { valid := hvalidNo
      regular := hregularNo
      stands := ⟨hscopes, isReady_of_last rfl nofun nofun⟩
      bar := fun hb => absurd hb (by simp [hbar])
      ends := fun hb => absurd hb (by simp [hblock]) }
  refine ⟨r, ?_, ?_⟩
  · rw [← hwalk', ← walk_keyword (by decide) (by decide), ← hwalk]
    simp
  · have hgrows' : (q.scopes.after no.braceless).Grows r.scopes true := by simpa [hclosed] using hpassed.grows
    exact
      { reads := by
          rw [hpassed.reads, Spot.reads_step, hreads, Expression.taken, insertAll_append, insertAll_append,
            insertAll_append]
        grows := hgrows.next hgrows'
        operand := fun _ _ => hpassed.operand hpoint htruth
        point := fun _ => hpassed.point hpoint }

end Expression

end ReactiveNotebook.Analysis
