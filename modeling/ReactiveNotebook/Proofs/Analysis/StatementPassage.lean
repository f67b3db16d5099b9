import ReactiveNotebook.Proofs.Analysis.ExpressionPassage

/-!
# The walk through statements

One lemma for each kind of statement, and the induction over all phrases. In the end, the free names of the tokens of
a regular phrase are the names that the walk reads of its tree.
-/
namespace ReactiveNotebook.Analysis

variable {scope bound : List String} {braces : Bool} {p q : Spot} {rest : List Token}

/-- What an expression needs at the beginning of a statement. -/
lemma Spot.Between.fits {s : Scopes} {e : Expression} (h : p.Between s bound) (hvalid : e.isValid scope = true)
    (hregular : e.isRegular braces = true) (hbar : e.startsWithBar = true → isOperand p.last = false)
    (hends : e.isBlock = false → Ends rest) : e.Fits scope braces [] bound p rest :=
  ⟨hvalid, hregular, h.stands, hbar, hends⟩

/-- Between statements no name awaits that a brace could take. -/
lemma Spot.Between.growsAfter {s t : Scopes} {braceless idle : Bool} (h : p.Between s bound)
    (hgrows : (p.scopes.after braceless).Grows t idle) : s.Grows t idle := by
  rw [Scopes.after_of_pending h.pending] at hgrows
  exact h.grows.trans hgrows

/-- A variable is read after an operand, as far as the tokens tell. -/
lemma isReady_of_isOperand (h : isOperand p.last = true) : p.IsReady := by
  refine ⟨fun hlast => ?_, fun hlast => ?_⟩ <;> rw [hlast] at h <;> cases h

lemma Statement.grows_declareAll {st : Statement} {s t : Scopes} {idle : Bool} (hst : st.binds = [])
    (h : s.Grows t idle) : (s.declareAll st.binds).Grows t idle := by
  rw [hst, Scopes.declareAll_nil]
  exact h

namespace Statement

variable {e target : Expression} {b handler : Statements}

lemma passes_expression (he : e.Passes) : (expression e).Passes := by
  intro scope braces bound s p rest h hvalid hregular hbar hends
  obtain ⟨q, hwalk, hpassed⟩ := he _ _ _ _ (h.fits hvalid hregular hbar hends)
  refine ⟨q, hwalk, hpassed.reads, ?_, fun hblock => ?_⟩
  · refine grows_declareAll rfl ((h.growsAfter hpassed.grows).weaken fun hblock => ?_)
    simp [(Expression.isBlock_shape hblock).2.1]
  · obtain ⟨-, -, hpoint, htruth⟩ := Expression.isBlock_shape hblock
    exact isReady_of_isOperand (hpassed.operand hpoint htruth)

lemma passes_declare (constant : Bool) (name : String) : (declare constant name).Passes := by
  intro scope braces bound s p rest h _ _ _ _
  exact ⟨_, walk_declarer p rest constant name, rfl, (h.grows.declare name).weaken nofun, nofun⟩

lemma passes_define (constant : Bool) (name : String) (he : e.Passes) : (define constant name e).Passes := by
  intro scope braces bound s p rest h hvalid hregular _ hends
  obtain ⟨-, hvalid⟩ := Bool.and_eq_true_iff.1 hvalid
  have hlet := walk_declarer p (.punct '=' :: (e.tokens ++ rest)) constant name
  obtain ⟨q, hwalk, hpassed⟩ := he [] bound
    ((((p.step (word (declarer constant))).step (word name)).within
      (p.scopes.declare name)).step (.punct '=')) rest
    { valid := hvalid
      regular := hregular
      stands := ⟨h.stands.scopes.declare name, isReady_of_last rfl (by decide) (by decide)⟩
      bar := fun _ => rfl
      ends := fun _ => hends rfl }
  have hgrows : (p.scopes.declare name).Grows q.scopes (!e.isOpen) := by
    rw [← Scopes.after_of_pending (s := p.scopes.declare name) h.pending]
    exact hpassed.grows
  exact ⟨q, hlet.trans ((walk_inert (by decide)).trans hwalk), hpassed.reads,
    ((h.grows.declare name).trans hgrows).weaken nofun, nofun⟩

lemma isPlace_shape (h : target.isPlace = true) :
    target.isOpen = false ∧ target.endsInPoint = false ∧ target.endsInTruth = false := by
  cases target <;> first | exact ⟨rfl, rfl, rfl⟩ | cases h

/-- The sign of an assignment, with the operator it is combined with. -/
lemma walk_assignment (p : Spot) (op : Option Operator) (rest : List Token) (hlast : isOperand p.last = true) :
    ∃ q, walk p (op.elim [] Operator.tokens ++ .punct '=' :: rest) = walk q rest ∧ q.reads = p.reads ∧
      p.scopes.Grows q.scopes true ∧ q.last = some (.punct '=') := by
  cases op with
  | none => exact ⟨_, walk_inert (by decide), rfl, .refl _ _, rfl⟩
  | some op =>
    obtain ⟨q, hwalk, hreads, hgrows, -⟩ := walk_operator p op (.punct '=' :: rest)
      fun _ => ⟨hlast, rfl⟩
    exact ⟨_, hwalk.trans (walk_inert (by decide)), hreads, hgrows, rfl⟩

lemma passes_assign (op : Option Operator) (htarget : target.Passes) (he : e.Passes) :
    (assign target op e).Passes := by
  intro scope braces bound s p rest h hvalid hregular hbar hends
  obtain ⟨hvalids, hvalid'⟩ := Bool.and_eq_true_iff.1 hvalid
  obtain ⟨hvalids, -⟩ := Bool.and_eq_true_iff.1 hvalids
  obtain ⟨hvalid, hplace⟩ := Bool.and_eq_true_iff.1 hvalids
  obtain ⟨hregular, hregular'⟩ := Bool.and_eq_true_iff.1 hregular
  obtain ⟨hopen, hpoint, htruth⟩ := isPlace_shape hplace
  have hstart : Ends (op.elim [] Operator.tokens ++ .punct '=' :: (e.tokens ++ rest)) := by
    cases op with
    | none => exact ends_punct (by decide) (by decide)
    | some op => exact op.ends
  obtain ⟨q, hwalk, hpassed⟩ := htarget _ _ _ _ (h.fits hvalid hregular hbar fun _ => hstart)
  have hgrows : (p.scopes.after target.braceless).Grows q.scopes true := by simpa [hopen] using hpassed.grows
  obtain ⟨r, hwalk', hreads, hgrows', hlast⟩ := walk_assignment q op (e.tokens ++ rest)
    (hpassed.operand hpoint htruth)
  have hgrows'' := hgrows.trans hgrows'
  obtain ⟨r', hwalk'', hpassed'⟩ := he (remaining target.braceless []) bound r rest
    { valid := hvalid'
      regular := hregular'
      stands := h.stands.later hgrows'' (isReady_of_last hlast (by decide) (by decide))
      bar := fun _ => hlast ▸ rfl
      ends := fun _ => hends rfl }
  refine ⟨r', ?_, ?_, ?_, nofun⟩
  · rw [← hwalk'', ← hwalk', ← hwalk]
    simp
  · rw [hpassed'.reads, hreads, hpassed.reads, Statement.taken, insertAll_append, remaining_nil]
  · exact grows_declareAll rfl ((h.growsAfter (hgrows''.next hpassed'.grows)).weaken nofun)

lemma passes_whileLoop (he : e.Passes) (hb : b.Passes) : (whileLoop e b).Passes := by
  intro scope braces bound s p rest h hvalid hregular _ _
  obtain ⟨hvalid, hvalid'⟩ := Bool.and_eq_true_iff.1 hvalid
  obtain ⟨hcondition, hregular'⟩ := Bool.and_eq_true_iff.1 hregular
  obtain ⟨hregular, hopen⟩ := Bool.and_eq_true_iff.1 hcondition
  obtain ⟨q, hwalk, hlast, hgrows, hreads⟩ := he.conditional p rest (.inr rfl) hb h.stands.scopes hvalid hregular
    hopen hvalid' hregular'
  rw [remaining_nil] at hreads
  refine ⟨q, ?_, hreads, ?_, fun _ => isReady_of_last hlast (by decide) (by decide)⟩
  · rw [← hwalk]
    simp
  · exact grows_declareAll rfl (h.growsAfter hgrows)

lemma passes_loop (hb : b.Passes) : (loop b).Passes := by
  intro scope braces bound s p rest h hvalid hregular _ _
  obtain ⟨q, hwalk, hlast, hscopes, hreads⟩ := hb.braced (p.step (word "loop")) rest h.stands.scopes hvalid hregular
  have hgrows : (p.scopes.after false).Grows q.scopes true := by
    rw [hscopes]
    exact .refl _ true
  refine ⟨q, ?_, hreads, ?_, fun _ => isReady_of_last hlast (by decide) (by decide)⟩
  · rw [← hwalk, ← walk_keyword (by decide) (by decide)]
    simp
  · exact grows_declareAll rfl (h.growsAfter hgrows)

lemma passes_forLoop (name : String) (counter : Option String) (he : e.Passes) (hb : b.Passes) :
    (forLoop name counter e b).Passes := by
  intro scope braces bound s p rest h hvalid hregular _ _
  obtain ⟨hvalids, hvalid'⟩ := Bool.and_eq_true_iff.1 hvalid
  obtain ⟨-, hvalid⟩ := Bool.and_eq_true_iff.1 hvalids
  obtain ⟨hitems, hregular'⟩ := Bool.and_eq_true_iff.1 hregular
  obtain ⟨hitems, -⟩ := Bool.and_eq_true_iff.1 hitems
  obtain ⟨hregular, hopen⟩ := Bool.and_eq_true_iff.1 hitems
  obtain ⟨q, hwalk, hscopes, hreads⟩ := walk_loop p
    (word "in" :: (e.tokens ++ .punct '\x7b' :: (b.tokens ++ .punct '\x7d' :: rest))) name counter
  have hawait : q.scopes.Agrees (loopNames name counter) bound := by
    simpa [hscopes] using h.stands.scopes.await (loopNames name counter)
  obtain ⟨r, hwalk', hpassed⟩ := he _ _ (q.step (word "in"))
    (.punct '\x7b' :: (b.tokens ++ .punct '\x7d' :: rest))
    { valid := hvalid
      regular := hregular
      stands := ⟨hawait, isReady_of_last rfl nofun nofun⟩
      bar := fun _ => rfl
      ends := fun _ => ends_punct (by decide) (by decide) }
  have hgrows : (q.scopes.after e.braceless).Grows r.scopes true := hopen ▸ hpassed.grows
  obtain ⟨r', hwalk'', hlast, hscopes', hreads'⟩ := hb.braced r rest (hawait.after.grows hgrows) hvalid' hregular'
  have hgrows' : (p.scopes.after false).Grows r'.scopes true := by
    simpa [hscopes, hscopes', Scopes.after_await] using hgrows.next (.refl (r.scopes.after false) true)
  refine ⟨r', ?_, ?_, ?_, fun _ => isReady_of_last hlast (by decide) (by decide)⟩
  · rw [← hwalk'', ← hwalk', ← walk_keyword (by decide) (by decide), ← hwalk]
    simp
  · rw [hreads', hpassed.reads, Spot.reads_step, hreads, Statement.taken, insertAll_append]
  · exact grows_declareAll rfl (h.growsAfter hgrows')

lemma passes_tryCatch (name : Option String) (hb : b.Passes) (hhandler : handler.Passes) :
    (tryCatch b name handler).Passes := by
  intro scope braces bound s p rest h hvalid hregular _ _
  obtain ⟨hvalids, hvalid'⟩ := Bool.and_eq_true_iff.1 hvalid
  obtain ⟨hbody, -⟩ := Bool.and_eq_true_iff.1 hvalids
  obtain ⟨hregulars, hregular'⟩ := Bool.and_eq_true_iff.1 hregular
  obtain ⟨hbody', hname⟩ := Bool.and_eq_true_iff.1 hregulars
  obtain ⟨name, rfl⟩ := Option.isSome_iff_exists.1 hname
  obtain ⟨q, hwalk, hlast, hscopes, hreads⟩ := hb.braced (p.step (word "try"))
    (word "catch" :: .punct '(' :: word name :: .punct ')' :: .punct '\x7b' ::
      (handler.tokens ++ .punct '\x7d' :: rest)) h.stands.scopes hbody hbody'
  have hcatch := walk_catch q (.punct '\x7b' :: (handler.tokens ++ .punct '\x7d' :: rest)) name
  have hawait : (q.scopes.await (Names.ofList [name])).Agrees [name] bound := by
    rw [hscopes]
    exact h.stands.scopes.after.await [name]
  obtain ⟨r, hwalk', hlast', hscopes', hreads'⟩ := hhandler.braced
    (((q.past [word "catch", .punct '(', word name]).step (.punct ')')).within
      (q.scopes.await (Names.ofList [name]))) rest hawait hvalid' hregular'
  have hgrows : (p.scopes.after false).Grows r.scopes true := by
    rw [hscopes', Spot.scopes_within, hscopes]
    exact .refl _ true
  refine ⟨r, ?_, ?_, ?_, fun _ => isReady_of_last hlast' (by decide) (by decide)⟩
  · rw [← hwalk', ← hcatch, ← hwalk, ← walk_keyword (by decide) (by decide)]
    simp [catchTokens]
  · rw [hreads', Spot.reads_within, Spot.reads_step, Spot.reads_past, hreads, Statement.taken, insertAll_append]
    rfl
  · exact grows_declareAll rfl (h.growsAfter hgrows)

lemma passes_function (name : String) (params : List String) (hb : b.Passes) : (function name params b).Passes := by
  intro scope braces bound s p rest h hvalid hregular _ _
  obtain ⟨-, hvalid⟩ := Bool.and_eq_true_iff.1 hvalid
  have hhead := walk_function p (.punct '\x7b' :: (b.tokens ++ .punct '\x7d' :: rest)) name params
  have hawait : (p.scopes.await (Names.ofList params)).Agrees params bound := by
    simpa using h.stands.scopes.await params
  obtain ⟨q, hwalk, hlast, hscopes, hreads⟩ := hb.braced
    (((p.past (word "fn" :: word name :: .punct '(' :: nameList params)).step (.punct ')')).within
      (p.scopes.await (Names.ofList params))) rest hawait hvalid hregular
  have hgrows : (p.scopes.after false).Grows q.scopes true := by
    rw [hscopes]
    exact .refl _ true
  refine ⟨q, ?_, ?_, ?_, fun _ => isReady_of_last hlast (by decide) (by decide)⟩
  · rw [← hwalk, ← hhead]
    simp
  · rw [hreads, Spot.reads_within, Spot.reads_step, Spot.reads_past]
    rfl
  · exact grows_declareAll rfl (h.growsAfter hgrows)

end Statement

namespace Statements

variable {st : Statement} {b : Statements}

lemma passes_nil : nil.Passes := fun _ _ _ s p _ h _ _ _ _ =>
  have hgrows : (s.declareAll []).Grows p.scopes true := s.declareAll_nil.symm ▸ h.grows
  ⟨p, rfl, rfl, fun _ => Scopes.AtBlock.leave_of_grows hgrows⟩

lemma passes_last (hst : st.Passes) : (last st).Passes := by
  intro scope braces bound s p rest h hvalid hregular hbar hends
  obtain ⟨q, hwalk, hreads, hgrows, -⟩ := hst _ _ _ _ h hvalid hregular hbar fun _ => hends
  exact ⟨q, hwalk, hreads, fun _ => Scopes.AtBlock.leave_of_grows hgrows⟩

lemma passes_cons (hst : st.Passes) (hb : b.Passes) : (cons st b).Passes := by
  intro scope braces bound s p rest h hvalid hregular hbar hends
  obtain ⟨hvalid, hvalid'⟩ := Bool.and_eq_true_iff.1 hvalid
  obtain ⟨hregular, hregular'⟩ := Bool.and_eq_true_iff.1 hregular
  obtain ⟨q, hwalk, hreads, hgrows, -⟩ := hst _ _ _ (.punct ';' :: (b.tokens ++ rest)) h hvalid hregular hbar
    fun _ => ends_punct (by decide) (by decide)
  obtain ⟨r, hwalk', hreads', hleave⟩ := hb (st.binds ++ bound) (s.bind st.binds)
    ((q.step (.punct ';')).within (s.bind st.binds)) rest
    ⟨h.block.bind _, .refl _ _, h.binds.bind _, isReady_of_last rfl (by decide) (by decide)⟩ hvalid' hregular'
    (fun _ => rfl) hends
  refine ⟨r, ?_, ?_, fun hs => ?_⟩
  · rw [← hwalk', ← h.block.endStatement hgrows, ← walk_semicolon, ← hwalk]
    simp
  · rw [hreads', Spot.reads_within, Spot.reads_step, hreads, Statements.taken, insertAll_append]
  · rw [hleave (Scopes.inner_bind_ne_nil hs _), h.block.leave_bind hs]

lemma passes_next (hst : st.Passes) (hb : b.Passes) : (next st b).Passes := by
  intro scope braces bound s p rest h hvalid hregular hbar hends
  obtain ⟨hvalids, hvalid'⟩ := Bool.and_eq_true_iff.1 hvalid
  obtain ⟨hvalid, hblock⟩ := Bool.and_eq_true_iff.1 hvalids
  obtain ⟨hregulars, hbar'⟩ := Bool.and_eq_true_iff.1 hregular
  obtain ⟨hregular, hregular'⟩ := Bool.and_eq_true_iff.1 hregulars
  obtain ⟨q, hwalk, hreads, hgrows, hready⟩ := hst _ _ _ (b.tokens ++ rest) h hvalid hregular hbar
    fun hopen => absurd hopen (by simp [hblock])
  have hbinds := Statement.binds_of_endsInBlock hblock
  rw [hbinds, Scopes.declareAll_nil, hblock] at hgrows
  obtain ⟨r, hwalk', hreads', hleave⟩ := hb _ _ _ rest ⟨h.block, hgrows, h.binds, hready hblock⟩ hvalid'
    hregular' (fun hb => absurd hb (by simpa using hbar')) hends
  refine ⟨r, ?_, ?_, hleave⟩
  · rw [← hwalk', ← hwalk]
    simp
  · rw [hreads', hreads, Statements.taken, hbinds, insertAll_append]
    rfl

end Statements

mutual

theorem Expression.passes : ∀ e : Expression, e.Passes
  | .variable name dollar => Expression.passes_variable name dollar
  | .number point => Expression.passes_number point
  | .truth value => Expression.passes_truth value
  | .text content => Expression.passes_text content
  | .embedded e rest => Expression.passes_embedded e.passes rest.passes
  | .signed sign e => Expression.passes_signed sign e.passes
  | .binary left op right => Expression.passes_binary op left.passes right.passes
  | .parens e => Expression.passes_parens e.passes
  | .array items => Expression.passes_array items.passes
  | .map items => Expression.passes_map items.passes
  | .call path function items => Expression.passes_call path function items.passes
  | .property e safe name => Expression.passes_property safe name e.passes
  | .method e safe name items => Expression.passes_method safe name e.passes items.passes
  | .index e safe place => Expression.passes_index safe e.passes place.passes
  | .closure params e => Expression.passes_closure params e.passes
  | .blockClosure params b => Expression.passes_blockClosure params b.passes
  | .block b => Expression.passes_block b.passes
  | .choice e b => Expression.passes_choice e.passes b.passes
  | .choiceElse e b no => Expression.passes_choiceElse e.passes b.passes no.passes

theorem Items.passes : ∀ items : Items, items.Passes
  | .nil => Items.passes_nil
  | .last key e => Items.passes_last key e.passes
  | .cons key e items => Items.passes_cons key e.passes items.passes

theorem Statement.passes : ∀ st : Statement, st.Passes
  | .expression e => Statement.passes_expression e.passes
  | .declare constant name => Statement.passes_declare constant name
  | .define constant name e => Statement.passes_define constant name e.passes
  | .assign target op e => Statement.passes_assign op target.passes e.passes
  | .whileLoop e b => Statement.passes_whileLoop e.passes b.passes
  | .loop b => Statement.passes_loop b.passes
  | .forLoop name counter e b => Statement.passes_forLoop name counter e.passes b.passes
  | .tryCatch b name handler => Statement.passes_tryCatch name b.passes handler.passes
  | .function name params b => Statement.passes_function name params b.passes

theorem Statements.passes : ∀ b : Statements, b.Passes
  | .nil => Statements.passes_nil
  | .last st => Statements.passes_last st.passes
  | .cons st b => Statements.passes_cons st.passes b.passes
  | .next st b => Statements.passes_next st.passes b.passes

end

lemma agrees_start : Scopes.start.Agrees [] [] where
  nested := Scopes.atBlock_start.nested
  binds name := by simp [Scopes.isBound_iff, Scopes.start]
  awaits name := by simp [Scopes.start]

/-- The free names of the tokens of an expression. -/
theorem Expression.freeNames_tokens {e : Expression} (hvalid : e.isValid scope = true)
    (hregular : e.isRegular braces = true) : freeNames e.tokens = Names.ofList (e.taken [] []) := by
  obtain ⟨q, hwalk, hpassed⟩ := e.passes [] [] ⟨none, none, .start, ∅⟩ []
    { valid := hvalid
      regular := hregular
      stands := ⟨agrees_start, nofun, nofun⟩
      bar := fun _ => rfl
      ends := fun _ => ends_nil }
  rw [List.append_nil] at hwalk
  rw [freeNames_eq_walk, hwalk, walk_nil, hpassed.reads]
  rfl

/-- The free names of the tokens of a script. -/
theorem Statements.freeNames_tokens {b : Statements} (hvalid : b.isValid scope = true)
    (hregular : b.isRegular braces = true) : freeNames b.tokens = Names.ofList (b.taken []) := by
  obtain ⟨q, hwalk, hreads, -⟩ := b.passes [] .start ⟨none, none, .start, ∅⟩ []
    ⟨Scopes.atBlock_start, .refl _ _, agrees_start.binds, nofun, nofun⟩ hvalid hregular (fun _ => rfl) ends_nil
  rw [List.append_nil] at hwalk
  rw [freeNames_eq_walk, hwalk, walk_nil, hreads]
  rfl

end ReactiveNotebook.Analysis
