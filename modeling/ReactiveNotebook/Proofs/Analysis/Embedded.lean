import Mathlib.Data.List.TakeWhile
import ReactiveNotebook.Analysis.Warning
import ReactiveNotebook.Proofs.Analysis.Lexing
import ReactiveNotebook.Proofs.Analysis.Walk

/-!
# Embedded expressions

An expression embedded in a backtick text is read as if it stood in parentheses. The walk over it goes side by side with
the walk over the expression alone, one bracket deeper, and reads the same names.
-/
namespace ReactiveNotebook.Analysis

def Scope.deeper (scope : Scope) : Scope := { scope with depth := scope.depth + 1 }

namespace Scopes

variable {s t : Scopes}

/-- The same bindings one bracket deeper. -/
def deeper (s : Scopes) : Scopes :=
  { s with
    inner := s.inner.map Scope.deeper
    depth := s.depth + 1
    declared := s.declared.map fun d => (d.1, d.2 + 1) }

lemma isBound_deeper (s : Scopes) (name : String) : s.deeper.isBound name = s.isBound name := by
  simp [isBound, deeper, Scope.deeper, List.any_map, Function.comp_def]

lemma declare_deeper (s : Scopes) (name : String) : s.deeper.declare name = (s.declare name).deeper := by
  simp [declare, deeper]

lemma await_deeper (s : Scopes) (names : Names) : s.deeper.await names = (s.await names).deeper := rfl

lemma enter_deeper (s : Scopes) (brace : Bool) : s.deeper.enter brace = (s.enter brace).deeper := by
  cases brace <;> rfl

lemma closure_deeper (s : Scopes) (params : Names) (block : Bool) :
    s.deeper.closure params block = (s.closure params block).deeper := by
  cases block <;> rfl

lemma endClosures_deeper (s : Scopes) : s.deeper.endClosures = s.endClosures.deeper := by
  simp [endClosures, deeper, List.dropWhile_map, Function.comp_def, Scope.deeper]

lemma endStatement_deeper (s : Scopes) : s.deeper.endStatement = s.endStatement.deeper := by
  rw [endStatement, endStatement, endClosures_deeper]
  generalize s.endClosures = s
  obtain ⟨outer, inner, depth, pending, declared⟩ := s
  cases inner <;> simp [deeper, Scope.deeper, List.filter_map, Function.comp_def]

/-- A closing bracket that the bindings do not wait for ends the bracket around them. -/
lemma leave_deeper (s : Scopes) : s.deeper.leave = s.leave ∨ s.deeper.leave = s.leave.deeper := by
  obtain ⟨outer, inner, depth, pending, declared⟩ := s
  cases depth with
  | zero =>
    have hall (scopes : List Scope) : scopes.dropWhile (fun _ => true) = [] :=
      List.dropWhile_eq_nil_iff.2 fun _ _ => rfl
    left
    simp [leave, deeper, Scope.deeper, List.dropWhile_map, List.filter_map, Function.comp_def, hall]
  | succ depth =>
    right
    simp [leave, deeper, Scope.deeper, List.dropWhile_map, List.filter_map, Function.comp_def]

/-- The bindings are the same, perhaps one bracket deeper. -/
def Beside (s t : Scopes) : Prop := t = s ∨ t = s.deeper

namespace Beside

lemma isBound (h : s.Beside t) (name : String) : t.isBound name = s.isBound name := by
  rcases h with rfl | rfl
  · rfl
  · exact s.isBound_deeper name

/-- An operation that commutes with the bracket keeps the bindings beside each other. -/
lemma map (h : s.Beside t) {f : Scopes → Scopes} (hf : ∀ s : Scopes, f s.deeper = (f s).deeper) :
    (f s).Beside (f t) := by
  rcases h with rfl | rfl
  · exact .inl rfl
  · exact .inr (hf s)

lemma enter (h : s.Beside t) (brace : Bool) : (s.enter brace).Beside (t.enter brace) :=
  h.map (f := fun s => s.enter brace) fun s => s.enter_deeper brace

lemma declare (h : s.Beside t) (name : String) : (s.declare name).Beside (t.declare name) :=
  h.map (f := fun s => s.declare name) fun s => s.declare_deeper name

lemma await (h : s.Beside t) (names : Names) : (s.await names).Beside (t.await names) :=
  h.map (f := fun s => s.await names) fun s => s.await_deeper names

lemma leave (h : s.Beside t) : s.leave.Beside t.leave := by
  rcases h with rfl | rfl
  · exact .inl rfl
  · exact s.leave_deeper

end Beside

end Scopes

/-- What follows an embedded expression at the end of a backtick text. -/
def closing : List Token := [.punct ')', .text ""]

/-- The token before an embedded expression is an opening parenthesis where there is none before the expression
alone. -/
def Alike (a b : Option Token) : Prop := b = a ∨ a = none ∧ b = some (.punct '(')

/-- Two places in an expression, alone and embedded, are the same or both behind it. -/
inductive Cursor.Mirrors (c d : Cursor) : Prop
  | inside (rest : d.rest = c.rest ++ closing) (last : Alike c.last d.last)
      (beforeLast : Alike c.beforeLast d.beforeLast)
  | behind (alone : c.rest = []) (embedded : d.rest <:+ closing)

section
variable {a b : Option Token} {c d : Cursor} {p : Char} {rest : List Token} {n : ℕ}

lemma Alike.isOperand (h : Alike a b) : isOperand b = isOperand a := by
  rcases h with rfl | ⟨rfl, rfl⟩ <;> rfl

lemma Alike.isPunct (h : Alike a b) (hp : p ≠ '(') :
    (b.map (·.isPunct p)).getD false = (a.map (·.isPunct p)).getD false := by
  rcases h with rfl | ⟨rfl, rfl⟩
  · rfl
  · simpa [Token.isPunct] using hp.symm

lemma Cursor.Mirrors.next (h : c.Mirrors d) : c.next.Mirrors d.next := by
  cases hc : c.rest with
  | nil =>
    have hcnext : c.next = c := by simp [Cursor.next, hc]
    refine .behind (by rw [hcnext, hc]) ?_
    have htail : d.next.rest = d.rest.tail := by cases hd : d.rest <;> simp [Cursor.next, hd]
    have hd : d.rest <:+ closing := by
      cases h with
      | inside hd => simp [hd, hc]
      | behind _ hd => exact hd
    rw [htail]
    exact (List.tail_suffix _).trans hd
  | cons t rest =>
    cases h with
    | behind hnil => rw [hc] at hnil; cases hnil
    | inside hd hlast _ =>
      rw [hc, List.cons_append] at hd
      have hcnext : c.next = ⟨c.last, some t, rest⟩ := by simp [Cursor.next, hc]
      have hdnext : d.next = ⟨d.last, some t, rest ++ closing⟩ := by simp [Cursor.next, hd]
      rw [hcnext, hdnext]
      exact .inside rfl (.inl rfl) hlast

lemma Cursor.Mirrors.skip (h : c.Mirrors d) (n : ℕ) : (c.skip n).Mirrors (d.skip n) := by
  induction n generalizing c d with
  | zero => exact h
  | succ n ih => exact ih h.next

/-- Steps of different lengths that both pass the expression lead behind it. -/
lemma Cursor.Mirrors.skip_behind (h : c.Mirrors d) {m n : ℕ} (hm : c.rest.length ≤ m) (hn : c.rest.length ≤ n) :
    (c.skip m).Mirrors (d.skip n) := by
  refine .behind ?_ ?_
  · rw [rest_skip, List.drop_eq_nil_of_le hm]
  · rw [rest_skip]
    cases h with
    | inside hd =>
      rw [hd, List.drop_append, List.drop_eq_nil_of_le hn, List.nil_append]
      exact List.drop_suffix _ _
    | behind _ hd => exact (List.drop_suffix _ _).trans hd

/-- Whether a character follows does not depend on the end of the embedded expression, except for a closing
parenthesis. -/
lemma startsWith_drop_closing (hp : p ≠ ')') (rest : List Token) (n : ℕ) :
    startsWith ((rest ++ closing).drop n) p = startsWith (rest.drop n) p := by
  have hend (m : ℕ) : startsWith (closing.drop m) p = false := by
    rcases m with _ | _ | m
    · simpa [startsWith, closing, Token.isPunct] using hp.symm
    · rfl
    · simp [startsWith, closing]
  rw [List.drop_append]
  cases hrest : rest.drop n with
  | nil => rw [List.nil_append, hend]; rfl
  | cons t rest => rfl

lemma startsWith_closing (hp : p ≠ ')') (rest : List Token) : startsWith (rest ++ closing) p = startsWith rest p :=
  startsWith_drop_closing hp rest 0

lemma head?_ident?_closing (rest : List Token) :
    (rest ++ closing).head?.bind Token.ident? = rest.head?.bind Token.ident? := by
  cases rest <;> rfl

lemma exists_of_startsWith (h : startsWith rest p = true) : ∃ after, rest = .punct p :: after := by
  cases rest with
  | nil => cases h
  | cons t rest => exact ⟨rest, by rw [isPunct_eq_true_iff.1 h]⟩

/-- Names are looked for as far as the end of the embedded expression, where there are none. -/
lemma namesUntil_closing (close : Char) (rest : List Token) :
    (namesUntil close (rest ++ closing)).1 = (namesUntil close rest).1 ∧
      ((namesUntil close (rest ++ closing)).2 = (namesUntil close rest).2 ∨
        rest.length < (namesUntil close (rest ++ closing)).2 ∧ rest.length < (namesUntil close rest).2) := by
  have hnames (q : Token → Bool) : (closing.takeWhile q).filterMap Token.ident? = [] := by
    refine List.filterMap_eq_nil_iff.2 fun t ht => ?_
    rcases List.mem_cons.1 (List.takeWhile_subset _ ht) with rfl | ht
    · rfl
    · rw [List.eq_of_mem_singleton ht]; rfl
  simp only [namesUntil, List.takeWhile_append]
  split
  · next hall =>
    have hinside := (List.takeWhile_prefix (fun t : Token => !t.isPunct close)).eq_of_length hall
    rw [hinside, List.filterMap_append, hnames, List.append_nil, List.length_append]
    exact ⟨rfl, .inr ⟨by omega, Nat.lt_succ_self _⟩⟩
  · exact ⟨rfl, .inl rfl⟩

end

/-- Two steps, alone and embedded, have the same effect and take the same tokens of the `length` that follow, or all of
them. -/
def Keeps (length : ℕ) (a b : Scopes × ℕ) : Prop :=
  a.1.Beside b.1 ∧ (a.2 = b.2 ∨ length < a.2 ∧ length < b.2)

section
variable {s t : Scopes} {a b : Option Token} {c d : Cursor} {rest : List Token}

lemma Scopes.Beside.keeps (h : s.Beside t) (length n : ℕ) : Keeps length (s, n) (t, n) := ⟨h, .inl rfl⟩

lemma Scopes.Beside.punct (h : s.Beside t) (hlast : Alike a b) (p : Char) (rest : List Token) :
    Keeps rest.length (s.punct a p rest) (t.punct b p (rest ++ closing)) := by
  have hclosure (params : Names) (block : Bool) : (s.closure params block).Beside (t.closure params block) :=
    h.map (f := fun s => s.closure params block) fun s => s.closure_deeper params block
  unfold Scopes.punct
  split
  · rw [startsWith_closing (by decide), startsWith_drop_closing (by decide), hlast.isOperand]
    split
    · split
      · exact h.keeps _ 2
      · exact (hclosure _ _).keeps _ 2
    · split
      · exact h.keeps _ 1
      · obtain ⟨hnames, htaken⟩ := namesUntil_closing '|' rest
        have hblock : startsWith ((rest ++ closing).drop (namesUntil '|' (rest ++ closing)).2) '\x7b' =
            startsWith (rest.drop (namesUntil '|' rest).2) '\x7b' := by
          rw [startsWith_drop_closing (by decide)]
          rcases htaken with htaken | ⟨hembedded, halone⟩
          · rw [htaken]
          · rw [List.drop_eq_nil_of_le hembedded.le, List.drop_eq_nil_of_le halone.le]
        refine ⟨?_, ?_⟩
        · dsimp only
          rw [hnames, hblock]
          exact hclosure _ _
        · dsimp only
          omega
  · exact (h.enter true).keeps _ 1
  · exact (h.enter false).keeps _ 1
  · exact (h.enter false).keeps _ 1
  · exact h.leave.keeps _ 1
  · exact h.leave.keeps _ 1
  · exact h.leave.keeps _ 1
  · exact (h.map Scopes.endClosures_deeper).keeps _ 1
  · exact (h.map Scopes.endStatement_deeper).keeps _ 1
  · exact h.keeps _ 1

/-- A word that binds the names in parentheses that begin `n` tokens later. -/
lemma Scopes.Beside.keeps_await (h : s.Beside t) (close : Char) (rest : List Token) (n : ℕ) :
    Keeps (rest.length + n) (s.await (namesUntil close rest).1, (namesUntil close rest).2 + (n + 1))
      (t.await (namesUntil close (rest ++ closing)).1, (namesUntil close (rest ++ closing)).2 + (n + 1)) := by
  obtain ⟨hnames, htaken⟩ := namesUntil_closing close rest
  refine ⟨?_, ?_⟩
  · rw [hnames]
    exact h.await _
  · dsimp only
    omega

lemma Scopes.Beside.binder? (h : s.Beside t) (w : String) (rest : List Token) :
    Option.Rel (Keeps rest.length) (s.binder? w rest) (t.binder? w (rest ++ closing)) := by
  have hdeclare : Option.Rel (Keeps rest.length) (s.binder? "let" rest) (t.binder? "let" (rest ++ closing)) := by
    simp only [Scopes.binder?, head?_ident?_closing]
    cases rest.head?.bind Token.ident? with
    | none => exact .some (h.keeps _ 2)
    | some name => exact .some ((h.declare name).keeps _ 2)
  have hawait : Option.Rel (Keeps rest.length) (s.binder? "for" rest) (t.binder? "for" (rest ++ closing)) := by
    simp only [Scopes.binder?, head?_ident?_closing, startsWith_closing (by decide : '(' ≠ ')')]
    split
    · next hopen =>
      obtain ⟨after, rfl⟩ := exists_of_startsWith hopen
      exact .some (h.keeps_await ')' after 1)
    · cases rest.head?.bind Token.ident? with
      | none => exact .some (h.keeps _ 2)
      | some name => exact .some ((h.await _).keeps _ 2)
  have hparams : Option.Rel (Keeps rest.length) (s.binder? "fn" rest) (t.binder? "fn" (rest ++ closing)) := by
    simp only [Scopes.binder?, startsWith_drop_closing (by decide : '(' ≠ ')')]
    split
    · next hopen =>
      obtain ⟨after, hafter⟩ := exists_of_startsWith hopen
      cases rest with
      | nil => cases hafter
      | cons name rest =>
        obtain rfl : rest = .punct '(' :: after := hafter
        exact .some (h.keeps_await ')' after 2)
    · exact .some (h.keeps _ 2)
  by_cases hw : w ∈ bindingWords
  · simp only [bindingWords, List.mem_cons, List.not_mem_nil, or_false] at hw
    rcases hw with rfl | rfl | rfl | rfl | rfl | rfl
    all_goals first | exact hdeclare | exact hawait | exact hparams
  · rw [binder?_eq_none hw, binder?_eq_none hw]
    exact .none

lemma Scopes.Beside.isRead (h : s.Beside t) {a' b' : Option Token} (hbefore : Alike a' b') (hlast : Alike a b)
    (name : String) (sigil : Bool) (rest : List Token) :
    isRead t b' b name sigil (rest ++ closing) = isRead s a' a name sigil rest := by
  simp only [Analysis.isRead, hbefore.isPunct (by decide : '.' ≠ '('), hbefore.isPunct (by decide : ':' ≠ '('),
    hlast.isPunct (by decide : '.' ≠ '('), hlast.isPunct (by decide : ':' ≠ '('), h.isBound,
    startsWith_closing (by decide : ':' ≠ ')'), startsWith_closing (by decide : '(' ≠ ')'),
    startsWith_drop_closing (by decide : ':' ≠ ')')]

end

/-- No name is read behind an embedded expression. -/
lemma walk_of_suffix_closing {rest : List Token} (p : Spot) (h : rest <:+ closing) : walk p rest = p.reads := by
  have hsuffixes : rest = closing ∨ rest = [.text ""] ∨ rest = [] := by
    simpa [closing, List.suffix_cons_iff] using h
  rcases hsuffixes with rfl | rfl | rfl
  · rw [closing, walk_closing (.inl rfl), walk_text, walk_nil]
    rfl
  · rw [walk_text, walk_nil]
    rfl
  · rfl

lemma Cursor.Mirrors.skip_keeps {c d : Cursor} {a b : Scopes × ℕ} {length : ℕ} (h : c.Mirrors d)
    (hkeeps : Keeps length a b) (hlength : c.rest.length ≤ length + 1) : (c.skip a.2).Mirrors (d.skip b.2) := by
  rcases hkeeps.2 with heq | ⟨ha, hb⟩
  · rw [heq]
    exact h.skip _
  · exact h.skip_behind (by omega) (by omega)

/-- The walk over an embedded expression reads what the walk over the expression alone reads. -/
lemma freeNamesFrom_of_mirrors {m n : ℕ} {c d : Cursor} {s t : Scopes} (h : c.Mirrors d) (hst : s.Beside t)
    (reads : Names) (hm : c.rest.length < m) (hn : d.rest.length < n) :
    freeNamesFrom n d t reads = freeNamesFrom m c s reads := by
  induction m generalizing n c d s t reads with
  | zero => exact absurd hm (Nat.not_lt_zero _)
  | succ m ih =>
    obtain ⟨n, rfl⟩ := Nat.exists_eq_succ_of_ne_zero (Nat.ne_zero_of_lt hn)
    cases hc : c.rest with
    | nil =>
      have hd : d.rest <:+ closing := by
        cases h with
        | inside hd => simp [hd, hc]
        | behind _ hd => exact hd
      have halone : freeNamesFrom (m + 1) c s reads = reads := by rw [freeNamesFrom, hc]
      rw [halone, freeNamesFrom_fuel t reads hn (Nat.lt_succ_self _)]
      exact walk_of_suffix_closing ⟨d.beforeLast, d.last, t, reads⟩ hd
    | cons token rest =>
      obtain ⟨hd, hlast, hbefore⟩ : d.rest = token :: (rest ++ closing) ∧ Alike c.last d.last ∧
          Alike c.beforeLast d.beforeLast := by
        cases h with
        | inside hd hlast hbefore => exact ⟨by rw [hd, hc]; rfl, hlast, hbefore⟩
        | behind hnil => rw [hc] at hnil; cases hnil
      -- each branch goes on at least one token later, at mirrored places
      have later {a b : Scopes × ℕ} (hkeeps : Keeps rest.length a b) (ha : 0 < a.2) (hb : 0 < b.2) (reads : Names) :
          freeNamesFrom n (d.skip b.2) b.1 reads = freeNamesFrom m (c.skip a.2) a.1 reads := by
        refine ih (h.skip_keeps hkeeps (by rw [hc]; exact le_rfl)) hkeeps.1 reads ?_ ?_
        · rw [rest_skip, List.length_drop, hc, List.length_cons]
          rw [hc, List.length_cons] at hm
          omega
        · rw [rest_skip, List.length_drop]
          rw [hd, List.length_cons] at hn ⊢
          omega
      have next (reads : Names) : freeNamesFrom n d.next t reads = freeNamesFrom m c.next s reads :=
        later (hst.keeps _ 1) Nat.one_pos Nat.one_pos reads
      rw [freeNamesFrom, freeNamesFrom, hc, hd]
      cases token with
      | punct p =>
        exact later (hst.punct hlast p rest) (s.taken_punct_pos _ _ _) (t.taken_punct_pos _ _ _) reads
      | text _ => exact next reads
      | number => exact next reads
      | ident name sigil =>
        dsimp only
        rw [hst.isRead hbefore hlast]
        cases sigil with
        | true => exact next _
        | false =>
          have hbinder := hst.binder? name rest
          simp only [Bool.false_eq_true, if_false]
          cases hs : s.binder? name rest with
          | none =>
            cases ht : t.binder? name (rest ++ closing) with
            | none => exact next _
            | some b => rw [hs, ht] at hbinder; cases hbinder
          | some a =>
            cases ht : t.binder? name (rest ++ closing) with
            | none => rw [hs, ht] at hbinder; cases hbinder
            | some b =>
              rw [hs, ht] at hbinder
              cases hbinder with
              | some hkeeps =>
                exact later hkeeps (Scopes.taken_binder_pos hs) (Scopes.taken_binder_pos ht) reads

/-- The free names of an expression are those of the backtick text it is embedded in. -/
lemma freeNames_embedded (ts : List Token) : freeNames (.punct '(' :: (ts ++ closing)) = freeNames ts := by
  rw [freeNames_eq_walk, walk_opening (.inl rfl)]
  have hmirrors : Cursor.Mirrors ⟨none, none, ts⟩ ⟨none, some (.punct '('), ts ++ closing⟩ :=
    .inside rfl (.inr ⟨rfl, rfl⟩) (.inl rfl)
  exact freeNamesFrom_of_mirrors hmirrors (.inr rfl) ∅ (Nat.lt_succ_self _) (Nat.lt_succ_self _)

lemma Writes.embedded {ts : List Token} {cs : List Char} (h : Writes ts cs) (hbalanced : isBalanced 0 cs = true) :
    Writes (.punct '(' :: (ts ++ closing)) ('\x60' :: '$' :: '\x7b' :: (cs ++ ['\x7d', '\x60'])) := by
  obtain ⟨layout, hproper, rfl, rfl⟩ := h
  refine ⟨.cons (.template (.embedded layout .nil)) .nil, ?_, ?_, ?_⟩
  · simp [Layout.isProper, Lexeme.fits, Pieces.isProper, hbalanced, hproper]
  · simp [Layout.chars, Lexeme.chars, Pieces.chars]
  · simp [Layout.tokens, Lexeme.tokens, Pieces.tokens, Pieces.plain, closing]

/-- A backtick text with one embedded expression reads what the expression reads, without a warning. -/
theorem expressionReads_embedded {e : String} (hclosed : (lex e.toList).unterminated = none)
    (hbalanced : isBalanced 0 e.toList = true) :
    expressionReads ("\x60$\x7b" ++ e ++ "\x7d\x60") = expressionReads e ∧ (expressionReads e).2 = [] := by
  obtain ⟨ts, hts⟩ : ∃ ts, lex e.toList = ⟨ts, none⟩ := ⟨_, congrArg (Lexed.mk _) hclosed⟩
  have hembedded : lex ("\x60$\x7b" ++ e ++ "\x7d\x60").toList = ⟨.punct '(' :: (ts ++ closing), none⟩ := by
    have hwrites := (lex_eq_iff.1 hts).embedded hbalanced
    rw [lex_eq_iff]
    simpa using hwrites
  rw [expressionReads, expressionReads, hembedded, hts]
  exact ⟨congrArg (·, []) (freeNames_embedded ts), rfl⟩

/-- Maps, blocks and balanced braces in a text may be embedded. -/
theorem expressionReads_embedded_map :
    (lex "#\x7ba: \"\x7b\x7d\", b: f(|y| \x7b y + z \x7d)\x7d".toList).unterminated = none ∧
      isBalanced 0 "#\x7ba: \"\x7b\x7d\", b: f(|y| \x7b y + z \x7d)\x7d".toList = true ∧
      expressionReads ("\x60$\x7b" ++ "#\x7ba: \"\x7b\x7d\", b: f(|y| \x7b y + z \x7d)\x7d" ++ "\x7d\x60") =
        (Names.ofList ["z"], []) := by
  have hclosed : (lex "#\x7ba: \"\x7b\x7d\", b: f(|y| \x7b y + z \x7d)\x7d".toList).unterminated = none := by decide
  have hbalanced : isBalanced 0 "#\x7ba: \"\x7b\x7d\", b: f(|y| \x7b y + z \x7d)\x7d".toList = true := by decide
  exact ⟨hclosed, hbalanced, (expressionReads_embedded hclosed hbalanced).1.trans (by decide)⟩

/-- A brace in a text ends an embedded expression: the text is then open in what is left, and the expression reads
nothing, though no brace stands outside its texts. -/
theorem expressionReads_embedded_brace_in_text :
    lex "\"\x7d\" + x".toList = ⟨[.text "\x7d", .punct '+', .ident "x" false], none⟩ ∧
      expressionReads "\"\x7d\" + x" = (Names.ofList ["x"], []) ∧
      expressionReads ("\x60$\x7b" ++ "\"\x7d\" + x" ++ "\x7d\x60") = (∅, [.unterminatedLiteral 3]) := by
  decide

end ReactiveNotebook.Analysis
