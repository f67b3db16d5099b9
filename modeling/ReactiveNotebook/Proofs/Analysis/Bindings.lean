import Mathlib.Tactic
import ReactiveNotebook.Proofs.Analysis.Reach
import ReactiveNotebook.Proofs.Names

/-!
# Bindings in force

What the bindings of the walk amount to at the places where phrases begin and end. Inside a phrase only closures
without a block are added, at the depth of the phrase; brackets and separators take them away again.
-/
namespace ReactiveNotebook.Analysis.Scopes

/-- Scopes and declarations are no deeper than the brackets around the place. -/
structure Nested (s : Scopes) : Prop where
  inner : ∀ scope ∈ s.inner, scope.depth ≤ s.depth
  declared : ∀ d ∈ s.declared, d.2 ≤ s.depth

/-- The names bound are those of a list. -/
def Binds (s : Scopes) (bound : List String) : Prop := ∀ name, s.isBound name = true ↔ name ∈ bound

/-- The names that await their body are those of a list. -/
def Awaits (s : Scopes) (awaiting : List String) : Prop := ∀ name, name ∈ s.pending ↔ name ∈ awaiting

/-- The bindings after tokens: a brace among them has taken the names that awaited their body. -/
def after (s : Scopes) (braceless : Bool) : Scopes := if braceless then s else { s with pending := ∅ }

/-- The bindings at a place where `awaiting` await their body and `bound` are bound. -/
structure Agrees (s : Scopes) (awaiting bound : List String) : Prop where
  nested : s.Nested
  binds : s.Binds bound
  awaits : s.Awaits awaiting

/-- Bindings that differ by closures without a block, opened at the same depth. Closures that are idle have no
parameters. -/
def Grows (s t : Scopes) (idle : Bool) : Prop :=
  ∃ extra : List Scope, t = { s with inner := extra ++ s.inner } ∧
    ∀ scope ∈ extra, scope.expression = true ∧ scope.depth = s.depth ∧ (idle = true → scope.names = ∅)

variable {s t u : Scopes} {idle braceless : Bool} {awaiting bound names : List String}

lemma isBound_iff {name : String} :
    s.isBound name = true ↔ name ∈ s.outer ∨ ∃ scope ∈ s.inner, name ∈ scope.names := by
  simp [isBound, List.any_eq_true]

namespace Grows

lemma refl (s : Scopes) (idle : Bool) : s.Grows s idle := ⟨[], rfl, by simp⟩

lemma trans {idle' : Bool} (h : s.Grows t idle) (h' : t.Grows u idle') : s.Grows u (idle && idle') := by
  obtain ⟨extra, rfl, hextra⟩ := h
  obtain ⟨extra', rfl, hextra'⟩ := h'
  refine ⟨extra' ++ extra, by simp, fun scope hs => ?_⟩
  rcases List.mem_append.1 hs with hs | hs
  · obtain ⟨he, hd, hn⟩ := hextra' scope hs
    exact ⟨he, hd, fun h => hn (Bool.and_eq_true_iff.1 h).2⟩
  · obtain ⟨he, hd, hn⟩ := hextra scope hs
    exact ⟨he, hd, fun h => hn (Bool.and_eq_true_iff.1 h).1⟩

lemma weaken {idle' : Bool} (h : s.Grows t idle) (hidle : idle' = true → idle = true) : s.Grows t idle' := by
  obtain ⟨extra, ht, hextra⟩ := h
  exact ⟨extra, ht, fun scope hs =>
    ⟨(hextra scope hs).1, (hextra scope hs).2.1, fun h => (hextra scope hs).2.2 (hidle h)⟩⟩

lemma pending_eq (h : s.Grows t idle) : t.pending = s.pending := by
  obtain ⟨extra, rfl, -⟩ := h
  rfl

lemma nested (h : s.Grows t idle) (hs : s.Nested) : t.Nested := by
  obtain ⟨extra, rfl, hextra⟩ := h
  refine ⟨fun scope hscope => ?_, hs.declared⟩
  rcases List.mem_append.1 hscope with hscope | hscope
  · exact (hextra scope hscope).2.1.le
  · exact hs.inner scope hscope

lemma binds (h : s.Grows t true) (hs : s.Binds bound) : t.Binds bound := by
  obtain ⟨extra, rfl, hextra⟩ := h
  intro name
  rw [← hs name, isBound_iff, isBound_iff]
  refine or_congr_right ⟨?_, ?_⟩
  · rintro ⟨scope, hscope, hname⟩
    rcases List.mem_append.1 hscope with hscope | hscope
    · rw [(hextra scope hscope).2.2 rfl] at hname
      exact absurd hname (Names.not_mem_empty name)
    · exact ⟨scope, hscope, hname⟩
  · rintro ⟨scope, hscope, hname⟩
    exact ⟨scope, List.mem_append_right _ hscope, hname⟩

/-- A declaration commutes with closures. -/
lemma declare (h : s.Grows t idle) (name : String) : (s.declare name).Grows (t.declare name) idle := by
  obtain ⟨extra, rfl, hextra⟩ := h
  exact ⟨extra, rfl, hextra⟩

lemma awaits (h : s.Grows t idle) (hs : s.Awaits awaiting) : t.Awaits awaiting := by
  rw [Awaits, h.pending_eq]
  exact hs

end Grows

lemma Nested.declare (h : s.Nested) (name : String) : (s.declare name).Nested := by
  refine ⟨h.inner, fun d hd => ?_⟩
  rcases List.mem_append.1 hd with hd | hd
  · exact h.declared d hd
  · rw [List.eq_of_mem_singleton hd]
    exact le_rfl

lemma after_after (s : Scopes) (a b : Bool) : (s.after a).after b = s.after (a && b) := by
  cases a <;> cases b <;> rfl

lemma after_of_pending (h : s.pending = ∅) : s.after braceless = s := by
  cases braceless with
  | true => rfl
  | false => rw [after, if_neg Bool.false_ne_true, ← h]

/-- A brace takes names that have been put aside with those that awaited before. -/
lemma after_await (s : Scopes) (names : Names) : (s.await names).after false = s.after false := rfl

lemma Nested.after (h : s.Nested) : (s.after braceless).Nested := by
  cases braceless <;> exact ⟨h.inner, h.declared⟩

lemma Binds.after (h : s.Binds bound) : (s.after braceless).Binds bound := by
  cases braceless <;> exact h

lemma Grows.after (h : s.Grows t idle) (braceless : Bool) : (s.after braceless).Grows (t.after braceless) idle := by
  obtain ⟨extra, rfl, hextra⟩ := h
  cases braceless <;> exact ⟨extra, rfl, hextra⟩

lemma Awaits.after (h : s.Awaits awaiting) : (s.after braceless).Awaits (remaining braceless awaiting) := by
  cases braceless with
  | true => exact h
  | false => exact fun name => by simp [Scopes.after, remaining]

lemma Grows.of_after (h : (s.after braceless).Grows t idle) : ∃ u, s.Grows u idle ∧ t = u.after braceless := by
  obtain ⟨extra, rfl, hextra⟩ := h
  cases braceless <;> exact ⟨_, ⟨extra, rfl, hextra⟩, rfl⟩

lemma leave_after (s : Scopes) (braceless : Bool) : (s.after braceless).leave = s.leave.after braceless := by
  cases braceless <;> rfl

/-- Two phrases in a row. -/
lemma Grows.next {a b idle' : Bool} (h : (s.after a).Grows t idle) (h' : (t.after b).Grows u idle') :
    (s.after (a && b)).Grows u (idle && idle') :=
  s.after_after a b ▸ (h.after b).trans h'

lemma Nested.enter (h : s.Nested) (brace : Bool) : (s.enter brace).Nested := by
  cases brace with
  | false => exact ⟨fun scope hs => (h.inner scope hs).trans (Nat.le_succ _),
      fun d hd => (h.declared d hd).trans (Nat.le_succ _)⟩
  | true =>
    refine ⟨fun scope hs => ?_, fun d hd => (h.declared d hd).trans (Nat.le_succ _)⟩
    rcases List.mem_cons.1 hs with rfl | hs
    · exact le_rfl
    · exact (h.inner scope hs).trans (Nat.le_succ _)

/-- Scopes at least as deep as the bracket that closes go with it. -/
lemma dropWhile_deep {extra rest : List Scope} {d : ℕ} (hextra : ∀ scope ∈ extra, d ≤ scope.depth)
    (hrest : ∀ scope ∈ rest, scope.depth < d) :
    (extra ++ rest).dropWhile (fun scope => decide (d ≤ scope.depth)) = rest := by
  rw [List.dropWhile_append_of_pos fun scope hs => decide_eq_true (hextra scope hs)]
  cases rest with
  | nil => rfl
  | cons top rest =>
    rw [List.dropWhile_cons_of_neg]
    simpa using hrest top List.mem_cons_self

/-- A closing bracket takes away what was opened since the opening one. -/
lemma Nested.leave_enter (h : s.Nested) {brace : Bool} (hgrows : (s.enter brace).Grows t idle) :
    t.leave = s.after (!brace) := by
  obtain ⟨extra, rfl, hextra⟩ := hgrows
  have hrest : ∀ scope ∈ s.inner, scope.depth < s.depth + 1 := fun scope hs =>
    Nat.lt_succ_of_le (h.inner scope hs)
  have hdeclared : s.declared.filter (fun d => decide (d.2 < s.depth + 1)) = s.declared :=
    List.filter_eq_self.2 fun d hd => decide_eq_true (Nat.lt_succ_of_le (h.declared d hd))
  cases brace with
  | false =>
    have hinner := dropWhile_deep (fun scope hs => (hextra scope hs).2.1.ge) hrest
    simp only [Scopes.leave, Scopes.enter, Scopes.after, Bool.false_eq_true, if_false, Bool.not_false,
      if_true] at hinner ⊢
    rw [hinner, hdeclared, Nat.add_sub_cancel]
  | true =>
    have hinner := dropWhile_deep (d := s.depth + 1)
      (fun scope (hs : scope ∈ extra ++ [⟨s.pending, s.depth + 1, false⟩]) => by
        rcases List.mem_append.1 hs with hs | hs
        · exact (hextra scope hs).2.1.ge
        · rw [List.eq_of_mem_singleton hs]) hrest
    simp only [Scopes.leave, Scopes.enter, Scopes.after, Bool.not_true, Bool.false_eq_true, if_false, if_true]
    rw [List.append_assoc, List.singleton_append] at hinner
    rw [hinner, hdeclared, Nat.add_sub_cancel]

/-- The same with a phrase between the brackets, whose braces have taken names that awaited. -/
lemma Nested.leave (h : s.Nested) {brace : Bool} (hgrows : ((s.enter brace).after braceless).Grows t idle) :
    t.leave = s.after (!brace && braceless) := by
  obtain ⟨u, hu, rfl⟩ := hgrows.of_after
  rw [leave_after, h.leave_enter hu, after_after]

/-- A brace binds the awaiting names. -/
lemma Binds.enter_brace (h : s.Binds bound) (hawaits : s.Awaits awaiting) :
    (s.enter true).Binds (awaiting ++ bound) := by
  intro name
  rw [List.mem_append, ← hawaits, ← h name, isBound_iff, isBound_iff]
  simp only [Scopes.enter, if_true, List.mem_cons, exists_eq_or_imp]
  tauto

/-- Behind a brace no name awaits. -/
lemma awaits_enter_brace (s : Scopes) : (s.enter true).Awaits [] := fun name => by simp [Scopes.enter]

lemma endClosures_enter (h : s.Nested) (brace : Bool) : (s.enter brace).endClosures = s.enter brace := by
  cases brace with
  | true => rfl
  | false =>
    have hinner : s.inner.dropWhile (fun scope => scope.expression && scope.depth == s.depth + 1) = s.inner := by
      cases hs : s.inner with
      | nil => rfl
      | cons top rest =>
        have htop := h.inner top (hs ▸ List.mem_cons_self)
        rw [List.dropWhile_cons_of_neg]
        simp only [Bool.and_eq_true, beq_iff_eq, not_and]
        omega
    exact congrArg (fun inner => { s.enter false with inner }) hinner

/-- A separator takes away the closures since the bracket or separator before. -/
lemma Grows.endClosures (h : s.Grows t idle) (hs : s.endClosures = s) : t.endClosures = s := by
  obtain ⟨extra, rfl, hextra⟩ := h
  have hextra' : ∀ scope ∈ extra, (scope.expression && scope.depth == s.depth) = true := fun scope hscope => by
    simp [(hextra scope hscope).1, (hextra scope hscope).2.1]
  have hinner : s.inner.dropWhile (fun scope => scope.expression && scope.depth == s.depth) = s.inner :=
    congrArg Scopes.inner hs
  simp only [Scopes.endClosures, List.dropWhile_append_of_pos hextra', hinner]

lemma endClosures_after (h : s.endClosures = s) : (s.after braceless).endClosures = s.after braceless := by
  cases braceless with
  | true => exact h
  | false => exact congrArg (fun s : Scopes => { s with pending := ∅ }) h

lemma grows_closure (s : Scopes) (params : Names) : s.Grows (s.closure params false) false :=
  ⟨[⟨params, s.depth, true⟩], rfl, by simp⟩

lemma Binds.closure (h : s.Binds bound) (params : List String) :
    (s.closure (Names.ofList params) false).Binds (params ++ bound) := by
  intro name
  rw [List.mem_append, ← h name, isBound_iff, isBound_iff]
  simp only [Scopes.closure, Bool.false_eq_true, if_false, List.mem_cons, exists_eq_or_imp, Names.mem_ofList]
  tauto

/-- Names that are put aside await with those that awaited before. -/
lemma Awaits.await (h : s.Awaits awaiting) (names : List String) :
    (s.await (Names.ofList names)).Awaits (names ++ awaiting) := by
  intro name
  rw [List.mem_append, ← h name]
  simp [Scopes.await, or_comm]

/-- Bindings do not depend on the names that are awaiting. -/
lemma Binds.await (h : s.Binds bound) (names : Names) : (s.await names).Binds bound := h

lemma Nested.await (h : s.Nested) (names : Names) : (s.await names).Nested := ⟨h.inner, h.declared⟩

namespace Agrees

variable (h : s.Agrees awaiting bound)
include h

lemma grows (hgrows : s.Grows t true) : t.Agrees awaiting bound :=
  ⟨hgrows.nested h.nested, hgrows.binds h.binds, hgrows.awaits h.awaits⟩

lemma after : (s.after braceless).Agrees (remaining braceless awaiting) bound :=
  ⟨h.nested.after, h.binds.after, h.awaits.after⟩

lemma enter_round : (s.enter false).Agrees awaiting bound := ⟨h.nested.enter false, h.binds, h.awaits⟩

lemma enter_brace : (s.enter true).Agrees [] (awaiting ++ bound) :=
  ⟨h.nested.enter true, h.binds.enter_brace h.awaits, s.awaits_enter_brace⟩

lemma closure (params : List String) :
    (s.closure (Names.ofList params) false).Agrees awaiting (params ++ bound) where
  nested := (s.grows_closure (Names.ofList params)).nested h.nested
  binds := h.binds.closure params
  awaits := (s.grows_closure (Names.ofList params)).awaits h.awaits

lemma await (names : List String) : (s.await (Names.ofList names)).Agrees (names ++ awaiting) bound :=
  ⟨h.nested.await _, h.binds.await _, h.awaits.await names⟩

lemma declare (name : String) : (s.declare name).Agrees awaiting bound := ⟨h.nested.declare name, h.binds, h.awaits⟩

end Agrees

/-- The place after the brace of a block or after a semicolon inside it. -/
structure AtBlock (s : Scopes) : Prop where
  inner : ∀ scope ∈ s.inner, scope.depth ≤ s.depth
  declared : ∀ d ∈ s.declared, d.2 < s.depth
  pending : s.pending = ∅
  top : ∀ scope ∈ s.inner.head?, scope.expression = false ∧ scope.depth = s.depth

def bind (s : Scopes) (names : List String) : Scopes :=
  match s.inner with
  | [] => { s with outer := s.outer.insertAll names }
  | top :: rest => { s with inner := { top with names := top.names.insertAll names } :: rest }

def declareAll (s : Scopes) (names : List String) : Scopes :=
  { s with declared := s.declared ++ names.map fun name => (name, s.depth) }

lemma declareAll_nil (s : Scopes) : s.declareAll [] = s := by simp [declareAll]

lemma atBlock_start : start.AtBlock := ⟨by simp [start], by simp [start], rfl, by simp [start]⟩

lemma Nested.atBlock (h : s.Nested) : (s.enter true).AtBlock where
  inner := (h.enter true).inner
  declared d hd := Nat.lt_succ_of_le (h.declared d hd)
  pending := rfl
  top scope hscope := by
    obtain rfl : (⟨s.pending, s.depth + 1, false⟩ : Scope) = scope := Option.some.inj hscope
    exact ⟨rfl, rfl⟩

namespace AtBlock

lemma nested (h : s.AtBlock) : s.Nested := ⟨h.inner, fun d hd => (h.declared d hd).le⟩

lemma endClosures_eq (h : s.AtBlock) : s.endClosures = s := by
  have hinner : s.inner.dropWhile (fun scope => scope.expression && scope.depth == s.depth) = s.inner := by
    cases hs : s.inner with
    | nil => rfl
    | cons top rest =>
      have htop := (h.top top (by simp [hs])).1
      rw [List.dropWhile_cons_of_neg]
      simp [htop]
  exact congrArg (fun inner => { s with inner }) hinner

lemma bind (h : s.AtBlock) (names : List String) : (s.bind names).AtBlock := by
  unfold Scopes.bind
  split
  · next hs => exact ⟨h.inner, h.declared, h.pending, h.top⟩
  · next top rest hs =>
    have htop := h.top top (by simp [hs])
    refine ⟨fun scope hscope => ?_, h.declared, h.pending, by simpa using htop⟩
    rcases List.mem_cons.1 hscope with rfl | hscope
    · exact htop.2.le
    · exact h.inner scope (hs ▸ List.mem_cons_of_mem _ hscope)

/-- A semicolon binds what the statement declares and takes away its closures. -/
lemma endStatement (h : s.AtBlock) (hgrows : (s.declareAll names).Grows t idle) :
    t.endStatement = s.bind names := by
  have hend : t.endClosures = s.declareAll names :=
    hgrows.endClosures (congrArg (fun s : Scopes => s.declareAll names) h.endClosures_eq)
  have hnone : s.declared.filter (fun d => d.2 == s.depth) = [] :=
    List.filter_eq_nil_iff.2 fun d hd => by simpa using (h.declared d hd).ne
  have hall : s.declared.filter (fun d => d.2 != s.depth) = s.declared :=
    List.filter_eq_self.2 fun d hd => by simpa using (h.declared d hd).ne
  have hdone : ((s.declareAll names).declared.filter fun d => d.2 == s.depth).map (·.1) = names := by
    simp [declareAll, hnone, List.filter_map, Function.comp_def]
  have hkept : (s.declareAll names).declared.filter (fun d => d.2 != s.depth) = s.declared := by
    simp [declareAll, hall, List.filter_map, Function.comp_def]
  rw [Scopes.endStatement, hend]
  simp only [show (s.declareAll names).depth = s.depth from rfl, hdone, hkept]
  rfl

/-- The scope that a declared name is bound in ends with its block. -/
lemma leave_bind (h : s.AtBlock) (hs : s.inner ≠ []) (names : List String) : (s.bind names).leave = s.leave := by
  obtain ⟨top, rest, hs⟩ := List.exists_cons_of_ne_nil hs
  have htop := (h.top top (by simp [hs])).2
  simp [Scopes.bind, hs, leave, htop]

/-- What a statement without a semicolon has declared ends with its block. -/
lemma leave_of_grows (hgrows : (s.declareAll names).Grows t idle) : t.leave = s.leave := by
  obtain ⟨extra, rfl, hextra⟩ := hgrows
  have hinner : (extra ++ s.inner).dropWhile (fun scope => decide (s.depth ≤ scope.depth)) =
      s.inner.dropWhile fun scope => decide (s.depth ≤ scope.depth) :=
    List.dropWhile_append_of_pos fun scope hs => decide_eq_true (hextra scope hs).2.1.ge
  have hdeclared : (s.declareAll names).declared.filter (fun d => decide (d.2 < s.depth)) =
      s.declared.filter fun d => decide (d.2 < s.depth) := by
    simp [declareAll, List.filter_map, Function.comp_def]
  exact congrArg₂ (fun inner declared => { s.leave with inner, declared }) hinner hdeclared

end AtBlock

lemma inner_bind_ne_nil (h : s.inner ≠ []) (names : List String) : (s.bind names).inner ≠ [] := by
  obtain ⟨top, rest, hs⟩ := List.exists_cons_of_ne_nil h
  simp [Scopes.bind, hs]

lemma Binds.bind (h : s.Binds bound) (names : List String) : (s.bind names).Binds (names ++ bound) := by
  intro name
  rw [List.mem_append, ← h name, isBound_iff, isBound_iff]
  unfold Scopes.bind
  split
  · simp only [Names.mem_insertAll]
    tauto
  · next top rest hs =>
    simp only [hs, List.mem_cons, exists_eq_or_imp, Names.mem_insertAll]
    tauto

end ReactiveNotebook.Analysis.Scopes
