import Mathlib.Tactic
import ReactiveNotebook.Proofs.Analysis.Phrase

/-!
# What the walk reads of a phrase

The walk binds the names that await their body at the first brace it meets. In the items of a loop that may be a brace
other than the one of the body. What the walk reads of a phrase is given here as a function of the tree, with the names
that await and the names in force, and compared with the free names: it holds them where no brace in the items of a
loop hides a name of the loop, and it is them where no brace stands in the items of a loop.
-/
namespace ReactiveNotebook.Analysis

/-- The names that still await their body. -/
def remaining (braceless : Bool) (awaiting : List String) : List String := if braceless then awaiting else []

@[simp] lemma remaining_nil (braceless : Bool) : remaining braceless [] = [] := ite_self _

lemma mem_of_mem_remaining {braceless : Bool} {awaiting : List String} {name : String}
    (h : name ∈ remaining braceless awaiting) : name ∈ awaiting := by
  cases braceless with
  | false => cases h
  | true => exact h

mutual

/-- The names that the walk reads in an expression, where `awaiting` await their body and `bound` are in force. -/
def Expression.taken (awaiting bound : List String) : Expression → List String
  | .variable name dollar => if !dollar && (isReserved name || bound.contains name) then [] else [name]
  | .number _ | .truth _ | .text _ => []
  | .embedded e rest => e.taken awaiting bound ++ rest.taken (remaining e.braceless awaiting) bound
  | .signed _ e | .parens e | .property e _ _ => e.taken awaiting bound
  | .binary left _ right => left.taken awaiting bound ++ right.taken (remaining left.braceless awaiting) bound
  | .array items | .call _ _ items => items.taken awaiting bound
  | .map entries => entries.taken [] (awaiting ++ bound)
  | .method e _ _ args => e.taken awaiting bound ++ args.taken (remaining e.braceless awaiting) bound
  | .index e _ place => e.taken awaiting bound ++ place.taken (remaining e.braceless awaiting) bound
  | .closure params e => e.taken awaiting (params ++ bound)
  | .blockClosure params body => body.taken (params ++ (awaiting ++ bound))
  | .block body => body.taken (awaiting ++ bound)
  | .choice condition yes =>
    condition.taken awaiting bound ++ yes.taken (remaining condition.braceless awaiting ++ bound)
  | .choiceElse condition yes no =>
    condition.taken awaiting bound ++
      (yes.taken (remaining condition.braceless awaiting ++ bound) ++ no.taken [] bound)

/-- The names that the walk reads in items. -/
def Items.taken (awaiting bound : List String) : Items → List String
  | .nil => []
  | .last _ e => e.taken awaiting bound
  | .cons _ e rest => e.taken awaiting bound ++ rest.taken (remaining e.braceless awaiting) bound

/-- The names that the walk reads in a statement. -/
def Statement.taken (bound : List String) : Statement → List String
  | .expression e | .define _ _ e => e.taken [] bound
  | .declare _ _ => []
  | .assign target _ value => target.taken [] bound ++ value.taken [] bound
  | .whileLoop condition body => condition.taken [] bound ++ body.taken bound
  | .loop body => body.taken bound
  | .forLoop name counter items body =>
    items.taken (loopNames name counter) bound ++
      body.taken (remaining items.braceless (loopNames name counter) ++ bound)
  | .tryCatch body name handler => body.taken bound ++ handler.taken (name.toList ++ bound)
  | .function _ params body => body.taken (params ++ bound)

/-- The names that the walk reads in statements. -/
def Statements.taken (bound : List String) : Statements → List String
  | .nil => []
  | .last s => s.taken bound
  | .cons s rest | .next s rest => s.taken bound ++ rest.taken (s.binds ++ bound)

end

attribute [simp] Expression.taken Items.taken Statement.taken Statements.taken

/-- A statement that ends in a block declares nothing. -/
lemma Statement.binds_of_endsInBlock {st : Statement} (h : st.endsInBlock = true) : st.binds = [] := by
  cases st <;> first | rfl | cases h

section
variable {name : String} {xs xs' ys ys' awaiting bound bound' inner found : List String}

lemma mem_append_imp (h : name ∈ xs → name ∈ xs') (h' : name ∈ ys → name ∈ ys') (hm : name ∈ xs ++ ys) :
    name ∈ xs' ++ ys' :=
  List.mem_append.2 ((List.mem_append.1 hm).imp h h')

mutual

/-- A name that occurs free occurs free wherever it is not bound, also when the bodies of functions count. -/
lemma Expression.mem_free {functions : Bool} (e : Expression) {bound bound' : List String}
    (h : name ∈ bound → name ∈ bound') (hm : name ∈ e.free functions bound') : name ∈ e.free true bound :=
  match e, hm with
  | .variable x _, hm => by
    simp only [Expression.free] at hm ⊢
    split at hm
    · cases hm
    · next hfree =>
      rw [List.eq_of_mem_singleton hm] at h
      rw [if_neg, List.eq_of_mem_singleton hm]
      · exact List.mem_singleton_self x
      · simp only [Bool.or_eq_true, List.contains_iff_mem] at hfree ⊢
        exact fun hx => hfree (hx.imp_right h)
  | .number _, hm | .truth _, hm | .text _, hm => hm
  | .signed _ e, hm | .parens e, hm | .property e _ _, hm => e.mem_free h hm
  | .closure params e, hm => e.mem_free (mem_append_imp id h) hm
  | .embedded e e', hm | .binary e _ e', hm | .index e _ e', hm =>
    mem_append_imp (e.mem_free h) (e'.mem_free h) hm
  | .array items, hm | .map items, hm | .call _ _ items, hm => items.mem_free h hm
  | .method e _ _ items, hm => mem_append_imp (e.mem_free h) (items.mem_free h) hm
  | .blockClosure params b, hm => b.mem_free (mem_append_imp id h) hm
  | .block b, hm => b.mem_free h hm
  | .choice e b, hm => mem_append_imp (e.mem_free h) (b.mem_free h) hm
  | .choiceElse e b no, hm =>
    mem_append_imp (e.mem_free h) (mem_append_imp (b.mem_free h) (no.mem_free h)) hm

lemma Items.mem_free {functions : Bool} (items : Items) {bound bound' : List String}
    (h : name ∈ bound → name ∈ bound') (hm : name ∈ items.free functions bound') : name ∈ items.free true bound :=
  match items, hm with
  | .nil, hm => hm
  | .last _ e, hm => e.mem_free h hm
  | .cons _ e items, hm => mem_append_imp (e.mem_free h) (items.mem_free h) hm

lemma Statement.mem_free {functions : Bool} (s : Statement) {bound bound' : List String}
    (h : name ∈ bound → name ∈ bound') (hm : name ∈ s.free functions bound') : name ∈ s.free true bound :=
  match s, hm with
  | .expression e, hm | .define _ _ e, hm => e.mem_free h hm
  | .declare _ _, hm => hm
  | .assign target _ e, hm => mem_append_imp (target.mem_free h) (e.mem_free h) hm
  | .whileLoop e b, hm => mem_append_imp (e.mem_free h) (b.mem_free h) hm
  | .loop b, hm => b.mem_free h hm
  | .forLoop _ _ e b, hm =>
    mem_append_imp (e.mem_free h) (b.mem_free (mem_append_imp id h)) hm
  | .tryCatch b _ handler, hm =>
    mem_append_imp (b.mem_free h) (handler.mem_free (mem_append_imp id h)) hm
  | .function _ _ b, hm => by
    simp only [Statement.free] at hm
    split at hm
    · exact b.mem_free (mem_append_imp id h) hm
    · cases hm

lemma Statements.mem_free {functions : Bool} (b : Statements) {bound bound' : List String}
    (h : name ∈ bound → name ∈ bound') (hm : name ∈ b.free functions bound') : name ∈ b.free true bound :=
  match b, hm with
  | .nil, hm => hm
  | .last s, hm => s.mem_free h hm
  | .cons s b, hm | .next s b, hm =>
    mem_append_imp (s.mem_free h) (b.mem_free (mem_append_imp id h)) hm

end

/-- A name that awaits and is not free at a brace is bound there when it is bound for the walk. -/
lemma mem_bound_of_mem_awaiting (hbound : name ∈ bound → name ∈ bound')
    (hawaiting : name ∈ awaiting → found.contains name = false) (hfound : name ∈ found)
    (hm : name ∈ awaiting ++ bound) : name ∈ bound' := by
  rcases List.mem_append.1 hm with hm | hm
  · exact absurd (hawaiting hm) (by simp [hfound])
  · exact hbound hm

lemma hidden_left {hidden hidden' : Bool} (h : name ∈ awaiting → (hidden || hidden') = false)
    (hm : name ∈ awaiting) : hidden = false :=
  (Bool.or_eq_false_iff.1 (h hm)).1

lemma hidden_remaining {braceless hidden hidden' : Bool} (h : name ∈ awaiting → (hidden || hidden') = false)
    (hm : name ∈ remaining braceless awaiting) : hidden' = false :=
  (Bool.or_eq_false_iff.1 (h (mem_of_mem_remaining hm))).2

mutual

/-- The walk reads a name that occurs free, unless a brace hides the name while it awaits. What is in force for the walk
under that name is bound (`bound'`), and so is what the phrase has bound since the names were put aside (`inner`). -/
lemma Expression.mem_taken (e : Expression) {awaiting bound inner bound' : List String} (hr : e.isRegular true = true)
    (h : name ∈ bound → name ∈ bound') (hi : name ∈ inner → name ∈ bound')
    (ha : name ∈ awaiting → e.hides name inner = false) (hm : name ∈ e.free true bound') :
    name ∈ e.taken awaiting bound :=
  match e, hr, ha, hm with
  | .variable x dollar, _, _, hm => by
    simp only [Expression.free] at hm
    split at hm
    · cases hm
    · next hfree =>
      obtain rfl := List.eq_of_mem_singleton hm
      rw [Expression.taken, if_neg]
      · exact List.mem_singleton_self name
      · simp only [Bool.and_eq_true, Bool.or_eq_true, List.contains_iff_mem] at hfree ⊢
        exact fun hx => hfree (hx.2.imp_right h)
  | .number _, _, _, hm | .truth _, _, _, hm | .text _, _, _, hm => hm
  | .signed _ e, hr, ha, hm | .parens e, hr, ha, hm => e.mem_taken hr h hi ha hm
  | .property e _ _, hr, ha, hm => e.mem_taken (Bool.and_eq_true_iff.1 hr).1 h hi ha hm
  | .closure _ e, hr, ha, hm =>
    e.mem_taken hr (mem_append_imp id h) (mem_append_imp id hi) ha hm
  | .embedded e e', hr, ha, hm | .index e _ e', hr, ha, hm =>
    have hr := Bool.and_eq_true_iff.1 hr
    mem_append_imp (e.mem_taken hr.1 h hi (hidden_left ha))
      (e'.mem_taken hr.2 h hi (hidden_remaining ha)) hm
  | .binary e _ e', hr, ha, hm =>
    have hr := Bool.and_eq_true_iff.1 (Bool.and_eq_true_iff.1 hr).1
    mem_append_imp (e.mem_taken hr.1 h hi (hidden_left ha))
      (e'.mem_taken hr.2 h hi (hidden_remaining ha)) hm
  | .method e _ _ items, hr, ha, hm =>
    have hr := Bool.and_eq_true_iff.1 hr
    mem_append_imp (e.mem_taken hr.1 h hi (hidden_left ha))
      (items.mem_taken hr.2 h hi (hidden_remaining ha)) hm
  | .array items, hr, ha, hm | .call _ _ items, hr, ha, hm =>
    items.mem_taken hr h hi ha hm
  -- at a brace what awaits is bound, but a name that is free there does not await
  | .map items, hr, ha, hm =>
    items.mem_taken hr (mem_bound_of_mem_awaiting h ha (items.mem_free hi hm)) id nofun hm
  | .blockClosure _ b, hr, ha, hm =>
    b.mem_taken hr (fun hx => (List.mem_append.1 hx).elim (List.mem_append_left _)
      fun hx => mem_bound_of_mem_awaiting (fun hx => List.mem_append_right _ (h hx)) ha
        (b.mem_free (mem_append_imp id hi) hm) hx) hm
  | .block b, hr, ha, hm =>
    b.mem_taken hr (mem_bound_of_mem_awaiting h ha (b.mem_free hi hm)) hm
  | .choice e b, hr, ha, hm =>
    have hr := Bool.and_eq_true_iff.1 hr
    mem_append_imp
      (e.mem_taken (Bool.and_eq_true_iff.1 hr.1).1 h hi (hidden_left ha))
      (fun hm => b.mem_taken hr.2 (mem_bound_of_mem_awaiting h (hidden_remaining ha) (b.mem_free hi hm)) hm) hm
  | .choiceElse e b no, hr, ha, hm =>
    have hr := Bool.and_eq_true_iff.1 hr
    have hr' := Bool.and_eq_true_iff.1 hr.1
    have ha' := hidden_left ha
    mem_append_imp
      (e.mem_taken (Bool.and_eq_true_iff.1 hr'.1).1 h hi (hidden_left ha'))
      (mem_append_imp
        (fun hm => b.mem_taken hr'.2 (mem_bound_of_mem_awaiting h (hidden_remaining ha') (b.mem_free hi hm)) hm)
        (no.mem_taken hr.2 h hi nofun)) hm

lemma Items.mem_taken (items : Items) {awaiting bound inner bound' : List String} (hr : items.isRegular true = true)
    (h : name ∈ bound → name ∈ bound') (hi : name ∈ inner → name ∈ bound')
    (ha : name ∈ awaiting → items.hides name inner = false) (hm : name ∈ items.free true bound') :
    name ∈ items.taken awaiting bound :=
  match items, hr, ha, hm with
  | .nil, _, _, hm => hm
  | .last _ e, hr, ha, hm => e.mem_taken hr h hi ha hm
  | .cons _ e items, hr, ha, hm =>
    have hr := Bool.and_eq_true_iff.1 hr
    mem_append_imp (e.mem_taken hr.1 h hi (hidden_left ha))
      (items.mem_taken hr.2 h hi (hidden_remaining ha)) hm

lemma Statement.mem_taken (s : Statement) {bound bound' : List String} (hr : s.isRegular true = true)
    (h : name ∈ bound → name ∈ bound') (hm : name ∈ s.free true bound') : name ∈ s.taken bound :=
  match s, hr, hm with
  | .expression e, hr, hm | .define _ _ e, hr, hm => e.mem_taken hr h id nofun hm
  | .declare _ _, _, hm => hm
  | .assign target _ e, hr, hm =>
    have hr := Bool.and_eq_true_iff.1 hr
    mem_append_imp (target.mem_taken hr.1 h id nofun) (e.mem_taken hr.2 h id nofun) hm
  | .whileLoop e b, hr, hm =>
    have hr := Bool.and_eq_true_iff.1 hr
    mem_append_imp (e.mem_taken (Bool.and_eq_true_iff.1 hr.1).1 h id nofun) (b.mem_taken hr.2 h) hm
  | .loop b, hr, hm => b.mem_taken hr h hm
  | .forLoop loopName counter e b, hr, hm =>
    have hr := Bool.and_eq_true_iff.1 hr
    have hr' := Bool.and_eq_true_iff.1 hr.1
    have hloop (hx : name ∈ loopNames loopName counter) : e.hides name [] = false := by
      simpa using List.all_eq_true.1 hr'.2 name hx
    mem_append_imp (e.mem_taken (Bool.and_eq_true_iff.1 hr'.1).1 h (fun hx : name ∈ [] => nomatch hx) hloop)
      (b.mem_taken hr.2 (mem_append_imp mem_of_mem_remaining h)) hm
  | .tryCatch b _ handler, hr, hm =>
    have hr := Bool.and_eq_true_iff.1 hr
    mem_append_imp (b.mem_taken (Bool.and_eq_true_iff.1 hr.1).1 h) (handler.mem_taken hr.2 (mem_append_imp id h)) hm
  | .function _ _ b, hr, hm => b.mem_taken hr (mem_append_imp id h) hm

lemma Statements.mem_taken (b : Statements) {bound bound' : List String} (hr : b.isRegular true = true)
    (h : name ∈ bound → name ∈ bound') (hm : name ∈ b.free true bound') : name ∈ b.taken bound :=
  match b, hr, hm with
  | .nil, _, hm => hm
  | .last s, hr, hm => s.mem_taken hr h hm
  | .cons s b, hr, hm =>
    have hr := Bool.and_eq_true_iff.1 hr
    mem_append_imp (s.mem_taken hr.1 h) (b.mem_taken hr.2 (mem_append_imp id h)) hm
  | .next s b, hr, hm =>
    have hr := Bool.and_eq_true_iff.1 (Bool.and_eq_true_iff.1 hr).1
    mem_append_imp (s.mem_taken hr.1 h) (b.mem_taken hr.2 (mem_append_imp id h)) hm

end

end

section
variable {awaiting bound : List String} {braceless braceless' : Bool}

lemma clear_left (h : awaiting = [] ∨ (braceless && braceless') = true) : awaiting = [] ∨ braceless = true :=
  h.imp_right fun h => (Bool.and_eq_true_iff.1 h).1

lemma clear_remaining (h : awaiting = [] ∨ (braceless && braceless') = true) :
    remaining braceless awaiting = [] ∨ braceless' = true := by
  refine h.imp (fun h => ?_) fun h => (Bool.and_eq_true_iff.1 h).2
  rw [h, remaining_nil]

lemma remaining_append_of_clear (h : awaiting = [] ∨ false = true) : remaining braceless awaiting ++ bound = bound := by
  rw [h.resolve_right nofun, remaining_nil, List.nil_append]

mutual

/-- Where no brace can take a name that awaits, the walk reads the free occurrences. -/
lemma Expression.taken_eq_free (e : Expression) {awaiting bound : List String} (hv : e.isValid bound = true)
    (hr : e.isRegular false = true) (hc : awaiting = [] ∨ e.braceless = true) :
    e.taken awaiting bound = e.free true bound :=
  match e, hv, hr, hc with
  | .variable name dollar, hv, _, _ => by
    obtain ⟨-, hdollar⟩ := Bool.and_eq_true_iff.1 hv
    cases dollar with
    | false => rfl
    | true =>
      have hfree : (isReserved name || bound.contains name) = false := by simpa [Bool.or_eq_false_iff] using hdollar
      rw [Expression.free, hfree]
      rfl
  | .number _, _, _, _ | .truth _, _, _, _ | .text _, _, _, _ => rfl
  | .signed _ e, hv, hr, hc | .parens e, hv, hr, hc => e.taken_eq_free hv hr hc
  | .property e _ _, hv, hr, hc =>
    e.taken_eq_free (Bool.and_eq_true_iff.1 (Bool.and_eq_true_iff.1 hv).1).1 (Bool.and_eq_true_iff.1 hr).1 hc
  | .closure _ e, hv, hr, hc =>
    e.taken_eq_free (Bool.and_eq_true_iff.1 (Bool.and_eq_true_iff.1 hv).1).2 hr hc
  | .embedded e e', hv, hr, hc =>
    have hv := Bool.and_eq_true_iff.1 (Bool.and_eq_true_iff.1 hv).1
    have hr := Bool.and_eq_true_iff.1 hr
    congrArg₂ _ (e.taken_eq_free hv.1 hr.1 (clear_left hc)) (e'.taken_eq_free hv.2 hr.2 (clear_remaining hc))
  | .binary e _ e', hv, hr, hc =>
    have hv := Bool.and_eq_true_iff.1 hv
    have hr := Bool.and_eq_true_iff.1 (Bool.and_eq_true_iff.1 hr).1
    congrArg₂ _ (e.taken_eq_free (Bool.and_eq_true_iff.1 hv.1).1 hr.1 (clear_left hc))
      (e'.taken_eq_free hv.2 hr.2 (clear_remaining hc))
  | .index e _ e', hv, hr, hc =>
    have hv := Bool.and_eq_true_iff.1 hv
    have hr := Bool.and_eq_true_iff.1 hr
    congrArg₂ _ (e.taken_eq_free (Bool.and_eq_true_iff.1 hv.1).1 hr.1 (clear_left hc))
      (e'.taken_eq_free hv.2 hr.2 (clear_remaining hc))
  | .array items, hv, hr, hc => items.taken_eq_free (Bool.and_eq_true_iff.1 hv).1 hr hc
  | .call _ _ items, hv, hr, hc =>
    items.taken_eq_free (Bool.and_eq_true_iff.1 (Bool.and_eq_true_iff.1 hv).1).2 hr hc
  | .map items, hv, hr, hc => by
    obtain rfl : awaiting = [] := hc.resolve_right nofun
    exact items.taken_eq_free (Bool.and_eq_true_iff.1 hv).1 hr (.inl rfl)
  | .method e _ _ items, hv, hr, hc =>
    have hv := Bool.and_eq_true_iff.1 (Bool.and_eq_true_iff.1 hv).1
    have hr := Bool.and_eq_true_iff.1 hr
    have hobject := Bool.and_eq_true_iff.1 (Bool.and_eq_true_iff.1 hv.1).1
    congrArg₂ _ (e.taken_eq_free hobject.1 hr.1 (clear_left hc)) (items.taken_eq_free hv.2 hr.2 (clear_remaining hc))
  | .blockClosure _ b, hv, hr, hc => by
    obtain rfl : awaiting = [] := hc.resolve_right nofun
    exact b.taken_eq_free (Bool.and_eq_true_iff.1 hv).2 hr
  | .block b, hv, hr, hc => by
    obtain rfl : awaiting = [] := hc.resolve_right nofun
    exact b.taken_eq_free hv hr
  | .choice e b, hv, hr, hc => by
    have hv := Bool.and_eq_true_iff.1 hv
    have hr := Bool.and_eq_true_iff.1 hr
    rw [Expression.taken, remaining_append_of_clear hc]
    exact congrArg₂ _ (e.taken_eq_free hv.1 (Bool.and_eq_true_iff.1 hr.1).1 (.inl (hc.resolve_right nofun)))
      (b.taken_eq_free hv.2 hr.2)
  | .choiceElse e b no, hv, hr, hc => by
    have hv := Bool.and_eq_true_iff.1 (Bool.and_eq_true_iff.1 hv).1
    have hr := Bool.and_eq_true_iff.1 hr
    have hv' := Bool.and_eq_true_iff.1 hv.1
    have hr' := Bool.and_eq_true_iff.1 hr.1
    rw [Expression.taken, remaining_append_of_clear hc]
    exact congrArg₂ _ (e.taken_eq_free hv'.1 (Bool.and_eq_true_iff.1 hr'.1).1 (.inl (hc.resolve_right nofun)))
      (congrArg₂ _ (b.taken_eq_free hv'.2 hr'.2) (no.taken_eq_free hv.2 hr.2 (.inl rfl)))

lemma Items.taken_eq_free (items : Items) {awaiting bound : List String} (hv : items.isValid bound = true)
    (hr : items.isRegular false = true) (hc : awaiting = [] ∨ items.braceless = true) :
    items.taken awaiting bound = items.free true bound :=
  match items, hv, hr, hc with
  | .nil, _, _, _ => rfl
  | .last _ e, hv, hr, hc => e.taken_eq_free (Bool.and_eq_true_iff.1 hv).2 hr hc
  | .cons _ e items, hv, hr, hc =>
    have hv := Bool.and_eq_true_iff.1 hv
    have hr := Bool.and_eq_true_iff.1 hr
    congrArg₂ _ (e.taken_eq_free (Bool.and_eq_true_iff.1 hv.1).2 hr.1 (clear_left hc))
      (items.taken_eq_free hv.2 hr.2 (clear_remaining hc))

lemma Statement.taken_eq_free (s : Statement) {bound : List String} (hv : s.isValid bound = true)
    (hr : s.isRegular false = true) : s.taken bound = s.free true bound :=
  match s, hv, hr with
  | .expression e, hv, hr => e.taken_eq_free hv hr (.inl rfl)
  | .define _ _ e, hv, hr => e.taken_eq_free (Bool.and_eq_true_iff.1 hv).2 hr (.inl rfl)
  | .declare _ _, _, _ => rfl
  | .assign target _ e, hv, hr =>
    have hv := Bool.and_eq_true_iff.1 hv
    have hr := Bool.and_eq_true_iff.1 hr
    have htarget := (Bool.and_eq_true_iff.1 (Bool.and_eq_true_iff.1 hv.1).1).1
    congrArg₂ _ (target.taken_eq_free htarget hr.1 (.inl rfl)) (e.taken_eq_free hv.2 hr.2 (.inl rfl))
  | .whileLoop e b, hv, hr =>
    have hv := Bool.and_eq_true_iff.1 hv
    have hr := Bool.and_eq_true_iff.1 hr
    congrArg₂ _ (e.taken_eq_free hv.1 (Bool.and_eq_true_iff.1 hr.1).1 (.inl rfl)) (b.taken_eq_free hv.2 hr.2)
  | .loop b, hv, hr => b.taken_eq_free hv hr
  | .forLoop _ _ e b, hv, hr => by
    have hv := Bool.and_eq_true_iff.1 hv
    have hr := Bool.and_eq_true_iff.1 hr
    have hr' := Bool.and_eq_true_iff.1 hr.1
    have hbraceless : e.braceless = true := hr'.2
    rw [Statement.taken, hbraceless]
    exact congrArg₂ _ (e.taken_eq_free (Bool.and_eq_true_iff.1 hv.1).2 (Bool.and_eq_true_iff.1 hr'.1).1
      (.inr hbraceless)) (b.taken_eq_free hv.2 hr.2)
  | .tryCatch b _ handler, hv, hr =>
    have hv := Bool.and_eq_true_iff.1 hv
    have hr := Bool.and_eq_true_iff.1 hr
    congrArg₂ _ (b.taken_eq_free (Bool.and_eq_true_iff.1 hv.1).1 (Bool.and_eq_true_iff.1 hr.1).1)
      (handler.taken_eq_free hv.2 hr.2)
  | .function _ _ b, hv, hr => b.taken_eq_free (Bool.and_eq_true_iff.1 hv).2 hr

lemma Statements.taken_eq_free (b : Statements) {bound : List String} (hv : b.isValid bound = true)
    (hr : b.isRegular false = true) : b.taken bound = b.free true bound :=
  match b, hv, hr with
  | .nil, _, _ => rfl
  | .last s, hv, hr => s.taken_eq_free hv hr
  | .cons s b, hv, hr =>
    have hv := Bool.and_eq_true_iff.1 hv
    have hr := Bool.and_eq_true_iff.1 hr
    congrArg₂ _ (s.taken_eq_free hv.1 hr.1) (b.taken_eq_free hv.2 hr.2)
  | .next s b, hv, hr => by
    have hv := Bool.and_eq_true_iff.1 hv
    have hr := Bool.and_eq_true_iff.1 (Bool.and_eq_true_iff.1 hr).1
    have hv' := Bool.and_eq_true_iff.1 hv.1
    have hbinds := Statement.binds_of_endsInBlock hv'.2
    rw [Statements.taken, Statements.free, hbinds]
    exact congrArg₂ _ (s.taken_eq_free hv'.1 hr.1) (b.taken_eq_free hv.2 hr.2)

end

end

end ReactiveNotebook.Analysis
