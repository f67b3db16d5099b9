import Mathlib.Data.List.DropRight
import Mathlib.Tactic
import ReactiveNotebook.Store.Basic

/-!
# Lifetimes of variables

A variable comes into being by a commit or a subscription, and lives until it is dropped; after that it may come into
being again. From the calls that a store has had it can be told whether a variable lives, how often it has been
committed or cleared in its present life, and which subscriptions to it go on.
-/
namespace ReactiveNotebook.Store

open Script (Value)

/-- A call of a store. Subscriptions are numbered from 0 in the order in which they are made. -/
inductive Event where
  | subscribe (name : String) (forward : Option String)
  /-- The handle of a subscription is used to end it, perhaps not for the first time. -/
  | unsubscribe (k : ℕ)
  | commit (name : String) (slot : Slot) (now : ℕ)
  | clear (name : String) (drop : Bool) (now : ℕ)
  | write (name : String) (value : Value) (forced : Bool) (now : ℕ)
  | writeNow (name : String) (value : Value) (now : ℕ)
  | settle
  | drain

namespace Event

def isSubscription : Event → Bool
  | subscribe _ _ => true
  | _ => false

/-- Whether a variable is there after the call, even if it was not before. -/
def makes (name : String) : Event → Bool
  | subscribe x _ | commit x _ _ => x == name
  | _ => false

/-- Whether the call gives a variable a new slot. -/
def sets (name : String) : Event → Bool
  | commit x _ _ | clear x _ _ => x == name
  | _ => false

def drops (name : String) : Event → Bool
  | clear x drop _ => x == name && drop
  | _ => false

def ends (k : ℕ) : Event → Bool
  | unsubscribe i => k == i
  | _ => false

end Event

/-- The id under which a store keeps a subscription. -/
def subscriberId (k : ℕ) : ℕ := k + 1

/-- The calls that a store has had, in order. -/
abbrev History := List Event

namespace History

variable {h : History} {event : Event} {name x : String} {k : ℕ}

def subscriptions (h : History) : ℕ := h.countP Event.isSubscription

/-- The calls since a variable came into being, which it does by a commit or a subscription when it is not there.
There are none if it is not there now. -/
def lifetime (h : History) (name : String) : History :=
  (h.rtakeWhile fun event => !event.drops name).dropWhile fun event => !event.makes name

/-- A subscription goes on: it was made to the variable, and since then neither has it been ended nor the variable
been dropped. -/
def Listens (h : History) (name : String) (k : ℕ) : Prop :=
  ∃ before forward after, h = before ++ .subscribe name forward :: after ∧ subscriptions before = k ∧
    ∀ event ∈ after, event.ends k = false ∧ event.drops name = false

lemma subscriptions_concat : subscriptions (h ++ [event]) = h.subscriptions + event.isSubscription.toNat := by
  unfold subscriptions
  rw [List.countP_append]
  cases event <;> rfl

lemma lifetime_concat_of_drops (hdrops : event.drops name = true) : lifetime (h ++ [event]) name = [] := by
  simp [lifetime, hdrops]

lemma lifetime_concat (hdrops : event.drops name = false) :
    lifetime (h ++ [event]) name =
      if (h.lifetime name).isEmpty && !event.makes name then [] else h.lifetime name ++ [event] := by
  rw [lifetime, List.rtakeWhile_concat, if_pos (by rw [hdrops]; rfl), List.dropWhile_append]
  change (if (h.lifetime name).isEmpty = true then _ else h.lifetime name ++ [event]) = _
  cases hpast : (h.lifetime name).isEmpty with
  | true => cases hmakes : event.makes name <;> simp [List.dropWhile, hmakes, List.isEmpty_iff.mp hpast]
  | false => simp

lemma listens_concat :
    Listens (h ++ [event]) name k ↔
      h.Listens name k ∧ event.ends k = false ∧ event.drops name = false ∨
        ∃ forward, event = .subscribe name forward ∧ h.subscriptions = k := by
  constructor
  · rintro ⟨before, forward, after, heq, hk, hafter⟩
    rcases List.eq_nil_or_concat after with rfl | ⟨after, last, rfl⟩
    · obtain ⟨rfl, hlast⟩ := List.append_inj' heq rfl
      exact .inr ⟨forward, List.singleton_inj.mp hlast, hk⟩
    · rw [List.concat_eq_append, ← List.cons_append, ← List.append_assoc] at heq
      obtain ⟨rfl, hlast⟩ := List.append_inj' heq rfl
      obtain rfl := List.singleton_inj.mp hlast
      simp only [List.concat_eq_append, List.mem_append, List.mem_singleton] at hafter
      exact .inl ⟨⟨before, forward, after, rfl, hk, fun e he => hafter e (.inl he)⟩, hafter event (.inr rfl)⟩
  · rintro (⟨⟨before, forward, after, rfl, hk, hafter⟩, hevent⟩ | ⟨forward, rfl, hk⟩)
    · refine ⟨before, forward, after ++ [event], by simp, hk, fun e he => ?_⟩
      rcases List.mem_append.mp he with he | he
      · exact hafter e he
      · rwa [List.mem_singleton.mp he]
    · exact ⟨h, forward, [], rfl, hk, nofun⟩

/-- Only subscriptions that have been made go on. -/
lemma Listens.lt (hl : h.Listens name k) : k < h.subscriptions := by
  obtain ⟨before, forward, after, rfl, rfl, -⟩ := hl
  simp [subscriptions, List.countP_append, List.countP_cons, Event.isSubscription]

/-- Only to a variable that is there do subscriptions go on. -/
lemma Listens.lifetime_ne_nil (hl : h.Listens name k) : h.lifetime name ≠ [] := by
  induction h using List.reverseRecOn with
  | nil =>
    obtain ⟨before, forward, after, heq, -⟩ := hl
    simp at heq
  | append_singleton h event ih =>
    rcases listens_concat.mp hl with ⟨hl, -, hdrops⟩ | ⟨forward, rfl, -⟩
    · rw [lifetime_concat hdrops]
      simp [ih hl]
    · rw [lifetime_concat rfl]
      simp [Event.makes]

open scoped Classical in
/-- The subscriptions to a variable that go on, in the order in which they were made. -/
noncomputable def listeners (h : History) (name : String) : List ℕ :=
  (List.range h.subscriptions).filter fun k => h.Listens name k

lemma mem_listeners : k ∈ h.listeners name ↔ h.Listens name k := by
  simp only [listeners, List.mem_filter, List.mem_range, decide_eq_true_eq]
  exact ⟨fun hk => hk.2, fun hl => ⟨hl.lt, hl⟩⟩

lemma listeners_of_lifetime_nil (hlife : h.lifetime name = []) : h.listeners name = [] :=
  List.eq_nil_iff_forall_not_mem.mpr fun _ hk => (mem_listeners.mp hk).lifetime_ne_nil hlife

lemma listeners_subscribe (h : History) (name x : String) (forward : Option String) :
    listeners (h ++ [.subscribe name forward]) x =
      if x = name then h.listeners x ++ [h.subscriptions] else h.listeners x := by
  classical
  have hold : ((List.range h.subscriptions).filter fun k => Listens (h ++ [.subscribe name forward]) x k) =
      h.listeners x := by
    refine List.filter_congr fun k hk => decide_eq_decide.mpr ?_
    rw [listens_concat]
    simp [Event.ends, Event.drops, (List.mem_range.mp hk).ne']
  have hnew : Listens (h ++ [.subscribe name forward]) x h.subscriptions ↔ x = name := by
    rw [listens_concat]
    constructor
    · rintro (⟨hl, -⟩ | ⟨forward', hevent, -⟩)
      · exact absurd hl.lt (lt_irrefl _)
      · exact (Event.subscribe.inj hevent).1.symm
    · rintro rfl
      exact .inr ⟨forward, rfl, rfl⟩
  rw [listeners, subscriptions_concat, Event.isSubscription, Bool.toNat_true, List.range_succ, List.filter_append, hold]
  by_cases hx : x = name
  · simp [hnew.mpr hx, if_pos hx]
  · simp [mt hnew.mp hx, if_neg hx]

lemma listeners_concat (hevent : event.isSubscription = false) (hdrops : event.drops x = false) :
    listeners (h ++ [event]) x = (h.listeners x).filter fun k => !event.ends k := by
  classical
  have hlistens : ∀ k, Listens (h ++ [event]) x k ↔ h.Listens x k ∧ event.ends k = false := by
    intro k
    rw [listens_concat]
    constructor
    · rintro (⟨hl, hends, -⟩ | ⟨forward, rfl, -⟩)
      · exact ⟨hl, hends⟩
      · cases hevent
    · exact fun ⟨hl, hends⟩ => .inl ⟨hl, hends, hdrops⟩
  rw [listeners, subscriptions_concat, hevent, Bool.toNat_false, Nat.add_zero, listeners, List.filter_filter]
  refine List.filter_congr fun k _ => ?_
  simp [hlistens, and_comm]

/-- The number of commits and clears of a variable since it came into being. -/
def changes (h : History) (name : String) : ℕ := (h.lifetime name).countP (Event.sets name)

/-- The changes of a variable with the ids of its subscriptions that go on, if the variable is there. -/
noncomputable def tally (h : History) (name : String) : Option (ℕ × List ℕ) :=
  if (h.lifetime name).isEmpty then none else some (h.changes name, (h.listeners name).map subscriberId)

lemma changes_of_lifetime_nil (hlife : h.lifetime name = []) : h.changes name = 0 := by
  rw [changes, hlife, List.countP_nil]

lemma tally_of_makes (hdrops : event.drops name = false) (hmakes : event.makes name = true) :
    tally (h ++ [event]) name =
      some (h.changes name + (event.sets name).toNat, (listeners (h ++ [event]) name).map subscriberId) := by
  have hlife : lifetime (h ++ [event]) name = h.lifetime name ++ [event] := by
    rw [lifetime_concat hdrops, hmakes]
    simp
  rw [tally, changes, hlife, List.countP_append, List.countP_singleton, changes]
  cases event.sets name <;> simp

lemma tally_of_keeps (hdrops : event.drops name = false) (hmakes : event.makes name = false) :
    tally (h ++ [event]) name =
      (h.tally name).map fun p =>
        (p.1 + (event.sets name).toNat, (listeners (h ++ [event]) name).map subscriberId) := by
  rw [tally, changes, lifetime_concat hdrops, hmakes, tally]
  cases hlife : (h.lifetime name).isEmpty with
  | true => simp
  | false =>
    simp only [Bool.not_false, Bool.and_true, Bool.false_eq_true, if_false, Option.map_some, List.countP_append,
      List.countP_singleton, changes]
    cases event.sets name <;> simp

/-- What has nothing to do with a variable does not count for it. -/
lemma tally_of_foreign (hevent : event.isSubscription = false) (hdrops : event.drops x = false)
    (hmakes : event.makes x = false) (hsets : event.sets x = false) (hends : ∀ k, event.ends k = false) :
    tally (h ++ [event]) x = h.tally x := by
  rw [tally_of_keeps hdrops hmakes, listeners_concat hevent hdrops, hsets, tally]
  cases (h.lifetime x).isEmpty <;> simp [hends]

lemma tally_subscribe (h : History) (name x : String) (forward : Option String) :
    tally (h ++ [.subscribe name forward]) x =
      if x = name then some (h.changes name, (h.listeners name).map subscriberId ++ [subscriberId h.subscriptions])
      else h.tally x := by
  by_cases hx : x = name
  · subst hx
    rw [tally_of_makes rfl (by simp [Event.makes]), listeners_subscribe]
    simp [Event.sets]
  · rw [tally_of_keeps rfl (by simp [Event.makes, Ne.symm hx]), listeners_subscribe, if_neg hx, if_neg hx, tally]
    cases (h.lifetime x).isEmpty <;> simp [Event.sets]

lemma tally_commit (h : History) (name x : String) (slot : Slot) (now : ℕ) :
    tally (h ++ [.commit name slot now]) x =
      if x = name then some (h.changes name + 1, (h.listeners name).map subscriberId) else h.tally x := by
  by_cases hx : x = name
  · subst hx
    rw [tally_of_makes rfl (by simp [Event.makes]), listeners_concat rfl rfl]
    simp [Event.sets, Event.ends]
  · rw [if_neg hx]
    exact tally_of_foreign rfl rfl (by simp [Event.makes, Ne.symm hx]) (by simp [Event.sets, Ne.symm hx]) fun _ => rfl

lemma tally_clear (h : History) (name x : String) (drop : Bool) (now : ℕ) :
    tally (h ++ [.clear name drop now]) x =
      if x = name then if drop then none else (h.tally name).map fun p => (p.1 + 1, p.2) else h.tally x := by
  by_cases hx : x = name
  · subst hx
    cases drop with
    | true =>
      rw [tally, lifetime_concat_of_drops (by simp [Event.drops])]
      simp
    | false =>
      have hdrops : (Event.clear x false now).drops x = false := by simp [Event.drops]
      rw [tally_of_keeps hdrops rfl, listeners_concat rfl hdrops, tally]
      cases (h.lifetime x).isEmpty <;> simp [Event.sets, Event.ends]
  · rw [if_neg hx]
    exact tally_of_foreign rfl (by simp [Event.drops, Ne.symm hx]) rfl (by simp [Event.sets, Ne.symm hx]) fun _ => rfl

lemma tally_unsubscribe (h : History) (k : ℕ) (x : String) :
    tally (h ++ [.unsubscribe k]) x = (h.tally x).map fun p => (p.1, p.2.filter (· != subscriberId k)) := by
  rw [tally_of_keeps rfl rfl, listeners_concat rfl rfl, tally]
  cases (h.lifetime x).isEmpty with
  | true => rfl
  | false =>
    simp only [Bool.false_eq_true, if_false, Option.map_some, List.filter_map, Event.sets, Event.ends]
    congr 4
    funext i
    simp [subscriberId, bne]

/-- Taking away a subscription that does not go on makes no difference. -/
lemma tally_of_not_listens (hk : ¬ h.Listens x k) :
    ((h.tally x).map fun p => (p.1, p.2.filter (· != subscriberId k))) = h.tally x := by
  have hfilter : ((h.listeners x).map subscriberId).filter (· != subscriberId k) =
      (h.listeners x).map subscriberId := by
    rw [List.filter_eq_self]
    intro i hi
    obtain ⟨j, hj, rfl⟩ := List.mem_map.mp hi
    have hne : j ≠ k := fun heq => hk (heq ▸ mem_listeners.mp hj)
    simpa [subscriberId] using hne
  rw [tally]
  cases (h.lifetime x).isEmpty with
  | true => rfl
  | false => simp [hfilter]

end History

end ReactiveNotebook.Store
