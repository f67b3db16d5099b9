import ReactiveNotebook.Proofs.Store.Burst
import ReactiveNotebook.Proofs.Store.Commit

/-!
# Notices to subscribers

Subscribers are told one after the other, and every notice is logged. A subscriber that forwards what it is told
writes it to another variable, as a host would. Commits and clears reach the queue of host writes in no other way.
-/
namespace ReactiveNotebook

/-- A subscriber is told of a slot that has been committed to a variable. -/
structure Notice where
  subscriber : Subscriber
  name : String
  slot : Slot

namespace Notice

def logged (notice : Notice) : Notification := ⟨notice.subscriber.id, notice.name, notice.slot⟩

/-- What the subscriber writes in turn. -/
def echo? (now : ℕ) (notice : Notice) : Option Entry :=
  notice.subscriber.forward.map fun target => .write ⟨target, notice.slot.toValue, false⟩ now

end Notice

/-- What subscribers write who are told. -/
def echoes (now : ℕ) (notices : List Notice) : Burst := notices.filterMap (Notice.echo? now)

namespace Store

variable {s t u : Store} {notices notices' : List Notice} {now : ℕ} {name : String} {slot : Slot} {drop : Bool}

/-- The notices of a change: they have been logged, and whoever was told had subscribed to the variable. -/
structure Notifies (notices : List Notice) (s t : Store) : Prop where
  notified : t.notified = (notices.map Notice.logged).reverse ++ s.notified
  subscribed : ∀ notice ∈ notices, notice.subscriber ∈ s.subscribersOf notice.name

/-- Subscribers are told, and what they write reaches the queue. -/
structure Echoes (now : ℕ) (notices : List Notice) (s t : Store) : Prop extends Notifies notices s t where
  kept : ∀ x, t.subscribersOf x ⊆ s.subscribersOf x
  queue : t.queue = (echoes now notices).foldl WriteQueue.receive s.queue

/-- Nobody is told when only the entries change. -/
lemma Echoes.of_entries (hnotified : t.notified = s.notified) (hqueue : t.queue = s.queue)
    (hkept : ∀ x, t.subscribersOf x ⊆ s.subscribersOf x) : Echoes now [] s t :=
  ⟨⟨hnotified, nofun⟩, hkept, hqueue⟩

lemma Echoes.refl (now : ℕ) (s : Store) : Echoes now [] s s := .of_entries rfl rfl fun _ => List.Subset.refl _

lemma Echoes.trans (h : Echoes now notices s t) (h' : Echoes now notices' t u) :
    Echoes now (notices ++ notices') s u where
  notified := by
    rw [h'.notified, h.notified, List.map_append, List.reverse_append, List.append_assoc]
  subscribed notice hnotice :=
    (List.mem_append.mp hnotice).elim (h.subscribed notice) fun hnotice => h.kept _ (h'.subscribed notice hnotice)
  kept x := List.Subset.trans (h'.kept x) (h.kept x)
  queue := by
    rw [h'.queue, h.queue, echoes, echoes, echoes, List.filterMap_append, List.foldl_append]

lemma subscribersOf_congr (h : t.entries = s.entries) (x : String) : t.subscribersOf x = s.subscribersOf x := by
  rw [subscribersOf, subscribersOf, find?_congr h]

lemma echoes_notify {sub : Subscriber} (h : sub ∈ s.subscribersOf name) :
    Echoes now [⟨sub, name, slot⟩] s (notify name slot now s sub) where
  notified := by
    unfold notify
    split <;> rfl
  subscribed notice hnotice := by rwa [List.mem_singleton.mp hnotice]
  kept x := by
    rw [subscribersOf_congr (entries_notify ..)]
    exact List.Subset.refl _
  queue := by
    unfold notify
    split <;> next hforward => simp [echoes, Notice.echo?, hforward, write, WriteQueue.receive]

lemma echoes_foldl_notify {subs : List Subscriber} (h : subs ⊆ s.subscribersOf name) :
    Echoes now (subs.map (⟨·, name, slot⟩)) s (subs.foldl (notify name slot now) s) := by
  induction subs generalizing s with
  | nil => exact .refl now s
  | cons sub subs ih =>
    refine (echoes_notify (h List.mem_cons_self)).trans (ih fun x hx => ?_)
    rw [subscribersOf_congr (entries_notify ..)]
    exact h (List.mem_cons_of_mem _ hx)

lemma subscribersOf_update {f : Variable → Variable} (hname : ∀ v, (f v).name = v.name)
    (hsubs : ∀ v, (f v).subscribers = v.subscribers) (x : String) :
    (s.update name f).subscribersOf x = s.subscribersOf x := by
  unfold subscribersOf
  rw [find?_update hname]
  by_cases hx : x = name
  · subst hx
    cases s.find? x <;> simp [hsubs]
  · rw [if_neg hx]

lemma notified_update (s : Store) (name : String) (f : Variable → Variable) :
    (s.update name f).notified = s.notified := by
  unfold update
  split <;> rfl

lemma queue_update (s : Store) (name : String) (f : Variable → Variable) : (s.update name f).queue = s.queue := by
  unfold update
  split <;> rfl

/-- A variable changes and all its subscribers are told. -/
lemma echoes_tell {f : Variable → Variable} (hname : ∀ v, (f v).name = v.name)
    (hsubs : ∀ v, (f v).subscribers = v.subscribers) :
    ∃ notices, Echoes now notices s ((s.update name f).notifyAll name slot now) := by
  have hupdate : Echoes now [] s (s.update name f) := by
    refine .of_entries (notified_update s name f) (queue_update s name f) fun x => ?_
    rw [subscribersOf_update hname hsubs]
    exact List.Subset.refl _
  exact ⟨_, hupdate.trans (echoes_foldl_notify (List.Subset.refl _))⟩

lemma echoes_commit : ∃ notices, Echoes now notices s (s.commit name slot now).1 :=
  echoes_tell (f := fun v => { v with slot, version := v.version + 1 }) (fun _ => rfl) fun _ => rfl

lemma echoes_drop : Echoes now [] s { s with entries := s.entries.filter (·.name != name) } := by
  refine .of_entries rfl rfl fun x => ?_
  unfold subscribersOf
  rw [find?_drop]
  by_cases hx : x = name
  · simp only [if_pos hx]
    exact List.nil_subset _
  · simp only [if_neg hx]
    exact List.Subset.refl _

lemma echoes_clear : ∃ notices, Echoes now notices s (s.clear name drop now).1 := by
  unfold clear
  cases s.find? name with
  | none => exact ⟨_, .refl now s⟩
  | some v =>
    obtain ⟨notices, hclear⟩ : ∃ notices, Echoes now notices s ((s.update name fun v =>
        { v with slot := .undefined, version := v.version + 1 }).notifyAll name .undefined now) :=
      echoes_tell (f := fun v => { v with slot := .undefined, version := v.version + 1 }) (fun _ => rfl) fun _ => rfl
    cases drop with
    | false => exact ⟨_, hclear⟩
    | true => exact ⟨_, hclear.trans echoes_drop⟩

/-- Nobody is told when somebody subscribes, and nothing is written. -/
lemma notifies_subscribe (s : Store) (name : String) (forward : Option String) :
    Notifies [] s (s.subscribe name forward).1 ∧ (s.subscribe name forward).1.queue = s.queue :=
  ⟨⟨notified_update s name _, nofun⟩, queue_update s name _⟩

lemma notifies_unsubscribe (s : Store) (h : Subscription) :
    Notifies [] s (s.unsubscribe h).1 ∧ (s.unsubscribe h).1.queue = s.queue := by
  unfold unsubscribe
  split <;> exact ⟨⟨rfl, nofun⟩, rfl⟩

/-- No subscriber writes what it is told of. -/
def Mute (s : Store) : Prop := ∀ name, ∀ sub ∈ s.subscribersOf name, sub.forward = none

lemma Mute.echoes_eq_nil (h : s.Mute) (hnotices : Notifies notices s t) : echoes now notices = [] := by
  refine List.filterMap_eq_nil_iff.mpr fun notice hnotice => ?_
  rw [Notice.echo?, h _ _ (hnotices.subscribed notice hnotice)]
  rfl

lemma Echoes.mute (h : Echoes now notices s t) (hs : s.Mute) : t.Mute ∧ t.queue = s.queue := by
  refine ⟨fun name sub hsub => hs name sub (h.kept name hsub), ?_⟩
  rw [h.queue, hs.echoes_eq_nil h.toNotifies]
  rfl

end Store

end ReactiveNotebook
