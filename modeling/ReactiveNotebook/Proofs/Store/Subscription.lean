import ReactiveNotebook.Proofs.Store.Lifetime
import ReactiveNotebook.Proofs.Store.Notices

/-!
# Subscriptions

Whoever has subscribed to a variable is told of every commit and every clear, until the subscription is ended or the
variable is dropped. A store finds a subscription by an id that it never gives away twice, so a handle that is used
late or twice does no harm to others.
-/
namespace ReactiveNotebook.Store

variable {s : Store} {name x : String} {slot : Slot} {drop : Bool} {now : ℕ} {forward : Option String}

/-- The version of a variable with the ids of its subscribers, if the variable is there. -/
def standing (s : Store) (name : String) : Option (ℕ × List ℕ) :=
  (s.find? name).map fun v => (v.version, v.subscribers.map (·.id))

lemma version_eq_standing : s.version name = ((s.standing name).map (·.1)).getD 0 := by
  unfold version standing
  cases s.find? name <;> rfl

lemma ids_eq_standing : (s.subscribersOf name).map (·.id) = ((s.standing name).map (·.2)).getD [] := by
  unfold subscribersOf standing
  cases s.find? name <;> rfl

lemma standing_congr {t : Store} (h : s.entries = t.entries) : s.standing x = t.standing x := by
  rw [standing, standing, find?_congr h]

lemma standing_subscribe :
    (s.subscribe name forward).1.standing x =
      if x = name then some (s.version name, (s.subscribersOf name).map (·.id) ++ [s.nextSubscriber])
      else s.standing x := by
  change ((s.update name _).find? x).map _ = _
  rw [find?_update (by simp)]
  by_cases hx : x = name
  · simp only [if_pos hx, version, subscribersOf]
    cases s.find? name <;> simp
  · simp only [if_neg hx, standing]

lemma standing_commit :
    (s.commit name slot now).1.standing x =
      if x = name then some (s.version name + 1, (s.subscribersOf name).map (·.id)) else s.standing x := by
  unfold commit
  rw [standing_congr (entries_notifyAll ..), standing,
    find?_update (f := fun v => { v with slot, version := v.version + 1 }) fun _ => rfl]
  by_cases hx : x = name
  · simp only [if_pos hx, version, subscribersOf]
    cases s.find? name <;> simp
  · simp only [if_neg hx, standing]

lemma standing_clear :
    (s.clear name drop now).1.standing x =
      if x = name then if drop then none else (s.standing name).map fun p => (p.1 + 1, p.2)
      else s.standing x := by
  by_cases hx : x = name
  · subst hx
    unfold clear standing
    cases hv : s.find? x with
    | none => cases drop <;> simp [hv]
    | some v =>
      cases drop with
      | true =>
        simp only [if_true]
        rw [find?_drop, if_pos rfl, Option.map_none]
      | false =>
        simp only [Bool.false_eq_true, if_false, if_true]
        rw [find?_congr (entries_notifyAll ..),
          find?_update (f := fun v => { v with slot := .undefined, version := v.version + 1 }) fun _ => rfl]
        simp [hv]
  · rw [if_neg hx, standing, find?_clear_of_ne hx, standing]

lemma standing_unsubscribe (h : Subscription) :
    (s.unsubscribe h).1.standing x =
      if h.active = true ∧ x = h.name then (s.standing x).map fun p => (p.1, p.2.filter (· != h.id))
      else s.standing x := by
  unfold standing
  rw [find?_unsubscribe]
  cases s.find? x with
  | none => simp
  | some v => split <;> simp [List.filter_map, Function.comp_def]

lemma subscribersOf_unsubscribe (h : Subscription) :
    (s.unsubscribe h).1.subscribersOf x =
      if h.active = true ∧ x = h.name then (s.subscribersOf x).filter (·.id != h.id) else s.subscribersOf x := by
  unfold subscribersOf
  rw [find?_unsubscribe]
  cases s.find? x with
  | none => simp
  | some v =>
    simp only [Option.map_some]
    split <;> rfl

lemma nextSubscriber_notifyAll : (s.notifyAll name slot now).nextSubscriber = s.nextSubscriber := by
  have hfold : ∀ (subs : List Subscriber) (t : Store),
      (subs.foldl (notify name slot now) t).nextSubscriber = t.nextSubscriber := by
    intro subs
    induction subs with
    | nil => exact fun _ => rfl
    | cons sub subs ih =>
      intro t
      rw [List.foldl_cons, ih]
      unfold notify
      split <;> rfl
  exact hfold _ s

lemma nextSubscriber_update (f : Variable → Variable) : (s.update name f).nextSubscriber = s.nextSubscriber := by
  unfold update
  split <;> rfl

lemma nextSubscriber_commit : (s.commit name slot now).1.nextSubscriber = s.nextSubscriber :=
  nextSubscriber_notifyAll.trans (nextSubscriber_update _)

lemma nextSubscriber_clear : (s.clear name drop now).1.nextSubscriber = s.nextSubscriber := by
  unfold clear
  cases s.find? name with
  | none => rfl
  | some v => cases drop <;> exact nextSubscriber_notifyAll.trans (nextSubscriber_update _)

lemma nextSubscriber_unsubscribe (h : Subscription) : (s.unsubscribe h).1.nextSubscriber = s.nextSubscriber := by
  unfold unsubscribe
  split <;> rfl

lemma unsubscribe_id (h : Subscription) : (s.unsubscribe h).2.id = h.id := by
  unfold unsubscribe
  split <;> rfl

/-- The log with one call for each subscriber, in order. -/
lemma notified_notifyAll :
    (s.notifyAll name slot now).notified =
      (((s.subscribersOf name).map (·.id)).map (⟨·, name, slot⟩)).reverse ++ s.notified := by
  have htold : (s.notifyAll name slot now).notified =
      (((s.subscribersOf name).map (⟨·, name, slot⟩)).map Notice.logged).reverse ++ s.notified :=
    (echoes_foldl_notify (List.Subset.refl (s.subscribersOf name))).notified
  rw [htold, List.map_map, List.map_map]
  rfl

lemma notified_tell {f : Variable → Variable} (hname : ∀ v, (f v).name = v.name)
    (hsubs : ∀ v, (f v).subscribers = v.subscribers) :
    ((s.update name f).notifyAll name slot now).notified =
      (((s.subscribersOf name).map (·.id)).map (⟨·, name, slot⟩)).reverse ++ s.notified := by
  rw [notified_notifyAll, subscribersOf_update hname hsubs, notified_update]

lemma notified_commit :
    (s.commit name slot now).1.notified =
      (((s.subscribersOf name).map (·.id)).map (⟨·, name, slot⟩)).reverse ++ s.notified :=
  notified_tell (f := fun v => { v with slot, version := v.version + 1 }) (fun _ => rfl) fun _ => rfl

lemma notified_clear :
    (s.clear name drop now).1.notified =
      (((s.subscribersOf name).map (·.id)).map (⟨·, name, .undefined⟩)).reverse ++ s.notified := by
  have htell : ((s.update name fun v => { v with slot := .undefined, version := v.version + 1 }).notifyAll
      name .undefined now).notified =
        (((s.subscribersOf name).map (·.id)).map (⟨·, name, .undefined⟩)).reverse ++ s.notified :=
    notified_tell (fun _ => rfl) fun _ => rfl
  unfold clear
  cases hv : s.find? name with
  | none => simp [subscribersOf, hv]
  | some v => cases drop <;> exact htell

/-- A store with the handles of the subscriptions that were made, in order. -/
structure Issued where
  store : Store
  handles : List Subscription

namespace Issued

/-- What a call makes of the store and of the handles. -/
def receive (s : Issued) : Event → Issued
  | .subscribe name forward =>
    let (store, h) := s.store.subscribe name forward
    ⟨store, s.handles ++ [h]⟩
  | .unsubscribe k =>
    match s.handles[k]? with
    | none => s
    | some h =>
      let (store, h) := s.store.unsubscribe h
      ⟨store, s.handles.set k h⟩
  | .commit name slot now => { s with store := (s.store.commit name slot now).1 }
  | .clear name drop now => { s with store := (s.store.clear name drop now).1 }
  | .write name value forced now => { s with store := s.store.write name value forced now }
  | .writeNow name value now => { s with store := s.store.writeNow name value now }
  | .settle => { s with store := { s.store with queue := s.store.queue.settle } }
  | .drain => { s with store := { s.store with queue := s.store.queue.drained } }

variable {t : Issued} {k : ℕ}

lemma receive_unsubscribe_of_none (hk : t.handles[k]? = none) : t.receive (.unsubscribe k) = t := by
  simp only [receive, hk]

lemma receive_unsubscribe_of_some {handle : Subscription} (hk : t.handles[k]? = some handle) :
    t.receive (.unsubscribe k) =
      ⟨(t.store.unsubscribe handle).1, t.handles.set k (t.store.unsubscribe handle).2⟩ := by
  simp only [receive, hk]

end Issued

def replay (h : History) : Issued := h.foldl Issued.receive ⟨.empty, []⟩

lemma replay_concat (h : History) (event : Event) : replay (h ++ [event]) = (replay h).receive event :=
  List.foldl_concat ..

lemma getElem?_concat {α : Type*} {xs : List α} {x y : α} {k : ℕ} (h : (xs ++ [x])[k]? = some y) :
    xs[k]? = some y ∨ k = xs.length ∧ y = x := by
  rcases lt_trichotomy k xs.length with hk | rfl | hk
  · exact .inl (List.getElem?_append_left hk ▸ h)
  · exact .inr ⟨rfl, by simpa [eq_comm] using h⟩
  · rw [List.getElem?_eq_none (by simpa using hk)] at h
    cases h

lemma getElem?_set {α : Type*} {xs : List α} {x y : α} {i k : ℕ} (h : (xs.set k x)[i]? = some y) :
    i = k ∧ y = x ∨ i ≠ k ∧ xs[i]? = some y := by
  rw [List.getElem?_set] at h
  split at h
  · next hik =>
    split at h
    · exact .inl ⟨hik.symm, (Option.some.inj h).symm⟩
    · cases h
  · next hik => exact .inr ⟨Ne.symm hik, h⟩

/-- What a store has of a history. -/
structure Reflects (s : Issued) (h : History) : Prop where
  issued : s.handles.length = h.subscriptions
  next : s.store.nextSubscriber = subscriberId h.subscriptions
  id : ∀ k handle, s.handles[k]? = some handle → handle.id = subscriberId k
  active : ∀ k handle x, s.handles[k]? = some handle → h.Listens x k → handle.active = true ∧ x = handle.name
  standing : ∀ x, s.store.standing x = h.tally x

namespace Reflects

variable {t t' : Issued} {h : History} {event : Event} {k : ℕ}

lemma version (hr : Reflects t h) (x : String) : t.store.version x = h.changes x := by
  rw [version_eq_standing, hr.standing, History.tally]
  cases hlife : (h.lifetime x).isEmpty with
  | true => exact (History.changes_of_lifetime_nil (List.isEmpty_iff.mp hlife)).symm
  | false => rfl

lemma ids (hr : Reflects t h) (x : String) :
    (t.store.subscribersOf x).map (·.id) = (h.listeners x).map subscriberId := by
  rw [ids_eq_standing, hr.standing, History.tally]
  cases hlife : (h.lifetime x).isEmpty with
  | true => simp [History.listeners_of_lifetime_nil (List.isEmpty_iff.mp hlife)]
  | false => rfl

lemma empty : Reflects ⟨.empty, []⟩ [] where
  issued := rfl
  next := rfl
  id := by simp
  active := by simp
  standing _ := rfl

lemma subscribe (hr : Reflects t h) (name : String) (forward : Option String) :
    Reflects (t.receive (.subscribe name forward)) (h ++ [.subscribe name forward]) where
  issued := by
    rw [History.subscriptions_concat]
    simp [Issued.receive, hr.issued, Event.isSubscription]
  next := by
    rw [History.subscriptions_concat]
    exact congrArg (· + 1) hr.next
  id k handle hk := by
    rcases getElem?_concat hk with hk | ⟨rfl, rfl⟩
    · exact hr.id k handle hk
    · rw [hr.issued]
      exact hr.next
  active k handle x hk hl := by
    rcases getElem?_concat hk with hold | ⟨hlast, rfl⟩
    · have hlt : k < h.subscriptions := hr.issued ▸ (List.getElem?_eq_some_iff.mp hold).1
      rcases History.listens_concat.mp hl with ⟨hl, -⟩ | ⟨_, -, heq⟩
      · exact hr.active k handle x hold hl
      · exact absurd heq hlt.ne'
    · rcases History.listens_concat.mp hl with ⟨hl, -⟩ | ⟨_, hevent, -⟩
      · exact absurd (hlast.trans hr.issued) hl.lt.ne
      · exact ⟨rfl, (Event.subscribe.inj hevent).1.symm⟩
  standing x := by
    change (t.store.subscribe name forward).1.standing x = _
    rw [standing_subscribe, hr.version, hr.ids, hr.next, hr.standing, History.tally_subscribe]

/-- A call that makes no subscription and ends none leaves the handles as they are. -/
lemma keep (hr : Reflects t h) (hevent : event.isSubscription = false) (hhandles : t'.handles = t.handles)
    (hnext : t'.store.nextSubscriber = t.store.nextSubscriber)
    (hstanding : ∀ x, t'.store.standing x = History.tally (h ++ [event]) x) : Reflects t' (h ++ [event]) where
  issued := by rw [hhandles, hr.issued, History.subscriptions_concat, hevent, Bool.toNat_false, Nat.add_zero]
  next := by rw [hnext, hr.next, History.subscriptions_concat, hevent, Bool.toNat_false, Nat.add_zero]
  id k handle hk := hr.id k handle (hhandles ▸ hk)
  active k handle x hk hl := by
    rcases History.listens_concat.mp hl with ⟨hl, -⟩ | ⟨forward, rfl, -⟩
    · exact hr.active k handle x (hhandles ▸ hk) hl
    · cases hevent
  standing := hstanding

/-- What concerns the queue of host writes alone is no matter of the variables. -/
lemma queue (hr : Reflects t h) (hevent : event.isSubscription = false) (hdrops : ∀ x, event.drops x = false)
    (hmakes : ∀ x, event.makes x = false) (hsets : ∀ x, event.sets x = false) (hends : ∀ k, event.ends k = false)
    (hhandles : t'.handles = t.handles) (hnext : t'.store.nextSubscriber = t.store.nextSubscriber)
    (hentries : t'.store.entries = t.store.entries) : Reflects t' (h ++ [event]) :=
  hr.keep hevent hhandles hnext fun x => by
    rw [standing_congr hentries, hr.standing,
      History.tally_of_foreign hevent (hdrops x) (hmakes x) (hsets x) hends]

lemma not_listens_of_none (hr : Reflects t h) (hk : t.handles[k]? = none) (x : String) : ¬ h.Listens x k := by
  intro hl
  have hle := List.getElem?_eq_none_iff.mp hk
  rw [hr.issued] at hle
  exact absurd hl.lt hle.not_gt

lemma unsubscribe (hr : Reflects t h) (k : ℕ) :
    Reflects (t.receive (.unsubscribe k)) (h ++ [.unsubscribe k]) := by
  cases hk : t.handles[k]? with
  | none =>
    rw [Issued.receive_unsubscribe_of_none hk]
    refine hr.keep rfl rfl rfl fun x => ?_
    rw [History.tally_unsubscribe, History.tally_of_not_listens (hr.not_listens_of_none hk x), hr.standing]
  | some handle =>
    rw [Issued.receive_unsubscribe_of_some hk]
    exact {
      issued := by
        rw [List.length_set, hr.issued, History.subscriptions_concat]
        rfl
      next := by
        rw [nextSubscriber_unsubscribe, hr.next, History.subscriptions_concat]
        rfl
      id := by
        intro i handle' hi
        rcases getElem?_set hi with ⟨rfl, rfl⟩ | ⟨-, hi⟩
        · rw [unsubscribe_id]
          exact hr.id i handle hk
        · exact hr.id i handle' hi
      active := by
        intro i handle' x hi hl
        rcases History.listens_concat.mp hl with ⟨hl, hends, -⟩ | ⟨forward, hevent, -⟩
        · rcases getElem?_set hi with ⟨rfl, rfl⟩ | ⟨-, hi⟩
          · simp [Event.ends] at hends
          · exact hr.active i handle' x hi hl
        · cases hevent
      standing := by
        intro x
        rw [standing_unsubscribe, hr.standing, hr.id k handle hk, History.tally_unsubscribe]
        split
        · rfl
        · next hother =>
          -- an ended handle, or one to another variable, stands in no list that this call leaves alone
          exact (History.tally_of_not_listens fun hl => hother (hr.active k handle x hk hl)).symm }

lemma receive (hr : Reflects t h) (event : Event) : Reflects (t.receive event) (h ++ [event]) := by
  cases event with
  | subscribe name forward => exact hr.subscribe name forward
  | unsubscribe k => exact hr.unsubscribe k
  | commit name slot now =>
    refine hr.keep rfl rfl nextSubscriber_commit fun x => ?_
    change (t.store.commit name slot now).1.standing x = _
    rw [standing_commit, hr.version, hr.ids, hr.standing, History.tally_commit]
  | clear name drop now =>
    refine hr.keep rfl rfl nextSubscriber_clear fun x => ?_
    change (t.store.clear name drop now).1.standing x = _
    rw [standing_clear, hr.standing, hr.standing, History.tally_clear]
  | write | writeNow | settle | drain =>
    exact hr.queue rfl (fun _ => rfl) (fun _ => rfl) (fun _ => rfl) (fun _ => rfl) rfl rfl rfl

lemma filter_of_not_listens (hr : Reflects t h) {x : String} (hk : ¬ h.Listens x k) :
    (t.store.subscribersOf x).filter (·.id != subscriberId k) = t.store.subscribersOf x := by
  rw [List.filter_eq_self]
  intro sub hsub
  have hid : sub.id ∈ (h.listeners x).map subscriberId := hr.ids x ▸ List.mem_map_of_mem hsub
  obtain ⟨i, hi, heq⟩ := List.mem_map.mp hid
  have hne : i ≠ k := fun hik => hk (hik ▸ History.mem_listeners.mp hi)
  simpa [← heq, subscriberId] using hne

/-- Ending a subscription takes it away wherever it stands, and no other. -/
lemma subscribersOf_receive_unsubscribe (hr : Reflects t h) (k : ℕ) (x : String) :
    (t.receive (.unsubscribe k)).store.subscribersOf x =
      (t.store.subscribersOf x).filter (·.id != subscriberId k) := by
  cases hk : t.handles[k]? with
  | none => rw [Issued.receive_unsubscribe_of_none hk, hr.filter_of_not_listens (hr.not_listens_of_none hk x)]
  | some handle =>
    rw [Issued.receive_unsubscribe_of_some hk, subscribersOf_unsubscribe, hr.id k handle hk]
    split
    · rfl
    · next hother => exact (hr.filter_of_not_listens fun hl => hother (hr.active k handle x hk hl)).symm

end Reflects

lemma reflects_replay (h : History) : Reflects (replay h) h := by
  induction h using List.reverseRecOn with
  | nil => exact .empty
  | append_singleton h event ih =>
    rw [replay_concat]
    exact ih.receive event

/-- The calls of subscribers that one more call of the store brings about, in order. -/
def Tells (h : History) (event : Event) (calls : List Notification) : Prop :=
  (replay (h ++ [event])).store.notified = calls.reverse ++ (replay h).store.notified

lemma tells_nil_of_not_sets {event : Event} (h : History) (hsets : ∀ x, event.sets x = false) : Tells h event [] := by
  rw [Tells, replay_concat, List.reverse_nil, List.nil_append]
  cases event with
  | commit name | clear name => simpa [Event.sets] using hsets name
  | subscribe name forward => exact (notifies_subscribe ..).1.notified
  | unsubscribe k =>
    cases hk : (replay h).handles[k]? with
    | none => rw [Issued.receive_unsubscribe_of_none hk]
    | some handle =>
      rw [Issued.receive_unsubscribe_of_some hk]
      exact (notifies_unsubscribe ..).1.notified
  | write | writeNow | settle | drain => rfl

/-- Every commit and every clear of a variable is told to the subscriptions that go on, to each once and in the order
in which they were made, with the slot just stored; nothing else that a store is asked for is told to anyone, host
writes that wait included. The version is the number of commits and clears since the variable came into being. Ending
a subscription, for the first time or again, takes away that one and no other. -/
theorem subscribers_told_and_changes_counted (h : History) (name : String) :
    ((h.listeners name).Pairwise (· < ·) ∧ ∀ k, k ∈ h.listeners name ↔ h.Listens name k) ∧
      (∀ slot now, Tells h (.commit name slot now) ((h.listeners name).map fun k => ⟨subscriberId k, name, slot⟩) ∧
        (replay (h ++ [.commit name slot now])).store.get name = slot) ∧
      (∀ drop now,
        Tells h (.clear name drop now) ((h.listeners name).map fun k => ⟨subscriberId k, name, .undefined⟩) ∧
        (replay (h ++ [.clear name drop now])).store.get name = .undefined) ∧
      (∀ event : Event, (∀ x, event.sets x = false) → Tells h event []) ∧
      (replay h).store.version name = h.changes name ∧
      ∀ k x, (replay (h ++ [.unsubscribe k])).store.subscribersOf x =
        ((replay h).store.subscribersOf x).filter (·.id != subscriberId k) := by
  have hr := reflects_replay h
  refine ⟨⟨?_, fun _ => History.mem_listeners⟩, fun slot now => ⟨?_, ?_⟩, fun drop now => ⟨?_, ?_⟩,
    fun event hsets => tells_nil_of_not_sets h hsets, hr.version name, fun k x => ?_⟩
  · exact List.Pairwise.filter _ List.pairwise_lt_range
  · rw [Tells, replay_concat]
    refine notified_commit.trans ?_
    rw [hr.ids, List.map_map]
    rfl
  · rw [replay_concat]
    exact get_commit.trans (if_pos rfl)
  · rw [Tells, replay_concat]
    refine notified_clear.trans ?_
    rw [hr.ids, List.map_map]
    rfl
  · rw [replay_concat]
    exact get_clear.trans (if_pos rfl)
  · rw [replay_concat]
    exact hr.subscribersOf_receive_unsubscribe k x

end ReactiveNotebook.Store
