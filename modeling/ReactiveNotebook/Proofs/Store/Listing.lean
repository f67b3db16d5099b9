import ReactiveNotebook.Proofs.Store.Subscription

/-!
# The listing of variables

A variable that comes into being takes the last place among the variables, and keeps its place until it is dropped,
whatever is committed, cleared or subscribed to meanwhile. So the listing goes by age. That is the order of the first
commits as far as variables come into being by a commit; one that came into being by a subscription is listed before
all that came later, however late it was first committed.
-/
namespace ReactiveNotebook.Store

/-- Whether the call commits a slot to a variable. -/
def Event.commits (name : String) : Event → Bool
  | commit x _ _ => x == name
  | _ => false

variable {event : Event} {name x y : String}

lemma Event.makes_of_commits (hcommits : event.commits x = true) : event.makes x = true := by
  cases event <;> first | exact hcommits | cases hcommits

lemma Event.not_drops_of_makes (hmakes : event.makes x = true) (y : String) : event.drops y = false := by
  cases event <;> first | rfl | cases hmakes

namespace History

variable {h : History}

/-- The number of calls since a variable came into being, that one included. -/
def age (h : History) (name : String) : ℕ := (h.lifetime name).length

/-- The calls from the first commit on that a variable has had since it was last dropped. -/
def written (h : History) (name : String) : History :=
  (h.rtakeWhile fun event => !event.drops name).dropWhile fun event => !event.commits name

/-- The variable is there, and the call that brought it into being was a commit. -/
def bornByCommit (h : History) (name : String) : Bool := (h.lifetime name).head?.any (Event.commits name)

lemma dropWhile_dropWhile_of_imp {α : Type*} {p q : α → Bool} (hpq : ∀ a, p a = true → q a = true) (l : List α) :
    (l.dropWhile p).dropWhile q = l.dropWhile q := by
  induction l with
  | nil => rfl
  | cons a l ih =>
    cases hp : p a with
    | true => rw [List.dropWhile_cons_of_pos hp, ih, List.dropWhile_cons_of_pos (hpq a hp)]
    | false => rw [List.dropWhile_cons_of_neg (by simp [hp])]

/-- A variable is not committed to before it comes into being. -/
lemma written_eq (h : History) (name : String) :
    h.written name = (h.lifetime name).dropWhile fun event => !event.commits name := by
  refine (dropWhile_dropWhile_of_imp (fun event hmakes => ?_) _).symm
  cases hcommits : event.commits name with
  | true => simp [Event.makes_of_commits hcommits] at hmakes
  | false => rfl

lemma length_written_le (h : History) (name : String) : (h.written name).length ≤ h.age name := by
  rw [written_eq]
  exact (List.dropWhile_suffix _).length_le

lemma written_of_bornByCommit (hborn : h.bornByCommit name = true) : (h.written name).length = h.age name := by
  rw [written_eq, age]
  unfold bornByCommit at hborn
  cases hlife : h.lifetime name with
  | nil => rfl
  | cons event rest =>
    rw [hlife] at hborn
    rw [List.dropWhile_cons_of_neg (by simpa using hborn)]

lemma written_ne_nil (hcommits : ∃ event ∈ h.lifetime name, event.commits name = true) : h.written name ≠ [] := by
  rw [written_eq, Ne, List.dropWhile_eq_nil_iff]
  obtain ⟨event, hmem, hevent⟩ := hcommits
  intro hall
  simpa [hevent] using hall event hmem

lemma lifetime_of_lives (hlife : h.lifetime x ≠ []) (hdrops : event.drops x = false) :
    lifetime (h ++ [event]) x = h.lifetime x ++ [event] := by
  rw [lifetime_concat hdrops]
  simp [hlife]

lemma lifetime_of_makes (hmakes : event.makes x = true) :
    lifetime (h ++ [event]) x = h.lifetime x ++ [event] := by
  rw [lifetime_concat (Event.not_drops_of_makes hmakes x)]
  simp [hmakes]

/-- Who is older stays older, as long as neither is dropped. -/
lemma age_lt_concat (hx : h.lifetime x ≠ []) (hy : h.lifetime y ≠ []) (hdx : event.drops x = false)
    (hdy : event.drops y = false) (hlt : h.age y < h.age x) : age (h ++ [event]) y < age (h ++ [event]) x := by
  simpa [age, lifetime_of_lives hx hdx, lifetime_of_lives hy hdy] using hlt

/-- Who is there is older than who comes into being. -/
lemma age_lt_of_born (hx : h.lifetime x ≠ []) (hy : h.lifetime y = []) (hmakes : event.makes y = true) :
    age (h ++ [event]) y < age (h ++ [event]) x := by
  simpa [age, lifetime_of_lives hx (Event.not_drops_of_makes hmakes x), lifetime_of_makes hmakes, hy]
    using List.length_pos_iff.mpr hx

end History

variable {s : Store} {slot : Slot} {drop : Bool} {now : ℕ} {forward : Option String}

/-- The names of the variables that are there, undefined ones included, in their order. -/
def names (s : Store) : List String := s.entries.map (·.name)

lemma names_congr {t : Store} (h : s.entries = t.entries) : s.names = t.names := by
  rw [names, names, h]

lemma mem_names_iff_standing : x ∈ s.names ↔ s.standing x ≠ none := by
  simp [names, standing, find?]

/-- A variable that is not there takes the last place. -/
lemma names_update {f : Variable → Variable} (hf : ∀ v, (f v).name = v.name) :
    (s.update name f).names = if name ∈ s.names then s.names else s.names ++ [name] := by
  unfold update names
  by_cases hany : s.entries.any (·.name == name) = true
  · have hmem : name ∈ s.entries.map (·.name) := by simpa using hany
    rw [if_pos hany, if_pos hmem, List.map_map]
    refine List.map_congr_left fun v _ => ?_
    simp only [Function.comp_apply]
    split <;> simp [hf]
  · have hmem : name ∉ s.entries.map (·.name) := by simpa using hany
    rw [if_neg hany, if_neg hmem]
    simp [hf]

lemma names_subscribe :
    (s.subscribe name forward).1.names = if name ∈ s.names then s.names else s.names ++ [name] :=
  names_update (f := fun v => { v with subscribers := v.subscribers ++ [⟨s.nextSubscriber, forward⟩] }) fun _ => rfl

lemma names_commit :
    (s.commit name slot now).1.names = if name ∈ s.names then s.names else s.names ++ [name] :=
  (names_congr (entries_notifyAll ..)).trans
    (names_update (f := fun v => { v with slot, version := v.version + 1 }) fun _ => rfl)

lemma names_drop (s : Store) (name : String) :
    ({ s with entries := s.entries.filter (·.name != name) } : Store).names = s.names.filter fun x => !(name == x) := by
  simp only [names, List.filter_map]
  congr 2
  funext v
  simp [bne, BEq.comm]

/-- Clearing takes no place away, dropping takes that of the one variable. -/
lemma names_clear : (s.clear name drop now).1.names = s.names.filter fun x => !(name == x && drop) := by
  unfold clear
  cases hv : s.find? name with
  | none =>
    have hkeep : ∀ x ∈ s.names, (!(name == x && drop)) = true := by
      intro x hx
      obtain ⟨v, hmem, rfl⟩ := List.mem_map.mp hx
      have hne : v.name ≠ name := by simpa using List.find?_eq_none.mp hv v hmem
      simp [Ne.symm hne]
    exact (List.filter_eq_self.mpr hkeep).symm
  | some v =>
    have hmem : name ∈ s.names := by
      refine List.mem_map.mpr ⟨v, List.mem_of_find?_eq_some hv, ?_⟩
      simpa using List.find?_some hv
    have htold : ((s.update name fun v => { v with slot := .undefined, version := v.version + 1 }).notifyAll
        name .undefined now).names = s.names :=
      ((names_congr (entries_notifyAll ..)).trans
        (names_update (f := fun v => { v with slot := .undefined, version := v.version + 1 }) fun _ => rfl)).trans
        (if_pos hmem)
    cases drop with
    | false => simpa using htold
    | true =>
      simp only [Bool.and_true]
      exact (names_drop ..).trans (congrArg _ htold)

lemma names_unsubscribe (h : Subscription) : (s.unsubscribe h).1.names = s.names := by
  unfold unsubscribe names
  split
  · rw [List.map_map]
    refine List.map_congr_left fun v _ => ?_
    simp only [Function.comp_apply]
    split <;> rfl
  · rfl

namespace Issued

variable {t : Issued}

/-- A commit or a subscription gives the last place to its variable if that has none. -/
lemma names_receive_of_makes (hmakes : event.makes x = true) :
    (t.receive event).store.names = if x ∈ t.store.names then t.store.names else t.store.names ++ [x] := by
  cases event with
  | subscribe name forward =>
    obtain rfl : name = x := by simpa [Event.makes] using hmakes
    exact names_subscribe
  | commit name slot now =>
    obtain rfl : name = x := by simpa [Event.makes] using hmakes
    exact names_commit
  | unsubscribe | clear | write | writeNow | settle | drain => cases hmakes

/-- Every other call leaves the variables at their places but for one that it drops. -/
lemma names_receive_of_not_makes (hmakes : ∀ x, event.makes x = false) :
    (t.receive event).store.names = t.store.names.filter fun x => !event.drops x := by
  cases event with
  | subscribe name | commit name => simpa [Event.makes] using hmakes name
  | clear name drop now => exact names_clear
  | unsubscribe k =>
    have hnames : (t.receive (.unsubscribe k)).store.names = t.store.names := by
      cases hk : t.handles[k]? with
      | none => rw [receive_unsubscribe_of_none hk]
      | some handle =>
        rw [receive_unsubscribe_of_some hk]
        exact names_unsubscribe handle
    simp [hnames, Event.drops]
  | write | writeNow | settle | drain =>
    refine Eq.trans ?_ (List.filter_true _).symm
    rfl

/-- Only a commit defines a variable, and what drops it leaves it undefined. -/
lemma get_receive_ne_undefined (hget : (t.receive event).store.get x ≠ .undefined) :
    event.commits x = true ∨ t.store.get x ≠ .undefined ∧ event.drops x = false := by
  cases event with
  | commit name slot now =>
    change (t.store.commit name slot now).1.get x ≠ .undefined at hget
    rw [get_commit] at hget
    split at hget
    · next hx => exact .inl (by simp [Event.commits, hx])
    · exact .inr ⟨hget, rfl⟩
  | clear name drop now =>
    change (t.store.clear name drop now).1.get x ≠ .undefined at hget
    rw [get_clear] at hget
    split at hget
    · exact absurd rfl hget
    · next hx => exact .inr ⟨hget, by simp [Event.drops, Ne.symm hx]⟩
  | subscribe name forward =>
    change (t.store.subscribe name forward).1.get x ≠ .undefined at hget
    rw [get_subscribe] at hget
    exact .inr ⟨hget, rfl⟩
  | unsubscribe k =>
    refine .inr ⟨?_, rfl⟩
    cases hk : t.handles[k]? with
    | none => rwa [receive_unsubscribe_of_none hk] at hget
    | some handle =>
      rw [receive_unsubscribe_of_some hk] at hget
      rwa [get_unsubscribe] at hget
  | write | writeNow | settle | drain => exact .inr ⟨hget, rfl⟩

end Issued

variable {h : History}

lemma mem_names_iff_lives : x ∈ (replay h).store.names ↔ h.lifetime x ≠ [] := by
  rw [mem_names_iff_standing, (reflects_replay h).standing, History.tally]
  cases h.lifetime x <;> simp

lemma pairwise_names (h : History) : (replay h).store.names.Pairwise fun x y => h.age y < h.age x := by
  induction h using List.reverseRecOn with
  | nil => exact .nil
  | append_singleton h event ih =>
    have hlives : ∀ {x}, x ∈ (replay h).store.names → History.lifetime h x ≠ [] := mem_names_iff_lives.mp
    rw [replay_concat]
    by_cases hmakes : ∃ x, event.makes x = true
    · obtain ⟨x, hmakes⟩ := hmakes
      have hkept : (replay h).store.names.Pairwise
          fun y z => History.age (h ++ [event]) z < History.age (h ++ [event]) y :=
        ih.imp_of_mem fun hy hz => History.age_lt_concat (hlives hy) (hlives hz)
          (Event.not_drops_of_makes hmakes _) (Event.not_drops_of_makes hmakes _)
      rw [Issued.names_receive_of_makes hmakes]
      split
      · exact hkept
      · next hnew =>
        have hborn : History.lifetime h x = [] := not_not.mp (mt mem_names_iff_lives.mpr hnew)
        refine List.pairwise_append.mpr ⟨hkept, List.pairwise_singleton .., fun y hy z hz => ?_⟩
        obtain rfl := List.mem_singleton.mp hz
        exact History.age_lt_of_born (hlives hy) hborn hmakes
    · rw [Issued.names_receive_of_not_makes (by simpa using hmakes)]
      refine (ih.filter _).imp_of_mem fun hy hz => ?_
      simp only [List.mem_filter, Bool.not_eq_true'] at hy hz
      exact History.age_lt_concat (hlives hy.1) (hlives hz.1) hy.2 hz.2

lemma exists_commits_of_defined (hget : (replay h).store.get x ≠ .undefined) :
    ∃ event ∈ h.lifetime x, event.commits x = true := by
  induction h using List.reverseRecOn with
  | nil => exact absurd rfl hget
  | append_singleton h event ih =>
    rw [replay_concat] at hget
    rcases Issued.get_receive_ne_undefined hget with hcommits | ⟨hbefore, hdrops⟩
    · rw [History.lifetime_of_makes (Event.makes_of_commits hcommits)]
      exact ⟨event, by simp, hcommits⟩
    · obtain ⟨earlier, hmem, hcommits⟩ := ih hbefore
      rw [History.lifetime_of_lives (List.ne_nil_of_mem hmem) hdrops]
      exact ⟨earlier, List.mem_append_left _ hmem, hcommits⟩

lemma definedNames_sublist : s.definedNames.Sublist s.names := List.filter_sublist.map _

lemma mem_definedNames (hnodup : s.names.Nodup) : x ∈ s.definedNames ↔ s.get x ≠ .undefined := by
  have hdefined : ∀ {slot : Slot}, slot.isUndefined = false ↔ slot ≠ .undefined := by
    intro slot
    cases slot <;> simp [Slot.isUndefined]
  constructor
  · intro hx
    obtain ⟨v, hv, rfl⟩ := List.mem_map.mp hx
    obtain ⟨hmem, hslot⟩ := List.mem_filter.mp hv
    have hfind : s.find? v.name = some v := by
      obtain ⟨w, hw⟩ := Option.isSome_iff_exists.mp
        (List.find?_isSome (p := (·.name == v.name)) |>.mpr ⟨v, hmem, beq_self_eq_true v.name⟩)
      have hname : w.name = v.name := by simpa using List.find?_some hw
      rw [find?, hw, List.inj_on_of_nodup_map hnodup (List.mem_of_find?_eq_some hw) hmem hname]
    rw [get, hfind]
    exact hdefined.mp (by simpa using hslot)
  · intro hget
    unfold get at hget
    cases hfind : s.find? x with
    | none =>
      rw [hfind] at hget
      exact absurd rfl hget
    | some v =>
      rw [hfind] at hget
      refine List.mem_map.mpr ⟨v, List.mem_filter.mpr ⟨List.mem_of_find?_eq_some hfind, ?_⟩, ?_⟩
      · simpa using hdefined.mpr hget
      · simpa using List.find?_some hfind

/-- Whatever a store has been asked for, the listing holds each defined variable once and no other, the longer-lived
ones first. Each has been committed to since it was last dropped, and if it came into being by a commit, those listed
after it were first committed to later. -/
theorem definedNames_by_age (h : History) :
    (replay h).store.definedNames.Nodup ∧
      (∀ x, x ∈ (replay h).store.definedNames ↔ (replay h).store.get x ≠ .undefined) ∧
      (∀ x ∈ (replay h).store.definedNames, h.written x ≠ []) ∧
      (replay h).store.definedNames.Pairwise (fun x y => h.age y < h.age x) ∧
      (replay h).store.definedNames.Pairwise fun x y =>
        h.bornByCommit x = true → (h.written y).length < (h.written x).length := by
  have hages := pairwise_names h
  have hnodup : (replay h).store.names.Nodup := by
    refine hages.imp fun hlt heq => ?_
    rw [heq] at hlt
    exact lt_irrefl _ hlt
  have hlisted := hages.sublist definedNames_sublist
  refine ⟨hnodup.sublist definedNames_sublist, fun x => mem_definedNames hnodup, fun x hx => ?_, hlisted, ?_⟩
  · exact History.written_ne_nil (exists_commits_of_defined ((mem_definedNames hnodup).mp hx))
  · refine hlisted.imp fun {x y} hlt hborn => ?_
    calc (h.written y).length ≤ h.age y := h.length_written_le y
      _ < h.age x := hlt
      _ = (h.written x).length := (History.written_of_bornByCommit hborn).symm

/-- A variable that was dropped comes back behind the one committed to meanwhile, which keeps its place through a
clear. -/
theorem dropped_variable_listed_last :
    let h : History := [.commit "a" (.value (.int 1)) 0, .commit "b" (.value (.int 2)) 0, .subscribe "b" none,
      .clear "a" true 0, .clear "b" false 0, .commit "a" (.value (.int 3)) 0, .commit "b" (.value (.int 4)) 0]
    (replay h).store.definedNames = ["b", "a"] ∧ h.bornByCommit "b" = true ∧
      (h.written "a").length < (h.written "b").length := by
  intro h
  have hlist : (replay h).store.definedNames = ["b", "a"] := by decide +kernel
  have hborn : h.bornByCommit "b" = true := by decide +kernel
  have hfirst := (definedNames_by_age h).2.2.2.2
  rw [hlist] at hfirst
  exact ⟨hlist, hborn, List.rel_of_pairwise_cons hfirst (List.mem_singleton_self _) hborn⟩

/-- A variable subscribed to before its first commit is listed before one that was committed to first; without the
subscription it is listed after it. -/
theorem subscribed_variable_listed_first :
    let commits : History := [.commit "b" (.value (.int 1)) 0, .commit "a" (.value (.int 2)) 0]
    let h : History := .subscribe "a" none :: commits
    (h.written "a").length < (h.written "b").length ∧ (replay h).store.definedNames = ["a", "b"] ∧
      (replay commits).store.definedNames = ["b", "a"] := by
  decide +kernel

end ReactiveNotebook.Store
