import ReactiveNotebook.Proofs.Store.Slot
import ReactiveNotebook.Store.Basic

/-!
# What commits do to the variables

A commit gives one variable its new slot and leaves all others alone, and so does clearing a variable. What
subscribers are told and what they write in turn concerns the queue only.
-/
namespace ReactiveNotebook.Store

variable {s : Store} {name x : String} {slot : Slot} {now : Nat} {drop : Bool}

lemma find?_update {f : Variable → Variable} (hf : ∀ v, (f v).name = v.name) :
    (s.update name f).find? x =
      if x = name then some (f ((s.find? name).getD ⟨name, .undefined, 0, []⟩)) else s.find? x := by
  unfold update find?
  by_cases hany : s.entries.any (·.name == name) = true
  · rw [if_pos hany]
    have hcomp : ((fun v : Variable => v.name == x) ∘ fun v => if v.name == name then f v else v) =
        fun v => v.name == x := by
      funext v
      simp only [Function.comp_apply]
      split <;> simp [hf]
    simp only [List.find?_map, hcomp]
    split
    · next hx =>
      subst hx
      obtain ⟨v, hv⟩ := Option.isSome_iff_exists.mp
        ((List.find?_isSome).mpr (List.any_eq_true.mp hany))
      have hvn : v.name = x := by simpa using List.find?_some hv
      simp [hv, hvn]
    · next hx =>
      cases hv : s.entries.find? (·.name == x) with
      | none => rfl
      | some v =>
        have hvn : v.name = x := by simpa using List.find?_some hv
        simp [hvn, hx]
  · rw [if_neg hany]
    have hnone : s.entries.find? (·.name == name) = none := by
      simpa [List.find?_eq_none] using hany
    simp only [List.find?_append]
    split
    · next hx =>
      subst hx
      simp [hnone, hf]
    · next hx =>
      have hne : ¬ name = x := fun h => hx h.symm
      cases s.entries.find? (·.name == x) <;> simp [hf, hne]

lemma get_update {f : Variable → Variable} (hf : ∀ v, (f v).name = v.name)
    (hs : ∀ v, (f v).slot = slot) :
    (s.update name f).get x = if x = name then slot else s.get x := by
  unfold get
  rw [find?_update hf]
  by_cases hx : x = name
  · simp only [if_pos hx, hs]
  · simp only [if_neg hx]

lemma find?_congr {t : Store} (h : s.entries = t.entries) : s.find? x = t.find? x := by
  rw [find?, find?, h]

lemma get_congr {t : Store} (h : s.entries = t.entries) : s.get x = t.get x := by
  rw [get, get, find?_congr h]

/-- A commit sets the slot of its variable and of no other. -/
@[simp] theorem get_commit :
    (s.commit name slot now).1.get x = if x = name then slot else s.get x := by
  unfold commit
  rw [get_congr (entries_notifyAll ..)]
  exact get_update (fun _ => rfl) fun _ => rfl

/-- A commit is counted for its variable and for no other. -/
@[simp] theorem version_commit :
    (s.commit name slot now).1.version x = s.version x + if x = name then 1 else 0 := by
  unfold commit version
  rw [find?_congr (entries_notifyAll ..),
    find?_update (f := fun v => { v with slot, version := v.version + 1 }) fun _ => rfl]
  by_cases hx : x = name
  · subst hx
    cases s.find? x <;> simp
  · simp [hx]

lemma find?_commit_of_ne (hx : x ≠ name) : (s.commit name slot now).1.find? x = s.find? x := by
  unfold commit
  rw [find?_congr (entries_notifyAll ..),
    find?_update (f := fun v => { v with slot, version := v.version + 1 }) fun _ => rfl, if_neg hx]

lemma commit_changed : (s.commit name slot now).2 = !(s.get name).same slot := rfl

/-- A commit that does not count as a change leaves the variable as it was. -/
theorem get_eq_of_unchanged (h : (s.commit name slot now).2 = false) : s.get name = slot :=
  Slot.eq_of_same (by simpa [commit_changed] using h)

lemma find?_drop :
    ({ s with entries := s.entries.filter (·.name != name) } : Store).find? x =
      if x = name then none else s.find? x := by
  simp only [find?, List.find?_filter]
  by_cases hx : x = name
  · subst hx
    rw [if_pos rfl, List.find?_eq_none]
    intro v _
    simp
  · rw [if_neg hx]
    congr 1
    funext v
    by_cases hvx : v.name = x
    · simp [hvx, hx]
    · simp [hvx]

lemma get_drop :
    ({ s with entries := s.entries.filter (·.name != name) } : Store).get x =
      if x = name then .undefined else s.get x := by
  unfold get
  rw [find?_drop]
  by_cases hx : x = name
  · simp only [if_pos hx]
  · simp only [if_neg hx]

/-- Clearing makes one variable undefined and leaves the others alone. -/
@[simp] theorem get_clear :
    (s.clear name drop now).1.get x = if x = name then .undefined else s.get x := by
  unfold clear
  cases hv : s.find? name with
  | none =>
    have hget : s.get name = .undefined := by rw [get, hv]
    by_cases hx : x = name
    · rw [if_pos hx, hx]
      exact hget
    · rw [if_neg hx]
  | some v =>
    have hupd : (s.update name fun v => { v with slot := .undefined, version := v.version + 1 }).get x =
        if x = name then .undefined else s.get x := get_update (fun _ => rfl) fun _ => rfl
    cases drop with
    | false =>
      simp only [Bool.false_eq_true, if_false]
      rw [get_congr (entries_notifyAll ..), hupd]
    | true =>
      simp only [if_true]
      rw [get_drop, get_congr (entries_notifyAll ..), hupd]
      by_cases hx : x = name
      · simp only [if_pos hx]
      · simp only [if_neg hx]

lemma find?_clear_of_ne (hx : x ≠ name) : (s.clear name drop now).1.find? x = s.find? x := by
  unfold clear
  cases s.find? name with
  | none => rfl
  | some v =>
    have hupd : (s.update name fun v => { v with slot := .undefined, version := v.version + 1 }).find? x =
        s.find? x := by
      rw [find?_update (f := fun v => { v with slot := .undefined, version := v.version + 1 }) fun _ => rfl,
        if_neg hx]
    cases drop with
    | false =>
      simp only [Bool.false_eq_true, if_false]
      rw [find?_congr (entries_notifyAll ..), hupd]
    | true =>
      simp only [if_true]
      rw [find?_drop, if_neg hx, find?_congr (entries_notifyAll ..), hupd]

lemma clear_had : (s.clear name drop now).2 = !(s.get name).isUndefined := by
  unfold clear get
  cases s.find? name <;> rfl

/-- The slots at the start of a pass are the committed ones. -/
lemma find?_snapshot : (s.snapshot.find? (·.1 == name)).map (·.2) = (s.find? name).map (·.slot) := by
  simp [snapshot, find?, List.find?_map, Function.comp_def]

@[simp] lemma get_subscribe {forward : Option String} : (s.subscribe name forward).1.get x = s.get x := by
  change (s.update name _).get x = _
  unfold get
  rw [find?_update (by simp)]
  by_cases hx : x = name
  · subst hx
    cases s.find? x <;> simp
  · rw [if_neg hx]

/-- Ending a subscription takes it from the subscribers of its variable. -/
lemma find?_unsubscribe {h : Subscription} :
    (s.unsubscribe h).1.find? x = (s.find? x).map fun v =>
      if h.active = true ∧ x = h.name then { v with subscribers := v.subscribers.filter (·.id != h.id) } else v := by
  unfold unsubscribe
  cases hactive : h.active with
  | false => simp
  | true =>
    have hcomp : ((fun v : Variable => v.name == x) ∘ fun v =>
        if v.name == h.name then { v with subscribers := v.subscribers.filter (·.id != h.id) } else v) =
        fun v => v.name == x := by
      funext v
      simp only [Function.comp_apply]
      split <;> rfl
    simp only [if_true, find?, List.find?_map, hcomp, true_and]
    cases hv : s.entries.find? (·.name == x) with
    | none => rfl
    | some v =>
      have hname : v.name = x := by simpa using List.find?_some hv
      simp only [Option.map_some, hname, beq_iff_eq]

@[simp] lemma get_unsubscribe {h : Subscription} : (s.unsubscribe h).1.get x = s.get x := by
  unfold get
  rw [find?_unsubscribe]
  cases s.find? x with
  | none => rfl
  | some v =>
    simp only [Option.map_some]
    split <;> rfl

/-- Nobody is told of commits. -/
def Quiet (s : Store) : Prop := ∀ v ∈ s.entries, v.subscribers = []

/-- Without subscribers before there are none after, and no host write has been queued. -/
def Silent (s t : Store) : Prop := s.Quiet → t.Quiet ∧ t.queue = s.queue

@[refl] lemma Silent.refl (s : Store) : s.Silent s := fun h => ⟨h, rfl⟩

lemma Silent.trans {t u : Store} (h : s.Silent t) (h' : t.Silent u) : s.Silent u := fun hs => by
  obtain ⟨ht, hq⟩ := h hs
  obtain ⟨hu, hq'⟩ := h' ht
  exact ⟨hu, hq'.trans hq⟩

lemma silent_notifyAll : s.Silent (s.notifyAll name slot now) := fun hs => by
  have hnone : s.subscribersOf name = [] := by
    unfold subscribersOf
    split
    · next v hv => exact hs v (List.mem_of_find?_eq_some hv)
    · rfl
  unfold notifyAll
  rw [hnone]
  exact ⟨hs, rfl⟩

lemma silent_update {f : Variable → Variable} (hf : ∀ v, (f v).subscribers = v.subscribers) :
    s.Silent (s.update name f) := fun hs => by
  unfold update
  split
  · refine ⟨fun v hv => ?_, rfl⟩
    obtain ⟨w, hw, rfl⟩ := List.mem_map.mp hv
    split
    · rw [hf, hs w hw]
    · exact hs w hw
  · refine ⟨fun v hv => ?_, rfl⟩
    rcases List.mem_append.mp hv with hv | hv
    · exact hs v hv
    · rw [List.mem_singleton.mp hv, hf]

lemma silent_commit : s.Silent (s.commit name slot now).1 :=
  (silent_update (f := fun v => { v with slot, version := v.version + 1 }) fun _ => rfl).trans silent_notifyAll

lemma silent_clear : s.Silent (s.clear name drop now).1 := by
  unfold clear
  cases s.find? name with
  | none => rfl
  | some v =>
    have hclear : s.Silent ((s.update name fun v =>
        { v with slot := .undefined, version := v.version + 1 }).notifyAll name .undefined now) :=
      (silent_update (f := fun v => { v with slot := .undefined, version := v.version + 1 })
        fun _ => rfl).trans silent_notifyAll
    cases drop with
    | false => exact hclear
    | true =>
      refine hclear.trans fun hs => ⟨fun v hv => ?_, rfl⟩
      exact hs v (List.mem_filter.mp hv).1

end ReactiveNotebook.Store
