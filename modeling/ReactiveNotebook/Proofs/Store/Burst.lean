import Mathlib.Tactic
import ReactiveNotebook.Store.Queue

/-!
# Bursts of host writes

A burst is what has reached the queue since it was drained last. The queue keeps what matters of it: one entry for
each name, in the order of the first writes, with the last value; the time of the last write; and whether a release
has come while a write was waiting. So it can be told from the burst whether the queue has settled.
-/
namespace ReactiveNotebook

/-- What reaches the queue: a write at some time, or what releases the writes that wait. -/
inductive Entry where
  | write (w : PendingWrite) (time : ℕ)
  | release

namespace Entry

def write? : Entry → Option PendingWrite
  | write w _ => some w
  | release => none

def time? : Entry → Option ℕ
  | write _ time => some time
  | release => none

def isRelease : Entry → Bool
  | write _ _ => false
  | release => true

end Entry

/-- What has reached the queue since it was drained last, in order. -/
abbrev Burst := List Entry

namespace Burst

variable {b : Burst} {w : PendingWrite} {time : ℕ}

def writes (b : Burst) : List PendingWrite := b.filterMap Entry.write?

/-- The names that are written, in the order of the first writes. -/
def names (b : Burst) : List String := (b.writes.map (·.name)).eraseDups

def lastTime? (b : Burst) : Option ℕ := (b.filterMap Entry.time?).getLast?

/-- Whether a release hits a write that waits. One that comes before the first write does not. -/
def isHit : Burst → Bool
  | [] => false
  | .release :: b => isHit b
  | .write _ _ :: b => b.any Entry.isRelease

/-- Whether there are writes, and a release has hit them or none has come for the window. -/
def hasSettled (b : Burst) (now window : ℕ) : Bool :=
  !b.writes.isEmpty && (b.isHit || b.lastTime?.any fun last => last + window ≤ now)

lemma writes_append (b b' : Burst) : writes (b ++ b') = b.writes ++ b'.writes := List.filterMap_append ..

lemma lastTime?_append_write : lastTime? (b ++ [.write w time]) = some time := by
  simp [lastTime?, List.filterMap_append, Entry.time?]

lemma lastTime?_append_release : lastTime? (b ++ [.release]) = b.lastTime? := by
  simp [lastTime?, List.filterMap_append, Entry.time?]

lemma isHit_append_write : isHit (b ++ [.write w time]) = b.isHit := by
  induction b with
  | nil => rfl
  | cons entry b ih =>
    cases entry with
    | release => exact ih
    | write v t => simp [isHit, Entry.isRelease]

/-- A release hits whatever has been written before. -/
lemma isHit_append_release : isHit (b ++ [.release]) = !b.writes.isEmpty := by
  induction b with
  | nil => rfl
  | cons entry b ih =>
    cases entry with
    | release => exact ih
    | write v t => simp [isHit, writes, Entry.isRelease, Entry.write?]

lemma isHit_of_not_written (h : b.writes = []) : b.isHit = false := by
  induction b with
  | nil => rfl
  | cons entry b ih =>
    cases entry with
    | release => exact ih h
    | write v t => cases h

/-- A burst with writes has a last one. -/
lemma exists_lastTime? (h : b.writes ≠ []) : ∃ last, b.lastTime? = some last := by
  cases hlast : b.lastTime? with
  | some last => exact ⟨last, rfl⟩
  | none =>
    refine absurd (List.filterMap_eq_nil_iff.mpr fun entry hentry => ?_) h
    have hnone := List.filterMap_eq_nil_iff.mp (List.getLast?_eq_none_iff.mp hlast) entry hentry
    cases entry with
    | write v t => cases hnone
    | release => rfl

end Burst

section Firsts

variable {xs : List String} {x : String}

lemma eraseDups_concat_of_mem (h : x ∈ xs) : (xs ++ [x]).eraseDups = xs.eraseDups := by
  rw [List.eraseDups_append]
  simp [List.removeAll, h]

lemma eraseDups_concat_of_not_mem (h : x ∉ xs) : (xs ++ [x]).eraseDups = xs.eraseDups ++ [x] := by
  rw [List.eraseDups_append]
  simp [List.removeAll, h, List.eraseDups_cons]

lemma nodup_eraseDups (xs : List String) : xs.eraseDups.Nodup := by
  induction xs using List.reverseRecOn with
  | nil => exact List.nodup_nil
  | append_singleton xs x ih =>
    by_cases h : x ∈ xs
    · rwa [eraseDups_concat_of_mem h]
    · rw [eraseDups_concat_of_not_mem h]
      exact List.concat_eq_append ▸ ih.concat fun hx => h (List.mem_eraseDups.mp hx)

end Firsts

/-- The entries that are left of writes: one for each name, in the order of the first writes, with the last value,
forced if one of the writes was. -/
structure Condenses (ws pending : List PendingWrite) : Prop where
  names : pending.map (·.name) = (ws.map (·.name)).eraseDups
  last : ∀ p ∈ pending, (ws.filter (·.name == p.name)).getLast?.map (·.value) = some p.value
  forced : ∀ p ∈ pending, p.forced = ws.any fun w => w.name == p.name && w.forced

namespace Condenses

variable {ws pending : List PendingWrite} {w : PendingWrite}

lemma nodup (h : Condenses ws pending) : (pending.map (·.name)).Nodup := by
  rw [h.names]
  exact nodup_eraseDups _

lemma mem_names (h : Condenses ws pending) {name : String} :
    name ∈ pending.map (·.name) ↔ name ∈ ws.map (·.name) := by
  rw [h.names, List.mem_eraseDups]

lemma isEmpty_eq (h : Condenses ws pending) : pending.isEmpty = ws.isEmpty := by
  rw [Bool.eq_iff_iff, List.isEmpty_iff, List.isEmpty_iff, ← List.map_eq_nil_iff (f := (·.name)),
    ← List.map_eq_nil_iff (f := fun w : PendingWrite => w.name) (l := ws), List.eq_nil_iff_forall_not_mem,
    List.eq_nil_iff_forall_not_mem]
  simp only [h.mem_names]

/-- A write to another name does not matter for an entry. -/
lemma keep (h : Condenses ws pending) {p : PendingWrite} (hp : p ∈ pending) (hne : w.name ≠ p.name) :
    ((ws ++ [w]).filter (·.name == p.name)).getLast?.map (·.value) = some p.value ∧
      p.forced = (ws ++ [w]).any fun v => v.name == p.name && v.forced := by
  have hfalse : (w.name == p.name) = false := beq_eq_false_iff_ne.mpr hne
  simp only [List.filter_append, List.any_append, List.filter_cons, List.filter_nil, List.any_cons, List.any_nil,
    hfalse, Bool.false_and, Bool.or_false, Bool.false_eq_true, if_false, List.append_nil]
  exact ⟨h.last p hp, h.forced p hp⟩

/-- A write to a name that has an entry replaces its value. -/
lemma overwrite (h : Condenses ws pending) (hmem : w.name ∈ pending.map (·.name)) :
    Condenses (ws ++ [w]) (WriteQueue.overwrite pending w) where
  names := by
    have hsame : (WriteQueue.overwrite pending w).map (·.name) = pending.map (·.name) := by
      rw [WriteQueue.overwrite, List.map_map]
      refine List.map_congr_left fun p _ => ?_
      by_cases hp : p.name = w.name <;> simp [hp]
    rw [hsame, h.names, List.map_append]
    exact (eraseDups_concat_of_mem (h.mem_names.mp hmem)).symm
  last p hp := by
    obtain ⟨old, hold, rfl⟩ := List.mem_map.mp hp
    by_cases hname : old.name = w.name
    · simp [hname, List.filter_append]
    · simp only [beq_eq_false_iff_ne.mpr hname, Bool.false_eq_true, if_false]
      exact (h.keep hold (Ne.symm hname)).1
  forced p hp := by
    obtain ⟨old, hold, rfl⟩ := List.mem_map.mp hp
    by_cases hname : old.name = w.name
    · simp [hname, h.forced old hold]
    · simp only [beq_eq_false_iff_ne.mpr hname, Bool.false_eq_true, if_false]
      exact (h.keep hold (Ne.symm hname)).2

/-- A write to a name without an entry comes last. -/
lemma append (h : Condenses ws pending) (hfree : w.name ∉ pending.map (·.name)) :
    Condenses (ws ++ [w]) (pending ++ [w]) where
  names := by
    rw [List.map_append, List.map_append, h.names]
    exact (eraseDups_concat_of_not_mem fun hmem => hfree (h.mem_names.mpr hmem)).symm
  last p hp := by
    rcases List.mem_append.mp hp with hp | hp
    · exact (h.keep hp fun heq => hfree (heq ▸ List.mem_map_of_mem hp)).1
    · rw [List.mem_singleton.mp hp]
      simp [List.filter_append]
  forced p hp := by
    rcases List.mem_append.mp hp with hp | hp
    · exact (h.keep hp fun heq => hfree (heq ▸ List.mem_map_of_mem hp)).2
    · rw [List.mem_singleton.mp hp]
      have hnone : (ws.any fun v => v.name == w.name && v.forced) = false := by
        simp only [h.mem_names, List.mem_map, not_exists, not_and] at hfree
        simp only [List.any_eq_false, Bool.and_eq_true, beq_iff_eq, not_and]
        exact fun v hv heq => absurd heq (hfree v hv)
      simp [hnone]

end Condenses

namespace WriteQueue

variable {q : WriteQueue} {b : Burst} {w : PendingWrite} {now window : ℕ}

def receive (q : WriteQueue) : Entry → WriteQueue
  | .write w time => q.push w time
  | .release => q.settle

/-- The queue holds what is left of a burst. -/
structure Holds (q : WriteQueue) (b : Burst) : Prop where
  condenses : Condenses b.writes q.pending
  lastWrite : q.lastWrite = b.lastTime?
  immediate : q.immediate = b.isHit

lemma holds_drained (q : WriteQueue) : q.drained.Holds [] :=
  ⟨⟨rfl, nofun, nofun⟩, rfl, rfl⟩

lemma push_cases (q : WriteQueue) (w : PendingWrite) (now : ℕ) :
    w.name ∈ q.pending.map (·.name) ∧ (q.push w now).pending = overwrite q.pending w ∨
      w.name ∉ q.pending.map (·.name) ∧ (q.push w now).pending = q.pending ++ [w] := by
  have hany : (q.pending.any (·.name == w.name)) = true ↔ w.name ∈ q.pending.map (·.name) := by
    simp [List.any_eq_true]
  unfold push
  split
  · next h => exact .inl ⟨hany.mp h, rfl⟩
  · next h => exact .inr ⟨mt hany.mpr h, rfl⟩

lemma Holds.push (h : q.Holds b) : (q.push w now).Holds (b ++ [.write w now]) where
  condenses := by
    rw [Burst.writes_append]
    rcases push_cases q w now with ⟨hmem, hpending⟩ | ⟨hfree, hpending⟩ <;> rw [hpending]
    · exact h.condenses.overwrite hmem
    · exact h.condenses.append hfree
  lastWrite := by
    rw [Burst.lastTime?_append_write]
    unfold WriteQueue.push
    split <;> rfl
  immediate := by
    rw [Burst.isHit_append_write, ← h.immediate]
    unfold WriteQueue.push
    split <;> rfl

lemma Holds.settle (h : q.Holds b) : q.settle.Holds (b ++ [.release]) where
  condenses := by
    have hwrites : (b ++ [.release] : Burst).writes = b.writes := by
      rw [Burst.writes_append]
      exact List.append_nil _
    rw [hwrites]
    unfold WriteQueue.settle
    split <;> exact h.condenses
  lastWrite := by
    rw [Burst.lastTime?_append_release, ← h.lastWrite]
    unfold WriteQueue.settle
    split <;> rfl
  immediate := by
    rw [Burst.isHit_append_release, ← h.condenses.isEmpty_eq]
    unfold WriteQueue.settle
    split
    · next hnone =>
      rw [h.condenses.isEmpty_eq, List.isEmpty_iff] at hnone
      rw [h.immediate, Burst.isHit_of_not_written hnone, h.condenses.isEmpty_eq, hnone]
      rfl
    · next hsome => simp [hsome]

lemma Holds.receive (h : q.Holds b) (entry : Entry) : (q.receive entry).Holds (b ++ [entry]) := by
  cases entry with
  | write w time => exact h.push
  | release => exact h.settle

lemma Holds.foldl_receive (h : q.Holds b) (b' : Burst) : (b'.foldl WriteQueue.receive q).Holds (b ++ b') := by
  induction b' generalizing q b with
  | nil => rwa [List.append_nil]
  | cons entry b' ih =>
    rw [List.foldl_cons, List.append_cons]
    exact ih (h.receive entry)

/-- Whether the queue has settled can be told from the burst. -/
theorem Holds.isSettled_eq (h : q.Holds b) : q.isSettled now window = b.hasSettled now window := by
  unfold isSettled wait? Burst.hasSettled
  rw [h.condenses.isEmpty_eq, h.immediate, h.lastWrite]
  by_cases hnone : b.writes = []
  · simp [hnone]
  · obtain ⟨last, hlast⟩ := Burst.exists_lastTime? hnone
    cases b.isHit <;> by_cases hle : last + window ≤ now <;> simp [hnone, hlast, hle]

/-- Every write becomes an entry or is counted as coalesced. -/
lemma length_add_coalesced_receive (b : Burst) (q : WriteQueue) :
    (b.foldl receive q).pending.length + (b.foldl receive q).coalesced =
      q.pending.length + q.coalesced + b.writes.length := by
  induction b generalizing q with
  | nil => rfl
  | cons entry b ih =>
    rw [List.foldl_cons, ih]
    cases entry with
    | write w time =>
      change (q.push w time).pending.length + (q.push w time).coalesced + _ = _ + (w :: Burst.writes b).length
      rw [length_add_coalesced_push, List.length_cons]
      omega
    | release =>
      change q.settle.pending.length + q.settle.coalesced + _ = _ + (Burst.writes b).length
      unfold settle
      split <;> rfl

end WriteQueue

end ReactiveNotebook
