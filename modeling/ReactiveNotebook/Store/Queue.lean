import ReactiveNotebook.Script.Value

/-!
# The queue of host writes

Writes of the host wait in a queue. Successive writes to one name are coalesced into one entry, which keeps
its place. The whole burst is released when no write has arrived for the settle window, or earlier when a
write or a flush asks for it. Times are in nanoseconds.
-/
namespace ReactiveNotebook

open Script (Value)

/-- A write that waits. A forced write counts as a change whatever its value. -/
structure PendingWrite where
  name : String
  value : Value
  forced : Bool

/-- The writes that wait, in the order of the first write to each name. -/
structure WriteQueue where
  pending : List PendingWrite
  lastWrite : Option Nat
  immediate : Bool
  /-- The number of writes that were absorbed by an entry already waiting. -/
  coalesced : Nat

namespace WriteQueue

def empty : WriteQueue := ⟨[], none, false, 0⟩

/-- Replaces the value of a waiting write; it stays forced. -/
def overwrite (writes : List PendingWrite) (w : PendingWrite) : List PendingWrite :=
  writes.map fun p => if p.name == w.name then { w with forced := p.forced || w.forced } else p

def push (q : WriteQueue) (w : PendingWrite) (now : Nat) : WriteQueue :=
  if q.pending.any (·.name == w.name) then
    { q with pending := overwrite q.pending w, coalesced := q.coalesced + 1, lastWrite := some now }
  else { q with pending := q.pending ++ [w], lastWrite := some now }

/-- Releases the waiting burst at the next step. -/
def settle (q : WriteQueue) : WriteQueue :=
  if q.pending.isEmpty then q else { q with immediate := true }

/-- The time that is left until the burst settles; none if it has, or if there is no burst. -/
def wait? (q : WriteQueue) (now window : Nat) : Option Nat :=
  if q.pending.isEmpty || q.immediate then none
  else
    match q.lastWrite with
    | none => none
    | some last => if last + window ≤ now then none else some (last + window - now)

/-- Whether a burst waits that may be taken over. -/
def isSettled (q : WriteQueue) (now window : Nat) : Bool :=
  !q.pending.isEmpty && (q.wait? now window).isNone

/-- The queue after its burst has been taken over. -/
def drained (q : WriteQueue) : WriteQueue :=
  { q with pending := [], lastWrite := none, immediate := false }

@[simp] theorem pending_drained (q : WriteQueue) : q.drained.pending = [] := rfl
@[simp] theorem coalesced_drained (q : WriteQueue) : q.drained.coalesced = q.coalesced := rfl
@[simp] theorem length_overwrite (ws : List PendingWrite) (w : PendingWrite) :
    (overwrite ws w).length = ws.length := List.length_map ..

/-- Every write is either an entry of its own or counted as coalesced. -/
theorem length_add_coalesced_push (q : WriteQueue) (w : PendingWrite) (now : Nat) :
    (q.push w now).pending.length + (q.push w now).coalesced = q.pending.length + q.coalesced + 1 := by
  unfold push
  split
  · simp only [length_overwrite]; omega
  · simp only [List.length_append, List.length_singleton]; omega

end WriteQueue

end ReactiveNotebook
