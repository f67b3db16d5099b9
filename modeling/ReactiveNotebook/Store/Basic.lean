import ReactiveNotebook.Store.Queue
import ReactiveNotebook.Store.Slot

/-!
# The store of variables

A variable has a committed slot, a version that counts its commits, and subscribers. A subscriber is told of
every commit in the order of subscription; it may forward the committed value to another variable as a host
write. Every call of a subscriber is logged. A variable keeps the place of its first commit or subscription.
-/
namespace ReactiveNotebook

open Script (Value)

/-- Someone who is told of the commits to a variable. -/
structure Subscriber where
  id : Nat
  /-- The variable the committed value is written to. -/
  forward : Option String
  deriving DecidableEq, Repr

structure Variable where
  name : String
  slot : Slot
  version : Nat
  subscribers : List Subscriber

/-- A call of a subscriber. -/
structure Notification where
  subscriber : Nat
  name : String
  slot : Slot

structure Subscription where
  id : Nat
  name : String
  active : Bool
  deriving DecidableEq, Repr

/-- The variables, the host writes that wait, and the calls of subscribers so far, latest first. -/
structure Store where
  entries : List Variable
  queue : WriteQueue
  nextSubscriber : Nat
  notified : List Notification

namespace Store

def empty : Store := ⟨[], .empty, 1, []⟩

def find? (s : Store) (name : String) : Option Variable :=
  s.entries.find? (·.name == name)

def get (s : Store) (name : String) : Slot :=
  match s.find? name with
  | some v => v.slot
  | none => .undefined

/-- The number of commits to a variable. -/
def version (s : Store) (name : String) : Nat :=
  match s.find? name with
  | some v => v.version
  | none => 0

/-- The variables that are not undefined, in their order. -/
def definedNames (s : Store) : List String :=
  (s.entries.filter fun v => !v.slot.isUndefined).map (·.name)

def snapshot (s : Store) : List (String × Slot) :=
  s.entries.map fun v => (v.name, v.slot)

/-- Changes a variable, which is created at the end if it does not exist. -/
def update (s : Store) (name : String) (f : Variable → Variable) : Store :=
  if s.entries.any (·.name == name) then
    { s with entries := s.entries.map fun v => if v.name == name then f v else v }
  else { s with entries := s.entries ++ [f ⟨name, .undefined, 0, []⟩] }

def write (s : Store) (name : String) (value : Value) (forced : Bool) (now : Nat) : Store :=
  { s with queue := s.queue.push ⟨name, value, forced⟩ now }

/-- Queues a write that releases the burst at the next step. -/
def writeNow (s : Store) (name : String) (value : Value) (now : Nat) : Store :=
  { s with queue := (s.queue.push ⟨name, value, false⟩ now).settle }

/-- Whether writes wait. -/
def hasPending (s : Store) : Bool := !s.queue.pending.isEmpty

def subscribe (s : Store) (name : String) (forward : Option String) : Store × Subscription :=
  let id := s.nextSubscriber
  let s := s.update name fun v => { v with subscribers := v.subscribers ++ [⟨id, forward⟩] }
  ({ s with nextSubscriber := id + 1 }, ⟨id, name, true⟩)

def unsubscribe (s : Store) (h : Subscription) : Store × Subscription :=
  if h.active then
    let entries := s.entries.map fun v =>
      if v.name == h.name then { v with subscribers := v.subscribers.filter (·.id != h.id) } else v
    ({ s with entries }, { h with active := false })
  else (s, h)

def notify (name : String) (slot : Slot) (now : Nat) (s : Store) (sub : Subscriber) : Store :=
  let s := { s with notified := ⟨sub.id, name, slot⟩ :: s.notified }
  match sub.forward with
  | some target => s.write target slot.toValue false now
  | none => s

def subscribersOf (s : Store) (name : String) : List Subscriber :=
  match s.find? name with
  | some v => v.subscribers
  | none => []

/-- Tells all subscribers of a variable, in order. -/
def notifyAll (s : Store) (name : String) (slot : Slot) (now : Nat) : Store :=
  (s.subscribersOf name).foldl (notify name slot now) s

/-- Commits a slot and tells the subscribers. The flag says whether the slot differs from the one before. -/
def commit (s : Store) (name : String) (slot : Slot) (now : Nat) : Store × Bool :=
  let changed := !(s.get name).same slot
  let s := s.update name fun v => { v with slot, version := v.version + 1 }
  (s.notifyAll name slot now, changed)

/-- Makes a variable undefined and tells the subscribers. With `drop` the variable and its subscriptions are
gone afterwards. The flag says whether the variable had a slot to lose. -/
def clear (s : Store) (name : String) (drop : Bool) (now : Nat) : Store × Bool :=
  match s.find? name with
  | none => (s, false)
  | some v =>
    let s := s.update name fun v => { v with slot := .undefined, version := v.version + 1 }
    let s := s.notifyAll name .undefined now
    let s := if drop then { s with entries := s.entries.filter (·.name != name) } else s
    (s, !v.slot.isUndefined)

@[simp] theorem get_empty (name : String) : empty.get name = .undefined := rfl
@[simp] theorem version_empty (name : String) : empty.version name = 0 := rfl
@[simp] theorem entries_write (s : Store) (name : String) (v : Value) (forced : Bool) (now : Nat) :
    (s.write name v forced now).entries = s.entries := rfl
@[simp] theorem get_write (s : Store) (name : String) (v : Value) (forced : Bool) (now : Nat) (x : String) :
    (s.write name v forced now).get x = s.get x := rfl

@[simp] theorem entries_notify (name : String) (slot : Slot) (now : Nat) (s : Store) (sub : Subscriber) :
    (notify name slot now s sub).entries = s.entries := by
  unfold notify
  split <;> rfl

theorem entries_foldl_notify (name : String) (slot : Slot) (now : Nat) (subs : List Subscriber) (s : Store) :
    (subs.foldl (notify name slot now) s).entries = s.entries := by
  induction subs generalizing s with
  | nil => rfl
  | cons sub subs ih => rw [List.foldl_cons, ih, entries_notify]

@[simp] theorem entries_notifyAll (s : Store) (name : String) (slot : Slot) (now : Nat) :
    (s.notifyAll name slot now).entries = s.entries :=
  entries_foldl_notify ..

end Store

end ReactiveNotebook
