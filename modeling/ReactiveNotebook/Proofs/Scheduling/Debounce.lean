import ReactiveNotebook.Proofs.Engine.Relay
import ReactiveNotebook.Proofs.Scheduling.Bookkeeping
import ReactiveNotebook.Proofs.Scheduling.Incremental

/-!
# Host writes are debounced

Books are kept of what reaches the queue of host writes, from the moment the notebook is made. They tell when a tick
takes over the writes that wait and which ones it takes over, and they balance: every write has been committed, or
waits, or has been absorbed by a write that waited.
-/
namespace ReactiveNotebook

open Script (Value)

variable {l : Language}

/-- One thing that is done to an engine. -/
inductive Beat where
  | set (name : String) (value : Value)
  | setForced (name : String) (value : Value)
  | setImmediate (name : String) (value : Value)
  | flush
  | advance (nanos : ℕ)
  | sleep (nanos : ℕ)
  | tick
  /-- Anything else that an owner does: edits, subscriptions, seeds, and waiting for scripts. -/
  | other

namespace Beat

/-- What a beat itself sends to the queue. -/
def entries (now : ℕ) : Beat → Burst
  | set name value => [.write ⟨name, value, false⟩ now]
  | setForced name value => [.write ⟨name, value, true⟩ now]
  | setImmediate name value => [.write ⟨name, value, false⟩ now, .release]
  | flush => [.release]
  | _ => []

def isTick : Beat → Bool
  | tick => true
  | _ => false

end Beat

namespace Engine

/-- What a beat makes of an engine. -/
inductive Does (l : Language) (e : Engine) : Beat → Engine → Prop
  | set (name : String) (value : Value) : Does l e (.set name value) (e.set name value)
  | setForced (name : String) (value : Value) : Does l e (.setForced name value) (e.setForced name value)
  | setImmediate (name : String) (value : Value) : Does l e (.setImmediate name value) (e.setImmediate name value)
  | flush : Does l e .flush e.flush
  | advance (nanos : ℕ) : Does l e (.advance nanos) (e.advanceClock nanos)
  | sleep (nanos : ℕ) : Does l e (.sleep nanos) (e.sleep nanos)
  | tick {e' : Engine} {report : Option Report} (h : e.tick l = .ok (e', report)) : Does l e .tick e'
  | edit {e' : Engine} (h : Edit e e') : Does l e .other e'
  | subscribe (name : String) (forward : Option String) :
      Does l e .other { e with store := (e.store.subscribe name forward).1 }
  | unsubscribe (h : Subscription) : Does l e .other { e with store := (e.store.unsubscribe h).1 }
  | seed (ids : List CellId) : Does l e .other (e.seedAll ids)
  | await : Does l e .other e.awaitScript
  | arrive : Does l e .other e.arriveAll
  | phase (phase : Phase) : Does l e .other { e with phase }

/-- Engines that beats lead to one after the other, from a notebook without cells. -/
structure IsBeats (l : Language) (n : ℕ) (σ : ℕ → Engine) (beats : ℕ → Beat) : Prop where
  start : ∃ config manual, σ 0 = new config manual
  step : ∀ k < n, (σ k).Does l (beats k) (σ (k + 1))

end Engine

/-- The books of the queue: what has reached it since it was drained last, how many writes have been made, and how
many entries the drains have committed. -/
structure Ledger where
  burst : Burst
  made : ℕ
  committed : ℕ

namespace Ledger

def blank : Ledger := ⟨[], 0, 0⟩

/-- Books what reaches the queue. -/
def post (L : Ledger) (b : Burst) : Ledger := { L with burst := L.burst ++ b, made := L.made + b.writes.length }

/-- Books that the burst has been taken over, with one commit for each name. -/
def drain (L : Ledger) : Ledger := { L with burst := [], committed := L.committed + L.burst.names.length }

end Ledger

namespace Engine

variable {e e' : Engine} {w : PendingWrite} {ws : List PendingWrite} {beat : Beat} {notices : List Notice} {L : Ledger}
variable {σ : ℕ → Engine} {beats : ℕ → Beat} {n : ℕ}

/-- Whether a tick takes over the burst: no pass is in progress, and the burst has settled by the reading of the
clock. -/
def isDue (e : Engine) (b : Burst) : Bool := e.pass.isNone && b.hasSettled e.clock.now e.config.settleWindow

/-- The books after a beat in which subscribers have been told. -/
def book (e : Engine) (beat : Beat) (notices : List Notice) (L : Ledger) : Ledger :=
  (if beat.isTick && e.isDue L.burst then L.drain else L).post
    (beat.entries e.clock.now ++ echoes e.clock.now notices)

def books (σ : ℕ → Engine) (beats : ℕ → Beat) (notices : ℕ → List Notice) : ℕ → Ledger
  | 0 => .blank
  | k + 1 => (σ k).book (beats k) (notices k) (books σ beats notices k)

/-- The engine when the burst has been taken from the queue and not been committed yet. -/
def drained (e : Engine) : Engine :=
  { e with phase := .collecting, store := { e.store with queue := e.store.queue.drained } }

/-- The writes have been committed, each once and in this order, and nothing else. The readers of a variable that
has changed or whose write is forced are seeded. -/
structure Commits (ws : List PendingWrite) (e e' : Engine) : Prop where
  ordered : e' = ws.foldl takeWrite e
  once : (ws.map (·.name)).Nodup
  value : ∀ w ∈ ws, e'.get w.name = .value w.value
  version : ∀ x, e'.store.version x = e.store.version x + if x ∈ ws.map (·.name) then 1 else 0
  kept : ∀ x ∉ ws.map (·.name), e'.get x = e.get x
  seeds : ∀ id, id ∈ e'.seeds ↔ id ∈ e.seeds ∨ ∃ w ∈ ws, id ∈ e.graph.readersOf w.name ∧
    (w.forced = true ∨ (e.get w.name).same (.value w.value) = false)

/-- What the books say about an engine and about the tick that may come next. -/
structure Debounced (l : Language) (e : Engine) (L : Ledger) : Prop where
  /-- No write is lost, and none is counted twice. -/
  balanced : L.made = L.committed + e.store.queue.pending.length + e.store.queue.coalesced
  condenses : Condenses L.burst.writes e.store.queue.pending
  /-- A tick that is due commits what waits and goes on from there. -/
  due : e.isDue L.burst = true → ∃ c, Commits e.store.queue.pending e.drained c ∧ e.tick l = c.proceed l
  /-- A tick that is not due commits nothing of what waits, which stays in the queue. -/
  waits : e.isDue L.burst = false → e.tick l = e.proceed l ∧ ∀ e' report, e.tick l = .ok (e', report) →
    ∃ notices, Store.Echoes e.clock.now notices e.store e'.store
  single : ∀ e' report, e.tick l = .ok (e', report) → e'.generation ≤ e.generation + 1

lemma version_takeWrite (e : Engine) (w : PendingWrite) (x : String) :
    (e.takeWrite w).store.version x = e.store.version x + if x = w.name then 1 else 0 := by
  have hversion : (e.store.commit w.name (.value w.value) e.clock.now).1.version x =
      e.store.version x + if x = w.name then 1 else 0 := Store.version_commit
  unfold takeWrite
  dsimp only
  split <;> exact hversion

/-- The readers are seeded if the variable changes or the write is forced. -/
lemma mem_seeds_takeWrite {id : CellId} : id ∈ (e.takeWrite w).seeds ↔ id ∈ e.seeds ∨
    id ∈ e.graph.readersOf w.name ∧ (w.forced = true ∨ (e.get w.name).same (.value w.value) = false) := by
  have hchanged : (e.store.commit w.name (.value w.value) e.clock.now).2 = !(e.get w.name).same (.value w.value) :=
    Store.commit_changed
  unfold takeWrite
  dsimp only
  rw [hchanged]
  cases (e.get w.name).same (.value w.value) <;> cases w.forced <;>
    simp [seedAll, Names.mem_insertAll, or_comm]

lemma graph_takeWrite : (e.takeWrite w).graph = e.graph := by
  obtain ⟨store, seeds, -, heq⟩ := sameButSeeds_takeWrite e w
  rw [heq]

lemma commits_nil (e : Engine) : Commits [] e e where
  ordered := rfl
  once := List.nodup_nil
  value := nofun
  version _ := rfl
  kept _ _ := rfl
  seeds _ := by simp

lemma Commits.cons (h : Commits ws (e.takeWrite w) e') (hw : w.name ∉ ws.map (·.name)) : Commits (w :: ws) e e' where
  ordered := h.ordered
  once := List.nodup_cons.mpr ⟨hw, h.once⟩
  value v hv := by
    rcases List.mem_cons.mp hv with rfl | hv
    · rw [h.kept _ hw, get_takeWrite, if_pos rfl]
    · exact h.value v hv
  version x := by
    rw [h.version, version_takeWrite, List.map_cons]
    by_cases hx : x = w.name
    · subst hx
      simp [hw]
    · simp [hx]
  kept x hx := by
    rw [List.map_cons, List.mem_cons, not_or] at hx
    rw [h.kept x hx.2, get_takeWrite, if_neg hx.1]
  seeds id := by
    have hread : ∀ v ∈ ws, (e.takeWrite w).get v.name = e.get v.name := fun v hv => by
      have hne : v.name ≠ w.name := fun heq => hw (heq ▸ List.mem_map_of_mem hv)
      rw [get_takeWrite, if_neg hne]
    rw [h.seeds, mem_seeds_takeWrite, graph_takeWrite, or_assoc, List.exists_mem_cons_iff]
    refine or_congr_right (or_congr_right (exists_congr fun v => and_congr_right fun hv => ?_))
    rw [hread v hv]

/-- Writes to different variables are committed independently of each other. -/
lemma commits_foldl_takeWrite (hn : (ws.map (·.name)).Nodup) (e : Engine) : Commits ws e (ws.foldl takeWrite e) := by
  induction ws generalizing e with
  | nil => exact commits_nil e
  | cons w ws ih =>
    rw [List.map_cons, List.nodup_cons] at hn
    exact (ih hn.2 (e.takeWrite w)).cons hn.1

lemma collect_of_settled (hq : e.store.queue.isSettled e.clock.now e.config.settleWindow = true) :
    e.collect = e.store.queue.pending.foldl takeWrite e.drained := by
  unfold Engine.collect
  rw [if_pos hq]
  rfl

lemma generation_collect (e : Engine) : e.collect.generation = e.generation := by
  obtain ⟨store, seeds, phase, -, heq⟩ := collect_shape e
  rw [heq]

/-- The books agree with the queue. -/
structure Booked (q : WriteQueue) (L : Ledger) : Prop where
  holds : q.Holds L.burst
  balanced : L.made = L.committed + q.pending.length + q.coalesced

lemma Booked.drain {q : WriteQueue} (h : Booked q L) : Booked q.drained L.drain where
  holds := q.holds_drained
  balanced := by
    have hlength := congrArg List.length h.holds.condenses.names
    rw [List.length_map] at hlength
    change L.made = L.committed + L.burst.names.length + 0 + q.coalesced
    rw [h.balanced, hlength]
    rfl

lemma Booked.post {q : WriteQueue} (h : Booked q L) (b : Burst) :
    Booked (b.foldl WriteQueue.receive q) (L.post b) where
  holds := h.holds.foldl_receive b
  balanced := by
    have hcount := WriteQueue.length_add_coalesced_receive b q
    have hbalanced := h.balanced
    change L.made + b.writes.length = L.committed + _ + _
    omega

/-- Books that agree with the queue tell what a tick does. -/
lemma Booked.debounced (h : Booked e.store.queue L) : e.Debounced l L where
  balanced := h.balanced
  condenses := h.holds.condenses
  due hdue := by
    rw [isDue, Bool.and_eq_true, ← h.holds.isSettled_eq] at hdue
    rw [tick_eq, if_pos hdue.1, collect_of_settled hdue.2]
    exact ⟨_, commits_foldl_takeWrite h.holds.condenses.nodup _, rfl⟩
  waits hwaits := by
    have heq : e.tick l = e.proceed l := by
      rw [tick_eq]
      split
      · next hrest =>
        rw [isDue, hrest, Bool.true_and, ← h.holds.isSettled_eq] at hwaits
        rw [collect_of_not_settled hwaits]
      · rfl
    exact ⟨heq, fun e' report htick => (echoes_of_proceed (heq ▸ htick)).2.2⟩
  single e' report htick := by
    rw [tick_eq] at htick
    have hsingle := (echoes_of_proceed htick).2.1
    split at hsingle
    · rwa [generation_collect] at hsingle
    · exact hsingle

/-- What reaches the queue in a tick comes from subscribers. A burst that has settled is taken from it before. -/
lemma queue_of_tick {report : Option Report} (h : e.tick l = .ok (e', report)) :
    ∃ notices, e.store.Notifies notices e'.store ∧
      e'.store.queue = (echoes e.clock.now notices).foldl WriteQueue.receive
        (if e.pass.isNone && e.store.queue.isSettled e.clock.now e.config.settleWindow then
          e.store.queue.drained else e.store.queue) := by
  rw [tick_eq] at h
  by_cases hdue : (e.pass.isNone && e.store.queue.isSettled e.clock.now e.config.settleWindow) = true
  · rw [if_pos hdue]
    rw [Bool.and_eq_true] at hdue
    rw [if_pos hdue.1, collect_of_settled hdue.2] at h
    have hcommit := relays_foldl_takeWrite e.store.queue.pending e.drained
    obtain ⟨first, hfirst⟩ := hcommit.notices
    obtain ⟨-, -, second, hsecond⟩ := echoes_of_proceed h
    have hall : Store.Echoes e.clock.now (first ++ second) e.drained.store e'.store :=
      hfirst.trans (hcommit.clock ▸ hsecond)
    exact ⟨_, ⟨hall.notified, hall.subscribed⟩, hall.queue⟩
  · rw [if_neg hdue]
    have hstay : (if e.pass.isNone then e.collect else e) = e := by
      split
      · next hrest =>
        rw [hrest, Bool.true_and, Bool.not_eq_true] at hdue
        exact collect_of_not_settled hdue
      · rfl
    rw [hstay] at h
    obtain ⟨-, -, notices, hnotices⟩ := echoes_of_proceed h
    exact ⟨notices, hnotices.toNotifies, hnotices.queue⟩

/-- Without notices the queue receives what the beat itself sends. -/
lemma exists_notices_of_silent {q : WriteQueue} (hnotified : e'.store.notified = e.store.notified)
    (hqueue : e'.store.queue = (beat.entries e.clock.now).foldl WriteQueue.receive q) :
    ∃ notices, e.store.Notifies notices e'.store ∧
      e'.store.queue = (beat.entries e.clock.now ++ echoes e.clock.now notices).foldl WriteQueue.receive q :=
  ⟨[], ⟨hnotified, nofun⟩, hqueue.trans (by rw [echoes, List.filterMap_nil, List.append_nil])⟩

/-- What becomes of the queue in a beat: it is drained by a tick that finds it settled, and then receives what the
beat and the subscribers send. -/
def queueAfter (e : Engine) (beat : Beat) (notices : List Notice) : WriteQueue :=
  (beat.entries e.clock.now ++ echoes e.clock.now notices).foldl WriteQueue.receive
    (if beat.isTick && (e.pass.isNone && e.store.queue.isSettled e.clock.now e.config.settleWindow) then
      e.store.queue.drained else e.store.queue)

lemma Does.queue (h : e.Does l beat e') :
    ∃ notices, e.store.Notifies notices e'.store ∧ e'.store.queue = e.queueAfter beat notices := by
  have hrelays : e.Relays e' → ∃ notices, e.store.Notifies notices e'.store ∧
      e'.store.queue = (echoes e.clock.now notices).foldl WriteQueue.receive e.store.queue := fun hrelays => by
    obtain ⟨notices, hnotices⟩ := hrelays.notices
    exact ⟨notices, hnotices.toNotifies, hnotices.queue⟩
  cases h with
  | set name value => exact exists_notices_of_silent rfl rfl
  | setForced name value => exact exists_notices_of_silent rfl rfl
  | setImmediate name value => exact exists_notices_of_silent rfl rfl
  | flush => exact exists_notices_of_silent rfl rfl
  | advance nanos =>
    refine exists_notices_of_silent ?_ ?_ <;> unfold advanceClock <;> split <;> rfl
  | sleep nanos => exact exists_notices_of_silent rfl rfl
  | tick h => exact queue_of_tick h
  | edit h => exact hrelays h.relays
  | subscribe name forward =>
    obtain ⟨hnotifies, hqueue⟩ := Store.notifies_subscribe e.store name forward
    exact exists_notices_of_silent hnotifies.notified hqueue
  | unsubscribe h =>
    obtain ⟨hnotifies, hqueue⟩ := Store.notifies_unsubscribe e.store h
    exact exists_notices_of_silent hnotifies.notified hqueue
  | seed ids => exact exists_notices_of_silent rfl rfl
  | await => exact hrelays (relays_awaitScript e)
  | arrive => exact exists_notices_of_silent rfl rfl
  | phase phase => exact exists_notices_of_silent rfl rfl

/-- The books that are kept of a beat agree with the queue after it. -/
lemma Booked.book (h : Booked e.store.queue L) (beat : Beat) (notices : List Notice) :
    Booked (e.queueAfter beat notices) (e.book beat notices L) := by
  rw [queueAfter, h.holds.isSettled_eq]
  refine Booked.post ?_ _
  change Booked (if (beat.isTick && e.isDue L.burst) = true then _ else _) _
  split
  · exact h.drain
  · exact h

/-- Along any sequence of beats a tick takes over the writes that wait exactly when it is due, and the books
balance. A flush counts only if a write waits when it comes, and what has elapsed is the difference of the readings
of the clock, of which a manual one starts anew at the end of its range. -/
theorem debounce_law (h : IsBeats l n σ beats) : ∃ notices : ℕ → List Notice,
    (∀ k < n, (σ k).store.Notifies (notices k) (σ (k + 1)).store) ∧
    ∀ k ≤ n, (σ k).Debounced l (books σ beats notices k) := by
  have hbeat : ∀ k, ∃ notices, k < n → (σ k).store.Notifies notices (σ (k + 1)).store ∧
      (σ (k + 1)).store.queue = (σ k).queueAfter (beats k) notices := fun k => by
    by_cases hk : k < n
    · obtain ⟨notices, hnotices⟩ := (h.step k hk).queue
      exact ⟨notices, fun _ => hnotices⟩
    · exact ⟨[], fun hk' => absurd hk' hk⟩
  choose notices hnotices using hbeat
  have hbooked : ∀ k ≤ n, Booked (σ k).store.queue (books σ beats notices k) := fun k hk => by
    induction k with
    | zero =>
      obtain ⟨config, manual, hstart⟩ := h.start
      rw [hstart]
      exact ⟨WriteQueue.holds_drained .empty, rfl⟩
    | succ k ih =>
      rw [(hnotices k hk).2]
      exact (ih (by omega)).book (beats k) (notices k)
  exact ⟨notices, fun k hk => (hnotices k hk).1, fun k hk => (hbooked k hk).debounced⟩

def beat? (l : Language) (e : Engine) : Beat → Option Engine
  | .set name value => some (e.set name value)
  | .setForced name value => some (e.setForced name value)
  | .setImmediate name value => some (e.setImmediate name value)
  | .flush => some e.flush
  | .advance nanos => some (e.advanceClock nanos)
  | .sleep nanos => some (e.sleep nanos)
  | .tick => (e.tick l).toOption.map (·.1)
  | .other => none

lemma does_of_beat? (h : e.beat? l beat = some e') : e.Does l beat e' := by
  cases beat with
  | set name value => exact Option.some.inj h ▸ .set name value
  | setForced name value => exact Option.some.inj h ▸ .setForced name value
  | setImmediate name value => exact Option.some.inj h ▸ .setImmediate name value
  | flush => exact Option.some.inj h ▸ .flush
  | advance nanos => exact Option.some.inj h ▸ .advance nanos
  | sleep nanos => exact Option.some.inj h ▸ .sleep nanos
  | tick =>
    obtain ⟨⟨t, report⟩, ht, rfl⟩ := Option.map_eq_some_iff.mp h
    cases htick : e.tick l with
    | error cause => rw [htick] at ht; cases ht
    | ok result =>
      rw [htick] at ht
      cases ht
      exact .tick htick
  | other => cases h

lemma isBeats_along {config : Config} {manual : Bool} {bs : List Beat}
    (h : leads (beat? l) (new config manual) bs = true) :
    IsBeats l bs.length (along (beat? l) (new config manual) bs) fun k => bs.getD k .other where
  start := ⟨config, manual, rfl⟩
  step k hk := by
    have hget : bs[k]? = some (bs.getD k .other) := by
      rw [List.getD_eq_getElem?_getD, List.getElem?_eq_getElem hk]
      rfl
    exact does_of_beat? (step_along h hget)

lemma books_congr {notices notices' : ℕ → List Notice} {k : ℕ} (h : ∀ i < k, notices i = notices' i) :
    books σ beats notices k = books σ beats notices' k := by
  induction k with
  | zero => rfl
  | succ k ih => rw [books, books, h k (by omega), ih fun i hi => h i (by omega)]

/-- Two writes to `x` and one to `y` in between, a tick that comes too early, and one after the window. -/
def tapping : List Beat :=
  [.set "x" (.int 1), .set "y" (.int 3), .setForced "x" (.int 2), .tick, .advance 50000000, .tick]

def tapped : ℕ → Engine := along (beat? (.ofConfig .standard)) (new .standard true) tapping

/-- How the burst goes, as far as it can be computed. -/
lemma tapped_trace :
    leads (beat? (.ofConfig .standard)) (new .standard true) tapping = true ∧
    (∀ k < 7, (tapped k).store.notified.isEmpty = true) ∧
    (tapped 3).isDue (books tapped (tapping.getD · .other) (fun _ => []) 3).burst = false ∧
    (tapped 5).isDue (books tapped (tapping.getD · .other) (fun _ => []) 5).burst = true ∧
    (tapped 5).store.queue.pending.map (fun w => (w.name, w.forced)) = [("x", true), ("y", false)] := by
  decide +kernel

/-- The first tick waits, and the second one commits one entry for each of the two variables. -/
theorem tapped_debounced :
    (tapped 3).tick (.ofConfig .standard) = (tapped 3).proceed (.ofConfig .standard) ∧
    (tapped 5).store.queue.pending.map (fun w => (w.name, w.forced)) = [("x", true), ("y", false)] ∧
    ∃ c, Commits (tapped 5).store.queue.pending (tapped 5).drained c ∧
      (tapped 5).tick (.ofConfig .standard) = c.proceed (.ofConfig .standard) := by
  obtain ⟨hleads, hsilent, hearly, hdue, hpending⟩ := tapped_trace
  have hbeats : IsBeats (.ofConfig .standard) 6 tapped (tapping.getD · .other) := isBeats_along hleads
  obtain ⟨notices, hnotifies, hlaw⟩ := debounce_law hbeats
  have hnone : ∀ k < 6, notices k = [] := fun k hk => by
    have hlog := (hnotifies k hk).notified
    rw [List.isEmpty_iff.mp (hsilent k (by omega)), List.isEmpty_iff.mp (hsilent (k + 1) (by omega))] at hlog
    simpa using hlog
  have hbooks : ∀ k ≤ 6, books tapped (tapping.getD · .other) notices k =
      books tapped (tapping.getD · .other) (fun _ => []) k :=
    fun k hk => books_congr fun i hi => hnone i (by omega)
  rw [← hbooks 3 (by decide)] at hearly
  rw [← hbooks 5 (by decide)] at hdue
  exact ⟨((hlaw 3 (by decide)).waits hearly).1, hpending, (hlaw 5 (by decide)).due hdue⟩

/-- A flush before the only write. -/
def earlyFlush : List Beat := [.flush, .set "x" (.int 1), .tick]

/-- A write, and then the whole range of a manual clock. -/
def wholeTurn : List Beat := [.set "x" (.int 1), .advance (2 ^ 64), .tick]

/-- No pass is in progress and a write waits, and since the queue was new there has been a flush in one case, and the
clock has been moved far beyond the window in the other. Yet the tick commits nothing. -/
theorem early_flush_or_whole_turn_releases_nothing : Config.standard.settleWindow ≤ 2 ^ 64 ∧
    ∀ bs ∈ [earlyFlush, wholeTurn], ∃ σ, IsBeats (.ofConfig .standard) 3 σ (bs.getD · .other) ∧
      (σ 2).pass.isNone = true ∧ (σ 2).store.hasPending = true ∧
      (σ 3).store.hasPending = true ∧ ((σ 3).get "x").isUndefined = true := by
  have htrace : ∀ bs ∈ [earlyFlush, wholeTurn], leads (beat? (.ofConfig .standard)) (new .standard true) bs = true ∧
      bs.length = 3 ∧ (along (beat? (.ofConfig .standard)) (new .standard true) bs 2).pass.isNone = true ∧
      (along (beat? (.ofConfig .standard)) (new .standard true) bs 2).store.hasPending = true ∧
      (along (beat? (.ofConfig .standard)) (new .standard true) bs 3).store.hasPending = true ∧
      ((along (beat? (.ofConfig .standard)) (new .standard true) bs 3).get "x").isUndefined = true := by
    decide +kernel
  refine ⟨by decide +kernel, fun bs hbs => ?_⟩
  obtain ⟨hleads, hlength, htrace⟩ := htrace bs hbs
  exact ⟨_, hlength ▸ isBeats_along hleads, htrace⟩

end Engine

end ReactiveNotebook
