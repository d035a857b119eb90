import TokenKit.Lib.AssocList
import TokenKit.Lib.StepMachine
import Mathlib.Logic.Function.Basic

/-!
# The in-memory revocation store

Instants are readings of the monotonic clock and durations spans of it, in nanoseconds.

The store keeps the insertion time of each revoked `jti` in a map and the order of insertions in a
queue. Both are edited under one write lock, in sections that each read the clock once: a sweep of
the expired entries, an eviction down to the capacity, an insertion. `revoke` is two sections,
`makeRoom` and then `insertRevoked`, and releases the lock between them.

Two machines drive a store. In `callStep` the calls do not overlap: a `revoke` runs both of its
sections, some time apart. In `sectionStep` any number of `revoke` calls are under way and each
step is one section of one of them.
-/

namespace TokenKit

def DEFAULT_MAX_ENTRIES : ℕ := 100000

/-- What the store's lock guards: each `jti`'s insertion time, and the insertion order. -/
structure InMemoryInner where
  entries : AList fun _ : String => ℕ
  order : List String

namespace InMemoryInner

def sweepExpired (inner : InMemoryInner) (ttl : Option ℕ) (now : ℕ) : InMemoryInner :=
  match ttl with
  | none => inner
  | some ttl =>
    let entries := inner.entries.retain fun _ inserted => now - inserted < ttl
    { entries, order := inner.order.filter fun jti => jti ∈ entries }

/-- The loop of `evictOldestTo`, along the queue it pops. -/
def evictLoop (maxEntries : ℕ) :
    (AList fun _ : String => ℕ) → List String → InMemoryInner
  | entries, [] => ⟨entries, []⟩
  | entries, oldest :: order =>
    if maxEntries ≤ entries.size then evictLoop maxEntries (entries.erase oldest) order
    else ⟨entries, oldest :: order⟩

/-- Whether the loop ends by its `break`: the store is full and no slot is left. -/
def evictBreaks (maxEntries : ℕ) : (AList fun _ : String => ℕ) → List String → Bool
  | entries, [] => maxEntries ≤ entries.size
  | entries, oldest :: order =>
    if maxEntries ≤ entries.size then evictBreaks maxEntries (entries.erase oldest) order
    else false

def evictOldestTo (inner : InMemoryInner) (maxEntries : ℕ) : InMemoryInner :=
  evictLoop maxEntries inner.entries inner.order

end InMemoryInner

/-- A store with its limits; the cap is at least one. -/
structure InMemoryRevocationStore where
  inner : InMemoryInner
  maxEntries : ℕ
  ttl : Option ℕ
  maxEntries_pos : 0 < maxEntries

namespace InMemoryRevocationStore

def withLimits (maxEntries : ℕ) (ttl : Option ℕ) : InMemoryRevocationStore where
  inner := ⟨∅, []⟩
  maxEntries := max maxEntries 1
  ttl := ttl
  maxEntries_pos := by omega

def new : InMemoryRevocationStore := withLimits DEFAULT_MAX_ENTRIES none

/-- The number of live entries, and the store the sweep leaves. -/
def len (store : InMemoryRevocationStore) (now : ℕ) : ℕ × InMemoryRevocationStore :=
  let inner := store.inner.sweepExpired store.ttl now
  (inner.entries.size, { store with inner })

def isEmpty (store : InMemoryRevocationStore) (now : ℕ) : Bool × InMemoryRevocationStore :=
  let (len, store) := store.len now
  (len == 0, store)

def makeRoom (store : InMemoryRevocationStore) (now : ℕ) : InMemoryRevocationStore :=
  { store with
    inner := (store.inner.sweepExpired store.ttl now).evictOldestTo store.maxEntries }

/-- Whether the eviction of `makeRoom` ends by its `break`. -/
def makeRoomBreaks (store : InMemoryRevocationStore) (now : ℕ) : Bool :=
  let inner := store.inner.sweepExpired store.ttl now
  InMemoryInner.evictBreaks store.maxEntries inner.entries inner.order

def insertRevoked (store : InMemoryRevocationStore) (jti : String) (now : ℕ) :
    InMemoryRevocationStore :=
  { store with
    inner :=
      { entries := store.inner.entries.insert jti now
        order := store.inner.order ++ [jti] } }

/-- `revoke`, which reads the clock at `roomAt` to sweep and at `insertedAt` to insert. -/
def revoke (store : InMemoryRevocationStore) (jti : String) (roomAt insertedAt : ℕ) :
    InMemoryRevocationStore :=
  (store.makeRoom roomAt).insertRevoked jti insertedAt

def isRevoked (store : InMemoryRevocationStore) (jti : String) (now : ℕ) : Bool :=
  match store.inner.entries.lookup jti with
  | none => false
  | some inserted =>
    match store.ttl with
    | some ttl => now - inserted < ttl
    | none => true

end InMemoryRevocationStore

/-! ## Calls that do not overlap -/

structure StoreWorld where
  store : InMemoryRevocationStore
  now : ℕ

/-- A call on the store, or time passing between calls. A `revoke` inserts `lag` after it has
made room. -/
inductive StoreCall where
  | revoke (jti : String) (lag : ℕ)
  | isRevoked (jti : String)
  | len
  | isEmpty
  | tick (d : ℕ)

def callStep (w : StoreWorld) : StoreCall → StoreWorld
  | .revoke jti lag => ⟨w.store.revoke jti w.now (w.now + lag), w.now + lag⟩
  | .isRevoked _ => w
  | .len => ⟨(w.store.len w.now).2, w.now⟩
  | .isEmpty => ⟨(w.store.isEmpty w.now).2, w.now⟩
  | .tick d => ⟨w.store, w.now + d⟩

inductive StoreAnswer where
  | done
  | isRevoked (revoked : Bool)
  | len (n : ℕ)
  | isEmpty (empty : Bool)
  deriving DecidableEq

/-- What a call answers; the passing of time answers nothing. -/
def callAnswer (w : StoreWorld) : StoreCall → Option StoreAnswer
  | .revoke _ _ => some .done
  | .isRevoked jti => some (.isRevoked (w.store.isRevoked jti w.now))
  | .len => some (.len (w.store.len w.now).1)
  | .isEmpty => some (.isEmpty (w.store.isEmpty w.now).1)
  | .tick _ => none

/-- The calls that only look. -/
inductive Observer where
  | isRevoked (jti : String)
  | len
  | isEmpty

def Observer.call : Observer → StoreCall
  | .isRevoked jti => .isRevoked jti
  | .len => .len
  | .isEmpty => .isEmpty

def freshStore (maxEntries : ℕ) (ttl : Option ℕ) (now : ℕ) : StoreWorld :=
  ⟨.withLimits maxEntries ttl, now⟩

/-! ## Overlapping calls -/

/-- Where a `revoke` call is: before its first section, between its sections, or past both. -/
inductive RevokePc where
  | started
  | roomMade
  | returned
  deriving DecidableEq

/-- A store with any number of `revoke` calls under way, numbered. -/
structure SharedStore where
  store : InMemoryRevocationStore
  now : ℕ
  pc : ℕ → RevokePc

/-- The next section of call `c`, another caller's read of the store, or time passing. -/
inductive Section where
  | revoke (c : ℕ)
  | isRevoked (jti : String)
  | len
  | isEmpty
  | tick (d : ℕ)

/-- A section runs alone. Call `c` revokes `jtis c`; one that has returned does nothing. -/
def sectionStep (jtis : ℕ → String) (w : SharedStore) : Section → SharedStore
  | .revoke c =>
    match w.pc c with
    | .started => ⟨w.store.makeRoom w.now, w.now, Function.update w.pc c .roomMade⟩
    | .roomMade =>
      ⟨w.store.insertRevoked (jtis c) w.now, w.now, Function.update w.pc c .returned⟩
    | .returned => w
  | .isRevoked _ => w
  | .len => { w with store := (w.store.len w.now).2 }
  | .isEmpty => { w with store := (w.store.isEmpty w.now).2 }
  | .tick d => { w with now := w.now + d }

def freshShared (maxEntries : ℕ) (ttl : Option ℕ) (now : ℕ) : SharedStore :=
  ⟨.withLimits maxEntries ttl, now, fun _ => .started⟩

end TokenKit
