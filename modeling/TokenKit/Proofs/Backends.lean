import TokenKit.Redis
import TokenKit.Proofs.Store

/-!
# The two stores agree

As long as it evicts nothing, the in-memory store answers for each `jti`, at any later instant, as
the server does (`SameKeys`): a sweep only drops what has expired, and a revocation starts the
entry's time anew as `SETEX` does the key's. So the two stores answer a sequence of calls alike
(`backends_agree`).
-/

namespace TokenKit

open StepMachine InMemoryInner InMemoryRevocationStore
open TokenRevocationStore (storeStep answer)

/-- With room, a revocation leaves every other answer as it will be, and its own `jti` revoked for
the time to live. -/
theorem isRevoked_revoke_of_room {store : InMemoryRevocationStore} {roomAt insertedAt now : ℕ}
    (hroom : (store.inner.sweepExpired store.ttl roomAt).entries.size < store.maxEntries)
    (hlag : roomAt ≤ insertedAt) (hnow : insertedAt ≤ now) (jti k : String) :
    (store.revoke jti roomAt insertedAt).isRevoked k now = true
      ↔ if k = jti then Live store.ttl now insertedAt else store.isRevoked k now = true := by
  have hev : (store.makeRoom roomAt).inner = store.inner.sweepExpired store.ttl roomAt :=
    evictOldestTo_of_lt hroom
  have hentries : (store.revoke jti roomAt insertedAt).inner.entries
      = (store.inner.sweepExpired store.ttl roomAt).entries.insert jti insertedAt := by
    simp only [revoke, insertRevoked, hev]
  have httl : (store.revoke jti roomAt insertedAt).ttl = store.ttl := rfl
  rw [isRevoked_iff, hentries, httl]
  split_ifs with hk
  · subst hk
    simp [AList.lookup_insert]
  · rw [isRevoked_iff, AList.lookup_insert_ne hk]
    simp only [lookup_sweepExpired]
    constructor
    · rintro ⟨t, ⟨ht, -⟩, hl⟩
      exact ⟨t, ht, hl⟩
    · rintro ⟨t, ht, hl⟩
      exact ⟨t, ⟨ht, hl.anti (hlag.trans hnow)⟩, hl⟩

/-- The clocks agree, and from now on the store and the server agree on every `jti`. -/
structure SameKeys (server : RedisServer) (secs : ℕ) (w : InMemoryRevocationStore × ℕ)
    (v : server.State × ℕ) : Prop where
  clock : w.2 = v.2
  ttl : w.1.ttl = some (secs * 10 ^ 9)
  keys : ∀ jti now, w.2 ≤ now → w.1.isRevoked jti now = server.existsKey v.1 now jti

/-- A revocation finds the store below its cap, once the expired entries are swept. -/
def FindsRoom (w : InMemoryRevocationStore × ℕ) : RevocationCall → Prop
  | .revoke _ _ => (w.1.inner.sweepExpired w.1.ttl w.2).entries.size < w.1.maxEntries
  | _ => True

instance (w : InMemoryRevocationStore × ℕ) : (c : RevocationCall) → Decidable (FindsRoom w c)
  | .revoke _ _ => inferInstanceAs
    (Decidable ((w.1.inner.sweepExpired w.1.ttl w.2).entries.size < w.1.maxEntries))
  | .isRevoked _ => isTrue trivial
  | .tick _ => isTrue trivial

section

variable {server : RedisServer} {secs : ℕ}

theorem sameKeys_fresh (hlast : server.KeysLast) (maxEntries now : ℕ) :
    SameKeys server secs (withLimits maxEntries (some (secs * 10 ^ 9)), now)
      (server.fresh, now) where
  clock := rfl
  ttl := rfl
  keys jti now _ := by
    rw [hlast.fresh]
    rfl

theorem sameKeys_step (hlast : server.KeysLast) (hsecs : 0 < secs)
    {w : InMemoryRevocationStore × ℕ} {v : server.State × ℕ} (c : RevocationCall)
    (hroom : FindsRoom w c) (h : SameKeys server secs w v) :
    SameKeys server secs (storeStep asStore w c)
      (storeStep (RedisRevocationStore.asStore ⟨secs⟩ server) v c) := by
  cases c with
  | revoke jti lag =>
    refine ⟨congrArg (· + lag) h.clock, h.ttl, fun k now hnow => ?_⟩
    have hnow : w.2 + lag ≤ now := hnow
    have hset : server.existsKey (storeStep (RedisRevocationStore.asStore ⟨secs⟩ server) v
        (.revoke jti lag)).1 now k = if k = jti then decide (now - (v.2 + lag) < secs * 10 ^ 9)
          else server.existsKey v.1 now k :=
      hlast.setex v.1 (v.2 + lag) jti secs "1" now k hsecs (h.clock ▸ hnow)
    have hrev := isRevoked_revoke_of_room hroom (Nat.le_add_right w.2 lag) hnow jti k
    have hstore : (storeStep asStore w (.revoke jti lag)).1 = w.1.revoke jti w.2 (w.2 + lag) := rfl
    rw [hset, hstore, Bool.eq_iff_iff, hrev, ← h.clock]
    split_ifs with hk
    · simp [Live, h.ttl]
    · rw [h.keys k now ((Nat.le_add_right _ _).trans hnow)]
  | isRevoked jti => exact ⟨h.clock, h.ttl, h.keys⟩
  | tick d =>
    exact ⟨congrArg (· + d) h.clock, h.ttl, fun jti now hnow =>
      h.keys jti now ((Nat.le_add_right _ _).trans hnow)⟩

end

/-- With a time to live in whole seconds, and room at every revocation, the in-memory store and the
Redis store give the same answers to a sequence of calls. -/
theorem backends_agree {server : RedisServer} (hlast : server.KeysLast) (maxEntries secs now : ℕ)
    (hsecs : 1 ≤ secs) (calls : List RevocationCall)
    (hroom : ∀ x ∈ taken (storeStep asStore)
      (withLimits maxEntries (some (secs * 10 ^ 9)), now) calls, FindsRoom x.1 x.2) :
    outputs (storeStep asStore) (answer asStore)
        (withLimits maxEntries (some (secs * 10 ^ 9)), now) calls
      = outputs (storeStep (RedisRevocationStore.asStore ⟨secs⟩ server))
        (answer (RedisRevocationStore.asStore ⟨secs⟩ server)) (server.fresh, now) calls := by
  refine outputs_eq _ (R := SameKeys server secs) (fun w v c h => ?_)
    (fun w v c hc h => sameKeys_step hlast hsecs c hc h) calls
    (sameKeys_fresh hlast maxEntries now) hroom
  cases c with
  | isRevoked jti =>
    have hkeys : w.1.isRevoked jti w.2 = server.existsKey v.1 v.2 jti :=
      h.clock ▸ h.keys jti w.2 le_rfl
    exact congrArg (fun b => some (Except.ok b)) hkeys
  | _ => rfl

/-- A server that keeps, for each key, the instant until which it is set. -/
def deadlineServer : RedisServer where
  State := AList fun _ : String => ℕ
  fresh := ∅
  setex state now key secs _ := state.insert key (now + secs * 10 ^ 9)
  existsKey state now key := (state.lookup key).any fun deadline => now < deadline

theorem deadlineServer_keysLast : deadlineServer.KeysLast where
  fresh _ _ := rfl
  setex (state : AList fun _ : String => ℕ) setAt key secs value now other _ hle := by
    have hexists : ∀ state : AList fun _ : String => ℕ, deadlineServer.existsKey state now other
        = (state.lookup other).any fun deadline => now < deadline := fun _ => rfl
    have hset : deadlineServer.setex state setAt key secs value
        = state.insert key (setAt + secs * 10 ^ 9) := rfl
    rw [hset, hexists, hexists]
    split_ifs with hk
    · subst hk
      rw [AList.lookup_insert, Option.any_some, decide_eq_decide]
      omega
    · rw [AList.lookup_insert_ne hk]

/-- An entry revoked again while it lives answers for the longer time. -/
theorem backends_agree_extended :
    outputs (storeStep asStore) (answer asStore) (withLimits 2 (some (1 * 10 ^ 9)), 0)
        [.revoke "a" 0, .tick 600000000, .revoke "a" 0, .tick 600000000, .isRevoked "a",
          .tick 600000000, .isRevoked "a"]
      = outputs (storeStep (RedisRevocationStore.asStore ⟨1⟩ deadlineServer))
        (answer (RedisRevocationStore.asStore ⟨1⟩ deadlineServer)) (deadlineServer.fresh, 0)
        [.revoke "a" 0, .tick 600000000, .revoke "a" 0, .tick 600000000, .isRevoked "a",
          .tick 600000000, .isRevoked "a"] :=
  backends_agree deadlineServer_keysLast 2 1 0 le_rfl _ (by decide)

end TokenKit
