import TokenKit.Revocation
import Mathlib.Algebra.Ring.Nat

/-!
# The Redis revocation store

The server is a parameter: a `RedisServer` is the two commands the store sends, at an instant of the
same clock the in-memory store reads. What their documentation says is `KeysLast`: `SETEX` sets a
key for so many seconds, or sets it anew, and `EXISTS` finds it until they have passed.

A call sends its command over the cached connection, and once more over a fresh one if that fails.
A command that fails may have reached the server all the same.

Either store is a `TokenRevocationStore`, and `storeStep` drives one by calls that do not overlap.
-/

namespace TokenKit

/-! ## The server -/

structure RedisServer where
  State : Type
  fresh : State
  setex : State → ℕ → String → ℕ → String → State
  existsKey : State → ℕ → String → Bool

/-- No key is set at first, and a key is there exactly while less than the seconds of its last
`SETEX` have passed. -/
structure RedisServer.KeysLast (server : RedisServer) : Prop where
  fresh : ∀ now key, server.existsKey server.fresh now key = false
  setex : ∀ state setAt key secs value now other, 0 < secs → setAt ≤ now →
    server.existsKey (server.setex state setAt key secs value) now other
      = if other = key then decide (now - setAt < secs * 10 ^ 9)
        else server.existsKey state now other

/-! ## The store -/

/-- What comes of one attempt at a command. -/
inductive Attempt where
  | refused (text : String)
  | lost (reached : Bool) (text : String)
  | answered

/-- The store's setting: how many seconds an entry is kept. -/
structure RedisRevocationStore where
  ttl : ℕ

namespace RedisRevocationStore

variable {server : RedisServer}

/-- A command, sent a second time over a new connection when its reply is lost. -/
def query {α : Type} (cmd : server.State → α × server.State) (first second : Attempt)
    (state : server.State) : Except String α × server.State :=
  match first with
  | .refused e => (.error e, state)
  | .answered => (.ok (cmd state).1, (cmd state).2)
  | .lost reached _ =>
    let state := if reached then (cmd state).2 else state
    match second with
    | .refused e => (.error e, state)
    | .answered => (.ok (cmd state).1, (cmd state).2)
    | .lost reached e => (.error e, if reached then (cmd state).2 else state)

def revoke (store : RedisRevocationStore) (jti : String) (now : ℕ) (first second : Attempt) :
    server.State → Except String Unit × server.State :=
  query (fun state => ((), server.setex state now jti store.ttl "1")) first second

def isRevoked (_store : RedisRevocationStore) (jti : String) (now : ℕ) (first second : Attempt) :
    server.State → Except String Bool × server.State :=
  query (fun state => (server.existsKey state now jti, state)) first second

end RedisRevocationStore

/-! ## Either store -/

/-- A store over states `σ`. A `revoke` starts at one instant and has its effect at another. -/
structure TokenRevocationStore (σ : Type) where
  revoke : σ → String → ℕ → ℕ → Except String Unit × σ
  isRevoked : σ → String → ℕ → Except String Bool × σ

def InMemoryRevocationStore.asStore : TokenRevocationStore InMemoryRevocationStore where
  revoke store jti roomAt insertedAt := (.ok (), store.revoke jti roomAt insertedAt)
  isRevoked store jti now := (.ok (store.isRevoked jti now), store)

/-- The Redis store, with a server that answers every command. -/
def RedisRevocationStore.asStore (store : RedisRevocationStore) (server : RedisServer) :
    TokenRevocationStore server.State where
  revoke state jti _ setAt := store.revoke jti setAt .answered .answered state
  isRevoked state jti now := store.isRevoked jti now .answered .answered state

inductive RevocationCall where
  | revoke (jti : String) (lag : ℕ)
  | isRevoked (jti : String)
  | tick (d : ℕ)

namespace TokenRevocationStore

variable {σ : Type} (S : TokenRevocationStore σ)

/-- A call on the store and its clock. -/
def storeStep (w : σ × ℕ) : RevocationCall → σ × ℕ
  | .revoke jti lag => ((S.revoke w.1 jti w.2 (w.2 + lag)).2, w.2 + lag)
  | .isRevoked jti => ((S.isRevoked w.1 jti w.2).2, w.2)
  | .tick d => (w.1, w.2 + d)

/-- What an `is_revoked` call returns. -/
def answer (w : σ × ℕ) : RevocationCall → Option (Except String Bool)
  | .isRevoked jti => some (S.isRevoked w.1 jti w.2).1
  | _ => none

end TokenRevocationStore

end TokenKit
