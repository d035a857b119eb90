import TokenKit.JwksHistory
import TokenKit.RedisHistory
import TokenKit.Lib.Drops

/-!
# Dropped calls

A caller can drop a call wherever it waits, as one with a deadline does. The call does nothing any
more, and lets go of the lock it holds: a look-up of the refresh lock, and a call on the Redis store
of the lock under which it opens a connection. A command that it has sent can still be executed.

What is left to the other calls is a world that looks to them like one in which nobody drops
anything (`LooksLike`, `RedisLooksLike`).
-/

namespace TokenKit

open StepMachine

variable {B : Backend} {T : Type}

/-! ## The key cache -/

def JwksPc.isReturned : JwksPc B T → Bool
  | .returned _ => true
  | _ => false

/-- The call is gone from the world, with the lock if it held it. -/
def JwksWorld.release (w : JwksWorld B T) (c : ℕ) : JwksWorld B T :=
  { w with refreshLock := if w.refreshLock = some c then none else w.refreshLock }.goto c .started

section Cache

variable [DeserializeOwned T] (cache : JwksCache B) (boot : ℕ) (calls : ℕ → JwksCall B) (now : ℕ)

def jwksCalls : CallMachine (JwksWorld B T) (JwksEvent B) where
  step := jwksStep cache boot calls
  caller := JwksEvent.caller
  finished w c := (w.pc c).isReturned
  release := JwksWorld.release

/-- A cache just built, on which no call has been dropped. -/
def undropped : Dropping (JwksWorld B T) := ⟨freshCache cache now, fun _ => false⟩

/-- The world after the events, with calls dropped among them, from a cache just built. -/
def jwksDropRun (es : List (DropEvent (JwksEvent B))) : Dropping (JwksWorld B T) :=
  run (jwksCalls cache boot calls).dropStep (undropped cache now) es

/-- The world after so many events of the schedule. -/
def jwksAlong (schedule : ℕ → DropEvent (JwksEvent B)) (k : ℕ) : Dropping (JwksWorld B T) :=
  after (jwksCalls cache boot calls).dropStep (undropped cache now) schedule k

variable (T) in
/-- Only the first `n` calls are made. Each of them gets its turn again and again and its request a
response some time, until it is dropped. -/
structure Attended (n : ℕ) (schedule : ℕ → DropEvent (JwksEvent B)) : Prop where
  calls_lt : ∀ k c, (jwksCalls (T := T) cache boot calls).dropCaller (schedule k) = some c → c < n
  turn : ∀ c < n, ∀ k, (jwksAlong (T := T) cache boot calls now schedule k).dropped c = false →
    ∃ k', k ≤ k' ∧ (schedule k' = .event (.step c) ∨ schedule k' = .drop c)
  response : ∀ k c,
    (jwksAlong (T := T) cache boot calls now schedule k).world.pc c = .fetching →
      ∃ k', k ≤ k' ∧ ((∃ outcome, schedule k' = .event (.respond c outcome))
        ∨ schedule k' = .drop c)

end Cache

/-- The world looks the same: it holds the same keys at the same time, the same requests have been
made, and the calls that are not dropped have begun and answered the same. -/
structure LooksLike (w : Dropping (JwksWorld B T)) (w' : JwksWorld B T) : Prop where
  state : w'.state = w.world.state
  now : w'.now = w.world.now
  fetches : w'.fetches = w.world.fetches
  started : ∀ c, w.dropped c = false → (w'.pc c = .started ↔ w.world.pc c = .started)
  returned : ∀ c answer, w.dropped c = false →
    (w'.pc c = .returned answer ↔ w.world.pc c = .returned answer)

/-! ## The Redis store -/

variable {server : RedisServer}

def RedisPc.isReturned : RedisPc → Bool
  | .returned _ => true
  | _ => false

/-- The call whose doing the event is: the server executes commands by itself. -/
def RedisEvent.doneBy : RedisEvent server → Option ℕ
  | .execute _ => none
  | e => e.caller

/-- The call lets go of the lock under which it opens a connection, which comes to nothing. -/
def RedisWorld.release (w : RedisWorld server) (c : ℕ) : RedisWorld server :=
  match w.pc c with
  | .opening retry _ => { w with lock := none }.goto c (.reading retry)
  | _ => w

section Store

variable (store : RedisRevocationStore) (calls : ℕ → RedisCall) (w : RedisWorld server)

def redisCalls : CallMachine (RedisWorld server) (RedisEvent server) where
  step := redisStep store calls
  caller := RedisEvent.doneBy
  finished w c := (w.pc c).isReturned
  release := RedisWorld.release

/-- The world after the events, with calls dropped among them. -/
def redisDropRun (es : List (DropEvent (RedisEvent server))) : Dropping (RedisWorld server) :=
  run (redisCalls store calls).dropStep ⟨w, fun _ => false⟩ es

/-- The world after so many events of the schedule. -/
def redisAlong (schedule : ℕ → DropEvent (RedisEvent server)) (k : ℕ) :
    Dropping (RedisWorld server) :=
  after (redisCalls store calls).dropStep ⟨w, fun _ => false⟩ schedule k

/-- Only the first `n` calls are made. Each of them gets its turn again and again, and what it opens
or sends comes to something some time, until it is dropped. -/
structure Served (n : ℕ) (schedule : ℕ → DropEvent (RedisEvent server)) : Prop where
  calls_lt : ∀ k c, (redisCalls store calls).dropCaller (schedule k) = some c → c < n
  turn : ∀ c < n, ∀ k, (redisAlong store calls w schedule k).dropped c = false →
    ∃ k', k ≤ k' ∧ (schedule k' = .event (.step c) ∨ schedule k' = .drop c)
  connect : ∀ k c retry conn,
    (redisAlong store calls w schedule k).world.pc c = .opening retry conn → ∃ k', k ≤ k'
      ∧ ((∃ text, schedule k' = .event (.connectFailed c text))
        ∨ (schedule k' = .event (.connected c)
          ∧ (redisAlong store calls w schedule k').world.up = true)
        ∨ schedule k' = .drop c)
  answer : ∀ k c retry conn reply,
    (redisAlong store calls w schedule k).dropped c = false →
    (redisAlong store calls w schedule k).world.pc c = .waiting retry conn reply → ∃ k', k ≤ k'
      ∧ ((∃ text, schedule k' = .event (.fail c text))
        ∨ (schedule k' = .event (.reply c) ∧ ∃ retry conn reply,
          (redisAlong store calls w schedule k').world.pc c
            = .waiting retry conn (some reply))
        ∨ schedule k' = .drop c)

end Store

/-- The world looks the same but for the calls that are dropped. -/
structure RedisLooksLike (w : Dropping (RedisWorld server)) (w' : RedisWorld server) : Prop where
  connection : w'.connection = w.world.connection
  lock : w'.lock = w.world.lock
  opened : w'.opened = w.world.opened
  live : w'.live = w.world.live
  up : w'.up = w.world.up
  state : w'.state = w.world.state
  now : w'.now = w.world.now
  sent : w'.sent = w.world.sent
  pc : ∀ c, w.dropped c = false → w'.pc c = w.world.pc c

end TokenKit
