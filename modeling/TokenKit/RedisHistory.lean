import TokenKit.RedisConnections
import TokenKit.Service

/-!
# What the Redis store is for

The abstract store is the log of the revocations that the server has executed, oldest first, each
with its instant. A `jti` is revoked while less than the time to live has passed since one of its
revocations, and a call answers what the log says at one instant (`answerFrom`).

`decode_standard` asks the store through the same calls: what a call returns is what the service
gets for `is_revoked`, with any error of the store turned into `Revoked`.
-/

namespace TokenKit

variable {server : RedisServer}

/-- The revocation that the server executes in this step. -/
def executionOf (calls : ℕ → RedisCall) (x : RedisWorld server × RedisEvent server) :
    Option (String × ℕ) :=
  match x.2 with
  | .execute c =>
    match x.1.pc c, calls c with
    | .waiting _ conn none, .revoke jti =>
      if x.1.up && x.1.live conn then some (jti, x.1.now) else none
    | _, _ => none
  | _ => none

/-- The revocations executed along the steps. -/
def executions (calls : ℕ → RedisCall) (steps : List (RedisWorld server × RedisEvent server)) :
    List (String × ℕ) :=
  steps.filterMap (executionOf calls)

/-- The log holds a revocation of `jti` that is younger than the time to live. -/
def RedisRevocationStore.revokedIn (store : RedisRevocationStore) (log : List (String × ℕ))
    (jti : String) (now : ℕ) : Bool :=
  log.any fun entry => entry.1 = jti && now - entry.2 < store.ttl * 10 ^ 9

/-- What the abstract store answers. -/
def RedisCall.answerFrom (store : RedisRevocationStore) (log : List (String × ℕ)) (now : ℕ) :
    RedisCall → RedisReply
  | .revoke _ => .done
  | .isRevoked jti => .found (store.revokedIn log jti now)

/-- No other client takes the key away or shortens its life. -/
def SparesKey (jti : String) (w : RedisWorld server) : RedisEvent server → Prop
  | .elsewhere state => ∀ now, w.now ≤ now → server.existsKey w.state now jti = true →
      server.existsKey state now jti = true
  | _ => True

/-- What `decode_standard` makes of the result of its `is_revoked` call. -/
def isRevokedResult : Except String RedisReply → Except JwtError Bool
  | .ok (.found revoked) => .ok revoked
  | .ok .done => .ok false
  | .error _ => .error .revoked

/-- The call that the event is about. -/
def RedisEvent.caller : RedisEvent server → Option ℕ
  | .step c => some c
  | .connected c => some c
  | .connectFailed c _ => some c
  | .execute c => some c
  | .reply c => some c
  | .fail c _ => some c
  | _ => none

end TokenKit
