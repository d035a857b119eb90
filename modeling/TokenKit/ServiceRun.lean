import TokenKit.Service
import TokenKit.Revocation

/-!
# A service with a store attached

Tokens are minted and read and `jti`s are revoked, in any order, while time passes. The system clock
and the monotonic clock advance together: where the monotonic clock reads `now`, the system clock
reads `boot + now` nanoseconds since the epoch. Minting and reading leave the store as it is.
-/

namespace TokenKit

inductive TokenKind where
  | access
  | refresh

def JwtConfig.tokenTtl (config : JwtConfig) : TokenKind → ℤ
  | .access => config.accessTokenTtl
  | .refresh => config.refreshTokenTtl

/-- `encodeStandard` or `encodeRefreshStandard`. -/
def JwtService.mint (B : Backend) (rotation : Bool) (service : JwtService) (now : UtcNow)
    (uuid : String) (claims : StandardClaims) : TokenKind → Option (Except JwtError B.Token)
  | .access => service.encodeStandard B rotation now uuid claims
  | .refresh => service.encodeRefreshStandard B rotation now uuid claims

inductive ServiceCall (Token : Type) where
  | mint (kind : TokenKind) (uuid : String) (claims : StandardClaims)
  | decodeStandard (token : Token)
  | store (call : StoreCall)

def serviceStep {Token : Type} (w : StoreWorld) : ServiceCall Token → StoreWorld
  | .mint _ _ _ => w
  | .decodeStandard _ => w
  | .store call => callStep w call

/-- What the system clock reads, in nanoseconds since the epoch. -/
def systemTime (boot : ℕ) (w : StoreWorld) : ℕ := boot + w.now

/-- `Utc::now`, which panics past the last representable instant. -/
def utcNow (boot : ℕ) (w : StoreWorld) : Option UtcNow :=
  if h : systemTime boot w ≤ MAX_UTC then
    some ⟨⟨systemTime boot w, by unfold MIN_UTC; omega, h⟩, by simp⟩
  else none

def serviceAt (config : JwtConfig) (w : StoreWorld) : JwtService :=
  (JwtService.new config).withRevocation fun jti => .ok (w.store.isRevoked jti w.now)

def mintAt (B : Backend) (rotation : Bool) (config : JwtConfig) (boot : ℕ) (w : StoreWorld)
    (kind : TokenKind) (uuid : String) (claims : StandardClaims) :
    Option (Except JwtError B.Token) := do
  (serviceAt config w).mint B rotation (← utcNow boot w) uuid claims kind

def decodeStandardAt (B : Backend) (rotation : Bool) (config : JwtConfig) (boot : ℕ)
    (w : StoreWorld) (token : B.Token) : Except JwtError StandardClaims :=
  (serviceAt config w).decodeStandard B rotation token (systemTime boot w / 10 ^ 9 : ℕ)

end TokenKit
