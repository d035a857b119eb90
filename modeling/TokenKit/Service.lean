import TokenKit.Backend
import TokenKit.Error

/-!
# The token service

A `JwtService` mints and reads tokens as its `JwtConfig` says. Reading is compiled in two ways: a
build with the `rotation` feature stamps and reads key ids and has a list of earlier keys, a build
without it ignores both; `rotation` says which build runs.

Verification goes through the candidates of `decodingKeys`, the primary key and then the rotation
keys. A token that names a key id is read with the first candidate of that id only, any other token
with each candidate in turn.

Minting panics where the expiry cannot be computed; its result is then `none`.
-/

namespace TokenKit

def DEFAULT_LEEWAY_SECS : ℕ := 60

def DEFAULT_REQUIRED_CLAIMS : List String := ["exp", "iss"]

inductive JwtAlgorithm where
  | HS256 | HS384 | HS512 | ES256 | ES384 | RS256 | RS384 | RS512 | PS256 | PS384 | PS512 | EdDSA
  deriving DecidableEq

namespace JwtAlgorithm

def toAlgorithm : JwtAlgorithm → Algorithm
  | HS256 => .HS256
  | HS384 => .HS384
  | HS512 => .HS512
  | ES256 => .ES256
  | ES384 => .ES384
  | RS256 => .RS256
  | RS384 => .RS384
  | RS512 => .RS512
  | PS256 => .PS256
  | PS384 => .PS384
  | PS512 => .PS512
  | EdDSA => .EdDSA

/-- The algorithms whose one secret both signs and verifies. -/
def IsHmac (algorithm : JwtAlgorithm) : Prop :=
  algorithm = HS256 ∨ algorithm = HS384 ∨ algorithm = HS512

instance (algorithm : JwtAlgorithm) : Decidable algorithm.IsHmac :=
  inferInstanceAs (Decidable (_ ∨ _ ∨ _))

end JwtAlgorithm

/-! ## Configuration -/

structure RotationKey where
  secret : String
  keyId : Option String
  publicKey : Option String
  derPublicKey : Option (List UInt8)
  deriving DecidableEq

def RotationKey.new (secret : String) (keyId : Option String) : RotationKey where
  secret := secret
  keyId := keyId
  publicKey := none
  derPublicKey := none

structure JwtConfig where
  algorithm : JwtAlgorithm
  secret : String
  derPrivateKey : Option (List UInt8)
  publicKey : Option String
  derPublicKey : Option (List UInt8)
  issuer : Option String
  audience : Option String
  audiences : List String
  leeway : Option ℕ
  requiredClaims : List String
  validateExp : Bool
  validateNbf : Bool
  accessTokenTtl : ℤ
  refreshTokenTtl : ℤ
  keyId : Option String
  rotationKeys : List RotationKey

def defaultRequiredClaims : List String := DEFAULT_REQUIRED_CLAIMS

namespace JwtConfig

def default : JwtConfig where
  algorithm := .HS256
  secret := ""
  derPrivateKey := none
  publicKey := none
  derPublicKey := none
  issuer := none
  audience := none
  audiences := []
  leeway := none
  requiredClaims := defaultRequiredClaims
  validateExp := true
  validateNbf := false
  accessTokenTtl := 3600
  refreshTokenTtl := 604800
  keyId := none
  rotationKeys := []

def withRotationKeys (algorithm : JwtAlgorithm) (keys : List RotationKey) : JwtConfig :=
  let primary := keys.head?.getD
    { secret := "", keyId := none, publicKey := none, derPublicKey := none }
  { algorithm
    secret := primary.secret
    derPrivateKey := none
    publicKey := none
    derPublicKey := none
    issuer := none
    audience := none
    audiences := []
    leeway := none
    requiredClaims := defaultRequiredClaims
    validateExp := true
    validateNbf := false
    accessTokenTtl := 3600
    refreshTokenTtl := 604800
    keyId := primary.keyId
    rotationKeys := keys }

def withRotationSecrets (algorithm : JwtAlgorithm) (secrets : List String) : JwtConfig :=
  withRotationKeys algorithm (secrets.map fun secret => .new secret none)

def fromEcPem (algorithm : JwtAlgorithm) (pem : String) : JwtConfig :=
  { default with algorithm, secret := pem }

def fromEdPem (pem : String) : JwtConfig := { default with algorithm := .EdDSA, secret := pem }

def fromEdDer (der : List UInt8) : JwtConfig :=
  { default with algorithm := .EdDSA, derPrivateKey := some der }

def withPublicKey (config : JwtConfig) (pem : String) : JwtConfig :=
  { config with publicKey := some pem }

def withDerPublicKey (config : JwtConfig) (der : List UInt8) : JwtConfig :=
  { config with derPublicKey := some der }

def withLeeway (config : JwtConfig) (seconds : ℕ) : JwtConfig :=
  { config with leeway := some seconds }

def withAudiences (config : JwtConfig) (audiences : List String) : JwtConfig :=
  { config with audiences }

def withRequiredClaims (config : JwtConfig) (claims : List String) : JwtConfig :=
  { config with requiredClaims := claims }

def withValidateExp (config : JwtConfig) (validate : Bool) : JwtConfig :=
  { config with validateExp := validate }

def withValidateNbf (config : JwtConfig) (validate : Bool) : JwtConfig :=
  { config with validateNbf := validate }

/-- The accepted audiences: the list, and the single one behind it unless the list has it. -/
def mergedAudiences (config : JwtConfig) : List String :=
  match config.audience with
  | some audience =>
    if audience ∈ config.audiences then config.audiences else config.audiences ++ [audience]
  | none => config.audiences

def buildValidation (config : JwtConfig) : Validation :=
  { Validation.new config.algorithm.toAlgorithm with
    leeway := config.leeway.getD DEFAULT_LEEWAY_SECS
    validateExp := config.validateExp
    validateNbf := config.validateNbf
    requiredSpecClaims := config.requiredClaims
    iss := config.issuer.map fun issuer => [issuer]
    aud := if config.mergedAudiences.isEmpty then none else some config.mergedAudiences }

end JwtConfig

/-! ## Keys -/

section Keys

variable (B : Backend)

def encodingKeyFor (algorithm : JwtAlgorithm) (secret : String) (der : Option (List UInt8)) :
    Except JwtError B.EncodingKey :=
  match algorithm with
  | .HS256 | .HS384 | .HS512 => .ok (B.encodingFromSecret secret)
  | .RS256 | .RS384 | .RS512 | .PS256 | .PS384 | .PS512 =>
    (B.encodingFromRsaPem secret).mapError .keyLoading
  | .ES256 | .ES384 =>
    match der with
    | some der => .ok (B.encodingFromEcDer der)
    | none => (B.encodingFromEcPem secret).mapError .keyLoading
  | .EdDSA =>
    match der with
    | some der => .ok (B.encodingFromEdDer der)
    | none => (B.encodingFromEdPem secret).mapError .keyLoading

def decodingKeyFor (algorithm : JwtAlgorithm) (publicPem : Option String)
    (publicDer : Option (List UInt8)) (secret : String) : Except JwtError B.DecodingKey :=
  match algorithm with
  | .HS256 | .HS384 | .HS512 => .ok (B.decodingFromSecret secret)
  | .RS256 | .RS384 | .RS512 | .PS256 | .PS384 | .PS512 =>
    match publicDer with
    | some der => .ok (B.decodingFromRsaDer der)
    | none => (B.decodingFromRsaPem (publicPem.getD secret)).mapError .keyLoading
  | .ES256 | .ES384 =>
    match publicDer with
    | some der => .ok (B.decodingFromEcDer der)
    | none => (B.decodingFromEcPem (publicPem.getD secret)).mapError .keyLoading
  | .EdDSA =>
    match publicDer with
    | some der => .ok (B.decodingFromEdDer der)
    | none => (B.decodingFromEdPem (publicPem.getD secret)).mapError .keyLoading

end Keys

/-! ## The service -/

/-- The service; `revocation` is the attached store's `is_revoked`, if one is attached. -/
structure JwtService where
  config : JwtConfig
  revocation : Option (String → Except JwtError Bool)

namespace JwtService

def new (config : JwtConfig) : JwtService where
  config := config
  revocation := none

def withRevocation (service : JwtService) (isRevoked : String → Except JwtError Bool) :
    JwtService :=
  { service with revocation := some isRevoked }

variable (B : Backend) (rotation : Bool)

def encodingKey (service : JwtService) : Except JwtError B.EncodingKey :=
  encodingKeyFor B service.config.algorithm service.config.secret service.config.derPrivateKey

/-- The verification key of a build without rotation, and the primary one of a build with it. -/
def decodingKey (service : JwtService) : Except JwtError B.DecodingKey :=
  decodingKeyFor B service.config.algorithm service.config.publicKey service.config.derPublicKey
    service.config.secret

def entryKey (service : JwtService) (entry : RotationKey) : Except JwtError B.DecodingKey :=
  decodingKeyFor B service.config.algorithm (entry.publicKey <|> service.config.publicKey)
    (entry.derPublicKey <|> service.config.derPublicKey) entry.secret

/-- The primary key and every rotation key, each with its key id; an error if one does not load. -/
def decodingKeys (service : JwtService) :
    Except JwtError (List (Option String × B.DecodingKey)) := do
  let primary ← service.decodingKey B
  let entries ← service.config.rotationKeys.mapM fun entry => do
    let key ← service.entryKey B entry
    return (entry.keyId, key)
  return (service.config.keyId, primary) :: entries

/-! ## Minting -/

def encode {T : Type} [Serialize T] (service : JwtService) (claims : T) :
    Except JwtError B.Token := do
  let header : Header :=
    { alg := service.config.algorithm.toAlgorithm
      kid := if rotation then service.config.keyId else none }
  let key ← service.encodingKey B
  (B.encode header claims key).mapError fun _ => .encodingFailed

/-- The expiry a token is stamped with: the one that is set, or one time to live from now. -/
def stampedExp (now : UtcNow) (ttlSecs : ℤ) : Option DateTime → Option DateTime
  | some exp => some exp
  | none => do now.toDateTime.add (← durationSeconds ttlSecs)

def stampedStandard (service : JwtService) (now : UtcNow) (uuid : String) (claims : StandardClaims)
    (ttlSecs : ℤ) : Option StandardClaims := do
  let exp ← stampedExp now ttlSecs claims.exp
  return { claims with
    iat := claims.iat.getD now.toDateTime
    exp := exp
    iss := claims.iss <|> service.config.issuer
    aud := claims.aud <|> service.config.mergedAudiences.head?
    jti := claims.jti.getD uuid }

def encodeStandard (service : JwtService) (now : UtcNow) (uuid : String)
    (claims : StandardClaims) : Option (Except JwtError B.Token) := do
  let claims ← service.stampedStandard now uuid claims service.config.accessTokenTtl
  return service.encode B rotation claims

def encodeRefreshStandard (service : JwtService) (now : UtcNow) (uuid : String)
    (claims : StandardClaims) : Option (Except JwtError B.Token) := do
  let claims ← service.stampedStandard now uuid claims service.config.refreshTokenTtl
  return service.encode B rotation claims

/-! ## Reading -/

/-- The loop over the candidates, with the error of the one before. -/
def tryEveryKey {T : Type} [DeserializeOwned T] (token : B.Token) (validation : Validation)
    (now : ℤ) : JwtError → List (Option String × B.DecodingKey) → Except JwtError T
  | lastErr, [] => .error lastErr
  | _, (_, key) :: candidates =>
    match B.decode token key validation now with
    | .ok claims => .ok claims
    | .error e => tryEveryKey token validation now (.decodingFailed e) candidates

def decodeWithRotation {T : Type} [DeserializeOwned T] (service : JwtService) (token : B.Token)
    (validation : Validation) (now : ℤ) : Except JwtError T := do
  let candidates ← service.decodingKeys B
  match (B.decodeHeader token).toOption.bind Header.kid with
  | some kid =>
    match candidates.find? fun candidate => candidate.1 = some kid with
    | some (_, key) => (B.decode token key validation now).mapError .decodingFailed
    | none => .error (.decodingFailed s!"token references unknown key id `{kid}`")
  | none => tryEveryKey B token validation now (.decodingFailed "no keys configured") candidates

def decode {T : Type} [DeserializeOwned T] (service : JwtService) (token : B.Token) (now : ℤ) :
    Except JwtError T :=
  let validation := service.config.buildValidation
  if rotation then service.decodeWithRotation B token validation now
  else do
    let key ← service.decodingKey B
    (B.decode token key validation now).mapError .decodingFailed

/-- `decode` and the look-up in the store, which fails closed. -/
def decodeStandard (service : JwtService) (token : B.Token) (now : ℤ) :
    Except JwtError StandardClaims := do
  let claims : StandardClaims ← service.decode B rotation token now
  match service.revocation, claims.jti with
  | some isRevoked, some jti =>
    match isRevoked jti with
    | .ok false => return claims
    | .ok true => throw .revoked
    | .error _ => throw .revoked
  | _, _ => return claims

def validate (service : JwtService) (token : B.Token) (now : ℤ) : Except JwtError StandardClaims :=
  service.decode B rotation token now

end JwtService

end TokenKit
