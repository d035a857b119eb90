import TokenKit.Claims

/-!
# The token backend

`jsonwebtoken` is a parameter: a `Backend` is the functions of it that the service and the key cache
call, with the three notions its documentation speaks of, what a token verifies under, the payload
it carries and which claims are valid. What the documentation says of them is a proposition about
the backend, which a result takes as a hypothesis where it needs it. `Validation.accepts` is the
documented check of the registered claims. The backend makes it with unsigned 64-bit numbers, so
`ChecksRegistered` says nothing of dates that do not fit in one, nor of a leeway that goes back
beyond the epoch.
-/

namespace TokenKit

inductive Algorithm where
  | HS256 | HS384 | HS512 | ES256 | ES384 | RS256 | RS384 | RS512 | PS256 | PS384 | PS512 | EdDSA
  deriving DecidableEq

/-- The header of a token, as far as the service and the cache read or write it. -/
structure Header where
  alg : Algorithm
  kid : Option String
  deriving DecidableEq

/-- The settings of a decode that the service sets or relies on. -/
structure Validation where
  algorithms : List Algorithm
  leeway : ℕ
  validateExp : Bool
  validateNbf : Bool
  requiredSpecClaims : List String
  iss : Option (List String)
  aud : Option (List String)

def Validation.new (algorithm : Algorithm) : Validation where
  algorithms := [algorithm]
  leeway := 60
  validateExp := true
  validateNbf := false
  requiredSpecClaims := ["exp"]
  iss := none
  aud := none

/-- An error of the backend is its text. The clock is in whole seconds since the epoch. -/
structure Backend where
  Token : Type
  EncodingKey : Type
  DecodingKey : Type
  JwkParameters : Type
  decodeHeader : Token → Except String Header
  encode : {T : Type} → [Serialize T] → Header → T → EncodingKey → Except String Token
  decode : {T : Type} → [DeserializeOwned T] → Token → DecodingKey → Validation → ℤ →
    Except String T
  encodingFromSecret : String → EncodingKey
  encodingFromRsaPem : String → Except String EncodingKey
  encodingFromEcPem : String → Except String EncodingKey
  encodingFromEdPem : String → Except String EncodingKey
  encodingFromEcDer : List UInt8 → EncodingKey
  encodingFromEdDer : List UInt8 → EncodingKey
  decodingFromSecret : String → DecodingKey
  decodingFromRsaPem : String → Except String DecodingKey
  decodingFromEcPem : String → Except String DecodingKey
  decodingFromEdPem : String → Except String DecodingKey
  decodingFromRsaDer : List UInt8 → DecodingKey
  decodingFromEcDer : List UInt8 → DecodingKey
  decodingFromEdDer : List UInt8 → DecodingKey
  decodingFromJwk : JwkParameters → Except String DecodingKey
  verifies : Token → DecodingKey → Prop
  payload : Token → Option Json
  claimsValid : Validation → ℤ → Json → Prop

/-! ## The registered claims -/

namespace Json

def member (name : String) : Json → Option Json
  | obj members => members.lookup name
  | _ => none

/-- A number, rounded to whole seconds, that is not negative and fits in 64 bits. -/
def numericDate : Json → Option ℤ
  | int n => if 0 ≤ n ∧ n < 2 ^ 64 then some n else none
  | frac q => if 0 ≤ q ∧ q.floor < 2 ^ 64 then some (q + 1 / 2).floor else none
  | _ => none

def strings : Json → Option (List String)
  | str s => some [s]
  | arr elements => elements.mapM StandardClaims.stringOf
  | _ => none

/-- The dates that the payload has can be read. -/
def datesReadable (payload : Json) : Bool :=
  ["exp", "nbf"].all fun name => (payload.member name).all fun date => date.numericDate.isSome

end Json

namespace Validation

/-- The names whose presence the backend can require. -/
def SPEC_CLAIMS : List String := ["exp", "nbf", "aud", "iss", "sub"]

/-- A required name is present in a form that can be read. A name the backend does not know is
ignored. -/
def present (payload : Json) : String → Bool
  | "exp" => ((payload.member "exp").bind Json.numericDate).isSome
  | "nbf" => ((payload.member "nbf").bind Json.numericDate).isSome
  | "aud" => ((payload.member "aud").bind Json.strings).isSome
  | "iss" => ((payload.member "iss").bind Json.strings).isSome
  | "sub" => ((payload.member "sub").bind StandardClaims.stringOf).isSome
  | _ => true

def issAccepts (v : Validation) (given : List String) : Bool :=
  v.iss.all fun accepted => given.any (· ∈ accepted)

/-- One of the given audiences is accepted; none is, if no audiences are configured. -/
def audAccepts (v : Validation) (given : List String) : Bool :=
  match v.aud with
  | none => false
  | some accepted => given.any (· ∈ accepted)

/-- The part of the check that is not about dates: the required claims are there, and the issuer and
the audience, if there are any, are accepted. -/
def enforced (v : Validation) (payload : Json) : Bool :=
  v.requiredSpecClaims.all (present payload)
    && ((payload.member "iss").bind Json.strings).all v.issAccepts
    && ((payload.member "aud").bind Json.strings).all v.audAccepts

/-- A date passes where there is none, and fails where it cannot be read. -/
def dateAccepts (payload : Json) (name : String) (check : ℤ → Bool) : Bool :=
  (payload.member name).all fun date => date.numericDate.any check

/-- The documented check of the registered claims, with the dates compared as integers. The backend
compares them so where the leeway does not go back beyond the epoch. -/
def accepts (v : Validation) (now : ℤ) (payload : Json) : Bool :=
  v.enforced payload
    && (!v.validateExp || dateAccepts payload "exp" fun exp => now - v.leeway ≤ exp)
    && (!v.validateNbf || dateAccepts payload "nbf" fun nbf => nbf ≤ now + v.leeway)

end Validation

/-! ## What the documentation says -/

namespace Backend

variable (B : Backend)

/-- A token is accepted exactly when its header names an accepted algorithm, its signature verifies
and its payload can be read and has valid claims. -/
def DecodeChecks : Prop :=
  ∀ {T : Type} [DeserializeOwned T] (token : B.Token) (key : B.DecodingKey) (v : Validation)
    (now : ℤ) (claims : T), B.decode token key v now = .ok claims ↔
      (∃ header, B.decodeHeader token = .ok header ∧ header.alg ∈ v.algorithms)
        ∧ B.verifies token key
        ∧ ∃ payload, B.payload token = some payload ∧ deserialize payload = some claims
          ∧ B.claimsValid v now payload

/-- A token carries the header and the payload it was encoded with. -/
def EncodeRecords : Prop :=
  ∀ {T : Type} [Serialize T] (header : Header) (claims : T) (key : B.EncodingKey) (token : B.Token),
    B.encode header claims key = .ok token →
      B.decodeHeader token = .ok header ∧ ∃ payload, serialize claims = some payload
        ∧ B.payload token = some payload

/-- What a key signs verifies under its counterpart. -/
def Matches (encodingKey : B.EncodingKey) (decodingKey : B.DecodingKey) : Prop :=
  ∀ {T : Type} [Serialize T] (header : Header) (claims : T) (token : B.Token),
    B.encode header claims encodingKey = .ok token → B.verifies token decodingKey

/-- With `exp` validated, valid claims whose one `exp` is in whole seconds have not expired. -/
def RejectsExpired : Prop :=
  ∀ (v : Validation) (now exp : ℤ) (members : List (String × Json)), v.validateExp = true →
    members.filter (fun m => m.1 = "exp") = [("exp", .int exp)] →
      B.claimsValid v now (.obj members) → now - v.leeway ≤ exp

/-- The signature is checked before the claims: of a token with an accepted algorithm, a key that
does not verify it fails with another text than one that does. -/
def SignatureFirst : Prop :=
  ∀ {T : Type} [DeserializeOwned T] (token : B.Token) (header : Header) (key key' : B.DecodingKey)
    (v : Validation) (now : ℤ) (e : String), B.decodeHeader token = .ok header →
      header.alg ∈ v.algorithms → B.verifies token key → ¬ B.verifies token key' →
        (B.decode token key v now : Except String T) = .error e →
          (B.decode token key' v now : Except String T) ≠ .error e

/-- Valid claims have what is required, and no issuer or audience that is not accepted. -/
def EnforcesRegistered : Prop :=
  ∀ (v : Validation) (now : ℤ) (payload : Json), B.claimsValid v now payload →
    v.enforced payload = true

/-- The audience is checked apart from the other claims: what differs from a valid object in `aud`
only is valid when its own `aud` passes. -/
def ChecksAudienceApart : Prop :=
  ∀ (v : Validation) (now : ℤ) (members members' : List (String × Json)),
    (members.map Prod.fst).Nodup → (members'.map Prod.fst).Nodup →
      (∀ name ≠ "aud", members.lookup name = members'.lookup name) →
        B.claimsValid v now (.obj members) → v.enforced (.obj members') = true →
          B.claimsValid v now (.obj members')

/-- The claims of an object that names no member twice and whose dates can be read are valid when
the documented check accepts them, at any time at which the leeway does not go back beyond the
epoch. -/
def ChecksRegistered : Prop :=
  ∀ (v : Validation) (now : ℤ) (members : List (String × Json)),
    (members.map Prod.fst).Nodup → (Json.obj members).datesReadable = true → v.leeway ≤ now →
      (B.claimsValid v now (.obj members) ↔ v.accepts now (.obj members) = true)

/-- The same at any time, as of a backend that computes with all integers. -/
def ChecksUnbounded : Prop :=
  ∀ (v : Validation) (now : ℤ) (members : List (String × Json)),
    (members.map Prod.fst).Nodup → (Json.obj members).datesReadable = true →
      (B.claimsValid v now (.obj members) ↔ v.accepts now (.obj members) = true)

end Backend

end TokenKit
