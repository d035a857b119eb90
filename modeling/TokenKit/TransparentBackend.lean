import TokenKit.Backend
import TokenKit.Lib.Pairs

/-!
# A backend one can see through

The transparent backend signs a token by writing the signing key into it, and verifies it by
comparing keys. A key loads from any text or bytes, and an HMAC secret is its own counterpart. It
does what the documentation of the real one says (`transparent_decodeChecks` and after), so it shows
that those hypotheses can be met, and runs the model on concrete tokens. `keyPairBackend` is the
same but for the PEM texts it loads, which are those of two key pairs, each half in its own place;
only RSA loads a private key as one to verify with, which then verifies nothing.
-/

namespace TokenKit

inductive TransparentKey where
  | secret (text : String)
  | pem (text : String)
  | der (bytes : List UInt8)
  deriving DecidableEq

structure TransparentToken where
  header : Header
  payload : Json
  signer : TransparentKey

def transparentDecode {T : Type} [DeserializeOwned T] (token : TransparentToken)
    (key : TransparentKey) (v : Validation) (now : ℤ) : Except String T :=
  if token.header.alg ∉ v.algorithms then .error "InvalidAlgorithm"
  else if token.signer ≠ key then .error "InvalidSignature"
  else
    match (deserialize token.payload : Option T) with
    | none => .error "JSON error"
    | some claims => if v.accepts now token.payload then .ok claims else .error "InvalidClaims"

def transparentBackend : Backend where
  Token := TransparentToken
  EncodingKey := TransparentKey
  DecodingKey := TransparentKey
  JwkParameters := TransparentKey
  decodeHeader token := .ok token.header
  encode header claims key :=
    match serialize claims with
    | some payload => .ok ⟨header, payload, key⟩
    | none => .error "JSON error"
  decode := transparentDecode
  encodingFromSecret := .secret
  encodingFromRsaPem text := .ok (.pem text)
  encodingFromEcPem text := .ok (.pem text)
  encodingFromEdPem text := .ok (.pem text)
  encodingFromEcDer := .der
  encodingFromEdDer := .der
  decodingFromSecret := .secret
  decodingFromRsaPem text := .ok (.pem text)
  decodingFromEcPem text := .ok (.pem text)
  decodingFromEdPem text := .ok (.pem text)
  decodingFromRsaDer := .der
  decodingFromEcDer := .der
  decodingFromEdDer := .der
  decodingFromJwk key := .ok key
  verifies token key := token.signer = key
  payload token := some token.payload
  claimsValid v now payload := v.accepts now payload = true

theorem transparentDecode_eq_ok {T : Type} [DeserializeOwned T] (token : TransparentToken)
    (key : TransparentKey) (v : Validation) (now : ℤ) (claims : T) :
    transparentDecode token key v now = .ok claims ↔ token.header.alg ∈ v.algorithms
      ∧ token.signer = key ∧ deserialize token.payload = some claims
      ∧ v.accepts now token.payload = true := by
  unfold transparentDecode
  by_cases halg : token.header.alg ∈ v.algorithms
  · rw [if_neg (not_not.2 halg)]
    by_cases hsig : token.signer = key
    · rw [if_neg (not_not.2 hsig)]
      rcases (deserialize token.payload : Option T) with _ | found
      · simp
      · by_cases hacc : v.accepts now token.payload = true <;> simp [halg, hsig, hacc]
    · rw [if_pos hsig]
      simp [hsig]
  · rw [if_pos halg]
    simp [halg]

theorem transparent_decodeChecks : transparentBackend.DecodeChecks := by
  intro T _ token key v now claims
  refine (transparentDecode_eq_ok token key v now claims).trans ?_
  constructor
  · rintro ⟨halg, hsig, hread, hacc⟩
    exact ⟨⟨token.header, rfl, halg⟩, hsig, token.payload, rfl, hread, hacc⟩
  · rintro ⟨⟨header, hheader, halg⟩, hsig, payload, hpayload, hread, hacc⟩
    cases hheader
    cases hpayload
    exact ⟨halg, hsig, hread, hacc⟩

theorem transparentEncode_eq_ok {T : Type} [Serialize T] {header : Header} {claims : T}
    {key : TransparentKey} {token : TransparentToken}
    (h : transparentBackend.encode header claims key = .ok token) :
    ∃ payload, serialize claims = some payload ∧ token = ⟨header, payload, key⟩ := by
  simp only [transparentBackend] at h
  split at h
  · rename_i payload hs
    exact ⟨payload, hs, (Except.ok.inj h).symm⟩
  · cases h

theorem transparent_encodeRecords : transparentBackend.EncodeRecords := by
  intro T _ header claims key token h
  obtain ⟨payload, hs, rfl⟩ := transparentEncode_eq_ok h
  exact ⟨rfl, payload, hs, rfl⟩

theorem transparent_matches (key : TransparentKey) : transparentBackend.Matches key key := by
  intro T _ header claims token h
  obtain ⟨payload, -, rfl⟩ := transparentEncode_eq_ok h
  rfl

theorem transparent_rejectsExpired : transparentBackend.RejectsExpired := by
  intro v now exp members hexp honly hvalid
  have hvalid : v.accepts now (.obj members) = true := hvalid
  have hlookup : (Json.obj members).member "exp" = some (.int exp) :=
    List.lookup_of_filter_eq honly
  simp only [Validation.accepts, Validation.dateAccepts, hlookup, Json.numericDate, Option.all_some,
    hexp, Bool.not_true, Bool.false_or, Bool.and_eq_true] at hvalid
  have hdate := hvalid.1.2
  split_ifs at hdate
  · simpa using hdate
  · cases hdate

theorem transparent_signatureFirst : transparentBackend.SignatureFirst := by
  intro T _ token header key key' v now e hheader halg hver hver' h h'
  obtain rfl : token.header = header := Except.ok.inj hheader
  have hkey : transparentDecode (T := T) token key v now = .error e := h
  have hkey' : transparentDecode (T := T) token key' v now = .error e := h'
  have hsigner : token.signer = key := hver
  have hsigner' : token.signer ≠ key' := hver'
  unfold transparentDecode at hkey hkey'
  rw [if_neg (not_not.2 halg), if_neg (not_not.2 hsigner)] at hkey
  rw [if_neg (not_not.2 halg), if_pos hsigner'] at hkey'
  cases hkey'
  split at hkey
  · simp at hkey
  · split_ifs at hkey
    simp at hkey

theorem transparent_enforcesRegistered : transparentBackend.EnforcesRegistered := by
  intro v now payload h
  have h : v.accepts now payload = true := h
  simp only [Validation.accepts, Bool.and_eq_true] at h
  exact h.1.1

theorem transparent_checksAudienceApart : transparentBackend.ChecksAudienceApart := by
  intro v now members members' _ _ hothers h henforced
  have h : v.accepts now (.obj members) = true := h
  have hmember : ∀ name ≠ "aud",
      (Json.obj members').member name = (Json.obj members).member name :=
    fun name hname => (hothers name hname).symm
  show v.accepts now (.obj members') = true
  simp only [Validation.accepts, Validation.dateAccepts, henforced, hmember "exp" (by decide),
    hmember "nbf" (by decide), Bool.true_and]
  simp only [Validation.accepts, Validation.dateAccepts, Bool.and_assoc, Bool.and_eq_true] at h
  simpa only [Bool.and_eq_true] using h.2

theorem transparent_checksRegistered : transparentBackend.ChecksRegistered :=
  fun _ _ _ _ _ _ => Iff.rfl

theorem transparent_checksUnbounded : transparentBackend.ChecksUnbounded :=
  fun _ _ _ _ _ => Iff.rfl

/-- A token without key id under the empty secret, which is the default. -/
def secretToken (members : List (String × Json)) : TransparentToken where
  header := { alg := .HS256, kid := none }
  payload := .obj members
  signer := .secret ""

/-! ## Key pairs -/

def privateKeyOfPem : String → Except String TransparentKey
  | "private-a" => .ok (.pem "a")
  | "private-b" => .ok (.pem "b")
  | _ => .error "InvalidKeyFormat"

def publicKeyOfPem : String → Except String TransparentKey
  | "public-a" => .ok (.pem "a")
  | "public-b" => .ok (.pem "b")
  | _ => .error "InvalidKeyFormat"

/-- An RSA key to verify with is loaded from a private key too, but verifies nothing. -/
def rsaKeyOfPem : String → Except String TransparentKey
  | "private-a" => .ok (.pem "private-a")
  | "private-b" => .ok (.pem "private-b")
  | text => publicKeyOfPem text

def keyPairBackend : Backend :=
  { transparentBackend with
    encodingFromRsaPem := privateKeyOfPem
    encodingFromEcPem := privateKeyOfPem
    encodingFromEdPem := privateKeyOfPem
    decodingFromRsaPem := rsaKeyOfPem
    decodingFromEcPem := publicKeyOfPem
    decodingFromEdPem := publicKeyOfPem }

end TokenKit
