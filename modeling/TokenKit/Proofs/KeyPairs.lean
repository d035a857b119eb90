import TokenKit.Proofs.KidPin
import TokenKit.Proofs.Rotation

/-!
# Rotation with key pairs

A rotation config takes its primary key from the first listed key, but only the secret and the key
id of it. With an asymmetric algorithm the primary candidate is then loaded from a private key. Of
an elliptic curve (`ES*`, `EdDSA`) a private key does not load as one to verify with, and no token
is read at all. Of RSA (`RS*`, `PS*`) it loads, but verifies nothing, and the first entry's tokens
are pinned to it. Either way the tokens of the entries are not all accepted
(`key_pair_rotation_never_accepts`).
-/

namespace TokenKit

open JwtService JwtConfig

variable {B : Backend} {algorithm : JwtAlgorithm}

/-- The entry's secret is a private key, and its public material the matching public key. Loaded as
a key to verify with, the private key is an error or verifies none of its own tokens. -/
structure KeyPair (B : Backend) (algorithm : JwtAlgorithm) (entry : RotationKey)
    (signing : B.EncodingKey) (verifying : B.DecodingKey) : Prop where
  private_loads : encodingKeyFor B algorithm entry.secret none = .ok signing
  private_not_public : ∀ key, decodingKeyFor B algorithm none none entry.secret = .ok key →
    ∀ {T : Type} [Serialize T] (header : Header) (minted : T) (token : B.Token),
      B.encode header minted signing = .ok token → ¬ B.verifies token key
  has_public : entry.publicKey.isSome ∨ entry.derPublicKey.isSome
  public_loads : decodingKeyFor B algorithm entry.publicKey entry.derPublicKey entry.secret
    = .ok verifying
  matches_private : B.Matches signing verifying

/-- The token was signed with the entry's private key and carries its key id, and its payload reads
as claims that the validation of a rotation config accepts. -/
structure SignedBy (B : Backend) (algorithm : JwtAlgorithm) (keys : List RotationKey)
    (entry : RotationKey) (token : B.Token) (now : ℤ) {T U : Type} [Serialize T]
    [DeserializeOwned U] (minted : T) (claims : U) : Prop where
  signed : ∃ signing verifying, KeyPair B algorithm entry signing verifying
    ∧ B.encode ⟨algorithm.toAlgorithm, entry.keyId⟩ minted signing = .ok token
  valid : ∃ payload, serialize minted = some payload ∧ deserialize payload = some claims
    ∧ B.claimsValid (withRotationKeys algorithm keys).buildValidation now payload

/-- A rotation config accepts every claim-valid token of an entry. -/
def AcceptsEntries (B : Backend) (algorithm : JwtAlgorithm) (keys : List RotationKey) : Prop :=
  ∀ entry ∈ keys, ∀ {T U : Type} [Serialize T] [DeserializeOwned U] (token : B.Token) (now : ℤ)
    (minted : T) (claims : U), SignedBy B algorithm keys entry token now minted claims →
      ∃ found : U,
        (JwtService.new (withRotationKeys algorithm keys)).decode B true token now = .ok found

section

variable {primary : RotationKey} {rest : List RotationKey}

theorem decodingKeys_of_private {e : JwtError}
    (h : decodingKeyFor B algorithm none none primary.secret = .error e) :
    (JwtService.new (withRotationKeys algorithm (primary :: rest))).decodingKeys B = .error e := by
  have hprimary : (JwtService.new (withRotationKeys algorithm (primary :: rest))).decodingKey B
      = .error e := h
  unfold decodingKeys
  rw [hprimary]
  rfl

/-- A token with the first entry's key id is read with what its private key loads as. -/
theorem private_of_tried {kid : String} (hid : primary.keyId = some kid) {token : B.Token}
    (hkid : kidOf B token = some kid) {key : B.DecodingKey}
    (h : Tried B true (JwtService.new (withRotationKeys algorithm (primary :: rest))) token key) :
    decodingKeyFor B algorithm none none primary.secret = .ok key := by
  obtain ⟨candidates, hkeys, -⟩ := id h
  obtain ⟨loaded, entries, hloaded, -, rfl⟩ := decodingKeys_eq_ok.1 hkeys
  have hfirst := (tried_of_kid hkeys hkid key).1 h
  have hhead : (JwtService.new (withRotationKeys algorithm (primary :: rest))).config.keyId
      = some kid := hid
  rw [List.find?_cons_of_pos (by simpa using hhead)] at hfirst
  obtain rfl : loaded = key := congrArg Prod.snd (Option.some.inj hfirst)
  exact hloaded

/-- A rotation config whose first entry is a key pair with a key id does not accept all tokens of
its entries. Where the private key is no key to verify with, it accepts no token at all. -/
theorem key_pair_rotation_never_accepts (hdecode : B.DecodeChecks) (hencode : B.EncodeRecords)
    (hid : primary.keyId ≠ none)
    (hvalid : ∃ (token : B.Token) (now : ℤ) (minted claims : StandardClaims),
      SignedBy B algorithm (primary :: rest) primary token now minted claims) :
    ¬ AcceptsEntries B algorithm (primary :: rest)
      ∧ ((∃ e, decodingKeyFor B algorithm none none primary.secret = .error e) →
        ∀ {T : Type} [DeserializeOwned T] (token : B.Token) (now : ℤ) (claims : T),
          (JwtService.new (withRotationKeys algorithm (primary :: rest))).decode B true token now
            ≠ .ok claims) := by
  refine ⟨fun hall => ?_, fun ⟨e, he⟩ T _ token now claims h => ?_⟩
  · obtain ⟨token, now, minted, claims, hsigned⟩ := hvalid
    obtain ⟨found, hfound⟩ := hall primary List.mem_cons_self token now minted claims hsigned
    obtain ⟨signing, verifying, hpair, hencoded⟩ := hsigned.signed
    obtain ⟨kid, hid⟩ := Option.ne_none_iff_exists'.1 hid
    obtain ⟨hheader, -⟩ := hencode _ _ _ _ hencoded
    obtain ⟨key, htried, haccepts⟩ := (decode_iff_tried hdecode).1 hfound
    have hloaded := private_of_tried hid ((kidOf_of_header hheader).trans hid) htried
    exact hpair.private_not_public key hloaded _ _ _ hencoded
      ((hdecode _ _ _ _ _).1 haccepts).2.1
  · unfold JwtService.decode at h
    obtain ⟨candidates, hkeys, -⟩ := exists_candidate_of_decode h
    rw [decodingKeys_of_private he] at hkeys
    cases hkeys

end

def firstEntry : RotationKey :=
  { RotationKey.new "private-a" (some "a") with publicKey := some "public-a" }

theorem keyPair_firstEntry (h : algorithm = .ES256 ∨ algorithm = .RS256) :
    KeyPair keyPairBackend algorithm firstEntry (.pem "a") (.pem "a") := by
  rcases h with rfl | rfl
  · exact ⟨rfl, fun _ h => (by cases h), .inl rfl, rfl, transparent_matches _⟩
  · refine ⟨rfl, ?_, .inl rfl, rfl, transparent_matches _⟩
    rintro _ ⟨⟩ T _ header minted token hencoded hver
    obtain ⟨payload, -, rfl⟩ := transparentEncode_eq_ok hencoded
    have hver : TransparentKey.pem "a" = .pem "private-a" := hver
    simp at hver

theorem keyPair_secondEntry : KeyPair keyPairBackend .ES256 secondEntry (.pem "b") (.pem "b") :=
  ⟨rfl, fun _ h => (by cases h), .inl rfl, rfl, transparent_matches _⟩

def entryToken (algorithm : JwtAlgorithm) (pair : String) : TransparentToken :=
  ⟨{ alg := algorithm.toAlgorithm, kid := some pair }, epochPayload, .pem pair⟩

theorem signedBy_firstEntry (h : algorithm = .ES256 ∨ algorithm = .RS256) :
    SignedBy keyPairBackend algorithm [firstEntry, secondEntry] firstEntry
      (entryToken algorithm "a") 1000 epochClaims epochClaims := by
  refine ⟨⟨_, _, keyPair_firstEntry h, rfl⟩, epochPayload, rfl, rfl, ?_⟩
  rcases h with rfl | rfl <;> rfl

theorem signedBy_secondEntry : SignedBy keyPairBackend .ES256 [firstEntry, secondEntry] secondEntry
    (entryToken .ES256 "b") 1000 epochClaims epochClaims :=
  ⟨⟨_, _, keyPair_secondEntry, rfl⟩, epochPayload, rfl, rfl, rfl⟩

theorem key_pair_rotation_never_accepts_two :
    (¬ AcceptsEntries keyPairBackend .ES256 [firstEntry, secondEntry]
      ∧ ∀ {T : Type} [DeserializeOwned T] (token : TransparentToken) (now : ℤ) (claims : T),
        (JwtService.new (withRotationKeys .ES256 [firstEntry, secondEntry])).decode keyPairBackend
          true token now ≠ .ok claims)
      ∧ ¬ AcceptsEntries keyPairBackend .RS256 [firstEntry, secondEntry] := by
  have hcurve := key_pair_rotation_never_accepts (B := keyPairBackend) transparent_decodeChecks
    transparent_encodeRecords (by simp [firstEntry, RotationKey.new])
    ⟨entryToken .ES256 "a", 1000, epochClaims, epochClaims, signedBy_firstEntry (.inl rfl)⟩
  have hrsa := key_pair_rotation_never_accepts (B := keyPairBackend) transparent_decodeChecks
    transparent_encodeRecords (by simp [firstEntry, RotationKey.new])
    ⟨entryToken .RS256 "a", 1000, epochClaims, epochClaims, signedBy_firstEntry (.inr rfl)⟩
  exact ⟨⟨hcurve.1, hcurve.2 ⟨_, rfl⟩⟩, hrsa.1⟩

/-- The token of the second of two key pairs, of different key ids, is rejected. -/
theorem key_pair_token_rejected :
    ([firstEntry, secondEntry].filterMap RotationKey.keyId).Nodup
      ∧ ¬ AcceptsEntries keyPairBackend .ES256 [firstEntry, secondEntry] := by
  refine ⟨by decide, fun hall => ?_⟩
  obtain ⟨found, hfound⟩ := hall secondEntry (by simp) (entryToken .ES256 "b") 1000 epochClaims
    epochClaims signedBy_secondEntry
  cases hfound

end TokenKit
