import TokenKit.Proofs.KidPin

/-!
# Whose key an entry is verified with

A rotation entry takes each form of public key it lacks from the config, the PEM and the DER for
itself, and a DER key goes before a PEM key. So an entry that carries its public key as PEM only is
verified with the config's DER key, if there is one, and its own is not looked at
(`entry_keys_iff`).
-/

namespace TokenKit

open JwtService

variable {B : Backend} {service : JwtService} {algorithm : JwtAlgorithm}

namespace RotationKey

/-- The entry carries a public key of its own, in either form. -/
def HasPublic (entry : RotationKey) : Prop :=
  entry.publicKey ≠ none ∨ entry.derPublicKey ≠ none

/-- The verification key made of the entry's own material alone. -/
def ownKey (B : Backend) (algorithm : JwtAlgorithm) (entry : RotationKey) :
    Except JwtError B.DecodingKey :=
  decodingKeyFor B algorithm entry.publicKey entry.derPublicKey entry.secret

end RotationKey

/-- The verification key made of the config's public material. -/
def sharedKey (B : Backend) (config : JwtConfig) (secret : String) :
    Except JwtError B.DecodingKey :=
  decodingKeyFor B config.algorithm config.publicKey config.derPublicKey secret

/-- The entry has a DER key, or the config has none, or the config's is the same key as the entry's
PEM key. -/
def KeepsOwn (B : Backend) (config : JwtConfig) (entry : RotationKey) : Prop :=
  entry.derPublicKey ≠ none ∨ ∀ der, config.derPublicKey = some der →
    decodingKeyFor B config.algorithm none (some der) "" = entry.ownKey B config.algorithm

/-- Where there is a DER key, nothing else counts. -/
theorem decodingKeyFor_der (halg : ¬ algorithm.IsHmac) (pem pem' : Option String)
    (der : List UInt8) (secret secret' : String) :
    decodingKeyFor B algorithm pem (some der) secret
      = decodingKeyFor B algorithm pem' (some der) secret' := by
  cases algorithm
  case HS256 | HS384 | HS512 => exact absurd (by decide) halg
  all_goals rfl

theorem ownKey_eq_iff (halg : ¬ service.config.algorithm.IsHmac) {entry : RotationKey}
    (hpublic : entry.HasPublic) {key : B.DecodingKey} (hkey : service.entryKey B entry = .ok key) :
    entry.ownKey B service.config.algorithm = .ok key ↔ KeepsOwn B service.config entry := by
  unfold entryKey at hkey
  unfold KeepsOwn
  rcases hder : entry.derPublicKey with _ | der
  · obtain ⟨pem, hpem⟩ : ∃ pem, entry.publicKey = some pem :=
      Option.ne_none_iff_exists'.1 (hpublic.resolve_right (by simp [hder]))
    rcases hshared : service.config.derPublicKey with _ | der
    · -- neither has a DER key, and the entry's PEM key goes before the config's
      refine iff_of_true ?_ (by simp)
      rw [hpem, hder, hshared] at hkey
      rw [RotationKey.ownKey, hpem, hder]
      exact hkey
    · rw [hpem, hder, hshared] at hkey
      have hkey : decodingKeyFor B service.config.algorithm none (some der) "" = .ok key :=
        (decodingKeyFor_der halg _ _ _ _ _).trans hkey
      simp only [ne_eq, not_true_eq_false, Option.some.injEq, forall_eq', false_or, hkey]
      exact eq_comm
  · refine iff_of_true ?_ (.inl (by simp))
    rw [hder] at hkey
    rw [RotationKey.ownKey, hder]
    exact (decodingKeyFor_der halg _ _ _ _ _).trans hkey

/-- Of the candidates after the primary one, each is made of its entry's own public key exactly when
the entry keeps it, and of the config's where the entry has none. -/
theorem entry_keys_iff (halg : ¬ service.config.algorithm.IsHmac)
    {candidates : List (Option String × B.DecodingKey)}
    (hkeys : service.decodingKeys B = .ok candidates) :
    List.Forall₂ (fun (entry : RotationKey) (candidate : Option String × B.DecodingKey) =>
      entry.keyId = candidate.1
        ∧ (entry.HasPublic →
          (entry.ownKey B service.config.algorithm = .ok candidate.2
            ↔ KeepsOwn B service.config entry))
        ∧ (¬ entry.HasPublic → sharedKey B service.config entry.secret = .ok candidate.2))
      service.config.rotationKeys candidates.tail := by
  have hall := forall₂_of_decodingKeys.1 hkeys
  rw [JwtConfig.materials, List.forall₂_cons_left_iff] at hall
  obtain ⟨primary, entries, -, hentries, rfl⟩ := hall
  rw [List.forall₂_map_left_iff] at hentries
  refine hentries.imp ?_
  rintro entry ⟨id, key⟩ ⟨hid, hload⟩
  have hload : service.entryKey B entry = .ok key := hload
  refine ⟨hid, fun hpublic => ownKey_eq_iff halg hpublic hload, fun hnone => ?_⟩
  obtain ⟨hpem, hder⟩ := not_or.1 hnone
  unfold entryKey at hload
  rw [not_not.1 hpem, not_not.1 hder] at hload
  exact hload

/-- The service of a key pair in DER form, which lists an older key pair in PEM form. -/
def mixedConfig (entries : List RotationKey) : JwtConfig :=
  { JwtConfig.default with
    algorithm := .RS256
    secret := "private-a"
    derPublicKey := some [1]
    keyId := some "a"
    rotationKeys := entries }

theorem entry_keys_second : List.Forall₂
    (fun (entry : RotationKey) (candidate : Option String × TransparentKey) =>
      entry.keyId = candidate.1
        ∧ (entry.HasPublic →
          (entry.ownKey keyPairBackend .RS256 = .ok candidate.2
            ↔ KeepsOwn keyPairBackend (pairConfig [secondEntry]) entry))
        ∧ (¬ entry.HasPublic →
          sharedKey keyPairBackend (pairConfig [secondEntry]) entry.secret = .ok candidate.2))
      [secondEntry] [(some "b", .pem "b")] :=
  @entry_keys_iff keyPairBackend (.new (pairConfig [secondEntry])) (by decide) _ rfl

/-- The older key pair's tokens are verified with the new public key. -/
theorem second_entry_gets_shared_key :
    secondEntry.HasPublic
      ∧ (JwtService.new (mixedConfig [secondEntry])).decodingKeys keyPairBackend
        = .ok [(some "a", .der [1]), (some "b", .der [1])]
      ∧ secondEntry.ownKey keyPairBackend .RS256 = .ok (.pem "b")
      ∧ secondEntry.ownKey keyPairBackend .RS256 ≠ .ok (.der [1]) := by
  refine ⟨.inl (by simp [secondEntry]), rfl, rfl, ?_⟩
  rintro ⟨⟩

end TokenKit
