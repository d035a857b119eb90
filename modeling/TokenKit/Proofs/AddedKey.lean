import TokenKit.Proofs.Acceptance
import TokenKit.TransparentBackend

/-!
# One more rotation key

A rotation key put behind the others takes nothing away. It adds the tokens that its own key
accepts, among those that name no key id and those that name its own, unless an earlier candidate
has that id (`added_key_iff`). Read backwards, this is what dropping the last key loses.
-/

namespace TokenKit

open JwtService

/-- The service with a rotation key behind the others. -/
def JwtService.addKey (service : JwtService) (entry : RotationKey) : JwtService :=
  { service with
    config := { service.config with rotationKeys := service.config.rotationKeys ++ [entry] } }

variable {B : Backend} {service : JwtService} {token : B.Token} {now : ℤ}
  {candidates : List (Option String × B.DecodingKey)} {entry : RotationKey} {key : B.DecodingKey}

/-- The token is read with the added key. -/
def ReadsAdded (B : Backend) (candidates : List (Option String × B.DecodingKey))
    (entry : RotationKey) (token : B.Token) : Prop :=
  ∀ kid, kidOf B token = some kid →
    entry.keyId = some kid ∧ ∀ candidate ∈ candidates, candidate.1 ≠ some kid

theorem decodingKeys_addKey (hkeys : service.decodingKeys B = .ok candidates)
    (hentry : service.entryKey B entry = .ok key) :
    (service.addKey entry).decodingKeys B = .ok (candidates ++ [(entry.keyId, key)]) := by
  obtain ⟨primary, entries, hprimary, hentries, rfl⟩ := decodingKeys_eq_ok.1 hkeys
  refine decodingKeys_eq_ok.2 ⟨primary, entries ++ [(entry.keyId, key)], hprimary, ?_, rfl⟩
  have hload : ∀ entry, (service.addKey entry).entryKey B = service.entryKey B := fun _ => rfl
  have hrotation : (service.addKey entry).config.rotationKeys
      = service.config.rotationKeys ++ [entry] := rfl
  rw [hload, hrotation, List.mapM_append, hentries]
  simp [hentry, bind, Except.bind, pure, Except.pure]

theorem tried_addKey (hkeys : service.decodingKeys B = .ok candidates)
    (hentry : service.entryKey B entry = .ok key) (k : B.DecodingKey) :
    Tried B true (service.addKey entry) token k
      ↔ Tried B true service token k ∨ k = key ∧ ReadsAdded B candidates entry token := by
  have hadded := decodingKeys_addKey hkeys hentry
  rcases hkid : kidOf B token with _ | kid
  · rw [tried_of_no_kid hadded hkid, tried_of_no_kid hkeys hkid]
    simp [ReadsAdded, hkid, or_and_right, exists_or, eq_comm]
  · rw [tried_of_kid hadded hkid, tried_of_kid hkeys hkid, List.find?_append]
    rcases hfind : candidates.find? fun candidate => candidate.1 = some kid with _ | candidate
    · -- no earlier candidate has the id
      have hnone : ∀ candidate ∈ candidates, candidate.1 ≠ some kid := by
        simpa using List.find?_eq_none.1 hfind
      have hreads : ReadsAdded B candidates entry token ↔ entry.keyId = some kid := by
        refine ⟨fun h => (h kid hkid).1, fun h kid' hkid' => ?_⟩
        obtain rfl := Option.some.inj (hkid.symm.trans hkid')
        exact ⟨h, hnone⟩
      rw [hreads, hfind]
      by_cases hid : entry.keyId = some kid
      · simp [hid, eq_comm]
      · simp [hid]
    · have hnot : ¬ ReadsAdded B candidates entry token := by
        intro h
        have hcandidate : candidate.1 = some kid := by simpa using List.find?_some hfind
        exact (h kid hkid).2 candidate (List.mem_of_find?_eq_some hfind) hcandidate
      rw [hfind]
      simp [hnot]

/-- With a rotation key added behind the others, the service accepts what it accepted, and what the
key accepts of the tokens that are read with it. -/
theorem added_key_iff (hdecode : B.DecodeChecks) (service : JwtService)
    (candidates : List (Option String × B.DecodingKey))
    (hkeys : service.decodingKeys B = .ok candidates) (entry : RotationKey)
    (key : B.DecodingKey) (hentry : service.entryKey B entry = .ok key) {T : Type}
    [DeserializeOwned T] (token : B.Token) (now : ℤ) (claims : T) :
    (service.addKey entry).decode B true token now = .ok claims
      ↔ service.decode B true token now = .ok claims
        ∨ ReadsAdded B candidates entry token
          ∧ B.decode token key service.config.buildValidation now = .ok claims := by
  have hvalidation : (service.addKey entry).config.buildValidation
      = service.config.buildValidation := rfl
  rw [decode_iff_tried hdecode, decode_iff_tried hdecode, hvalidation]
  simp only [tried_addKey hkeys hentry]
  constructor
  · rintro ⟨k, htried | ⟨rfl, hreads⟩, haccepts⟩
    · exact .inl ⟨k, htried, haccepts⟩
    · exact .inr ⟨hreads, haccepts⟩
  · rintro (⟨k, htried, haccepts⟩ | ⟨hreads, haccepts⟩)
    · exact ⟨k, .inl htried, haccepts⟩
    · exact ⟨key, .inr ⟨rfl, hreads⟩, haccepts⟩

/-- A token of an earlier secret, accepted because of the key that is added for it. -/
def olderToken : TransparentToken :=
  { secretToken [("exp", .int 4600), ("iss", .str "issuer")] with signer := .secret "older" }

theorem added_key_iff_older : ∃ claims : StandardClaims,
    ((JwtService.new JwtConfig.default).addKey (.new "older" none)).decode transparentBackend true
      olderToken 1000 = .ok claims :=
  ⟨_, (added_key_iff transparent_decodeChecks (JwtService.new JwtConfig.default)
    [(none, .secret "")] rfl (.new "older" none) (.secret "older") rfl olderToken 1000 _).2
      (.inr ⟨by rintro kid ⟨⟩, rfl⟩)⟩

end TokenKit
