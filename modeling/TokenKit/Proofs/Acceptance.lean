import TokenKit.Proofs.Reading

/-!
# When a token is accepted

Whatever the build, `decode` reads a token with certain keys: the one it loads, the first candidate
of the key id the token names, or every candidate (`Tried`). With a backend that checks what its
documentation says, it accepts the token when one of them verifies it and its claims are valid, and
returns what its payload reads as (`decode_eq_ok_iff`).
-/

namespace TokenKit

open JwtService JwtConfig

variable {B : Backend} {rotation : Bool} {service : JwtService} {token token' : B.Token} {now : ℤ}

/-- `decode` reads the token with this key. -/
def Tried (B : Backend) (rotation : Bool) (service : JwtService) (token : B.Token)
    (key : B.DecodingKey) : Prop :=
  if rotation then
    ∃ candidates, service.decodingKeys B = .ok candidates ∧
      match kidOf B token with
      | some kid =>
        candidates.find? (fun candidate => candidate.1 = some kid) = some (some kid, key)
      | none => ∃ candidate ∈ candidates, candidate.2 = key
  else service.decodingKey B = .ok key

/-- A key that `decode` tries verifies the token, whose header names the config's algorithm. -/
structure Authentic (B : Backend) (rotation : Bool) (service : JwtService) (token : B.Token) :
    Prop where
  algorithm : ∃ header, B.decodeHeader token = .ok header
    ∧ header.alg ∈ service.config.buildValidation.algorithms
  verified : ∃ key, Tried B rotation service token key ∧ B.verifies token key

theorem tried_of_kid {candidates : List (Option String × B.DecodingKey)}
    (hkeys : service.decodingKeys B = .ok candidates) {kid : String}
    (hkid : kidOf B token = some kid) (key : B.DecodingKey) : Tried B true service token key
      ↔ candidates.find? (fun candidate => candidate.1 = some kid) = some (some kid, key) := by
  unfold Tried
  simp only [hkeys, hkid, if_true, Except.ok.injEq, exists_eq_left']

theorem tried_of_no_kid {candidates : List (Option String × B.DecodingKey)}
    (hkeys : service.decodingKeys B = .ok candidates) (hkid : kidOf B token = none)
    (key : B.DecodingKey) :
    Tried B true service token key ↔ ∃ candidate ∈ candidates, candidate.2 = key := by
  unfold Tried
  simp only [hkeys, hkid, if_true, Except.ok.injEq, exists_eq_left']

theorem decodingKeys_of_tried {key : B.DecodingKey} (h : Tried B true service token key) :
    ∃ candidates, service.decodingKeys B = .ok candidates := by
  obtain ⟨candidates, hkeys, -⟩ := h
  exact ⟨candidates, hkeys⟩

/-- Whether a token is authentic depends on its header and on what verifies it alone. -/
theorem authentic_congr (hheader : B.decodeHeader token = B.decodeHeader token')
    (halike : ∀ key, B.verifies token key ↔ B.verifies token' key) :
    Authentic B rotation service token ↔ Authentic B rotation service token' := by
  have htried : ∀ key,
      Tried B rotation service token key ↔ Tried B rotation service token' key := by
    intro key
    unfold Tried kidOf
    rw [hheader]
  refine ⟨?_, ?_⟩
  · rintro ⟨halg, key, hkey, hver⟩
    exact ⟨hheader ▸ halg, key, (htried key).1 hkey, (halike key).1 hver⟩
  · rintro ⟨halg, key, hkey, hver⟩
    exact ⟨hheader ▸ halg, key, (htried key).2 hkey, (halike key).2 hver⟩

theorem algorithm_mem_buildValidation (config : JwtConfig) :
    config.algorithm.toAlgorithm ∈ config.buildValidation.algorithms :=
  List.mem_singleton_self _

/-- A token with the header the service stamps is authentic when its own key verifies it. -/
theorem authentic_of_header (hheader : B.decodeHeader token = .ok (service.header rotation))
    {key : B.DecodingKey} (hkey : service.decodingKey B = .ok key)
    (hentries : rotation = true → ∃ candidates, service.decodingKeys B = .ok candidates)
    (hver : B.verifies token key) : Authentic B rotation service token := by
  refine ⟨⟨_, hheader, algorithm_mem_buildValidation _⟩, key, ?_, hver⟩
  cases rotation with
  | false => exact hkey
  | true =>
    -- the primary key is the first candidate, under the key id that was stamped
    obtain ⟨candidates, hkeys⟩ := hentries rfl
    obtain ⟨primary, entries, hprimary, -, hsplit⟩ := decodingKeys_eq_ok.1 hkeys
    obtain rfl : key = primary := Except.ok.inj (hkey.symm.trans hprimary)
    rcases hid : service.config.keyId with _ | kid
    · have hkid : kidOf B token = none := (kidOf_of_header hheader).trans hid
      exact (tried_of_no_kid hkeys hkid key).2 ⟨_, hsplit ▸ List.mem_cons_self, rfl⟩
    · have hkid : kidOf B token = some kid := (kidOf_of_header hheader).trans hid
      rw [tried_of_kid hkeys hkid, hsplit, hid, List.find?_cons_of_pos (by simp)]

section

variable {T : Type} [DeserializeOwned T] {claims : T}

theorem decode_iff_tried (hdecode : B.DecodeChecks) :
    service.decode B rotation token now = .ok claims ↔ ∃ key, Tried B rotation service token key
      ∧ B.decode token key service.config.buildValidation now = .ok claims := by
  unfold JwtService.decode
  cases rotation with
  | false =>
    simp only [Bool.false_eq_true, if_false, Except.ok_of_bind, Except.ok_of_mapError]
    rfl
  | true =>
    rw [if_pos rfl]
    rcases hkeys : service.decodingKeys B with e | candidates
    · refine iff_of_false (fun h => ?_) ?_
      · obtain ⟨candidates, hkeys', -⟩ := exists_candidate_of_decode h
        rw [hkeys] at hkeys'
        cases hkeys'
      · rintro ⟨key, htried, -⟩
        obtain ⟨candidates, hkeys'⟩ := decodingKeys_of_tried htried
        rw [hkeys] at hkeys'
        cases hkeys'
    rcases hkid : kidOf B token with _ | kid
    · simp only [tried_of_no_kid hkeys hkid, decodeWithRotation_of_no_kid hkeys hkid]
      refine ⟨?_, ?_⟩
      · intro h
        obtain ⟨candidate, hmem, hdec⟩ := exists_of_tryEveryKey h
        exact ⟨candidate.2, ⟨candidate, hmem, rfl⟩, hdec⟩
      · rintro ⟨_, ⟨candidate, hmem, rfl⟩, hdec⟩
        refine tryEveryKey_of_exists ⟨candidate, hmem, hdec⟩ fun other _ found hfound => ?_
        -- what a token says does not depend on the key
        obtain ⟨-, -, payload, hpayload, hread, -⟩ := (hdecode token _ _ now claims).1 hdec
        obtain ⟨-, -, payload', hpayload', hread', -⟩ := (hdecode token _ _ now found).1 hfound
        rw [hpayload] at hpayload'
        obtain rfl := Option.some.inj hpayload'
        rw [hread] at hread'
        exact (Option.some.inj hread').symm
    · simp only [tried_of_kid hkeys hkid, decodeWithRotation_kid_iff hkeys hkid]

theorem decode_eq_ok_iff (hdecode : B.DecodeChecks) :
    service.decode B rotation token now = .ok claims ↔ Authentic B rotation service token
      ∧ ∃ payload, B.payload token = some payload ∧ deserialize payload = some claims
        ∧ B.claimsValid service.config.buildValidation now payload := by
  rw [decode_iff_tried hdecode]
  simp only [hdecode token _ _ now claims]
  refine ⟨?_, ?_⟩
  · rintro ⟨key, htried, halg, hver, hpayload⟩
    exact ⟨⟨halg, key, htried, hver⟩, hpayload⟩
  · rintro ⟨⟨halg, key, htried, hver⟩, hpayload⟩
    exact ⟨key, htried, halg, hver, hpayload⟩

theorem decode_eq_ok_of_payload (hdecode : B.DecodeChecks) {payload : Json}
    (hpayload : B.payload token = some payload) :
    service.decode B rotation token now = .ok claims ↔ Authentic B rotation service token
      ∧ deserialize payload = some claims
      ∧ B.claimsValid service.config.buildValidation now payload := by
  simp only [decode_eq_ok_iff hdecode, hpayload, Option.some.injEq, exists_eq_left']

end

end TokenKit
