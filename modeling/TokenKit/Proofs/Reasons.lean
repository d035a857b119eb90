import TokenKit.Proofs.Acceptance
import TokenKit.TransparentBackend

/-!
# The reason a token is rejected for

Where every key fails, the loop over the candidates reports what the last one failed with. So when a
key verifies a token whose claims are not valid, its reason is reported if the token names a key id,
and otherwise exactly when the last candidate verifies the token as well (`reported_reason_iff`).
-/

namespace TokenKit

open JwtService

variable {B : Backend} {service : JwtService} {token : B.Token} {now : ℤ}

section

variable {T : Type} [DeserializeOwned T] {validation : Validation}

/-- When every candidate fails, the loop reports what the last one failed with. -/
theorem tryEveryKey_of_last : ∀ {candidates : List (Option String × B.DecodingKey)}
    {lastErr : JwtError} {last : Option String × B.DecodingKey} {e : String},
    (∀ candidate ∈ candidates, ∀ claims : T,
      B.decode token candidate.2 validation now ≠ .ok claims) →
    candidates.getLast? = some last →
    (B.decode token last.2 validation now : Except String T) = .error e →
    (tryEveryKey B token validation now lastErr candidates : Except JwtError T)
      = .error (.decodingFailed e)
  | [], _, _, _, _, hlast, _ => by cases hlast
  | [(kid, key)], _, _, e, _, hlast, he => by
    cases hlast
    have he : (B.decode token key validation now : Except String T) = .error e := he
    simp only [tryEveryKey, he]
  | (kid, key) :: candidate :: candidates, _, _, _, hfail, hlast, he => by
    rw [List.forall_mem_cons] at hfail
    unfold tryEveryKey
    rcases hkey : (B.decode token key validation now : Except String T) with e' | claims
    · exact tryEveryKey_of_last hfail.2 hlast he
    · exact absurd hkey (hfail.1 claims)

/-- Claims that are not valid are accepted under no key. -/
theorem exists_error_of_claims (hdecode : B.DecodeChecks) {payload : Json}
    (hpayload : B.payload token = some payload) (hclaims : ¬ B.claimsValid validation now payload)
    (key : B.DecodingKey) :
    ∃ e, (B.decode token key validation now : Except String T) = .error e := by
  rcases hkey : (B.decode token key validation now : Except String T) with e | claims
  · exact ⟨e, rfl⟩
  · obtain ⟨-, -, found, hfound, -, hvalid⟩ := (hdecode token key validation now claims).1 hkey
    rw [hpayload] at hfound
    exact absurd (Option.some.inj hfound ▸ hvalid) hclaims

end

/-- The result carries a reason as the text of a failed decoding, or is the error for an expired
token. -/
def Carries {T : Type} (result : Except JwtError T) (reason : String) : Prop :=
  result = .error (.decodingFailed reason) ∨ result = .error .expired

/-- The result carries the reason of a key that verifies the token. -/
def ReportsReason (B : Backend) (service : JwtService) (token : B.Token) (now : ℤ) (T : Type)
    [DeserializeOwned T] : Prop :=
  ∃ key reason, Tried B true service token key ∧ B.verifies token key
    ∧ (B.decode token key service.config.buildValidation now : Except String T) = .error reason
    ∧ Carries (service.decode B true token now : Except JwtError T) reason

/-- When a key verifies the token and its claims are not valid, the reason is reported exactly when
the token names a key id or the last candidate verifies it. -/
theorem reported_reason_iff (hdecode : B.DecodeChecks) (hfirst : B.SignatureFirst) (T : Type)
    [DeserializeOwned T] {candidates : List (Option String × B.DecodingKey)} {payload : Json}
    (hkeys : service.decodingKeys B = .ok candidates)
    (hauth : Authentic B true service token) (hpayload : B.payload token = some payload)
    (hclaims : ¬ B.claimsValid service.config.buildValidation now payload) :
    ReportsReason B service token now T
      ↔ kidOf B token ≠ none ∨ ∃ last ∈ candidates.getLast?, B.verifies token last.2 := by
  have herror : ∀ key, ∃ e,
      (B.decode token key service.config.buildValidation now : Except String T) = .error e :=
    exists_error_of_claims hdecode hpayload hclaims
  obtain ⟨⟨header, hheader, halg⟩, key, htried, hver⟩ := hauth
  rcases hkid : kidOf B token with _ | kid
  · have hne : candidates ≠ [] := by
      obtain ⟨candidate, hmem, -⟩ := (tried_of_no_kid hkeys hkid key).1 htried
      exact List.ne_nil_of_mem hmem
    have hlast := List.getLast?_eq_some_getLast hne
    obtain ⟨e, he⟩ := herror (candidates.getLast hne).2
    have hresult : (service.decode B true token now : Except JwtError T)
        = .error (.decodingFailed e) := by
      unfold JwtService.decode
      rw [if_pos rfl, decodeWithRotation_of_no_kid hkeys hkid]
      refine tryEveryKey_of_last (fun candidate _ claims h => ?_) hlast he
      obtain ⟨e', he'⟩ := herror candidate.2
      cases he'.symm.trans h
    refine ⟨?_, ?_⟩
    · rintro ⟨key', reason, -, hver', hreason, hcarries⟩
      refine .inr ⟨_, hlast, ?_⟩
      obtain rfl : e = reason := by
        rw [Carries, hresult] at hcarries
        simpa using hcarries
      by_contra hnot
      exact hfirst token header key' _ _ now e hheader halg hver' hnot hreason he
    · rintro (h | ⟨last, hmem, hver'⟩)
      · exact absurd rfl h
      · obtain rfl : candidates.getLast hne = last := Option.some.inj (hlast.symm.trans hmem)
        exact ⟨_, e, (tried_of_no_kid hkeys hkid _).2 ⟨_, List.getLast_mem hne, rfl⟩, hver', he,
          .inl hresult⟩
  · refine iff_of_true ?_ (.inl (by simp))
    obtain ⟨e, he⟩ := herror key
    refine ⟨key, e, htried, hver, he, .inl ?_⟩
    unfold JwtService.decode
    rw [if_pos rfl, decodeWithRotation_of_kid hkeys hkid ((tried_of_kid hkeys hkid key).1 htried),
      he]
    rfl

/-- The quick start's config with an earlier secret. -/
def earlierConfig : JwtConfig := { JwtConfig.default with rotationKeys := [.new "older" none] }

/-- A token of the primary secret, long expired at 1000. -/
def expiredToken : TransparentToken := secretToken [("exp", .int 0), ("iss", .str "issuer")]

/-- A config whose last entry is the secret of the token; the others fail before it. -/
def laterConfig : JwtConfig :=
  { JwtConfig.default with
    secret := "newer"
    rotationKeys := [.new "older" none, .new "" none] }

theorem reported_reason_last :
    ReportsReason transparentBackend (.new laterConfig) expiredToken 1000 Json := by
  have hkeys : (JwtService.new laterConfig).decodingKeys transparentBackend
      = .ok [(none, .secret "newer"), (none, .secret "older"), (none, .secret "")] := rfl
  have hauth : Authentic transparentBackend true (.new laterConfig) expiredToken :=
    ⟨⟨_, rfl, algorithm_mem_buildValidation laterConfig⟩, .secret "",
      (tried_of_no_kid hkeys rfl _).2 ⟨(none, .secret ""), by simp, rfl⟩, rfl⟩
  have hclaims : ¬ transparentBackend.claimsValid laterConfig.buildValidation 1000
      (.obj [("exp", .int 0), ("iss", .str "issuer")]) := by
    intro hvalid
    cases hvalid
  have hiff := reported_reason_iff transparent_decodeChecks transparent_signatureFirst Json hkeys
    hauth rfl hclaims
  exact hiff.2 (.inr ⟨(none, .secret ""), rfl, rfl⟩)

/-- The token's own key reports the expiry, the service the mismatch of the earlier secret. -/
theorem expiry_reported_as_signature :
    (JwtService.new earlierConfig).decodingKeys transparentBackend
        = .ok [(none, .secret ""), (none, .secret "older")]
      ∧ transparentBackend.verifies expiredToken (.secret "")
      ∧ (transparentBackend.decode expiredToken (.secret "") earlierConfig.buildValidation 1000
        : Except String Json) = .error "InvalidClaims"
      ∧ ((JwtService.new earlierConfig).decode transparentBackend true expiredToken 1000
        : Except JwtError Json) = .error (.decodingFailed "InvalidSignature")
      ∧ ¬ ReportsReason transparentBackend (.new earlierConfig) expiredToken 1000 Json := by
  refine ⟨rfl, rfl, rfl, rfl, ?_⟩
  rintro ⟨key, reason, -, hver, hreason, hcarries⟩
  obtain rfl : TransparentKey.secret "" = key := hver
  obtain rfl : "InvalidClaims" = reason := Except.error.inj hreason
  have hresult : ((JwtService.new earlierConfig).decode transparentBackend true expiredToken 1000
      : Except JwtError Json) = .error (.decodingFailed "InvalidSignature") := rfl
  rw [Carries, hresult] at hcarries
  simp at hcarries

end TokenKit
