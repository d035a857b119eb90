import TokenKit.Proofs.RequiredClaims

/-!
# A config without audiences

Where no audience is configured the backend still validates the `aud` of a token that has one, and
rejects it. Two tokens that differ in `aud` only have one outcome when both have an `aud` that can
be read or neither has, and all such tokens have when `aud` is required, since all are then rejected
(`no_audience_iff`).
-/

namespace TokenKit

open JwtService JwtConfig Validation

variable {B : Backend} {rotation : Bool} {service : JwtService} {now : ℤ}

/-- The objects name no member twice, and have the same members but for `aud`. -/
structure EqButAud (members members' : List (String × Json)) : Prop where
  nodup : (members.map Prod.fst).Nodup
  nodup' : (members'.map Prod.fst).Nodup
  others : ∀ name ≠ "aud", members.lookup name = members'.lookup name

theorem EqButAud.symm {members members' : List (String × Json)} (h : EqButAud members members') :
    EqButAud members' members :=
  ⟨h.nodup', h.nodup, fun name hname => (h.others name hname).symm⟩

/-- Of two objects that differ in `aud` only, the type reads both or neither. -/
def IgnoresAud (T : Type) [DeserializeOwned T] : Prop :=
  ∀ members members', EqButAud members members' →
    ((∃ claims : T, deserialize (.obj members) = some claims)
      ↔ ∃ claims : T, deserialize (.obj members') = some claims)

/-- The tokens have one header, verify under the same keys and differ in `aud` only. -/
structure SameButAud (B : Backend) (token token' : B.Token)
    (members members' : List (String × Json)) : Prop where
  header : B.decodeHeader token = B.decodeHeader token'
  alike : ∀ key, B.verifies token key ↔ B.verifies token' key
  payload : B.payload token = some (.obj members)
  payload' : B.payload token' = some (.obj members')
  members : EqButAud members members'

/-- Both tokens are accepted, or neither is. -/
def SameOutcome (B : Backend) (rotation : Bool) (service : JwtService) (T : Type)
    [DeserializeOwned T] (token token' : B.Token) (now : ℤ) : Prop :=
  (∃ claims : T, service.decode B rotation token now = .ok claims)
    ↔ ∃ claims : T, service.decode B rotation token' now = .ok claims

/-- No outcome depends on the `aud` of a token. -/
def DisregardsAud (B : Backend) (rotation : Bool) (service : JwtService) : Prop :=
  ∀ (T : Type) [DeserializeOwned T], IgnoresAud T →
    ∀ (token token' : B.Token) (members members' : List (String × Json)),
      SameButAud B token token' members members' →
        ∀ now, SameOutcome B rotation service T token token' now

theorem decode_iff_of_payload (hdecode : B.DecodeChecks) {T : Type} [DeserializeOwned T]
    {token : B.Token} {payload : Json} (hpayload : B.payload token = some payload) :
    (∃ claims : T, service.decode B rotation token now = .ok claims)
      ↔ Authentic B rotation service token ∧ (∃ claims : T, deserialize payload = some claims)
        ∧ B.claimsValid service.config.buildValidation now payload := by
  simp only [decode_eq_ok_of_payload hdecode hpayload]
  refine ⟨?_, ?_⟩
  · rintro ⟨claims, hauth, hread, hvalid⟩
    exact ⟨hauth, ⟨claims, hread⟩, hvalid⟩
  · rintro ⟨hauth, ⟨claims, hread⟩, hvalid⟩
    exact ⟨claims, hauth, hread, hvalid⟩

theorem Enforced.of_eqButAud {config : JwtConfig} {members members' : List (String × Json)}
    (h : Enforced config.buildValidation (.obj members))
    (hnone : config.mergedAudiences = []) (heq : EqButAud members members')
    (haud : present (.obj members) "aud" = present (.obj members') "aud") :
    Enforced config.buildValidation (.obj members') := by
  have hmember : ∀ name ≠ "aud",
      (Json.obj members').member name = (Json.obj members).member name :=
    fun name hname => (heq.others name hname).symm
  have habsent : present (.obj members') "aud" = false := haud ▸ h.no_aud hnone
  constructor
  · intro name hname
    by_cases hne : name = "aud"
    · subst hne
      exact haud ▸ h.required "aud" hname
    · exact (present_congr (hmember name hne)).trans (h.required name hname)
  · intro given hgiven
    exact h.iss given (hmember "iss" (by decide) ▸ hgiven)
  · intro given hgiven
    have hpresent : present (.obj members') "aud" = true := Option.isSome_of_eq_some hgiven
    exact absurd (habsent.symm.trans hpresent) (by simp)

/-- Of objects that differ in `aud` only, with an `aud` that can be read in both or in neither, one
is valid when the other is. -/
theorem claimsValid_of_eqButAud (henforce : B.EnforcesRegistered) (hapart : B.ChecksAudienceApart)
    {config : JwtConfig} (hnone : config.mergedAudiences = [])
    {members members' : List (String × Json)} (heq : EqButAud members members')
    (haud : present (.obj members) "aud" = present (.obj members') "aud")
    (h : B.claimsValid config.buildValidation now (.obj members)) :
    B.claimsValid config.buildValidation now (.obj members') := by
  have henforced := enforced_iff.1 (henforce _ _ _ h)
  exact hapart _ _ _ _ heq.nodup heq.nodup' heq.others h
    (enforced_iff.2 (henforced.of_eqButAud hnone heq haud))

/-- Without audiences, tokens that differ in `aud` only have one outcome when both or neither have
an `aud` that can be read. They have in any case if `aud` is required, and, where the service's
tokens can be signed, only then. -/
theorem no_audience_iff (hdecode : B.DecodeChecks) (henforce : B.EnforcesRegistered)
    (hapart : B.ChecksAudienceApart) (hclaims : B.ChecksRegistered)
    (haudience : service.config.audience = none) (haudiences : service.config.audiences = []) :
    (∀ (T : Type) [DeserializeOwned T], IgnoresAud T →
      ∀ (token token' : B.Token) (members members' : List (String × Json)),
        SameButAud B token token' members members' →
          present (.obj members) "aud" = present (.obj members') "aud" →
            ∀ now, SameOutcome B rotation service T token token' now)
    ∧ ("aud" ∈ service.config.requiredClaims → DisregardsAud B rotation service)
    ∧ (Nonempty (Signer B rotation service) → DisregardsAud B rotation service →
      "aud" ∈ service.config.requiredClaims) := by
  have hnone : service.config.mergedAudiences = [] := by
    unfold mergedAudiences
    rw [haudience, haudiences]
  refine ⟨fun T _ hT token token' members members' hsame haud now => ?_,
    fun hrequired T _ _ token token' members members' hsame now => ?_, fun ⟨signer⟩ hall => ?_⟩
  · unfold SameOutcome
    rw [decode_iff_of_payload hdecode hsame.payload, decode_iff_of_payload hdecode hsame.payload',
      authentic_congr hsame.header hsame.alike, hT _ _ hsame.members]
    refine and_congr_right fun _ => and_congr_right fun _ => ⟨fun h => ?_, fun h => ?_⟩
    · exact claimsValid_of_eqButAud henforce hapart hnone hsame.members haud h
    · exact claimsValid_of_eqButAud henforce hapart hnone hsame.members.symm haud.symm h
  · have hcontra : Contradictory service.config := ⟨hrequired, hnone⟩
    have hinvalid : ∀ payload, ¬ B.claimsValid service.config.buildValidation now payload :=
      fun payload h => not_enforced_of_contradictory hcontra (enforced_iff.1 (henforce _ _ _ h))
    unfold SameOutcome
    rw [decode_iff_of_payload hdecode hsame.payload, decode_iff_of_payload hdecode hsame.payload']
    simp only [hinvalid, and_false]
  · by_contra hrequired
    have hcontra : ¬ Contradictory service.config := fun h => hrequired h.1
    obtain ⟨members, now, hnd, habsent, haccepted⟩ :=
      signer.accepts_without hdecode hclaims (fun h => absurd h hrequired) hcontra
    -- the same token with an audience
    have heq : EqButAud members (("aud", .str "other") :: members) := by
      refine ⟨hnd, List.nodup_cons.2 ⟨List.notMem_of_lookup habsent, hnd⟩, fun name hne => ?_⟩
      exact (List.lookup_cons_of_ne hne).symm
    have hsame : SameButAud B (signer.sign (.obj members))
        (signer.sign (.obj (("aud", .str "other") :: members))) members
        (("aud", .str "other") :: members) :=
      ⟨(signer.header _).trans (signer.header _).symm, signer.alike _ _, signer.payload _,
        signer.payload _, heq⟩
    have houtcome := hall Json (fun _ _ _ => iff_of_true ⟨_, rfl⟩ ⟨_, rfl⟩) _ _ _ _ hsame now
    obtain ⟨-, -, hvalid⟩ := (decode_iff_of_payload hdecode (signer.payload _)).1
      (houtcome.1 ⟨_, haccepted⟩)
    cases (enforced_iff.1 (henforce _ _ _ hvalid)).no_aud hnone

theorem no_audience_default :
    DisregardsAud transparentBackend false
        (.new { JwtConfig.default with requiredClaims := ["aud", "exp"] })
      ∧ (DisregardsAud transparentBackend false (.new JwtConfig.default) →
        "aud" ∈ JwtConfig.default.requiredClaims) := by
  have hrequired := @no_audience_iff transparentBackend false
    (.new { JwtConfig.default with requiredClaims := ["aud", "exp"] }) transparent_decodeChecks
    transparent_enforcesRegistered transparent_checksAudienceApart transparent_checksRegistered rfl
    rfl
  have hdefault := @no_audience_iff transparentBackend false (.new JwtConfig.default)
    transparent_decodeChecks transparent_enforcesRegistered transparent_checksAudienceApart
    transparent_checksRegistered rfl rfl
  exact ⟨hrequired.2.1 (by decide), hdefault.2.2 ⟨secretSigner _ rfl rfl false⟩⟩

/-- The quick start's service accepts a token without `aud` and rejects the same token with one. -/
theorem default_regards_aud :
    ¬ DisregardsAud transparentBackend false (.new JwtConfig.default) := by
  intro hall
  have heq : EqButAud [("exp", .int 4600), ("iss", .str "issuer")]
      [("aud", .str "api"), ("exp", .int 4600), ("iss", .str "issuer")] := by
    refine ⟨by decide, by decide, fun name hne => ?_⟩
    exact (List.lookup_cons_of_ne hne).symm
  have hsame : SameButAud transparentBackend
      (secretToken [("exp", .int 4600), ("iss", .str "issuer")])
      (secretToken [("aud", .str "api"), ("exp", .int 4600), ("iss", .str "issuer")]) _ _ :=
    ⟨rfl, fun _ => Iff.rfl, rfl, rfl, heq⟩
  have houtcome := hall Json (fun _ _ _ => iff_of_true ⟨_, rfl⟩ ⟨_, rfl⟩) _ _ _ _ hsame 1000
  obtain ⟨claims, haccepted⟩ := houtcome.1 ⟨_, rfl⟩
  cases haccepted

end TokenKit
