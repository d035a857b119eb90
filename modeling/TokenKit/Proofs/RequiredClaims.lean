import TokenKit.Proofs.Checks
import TokenKit.TransparentBackend

/-!
# Required claims, and the claims a config binds

The backend requires the claims it knows by name and ignores any other name, so every accepted token
has the claims its config lists exactly when the list has no other name, or when the config lists
`aud` and accepts no audience (`required_hold_iff`).

A configured issuer or audience is compared with the token's when the token has one, and an issuer
in a list is enough. So an accepted token is bound to them when it has the claims that the config
does not require and its issuer is the only one it names (`bound_claims_iff`).
-/

namespace TokenKit

open JwtService JwtConfig Validation

variable {B : Backend} {rotation : Bool} {service : JwtService}

/-! ## Required claims -/

/-- One of the ways to read a token accepts it. -/
inductive AcceptedBy (B : Backend) (rotation : Bool) (service : JwtService) (token : B.Token)
    (now : ℤ) : Prop
  | decode {T : Type} [DeserializeOwned T] {claims : T}
    (h : service.decode B rotation token now = .ok claims) : AcceptedBy B rotation service token now
  | decodeStandard {claims : StandardClaims}
    (h : service.decodeStandard B rotation token now = .ok claims) :
    AcceptedBy B rotation service token now
  | validate {claims : StandardClaims} (h : service.validate B rotation token now = .ok claims) :
    AcceptedBy B rotation service token now

def AcceptedHave (B : Backend) (rotation : Bool) (service : JwtService) (P : Json → Prop) : Prop :=
  ∀ (token : B.Token) (now : ℤ), AcceptedBy B rotation service token now →
    ∃ payload, B.payload token = some payload ∧ P payload

/-- The payload has each claim the config lists. -/
def HasRequired (config : JwtConfig) (payload : Json) : Prop :=
  ∀ name ∈ config.requiredClaims, ∃ value, payload.member name = some value

/-- The backend knows each claim the config lists. -/
def KnowsRequired (config : JwtConfig) : Prop :=
  ∀ name ∈ config.requiredClaims, name ∈ SPEC_CLAIMS

/-- The config lists `aud` and accepts no audience, so it accepts no token. -/
def Contradictory (config : JwtConfig) : Prop :=
  "aud" ∈ config.requiredClaims ∧ config.mergedAudiences = []

theorem not_enforced_of_contradictory {config : JwtConfig} (h : Contradictory config)
    {payload : Json} : ¬ Enforced config.buildValidation payload := by
  intro henforced
  have hpresent := henforced.required "aud" h.1
  rw [henforced.no_aud h.2] at hpresent
  cases hpresent

theorem exists_payload_of_accepted (hdecode : B.DecodeChecks) (henforce : B.EnforcesRegistered)
    {token : B.Token} {now : ℤ} (h : AcceptedBy B rotation service token now) :
    ∃ payload, B.payload token = some payload
      ∧ Enforced service.config.buildValidation payload := by
  have hread : ∃ (T : Type) (_ : DeserializeOwned T) (claims : T),
      service.decode B rotation token now = .ok claims := by
    rcases h with h | h | h
    · exact ⟨_, _, _, h⟩
    · exact ⟨_, _, _, decode_of_decodeStandard h⟩
    · exact ⟨_, _, _, h⟩
  obtain ⟨T, _, claims, hread⟩ := hread
  obtain ⟨-, payload, hpayload, -, hvalid⟩ := (decode_eq_ok_iff hdecode).1 hread
  exact ⟨payload, hpayload, enforced_iff.1 (henforce _ _ _ hvalid)⟩

theorem hasRequired_of_known (hdecode : B.DecodeChecks) (henforce : B.EnforcesRegistered)
    (h : KnowsRequired service.config ∨ Contradictory service.config) :
    AcceptedHave B rotation service (HasRequired service.config) := by
  intro token now htoken
  obtain ⟨payload, hpayload, henforced⟩ := exists_payload_of_accepted hdecode henforce htoken
  rcases h with hknown | hcontra
  · refine ⟨payload, hpayload, fun name hname => ?_⟩
    exact exists_member_of_present (hknown name hname) (henforced.required name hname)
  · exact absurd henforced (not_enforced_of_contradictory hcontra)

/-- Without the claim of a name that is not required, or not known, a token is still accepted some
time. -/
theorem Signer.accepts_without (signer : Signer B rotation service) (hdecode : B.DecodeChecks)
    (hclaims : B.ChecksRegistered) {name : String}
    (hname : name ∈ service.config.requiredClaims → name ∉ SPEC_CLAIMS)
    (hcontra : ¬ Contradictory service.config) : ∃ (members : List (String × Json)) (now : ℤ),
      (members.map Prod.fst).Nodup ∧ members.lookup name = none
        ∧ service.decode B rotation (signer.sign (.obj members)) now = .ok (Json.obj members) := by
  have hnd : (((acceptable service.config).filter fun m => m.1 ≠ name).map Prod.fst).Nodup :=
    (nodup_acceptable service.config).sublist (List.filter_sublist.map Prod.fst)
  refine ⟨(acceptable service.config).filter fun m => m.1 ≠ name,
    service.config.buildValidation.leeway, hnd, ?_, ?_⟩
  · rw [List.lookup_filter_ne, if_pos rfl]
  · refine (signer.decode_iff hdecode hclaims hnd (datesReadable_without _ _) rfl
      (Int.le_refl _)).2 ?_
    exact accepted_without hname fun haud hnone => hcontra ⟨haud, hnone⟩

/-- Every accepted token has the required claims if the backend knows all their names or the config
contradicts itself, and, where the service's tokens can be signed, only then. -/
theorem required_hold_iff (hdecode : B.DecodeChecks) (henforce : B.EnforcesRegistered)
    (hclaims : B.ChecksRegistered) :
    (KnowsRequired service.config ∨ Contradictory service.config →
      AcceptedHave B rotation service (HasRequired service.config))
    ∧ (Nonempty (Signer B rotation service) →
      AcceptedHave B rotation service (HasRequired service.config) →
        KnowsRequired service.config ∨ Contradictory service.config) := by
  refine ⟨hasRequired_of_known hdecode henforce, fun ⟨signer⟩ hhold => ?_⟩
  by_contra hcond
  obtain ⟨hunknown, hcontra⟩ := not_or.1 hcond
  unfold KnowsRequired at hunknown
  push Not at hunknown
  obtain ⟨name, hname, hspec⟩ := hunknown
  obtain ⟨members, now, -, hnone, haccepted⟩ :=
    signer.accepts_without hdecode hclaims (fun _ => hspec) hcontra
  obtain ⟨payload, hpayload, hall⟩ := hhold _ now (.decode haccepted)
  rw [signer.payload] at hpayload
  cases hpayload
  obtain ⟨value, hvalue⟩ := hall name hname
  cases hnone.symm.trans hvalue

/-- The holder of the quick start's secret. -/
def secretSigner (config : JwtConfig) (halg : config.algorithm = .HS256)
    (hentries : config.rotationKeys = []) (rotation : Bool) :
    Signer transparentBackend rotation (.new config) where
  sign payload := ⟨(JwtService.new config).header rotation, payload, .secret config.secret⟩
  key := .secret config.secret
  header _ := rfl
  payload _ := rfl
  loads := by
    unfold decodingKey decodingKeyFor
    rw [JwtService.new, halg]
    rfl
  entries _ := by
    simp only [decodingKeys_eq_ok, JwtService.new, hentries]
    unfold decodingKey decodingKeyFor
    rw [halg]
    exact ⟨_, _, [], rfl, rfl, rfl⟩
  verifies _ := rfl
  alike _ _ _ := Iff.rfl

theorem required_hold_default :
    AcceptedHave transparentBackend false (.new JwtConfig.default) (HasRequired JwtConfig.default)
    ∧ (AcceptedHave transparentBackend false (.new JwtConfig.default)
      (HasRequired JwtConfig.default) →
        KnowsRequired JwtConfig.default ∨ Contradictory JwtConfig.default) := by
  have h := @required_hold_iff transparentBackend false (.new JwtConfig.default)
    transparent_decodeChecks transparent_enforcesRegistered transparent_checksRegistered
  exact ⟨h.1 (.inl (by unfold KnowsRequired; decide)), h.2 ⟨secretSigner _ rfl rfl false⟩⟩

/-- A config that requires each token to have an id to be revoked by. -/
def revocableConfig : JwtConfig :=
  { JwtConfig.default with requiredClaims := ["exp", "iss", "jti"] }

theorem token_without_jti_accepted :
    ¬ AcceptedHave transparentBackend false (.new revocableConfig)
      (HasRequired revocableConfig) := by
  intro hhold
  have haccepted : AcceptedBy transparentBackend false (.new revocableConfig)
      (secretToken [("exp", .int 4600), ("iss", .str "issuer")]) 1000 :=
    .validate rfl
  obtain ⟨payload, hpayload, hall⟩ := hhold _ 1000 haccepted
  cases hpayload
  obtain ⟨value, hvalue⟩ := hall "jti" (by decide)
  cases hvalue

/-! ## Bound claims -/

/-- The payload is bound to the issuer and to an audience of the config, if there are any. -/
structure Binds (config : JwtConfig) (payload : Json) : Prop where
  iss : ∀ issuer, config.issuer = some issuer → ∃ given,
    (payload.member "iss").bind Json.strings = some given ∧ given ≠ []
      ∧ ∀ name ∈ given, name = issuer
  aud : config.mergedAudiences ≠ [] → ∃ given,
    (payload.member "aud").bind Json.strings = some given
      ∧ ∃ audience ∈ given, audience ∈ config.mergedAudiences

/-- The payload has the claims to compare, also where the config does not require them. -/
structure Comparable (config : JwtConfig) (payload : Json) : Prop where
  iss : config.issuer ≠ none → "iss" ∉ config.requiredClaims → present payload "iss" = true
  aud : config.mergedAudiences ≠ [] → "aud" ∉ config.requiredClaims → present payload "aud" = true

/-- The payload names no issuer beside the config's. -/
def SoleIssuer (config : JwtConfig) (payload : Json) : Prop :=
  ∀ issuer given, config.issuer = some issuer →
    (payload.member "iss").bind Json.strings = some given → ∀ name ∈ given, name = issuer

theorem Enforced.binds_iff {config : JwtConfig} {payload : Json}
    (h : Enforced config.buildValidation payload) :
    Binds config payload ↔ Comparable config payload ∧ SoleIssuer config payload := by
  refine ⟨?_, ?_⟩
  · rintro ⟨hiss, haud⟩
    refine ⟨⟨fun hissuer _ => ?_, fun hmerged _ => ?_⟩, fun issuer given hissuer hgiven => ?_⟩
    · obtain ⟨issuer, hissuer⟩ := Option.ne_none_iff_exists'.1 hissuer
      obtain ⟨given, hgiven, -⟩ := hiss issuer hissuer
      exact Option.isSome_of_eq_some hgiven
    · obtain ⟨given, hgiven, -⟩ := haud hmerged
      exact Option.isSome_of_eq_some hgiven
    · obtain ⟨given', hgiven', -, hsole⟩ := hiss issuer hissuer
      rw [hgiven] at hgiven'
      obtain rfl := Option.some.inj hgiven'
      exact hsole
  · rintro ⟨⟨hiss, haud⟩, hsole⟩
    refine ⟨fun issuer hissuer => ?_, fun hmerged => ?_⟩
    · have hpresent : present payload "iss" = true := by
        by_cases hrequired : "iss" ∈ config.requiredClaims
        · exact h.required "iss" hrequired
        · exact hiss (by simp [hissuer]) hrequired
      obtain ⟨given, hgiven⟩ := Option.isSome_iff_exists.1 hpresent
      have hmem : issuer ∈ given := issAccepts_iff.1 (h.iss given hgiven) issuer hissuer
      exact ⟨given, hgiven, List.ne_nil_of_mem hmem, hsole issuer given hissuer hgiven⟩
    · have hpresent : present payload "aud" = true := by
        by_cases hrequired : "aud" ∈ config.requiredClaims
        · exact h.required "aud" hrequired
        · exact haud hmerged hrequired
      obtain ⟨given, hgiven⟩ := Option.isSome_iff_exists.1 hpresent
      exact ⟨given, hgiven, audAccepts_iff.1 (h.aud given hgiven)⟩

/-- The config requires the claims it configures a value of. -/
def RequiresBound (config : JwtConfig) : Prop :=
  (config.issuer ≠ none → "iss" ∈ config.requiredClaims)
    ∧ (config.mergedAudiences ≠ [] → "aud" ∈ config.requiredClaims)

/-- An accepted token is bound exactly when it has the claims to compare and names no other issuer.
Every accepted token has the claims to compare if the config requires what it configures or
contradicts itself, and, where the service's tokens can be signed, only then. -/
theorem bound_claims_iff (hdecode : B.DecodeChecks) (henforce : B.EnforcesRegistered)
    (hclaims : B.ChecksRegistered) :
    AcceptedHave B rotation service (fun payload => Binds service.config payload
      ↔ Comparable service.config payload ∧ SoleIssuer service.config payload)
    ∧ (RequiresBound service.config ∨ Contradictory service.config →
      AcceptedHave B rotation service (Comparable service.config))
    ∧ (Nonempty (Signer B rotation service) →
      AcceptedHave B rotation service (Comparable service.config) →
        RequiresBound service.config ∨ Contradictory service.config) := by
  refine ⟨fun token now htoken => ?_, fun h token now htoken => ?_, fun ⟨signer⟩ hhold => ?_⟩
  · obtain ⟨payload, hpayload, henforced⟩ := exists_payload_of_accepted hdecode henforce htoken
    exact ⟨payload, hpayload, henforced.binds_iff⟩
  · obtain ⟨payload, hpayload, henforced⟩ := exists_payload_of_accepted hdecode henforce htoken
    rcases h with ⟨hiss, haud⟩ | hcontra
    · refine ⟨payload, hpayload, fun hissuer hnot => ?_, fun hmerged hnot => ?_⟩
      · exact absurd (hiss hissuer) hnot
      · exact absurd (haud hmerged) hnot
    · exact absurd henforced (not_enforced_of_contradictory hcontra)
  · by_contra hcond
    obtain ⟨hbound, hcontra⟩ := not_or.1 hcond
    -- a claim that is configured and not required can be left out
    have hleft : ∀ name ∈ SPEC_CLAIMS, name ∉ service.config.requiredClaims → ∃ payload,
        present payload name ≠ true ∧ Comparable service.config payload := by
      intro name hspec hname
      obtain ⟨members, now, -, hnone, haccepted⟩ :=
        signer.accepts_without hdecode hclaims (fun h => absurd h hname) hcontra
      obtain ⟨payload, hpayload, hcomparable⟩ := hhold _ now (.decode haccepted)
      rw [signer.payload] at hpayload
      cases hpayload
      refine ⟨.obj members, fun hpresent => ?_, hcomparable⟩
      obtain ⟨value, hvalue⟩ := exists_member_of_present hspec hpresent
      cases hnone.symm.trans hvalue
    refine hbound ⟨fun hissuer => ?_, fun hmerged => ?_⟩
    · by_contra hnot
      obtain ⟨payload, habsent, hcomparable⟩ := hleft "iss" (by decide) hnot
      exact habsent (hcomparable.iss hissuer hnot)
    · by_contra hnot
      obtain ⟨payload, habsent, hcomparable⟩ := hleft "aud" (by decide) hnot
      exact habsent (hcomparable.aud hmerged hnot)

/-- The quick start's config with an audience. -/
def audienceConfig : JwtConfig := { JwtConfig.default with audience := some "api" }

theorem bound_claims_audience :
    AcceptedHave transparentBackend false (.new audienceConfig) (fun payload =>
      Binds audienceConfig payload
        ↔ Comparable audienceConfig payload ∧ SoleIssuer audienceConfig payload)
    ∧ (AcceptedHave transparentBackend false (.new audienceConfig) (Comparable audienceConfig) →
      RequiresBound audienceConfig ∨ Contradictory audienceConfig) := by
  have h := @bound_claims_iff transparentBackend false (.new audienceConfig)
    transparent_decodeChecks transparent_enforcesRegistered transparent_checksRegistered
  exact ⟨h.1, h.2.2 ⟨secretSigner _ rfl rfl false⟩⟩

/-- A token for no audience in particular is accepted for a configured one. -/
theorem token_without_aud_accepted :
    ¬ AcceptedHave transparentBackend false (.new audienceConfig) (Binds audienceConfig) := by
  intro hhold
  have haccepted : AcceptedBy transparentBackend false (.new audienceConfig)
      (secretToken [("exp", .int 4600), ("iss", .str "issuer")]) 1000 :=
    .validate rfl
  obtain ⟨payload, hpayload, hbinds⟩ := hhold _ 1000 haccepted
  cases hpayload
  obtain ⟨given, hgiven, -⟩ := hbinds.aud (by decide)
  cases hgiven

end TokenKit
