import TokenKit.Proofs.Acceptance
import TokenKit.Proofs.RoundTrip
import TokenKit.TransparentBackend

/-!
# Minting and validating

A minted token is stamped with the configured issuer, the first of the accepted audiences and an
expiry one time to live ahead, and is validated by the same config. Its issuer, audience and expiry
then pass; but validation also requires an issuer to be there, which a config without one does not
stamp (`minted_accepted_iff`).
-/

namespace TokenKit

open JwtService JwtConfig

variable {B : Backend} {rotation : Bool} {service : JwtService} {now : UtcNow} {uuid : String}
  {claims stamped : StandardClaims} {ttlSecs : ℤ}

/-! ## What is stamped -/

/-- The stamped claims: what was set stays, and an expiry is one time to live ahead. -/
structure Stamped (service : JwtService) (now : UtcNow) (uuid : String) (claims : StandardClaims)
    (ttlSecs : ℤ) (stamped : StandardClaims) : Prop where
  iss : stamped.iss = (claims.iss <|> service.config.issuer)
  aud : stamped.aud = (claims.aud <|> service.config.mergedAudiences.head?)
  jti : stamped.jti = some (claims.jti.getD uuid)
  extra : stamped.extra = claims.extra
  exp : claims.exp = none →
    ∃ exp, stamped.exp = some exp ∧ exp.nanos = now.nanos + ttlSecs * 10 ^ 9

theorem stamped_of_stampedStandard
    (h : service.stampedStandard now uuid claims ttlSecs = some stamped) :
    Stamped service now uuid claims ttlSecs stamped := by
  unfold stampedStandard at h
  obtain ⟨exp, hexp, h⟩ := Option.bind_eq_some_iff.1 h
  cases h
  refine ⟨rfl, rfl, rfl, rfl, fun hnone => ⟨exp, rfl, ?_⟩⟩
  rw [hnone] at hexp
  obtain ⟨d, hd, hexp⟩ := Option.bind_eq_some_iff.1 hexp
  unfold durationSeconds at hd
  split_ifs at hd
  cases hd
  exact DateTime.nanos_of_ofNanos hexp

/-! ## What validation makes of it -/

theorem audAccepts_head (config : JwtConfig) :
    ((config.mergedAudiences.head?.map Json.str).bind Json.strings).all
      config.buildValidation.audAccepts = true := by
  unfold Validation.audAccepts buildValidation
  rcases config.mergedAudiences with _ | ⟨audience, audiences⟩ <;> simp [Json.strings]

theorem issAccepts_issuer (config : JwtConfig) :
    ((config.issuer.map Json.str).bind Json.strings).all config.buildValidation.issAccepts
      = true := by
  unfold Validation.issAccepts buildValidation
  rcases config.issuer with _ | issuer <;> simp [Json.strings]

theorem timestamp_nonneg {t : DateTime} (h : 0 ≤ t.nanos) : 0 ≤ t.timestamp := by
  unfold DateTime.timestamp
  omega

/-- An instant that is not before the epoch can be read as a date. -/
theorem numericDate_of_nonneg {t : DateTime} (h : 0 ≤ t.timestamp) :
    Json.numericDate (.int t.timestamp) = some t.timestamp := by
  have hmax := t.le_max
  unfold MAX_UTC at hmax
  refine if_pos ⟨h, ?_⟩
  unfold DateTime.timestamp
  omega

/-- Of stamped claims that had no issuer, audience or expiry, validation accepts those of a config
with an issuer, and the dates can be read. -/
theorem accepts_stamped (h : Stamped service now uuid claims ttlSecs stamped)
    (hrequired : service.config.requiredClaims = defaultRequiredClaims) (hiss : claims.iss = none)
    (haud : claims.aud = none) (hexp : claims.exp = none)
    (hextra : ∀ name ∈ claims.extra, name ∉ "nbf" :: TYPED_FIELDS) (httl : 0 ≤ ttlSecs) :
    (Json.obj stamped.members).datesReadable = true
      ∧ service.config.buildValidation.accepts now.timestamp (.obj stamped.members)
        = service.config.issuer.isSome := by
  obtain ⟨exp, hsome, hnanos⟩ := h.exp hexp
  have hclean : ∀ name ∈ stamped.extra, name ∉ TYPED_FIELDS := by
    rw [h.extra]
    exact fun name hname hin => hextra name hname (List.mem_cons_of_mem _ hin)
  have hmember : ∀ name value, (name, value) ∈ stamped.fields →
      (Json.obj stamped.members).member name = value :=
    fun name value hf => StandardClaims.lookup_members hclean hf
  have hIss : (Json.obj stamped.members).member "iss" = service.config.issuer.map .str := by
    rw [hmember "iss" (stamped.iss.map .str) (by simp [StandardClaims.fields]), h.iss, hiss]
    rfl
  have hAud : (Json.obj stamped.members).member "aud"
      = service.config.mergedAudiences.head?.map .str := by
    rw [hmember "aud" (stamped.aud.map .str) (by simp [StandardClaims.fields]), h.aud, haud]
    rfl
  have hExp : (Json.obj stamped.members).member "exp" = some (.int exp.timestamp) := by
    rw [hmember "exp" (stamped.exp.map fun t => .int t.timestamp)
      (by simp [StandardClaims.fields]), hsome]
    rfl
  have hNbf : (Json.obj stamped.members).member "nbf" = none := by
    refine StandardClaims.lookup_members_of_notMem (by decide) ?_
    rw [h.extra]
    exact fun hin => hextra "nbf" hin List.mem_cons_self
  have hle : now.timestamp ≤ exp.timestamp := by
    unfold DateTime.timestamp
    omega
  have hnonneg := now.nonneg
  have hdate := numericDate_of_nonneg (t := exp) (timestamp_nonneg (by omega))
  have hreadable : (Json.obj stamped.members).datesReadable = true := by
    unfold Json.datesReadable
    simp only [List.all_cons, hExp, hNbf, Option.all_some, hdate, Option.isSome_some,
      Option.all_none, List.all_nil, Bool.and_self]
  have hlate : now.timestamp - (service.config.buildValidation.leeway : ℤ) ≤ exp.timestamp := by
    omega
  have hpresent : service.config.buildValidation.requiredSpecClaims.all
      (Validation.present (.obj stamped.members)) = service.config.issuer.isSome := by
    have hreq : service.config.buildValidation.requiredSpecClaims = ["exp", "iss"] := hrequired
    rw [hreq]
    simp only [List.all_cons, List.all_nil, Validation.present, hExp, hIss, Option.bind_some, hdate]
    cases service.config.issuer <;> rfl
  refine ⟨hreadable, ?_⟩
  unfold Validation.accepts Validation.enforced Validation.dateAccepts
  rw [hpresent, hIss, hAud, hExp, hNbf, issAccepts_issuer, audAccepts_head]
  simp only [Option.all_some, hdate, Option.any_some, hlate, decide_true, Option.all_none,
    Bool.or_true, Bool.and_true]

/-! ## The law -/

/-- The keys the service signs and verifies with load, and match. -/
structure KeysMatch (B : Backend) (rotation : Bool) (service : JwtService) : Prop where
  signing : ∃ encodingKey decodingKey, service.encodingKey B = .ok encodingKey
    ∧ service.decodingKey B = .ok decodingKey ∧ B.Matches encodingKey decodingKey
  entries : rotation = true → ∃ candidates, service.decodingKeys B = .ok candidates

/-- A service accepts the tokens it mints whose payload reads back and has valid claims. -/
theorem decode_minted {T U : Type} [Serialize T] [DeserializeOwned U]
    (hdecode : B.DecodeChecks) (hencode : B.EncodeRecords)
    (hkeys : KeysMatch B rotation service) {minted : T} {token : B.Token}
    (hmint : service.encode B rotation minted = .ok token) {payload : Json}
    (hpayload : serialize minted = some payload) {claims : U}
    (hread : deserialize payload = some claims) (secs : ℤ) :
    (∃ found : U, service.decode B rotation token secs = .ok found)
      ↔ B.claimsValid service.config.buildValidation secs payload := by
  obtain ⟨encodingKey, decodingKey, hek, hdk, hmatch⟩ := hkeys.signing
  obtain ⟨key, hkey, hmint⟩ := encode_eq_ok.1 hmint
  obtain rfl : encodingKey = key := Except.ok.inj (hek.symm.trans hkey)
  obtain ⟨hheader, recorded, hrec, htoken⟩ := hencode _ _ _ _ hmint
  obtain rfl : payload = recorded := Option.some.inj (hpayload.symm.trans hrec)
  have hauth : Authentic B rotation service token :=
    authentic_of_header hheader hdk hkeys.entries (hmatch _ _ _ hmint)
  simp only [decode_eq_ok_of_payload hdecode htoken, hauth, true_and, hread, Option.some.injEq,
    exists_eq_left']

theorem stamped_accepted_iff (hdecode : B.DecodeChecks) (hencode : B.EncodeRecords)
    (hclaims : B.ChecksUnbounded) (hkeys : KeysMatch B rotation service)
    (hrequired : service.config.requiredClaims = defaultRequiredClaims) (hiss : claims.iss = none)
    (haud : claims.aud = none) (hexp : claims.exp = none)
    (hextra : ∀ name ∈ claims.extra, name ∉ "nbf" :: TYPED_FIELDS) (httl : 0 ≤ ttlSecs)
    (hstamped : service.stampedStandard now uuid claims ttlSecs = some stamped) {token : B.Token}
    (hmint : service.encode B rotation stamped = .ok token) :
    (∃ found, service.validate B rotation token now.timestamp = .ok found)
      ↔ service.config.issuer.isSome = true := by
  have h := stamped_of_stampedStandard hstamped
  have hclean : ∀ name ∈ stamped.extra, name ∉ TYPED_FIELDS := by
    rw [h.extra]
    exact fun name hname hin => hextra name hname (List.mem_cons_of_mem _ hin)
  have haccepted := decode_minted hdecode hencode hkeys hmint rfl
    (StandardClaims.deserialize_members hclean) now.timestamp
  obtain ⟨hreadable, haccepts⟩ := accepts_stamped h hrequired hiss haud hexp hextra httl
  unfold validate
  rw [haccepted, hclaims _ _ _ (StandardClaims.nodup_names hclean) hreadable, haccepts]

/-- Of tokens minted with `iss`, `aud` and `exp` unset, under keys that match and with the default
required claims, the service accepts those of a config with an issuer. -/
theorem minted_accepted_iff (service : JwtService) (now : UtcNow) (uuid : String)
    (claims : StandardClaims) (hdecode : B.DecodeChecks) (hencode : B.EncodeRecords)
    (hclaims : B.ChecksUnbounded) (hkeys : KeysMatch B rotation service)
    (hrequired : service.config.requiredClaims = defaultRequiredClaims) (hiss : claims.iss = none)
    (haud : claims.aud = none) (hexp : claims.exp = none)
    (hextra : ∀ name ∈ claims.extra, name ∉ "nbf" :: TYPED_FIELDS) :
    (0 ≤ service.config.accessTokenTtl → ∀ token,
        service.encodeStandard B rotation now uuid claims = some (.ok token) →
        ((∃ found, service.validate B rotation token now.timestamp = .ok found)
          ↔ service.config.issuer.isSome = true))
      ∧ (0 ≤ service.config.refreshTokenTtl → ∀ token,
        service.encodeRefreshStandard B rotation now uuid claims = some (.ok token) →
        ((∃ found, service.validate B rotation token now.timestamp = .ok found)
          ↔ service.config.issuer.isSome = true)) := by
  constructor
  · intro httl token hmint
    obtain ⟨stamped, hstamped, hmint⟩ := Option.bind_eq_some_iff.1 hmint
    exact stamped_accepted_iff hdecode hencode hclaims hkeys hrequired hiss haud hexp hextra httl
      hstamped (Option.some.inj hmint)
  · intro httl token hmint
    obtain ⟨stamped, hstamped, hmint⟩ := Option.bind_eq_some_iff.1 hmint
    exact stamped_accepted_iff hdecode hencode hclaims hkeys hrequired hiss haud hexp hextra httl
      hstamped (Option.some.inj hmint)

/-! ## The quick start -/

def quickStartTime : UtcNow := ⟨⟨1000 * 10 ^ 9, by decide, by decide⟩, by decide⟩

/-- The service of the quick start, which sets only a secret, or that service with an issuer. -/
def quickStart (issuer : Option String) : JwtService :=
  .new { JwtConfig.default with secret := "my-secret-key", issuer }

def quickStartClaims : StandardClaims :=
  { StandardClaims.default with sub := some "user-123", role := some "admin" }

def quickStartPayload (iss : List (String × Json)) : Json :=
  .obj ([("sub", .str "user-123")] ++ iss
    ++ [("exp", .int 4600), ("iat", .int 1000), ("jti", .str "id"), ("role", .str "admin")])

def quickStartToken (iss : List (String × Json)) : TransparentToken :=
  ⟨{ alg := .HS256, kid := none }, quickStartPayload iss, .secret "my-secret-key"⟩

theorem quickStart_keysMatch (issuer : Option String) :
    KeysMatch transparentBackend true (quickStart issuer) where
  signing := ⟨.secret "my-secret-key", .secret "my-secret-key", rfl, rfl, transparent_matches _⟩
  entries _ := ⟨_, rfl⟩

theorem quick_start_with_issuer_accepts :
    (∃ found, (quickStart (some "issuer")).validate transparentBackend true
        (quickStartToken [("iss", .str "issuer")]) quickStartTime.timestamp = .ok found)
      ↔ (some "issuer" : Option String).isSome = true :=
  (minted_accepted_iff (quickStart (some "issuer")) quickStartTime "id" quickStartClaims
    transparent_decodeChecks transparent_encodeRecords transparent_checksUnbounded
    (quickStart_keysMatch (some "issuer")) rfl rfl rfl rfl
    (fun _ h => absurd h (AList.notMem_empty _))).1 (by decide) _ rfl

/-- As it stands, the quick start's token is rejected: it has no issuer. -/
theorem quick_start_rejects_own_token :
    (quickStart none).encodeStandard transparentBackend false quickStartTime "id" quickStartClaims
        = some (.ok (quickStartToken []))
      ∧ ¬ ∃ found, (quickStart none).validate transparentBackend false (quickStartToken [])
        quickStartTime.timestamp = .ok found := by
  refine ⟨rfl, ?_⟩
  rintro ⟨found, h⟩
  cases h

end TokenKit
