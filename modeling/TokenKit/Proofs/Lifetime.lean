import TokenKit.Proofs.RevokedToken
import TokenKit.Proofs.Checks
import TokenKit.Proofs.Loading

/-!
# What becomes of a minted token

Tokens are minted by one service and read by another, which may be configured differently and
compiled without the other's features, as long as it reads with the counterpart of the key that
signs (`Counterparts`). Whatever claims a token is minted with, its fate at every later instant is
known: `decode_standard` accepts it exactly while the reading config honours what was stamped
(`Honoured`) and the store does not hold its `jti`, and returns what was stamped, in whole seconds.
Where the config honours it and the store holds the `jti`, the error is `Revoked`, and it is that
nowhere else (`minted_token_fate`).
-/

namespace TokenKit

open JwtService JwtConfig Validation

/-! ## What a config honours -/

/-- A claim that the backend can require is among the written ones. -/
def Carried (claims : StandardClaims) : String → Prop
  | "exp" => claims.exp ≠ none
  | "nbf" => False
  | "aud" => claims.aud ≠ none
  | "iss" => claims.iss ≠ none
  | "sub" => claims.sub ≠ none
  | _ => True

/-- What a config asks of claims, in the second. -/
structure Honoured (config : JwtConfig) (claims : StandardClaims) (secs : ℤ) : Prop where
  required : ∀ name ∈ config.requiredClaims, Carried claims name
  exp : config.validateExp = true → ∀ exp, claims.exp = some exp →
    secs - config.leeway.getD DEFAULT_LEEWAY_SECS ≤ exp.timestamp
  iss : ∀ issuer iss, config.issuer = some issuer → claims.iss = some iss → iss = issuer
  aud : ∀ aud, claims.aud = some aud → aud ∈ config.mergedAudiences

section Honours

variable {config : JwtConfig} {claims : StandardClaims} {secs : ℤ}

/-- The members that the backend looks at are those of the typed fields. -/
structure Plain (claims : StandardClaims) : Prop where
  typed : ∀ name ∈ claims.extra, name ∉ TYPED_FIELDS
  nbf : "nbf" ∉ claims.extra

theorem Plain.member (h : Plain claims) {name : String} {value : Option Json}
    (hf : (name, value) ∈ claims.fields) : (Json.obj claims.members).member name = value :=
  StandardClaims.lookup_members h.typed hf

theorem Plain.exp (h : Plain claims) : (Json.obj claims.members).member "exp"
    = claims.exp.map fun t => Json.int t.timestamp :=
  h.member (by simp [StandardClaims.fields])

theorem Plain.not_nbf (h : Plain claims) : (Json.obj claims.members).member "nbf" = none :=
  StandardClaims.lookup_members_of_notMem (by decide) h.nbf

/-- No expiry is before the epoch, so each can be read. -/
def ExpiryReadable (claims : StandardClaims) : Prop :=
  ∀ exp, claims.exp = some exp → 0 ≤ exp.timestamp

theorem Plain.datesReadable (h : Plain claims) (hexp : ExpiryReadable claims) :
    (Json.obj claims.members).datesReadable = true := by
  refine datesReadable_iff.2 fun name hname date hdate => ?_
  rcases hname with rfl | rfl
  · rw [h.exp, Option.map_eq_some_iff] at hdate
    obtain ⟨exp, hsome, rfl⟩ := hdate
    exact ⟨exp.timestamp, numericDate_of_nonneg (hexp exp hsome)⟩
  · rw [h.not_nbf] at hdate
    cases hdate

theorem Plain.iss (h : Plain claims) :
    ((Json.obj claims.members).member "iss").bind Json.strings = claims.iss.map fun s => [s] := by
  have hfield : ("iss", claims.iss.map Json.str) ∈ claims.fields := by
    simp [StandardClaims.fields]
  rw [h.member hfield]
  cases claims.iss <;> rfl

theorem Plain.aud (h : Plain claims) :
    ((Json.obj claims.members).member "aud").bind Json.strings = claims.aud.map fun s => [s] := by
  have hfield : ("aud", claims.aud.map Json.str) ∈ claims.fields := by
    simp [StandardClaims.fields]
  rw [h.member hfield]
  cases claims.aud <;> rfl

theorem Plain.sub (h : Plain claims) :
    ((Json.obj claims.members).member "sub").bind StandardClaims.stringOf = claims.sub := by
  have hfield : ("sub", claims.sub.map Json.str) ∈ claims.fields := by
    simp [StandardClaims.fields]
  rw [h.member hfield]
  cases claims.sub <;> rfl

theorem Plain.present_iff (h : Plain claims) (hexp : ExpiryReadable claims) (name : String) :
    Validation.present (.obj claims.members) name = true ↔ Carried claims name := by
  unfold Validation.present
  split
  · rw [h.exp]
    rcases hnone : claims.exp with _ | exp
    · simp [Carried, hnone]
    · simp [Carried, hnone, numericDate_of_nonneg (hexp exp hnone)]
  · rw [h.not_nbf]
    simp [Carried]
  · rw [h.aud, Option.isSome_map, Option.isSome_iff_ne_none]
    rfl
  · rw [h.iss, Option.isSome_map, Option.isSome_iff_ne_none]
    rfl
  · rw [h.sub, Option.isSome_iff_ne_none]
    rfl
  · -- a name the backend does not know is required of nobody
    refine iff_of_true rfl ?_
    unfold Carried
    split
    case h_6 => trivial
    all_goals contradiction

/-- The documented check of the written claims. -/
theorem Plain.accepted_iff (h : Plain claims) (hexp : ExpiryReadable claims) :
    Accepted config.buildValidation secs (.obj claims.members) ↔ Honoured config claims secs := by
  constructor
  · rintro ⟨⟨required, iss, aud⟩, exp, nbf⟩
    refine ⟨fun name hname => (h.present_iff hexp name).1 (required name hname), ?_, ?_, ?_⟩
    · intro hvalidate t ht
      obtain ⟨date, hdate, hle⟩ := exp hvalidate (.int t.timestamp) (by rw [h.exp, ht]; rfl)
      rw [numericDate_of_nonneg (hexp t ht)] at hdate
      obtain rfl := Option.some.inj hdate
      exact hle
    · intro issuer s hissuer hiss
      have hmem := issAccepts_iff.1 (iss [s] (by rw [h.iss, hiss]; rfl)) issuer hissuer
      exact (List.mem_singleton.1 hmem).symm
    · intro s haud
      obtain ⟨_, hin, hmem⟩ := audAccepts_iff.1 (aud [s] (by rw [h.aud, haud]; rfl))
      rwa [List.mem_singleton.1 hin] at hmem
  · rintro ⟨required, exp, iss, aud⟩
    refine ⟨⟨fun name hname => (h.present_iff hexp name).2 (required name hname), ?_, ?_⟩, ?_, ?_⟩
    · intro given hgiven
      rw [h.iss, Option.map_eq_some_iff] at hgiven
      obtain ⟨s, hiss, rfl⟩ := hgiven
      refine issAccepts_iff.2 fun issuer hissuer => ?_
      exact List.mem_singleton.2 (iss issuer s hissuer hiss).symm
    · intro given hgiven
      rw [h.aud, Option.map_eq_some_iff] at hgiven
      obtain ⟨s, haud, rfl⟩ := hgiven
      exact audAccepts_iff.2 ⟨s, List.mem_singleton_self s, aud s haud⟩
    · intro hvalidate date hdate
      rw [h.exp, Option.map_eq_some_iff] at hdate
      obtain ⟨t, ht, rfl⟩ := hdate
      exact ⟨t.timestamp, numericDate_of_nonneg (hexp t ht), exp hvalidate t ht⟩
    · intro _ date hdate
      rw [h.not_nbf] at hdate
      cases hdate

end Honours

/-! ## Reading with a store attached -/

section Reading

variable {B : Backend} {rotation : Bool} {service : JwtService} {token : B.Token} {secs : ℤ}

theorem decode_ne_revoked {T : Type} [DeserializeOwned T] :
    (service.decode B rotation token secs : Except JwtError T) ≠ .error .revoked := by
  intro h
  rcases error_of_decode h with hload | ⟨-, text, htext⟩
  · obtain ⟨text, htext⟩ := keyLoading_of_loadings hload
    cases htext
  · cases htext

/-- Whatever decodes is answered with `Revoked` if the store holds its `jti`, and returned if it
does not. -/
theorem decodeStandard_of_validate {isRevoked : String → Bool} {claims : StandardClaims}
    (h : service.validate B rotation token secs = .ok claims) :
    (service.withRevocation fun jti => .ok (isRevoked jti)).decodeStandard B rotation token secs
      = if claims.jti.any isRevoked then .error .revoked else .ok claims := by
  have hdecode : (service.withRevocation fun jti => .ok (isRevoked jti)).decode B rotation token
      secs = .ok claims := h
  unfold decodeStandard
  rw [hdecode]
  rcases hjti : claims.jti with _ | jti
  · simp [bind, Except.bind, JwtService.withRevocation, hjti, pure, Except.pure]
  · rcases hrevoked : isRevoked jti <;>
      simp [bind, Except.bind, JwtService.withRevocation, hjti, hrevoked, pure, Except.pure, throw,
        throwThe, MonadExceptOf.throw]

theorem decodeStandard_of_error {isRevoked : String → Bool} {e : JwtError}
    (h : service.validate B rotation token secs = .error e) :
    (service.withRevocation fun jti => .ok (isRevoked jti)).decodeStandard B rotation token secs
      = .error e := by
  have hdecode : (service.withRevocation fun jti => .ok (isRevoked jti)).decode B rotation token
      secs = (.error e : Except JwtError StandardClaims) := h
  unfold decodeStandard
  rw [hdecode]
  rfl

end Reading

/-! ## Two services -/

/-- One service reads with the counterpart of the key the other one signs with, and under the key id
that the other one stamps, if it does. Its rotation keys load. -/
structure Counterparts (B : Backend) (rotation : Bool) (issuer verifier : JwtService) : Prop where
  algorithm : issuer.config.algorithm = verifier.config.algorithm
  keyId : issuer.config.keyId = none ∨ issuer.config.keyId = verifier.config.keyId
  keys : ∃ signing verifying, issuer.encodingKey B = .ok signing
    ∧ verifier.decodingKey B = .ok verifying ∧ B.Matches signing verifying
  entries : rotation = true → ∃ candidates, verifier.decodingKeys B = .ok candidates

section Fate

variable {B : Backend} {rotation rotation' : Bool} {issuer verifier : JwtService}

/-- What one service signs is authentic to the other, whichever build stamps a key id. -/
theorem Counterparts.authentic (h : Counterparts B rotation' issuer verifier)
    (hencode : B.EncodeRecords) {T : Type} [Serialize T] {minted : T} {token : B.Token}
    (hmint : issuer.encode B rotation minted = .ok token) :
    Authentic B rotation' verifier token := by
  obtain ⟨signing, verifying, hsigning, hverifying, hmatch⟩ := h.keys
  obtain ⟨key, hkey, hencoded⟩ := encode_eq_ok.1 hmint
  obtain rfl : signing = key := Except.ok.inj (hsigning.symm.trans hkey)
  obtain ⟨hheader, -⟩ := hencode _ _ _ _ hencoded
  have halg : (issuer.header rotation).alg ∈ verifier.config.buildValidation.algorithms := by
    have hsame : (issuer.header rotation).alg = verifier.config.algorithm.toAlgorithm :=
      congrArg JwtAlgorithm.toAlgorithm h.algorithm
    rw [hsame]
    exact algorithm_mem_buildValidation _
  refine ⟨⟨_, hheader, halg⟩, verifying, ?_, hmatch _ _ _ hencoded⟩
  cases rotation' with
  | false => exact hverifying
  | true =>
    obtain ⟨candidates, hkeys⟩ := h.entries rfl
    obtain ⟨primary, entries, hprimary, -, hsplit⟩ := decodingKeys_eq_ok.1 hkeys
    obtain rfl : verifying = primary := Except.ok.inj (hverifying.symm.trans hprimary)
    have hkid : kidOf B token = (issuer.header rotation).kid := kidOf_of_header hheader
    rcases hstamped : (issuer.header rotation).kid with _ | kid
    · rw [hstamped] at hkid
      exact (tried_of_no_kid hkeys hkid verifying).2 ⟨_, hsplit ▸ List.mem_cons_self, rfl⟩
    · rw [hstamped] at hkid
      have hid : issuer.config.keyId = some kid := by
        cases rotation with
        | false => cases hstamped
        | true => exact hstamped
      have hsame : verifier.config.keyId = some kid := by
        rcases h.keyId with hnone | hsame
        · cases hid.symm.trans hnone
        · exact hsame.symm.trans hid
      rw [tried_of_kid hkeys hkid, hsplit, hsame, List.find?_cons_of_pos (by simp)]

/-- A service with one half of a key pair, and one with the other half: neither needs to load what
it does not use. -/
theorem counterparts_of_halves {signing : B.EncodingKey} {verifying : B.DecodingKey}
    (halg : issuer.config.algorithm = verifier.config.algorithm)
    (hkid : issuer.config.keyId = none) (hsigning : issuer.encodingKey B = .ok signing)
    (hverifying : verifier.decodingKey B = .ok verifying) (hmatch : B.Matches signing verifying)
    (hentries : verifier.config.rotationKeys = []) :
    Counterparts B rotation' issuer verifier := by
  refine ⟨halg, .inl hkid, ⟨signing, verifying, hsigning, hverifying, hmatch⟩, fun _ => ?_⟩
  refine ⟨[(verifier.config.keyId, verifying)], ?_⟩
  unfold decodingKeys
  rw [hverifying, hentries]
  rfl

theorem counterparts_ecPem {algorithm : JwtAlgorithm} {privatePem publicPem : String}
    {signing : B.EncodingKey} {verifying : B.DecodingKey}
    (halg : algorithm = .ES256 ∨ algorithm = .ES384)
    (hsigning : B.encodingFromEcPem privatePem = .ok signing)
    (hverifying : B.decodingFromEcPem publicPem = .ok verifying)
    (hmatch : B.Matches signing verifying) :
    Counterparts B rotation' (.new (fromEcPem algorithm privatePem))
      (.new ((fromEcPem algorithm "").withPublicKey publicPem)) := by
  refine counterparts_of_halves rfl rfl ?_ ?_ hmatch rfl <;> rcases halg with rfl | rfl
  all_goals simp [encodingKey, decodingKey, encodingKeyFor, decodingKeyFor, fromEcPem,
    JwtConfig.withPublicKey, JwtConfig.default, JwtService.new, hsigning, hverifying,
    Except.mapError]

theorem counterparts_edPem {privatePem publicPem : String} {signing : B.EncodingKey}
    {verifying : B.DecodingKey} (hsigning : B.encodingFromEdPem privatePem = .ok signing)
    (hverifying : B.decodingFromEdPem publicPem = .ok verifying)
    (hmatch : B.Matches signing verifying) :
    Counterparts B rotation' (.new (fromEdPem privatePem))
      (.new ((fromEdPem "").withPublicKey publicPem)) := by
  refine counterparts_of_halves rfl rfl ?_ ?_ hmatch rfl
  all_goals simp [encodingKey, decodingKey, encodingKeyFor, decodingKeyFor, fromEdPem,
    JwtConfig.withPublicKey, JwtConfig.default, JwtService.new, hsigning, hverifying,
    Except.mapError]

theorem counterparts_edDer {privateDer publicDer : List UInt8}
    (hmatch : B.Matches (B.encodingFromEdDer privateDer) (B.decodingFromEdDer publicDer)) :
    Counterparts B rotation' (.new (fromEdDer privateDer))
      (.new ((fromEdPem "").withDerPublicKey publicDer)) :=
  counterparts_of_halves rfl rfl rfl rfl hmatch rfl

/-! ## The fate of a token -/

/-- What is minted is the stamped claims, encoded. -/
theorem stamped_of_mintAt {config : JwtConfig} {boot : ℕ} {w : StoreWorld} {kind : TokenKind}
    {uuid : String} {claims : StandardClaims} {token : B.Token}
    (hmint : mintAt B rotation config boot w kind uuid claims = some (.ok token)) :
    ∃ now stamped, utcNow boot w = some now
      ∧ (JwtService.new config).stampedStandard now uuid claims (config.tokenTtl kind)
        = some stamped
      ∧ (JwtService.new config).encode B rotation stamped = .ok token := by
  obtain ⟨now, hnow, hmint⟩ := Option.bind_eq_some_iff.1 hmint
  rw [mint_eq, Option.map_eq_some_iff] at hmint
  obtain ⟨stamped, hstamped, hmint⟩ := hmint
  exact ⟨now, stamped, hnow, hstamped, hmint⟩

/-- The expiry that is stamped is not before the epoch, if the one that was set is not, or else the
time to live does not lead there. -/
theorem expiryReadable_stamped {service : JwtService} {now : UtcNow} {uuid : String}
    {claims stamped : StandardClaims} {ttlSecs : ℤ}
    (h : service.stampedStandard now uuid claims ttlSecs = some stamped)
    (hexp : ExpiryReadable claims) (httl : claims.exp = none → 0 ≤ now.nanos + ttlSecs * 10 ^ 9) :
    ExpiryReadable stamped := by
  intro exp hsome
  rcases hset : claims.exp with _ | set
  · obtain ⟨exp', hsome', hnanos⟩ := (stamped_of_stampedStandard h).exp hset
    obtain rfl : exp' = exp := Option.some.inj (hsome'.symm.trans hsome)
    have hnonneg := httl hset
    exact timestamp_nonneg (by omega)
  · unfold stampedStandard at h
    rw [hset] at h
    cases h
    exact hexp exp (hset.trans hsome)

/-- `validate` reads a minted token exactly while its config honours what was stamped. -/
theorem validate_minted (hdecode : B.DecodeChecks) (hencode : B.EncodeRecords)
    (hchecks : B.ChecksRegistered) (hkeys : Counterparts B rotation' issuer verifier)
    {stamped : StandardClaims} (hplain : Plain stamped) (hexp : ExpiryReadable stamped)
    {token : B.Token} (hmint : issuer.encode B rotation stamped = .ok token) {secs : ℤ}
    (hsecs : verifier.config.leeway.getD DEFAULT_LEEWAY_SECS ≤ secs) (found : StandardClaims) :
    verifier.validate B rotation' token secs = .ok found
      ↔ found = stamped.truncSecs ∧ Honoured verifier.config stamped secs := by
  have hauthentic := hkeys.authentic hencode hmint
  obtain ⟨key, -, hencoded⟩ := encode_eq_ok.1 hmint
  obtain ⟨-, payload, hpayload, htoken⟩ := hencode _ _ _ _ hencoded
  obtain rfl : Json.obj stamped.members = payload := Option.some.inj hpayload
  unfold validate
  rw [decode_eq_ok_of_payload hdecode htoken, StandardClaims.deserialize_members hplain.typed,
    hchecks _ _ _ (StandardClaims.nodup_names hplain.typed) (hplain.datesReadable hexp) hsecs,
    accepts_iff, hplain.accepted_iff hexp]
  simp only [hauthentic, true_and, Option.some.injEq, eq_comm]

theorem decodeStandard_minted (hdecode : B.DecodeChecks) (hencode : B.EncodeRecords)
    (hchecks : B.ChecksRegistered) (hkeys : Counterparts B rotation' issuer verifier)
    {stamped : StandardClaims} (hplain : Plain stamped) (hexp : ExpiryReadable stamped)
    {token : B.Token} (hmint : issuer.encode B rotation stamped = .ok token) {jti : String}
    (hjti : stamped.jti = some jti) (isRevoked : String → Bool) {secs : ℤ}
    (hsecs : verifier.config.leeway.getD DEFAULT_LEEWAY_SECS ≤ secs) :
    (∀ found, (verifier.withRevocation fun jti => .ok (isRevoked jti)).decodeStandard
        B rotation' token secs = .ok found
      ↔ found = stamped.truncSecs ∧ Honoured verifier.config stamped secs ∧ isRevoked jti = false)
    ∧ ((verifier.withRevocation fun jti => .ok (isRevoked jti)).decodeStandard
        B rotation' token secs = .error .revoked
      ↔ Honoured verifier.config stamped secs ∧ isRevoked jti = true) := by
  have hvalidate := validate_minted hdecode hencode hchecks hkeys hplain hexp hmint hsecs
  have hany : stamped.truncSecs.jti.any isRevoked = isRevoked jti := by
    have hid : stamped.truncSecs.jti = some jti := hjti
    rw [hid, Option.any_some]
  rcases hread : verifier.validate B rotation' token secs with e | claims
  · have hnot : ¬ Honoured verifier.config stamped secs := by
      intro hhonoured
      cases hread.symm.trans ((hvalidate _).2 ⟨rfl, hhonoured⟩)
    have hne : e ≠ .revoked := by
      rintro rfl
      exact decode_ne_revoked hread
    rw [decodeStandard_of_error hread]
    simp [hnot, hne]
  · obtain ⟨rfl, hhonoured⟩ := (hvalidate claims).1 hread
    rw [decodeStandard_of_validate hread, hany]
    rcases hrevoked : isRevoked jti
    · simp [hhonoured, eq_comm]
    · simp [hhonoured]

/-- From its minting on, a token is accepted by a service that reads with the counterpart key
exactly while that one's config honours what was stamped and its store does not hold the `jti`, and
then gives back what was stamped; it is rejected as revoked exactly while the config honours it and
the store holds the `jti`. The token's expiry is not before the epoch, and neither is the instant
that lies the leeway back. -/
theorem minted_token_fate (hdecode : B.DecodeChecks) (hencode : B.EncodeRecords)
    (hchecks : B.ChecksRegistered) (rotation rotation' : Bool) (issuer verifier : JwtConfig)
    (hkeys : Counterparts B rotation' (JwtService.new issuer) (JwtService.new verifier)) (boot : ℕ)
    (w : StoreWorld) (kind : TokenKind) (uuid : String) (claims : StandardClaims)
    (hplain : Plain claims) (hexp : ExpiryReadable claims)
    (httl : claims.exp = none → 0 ≤ systemTime boot w + issuer.tokenTtl kind * 10 ^ 9)
    (token : B.Token)
    (hmint : mintAt B rotation issuer boot w kind uuid claims = some (.ok token)) :
    ∃ now stamped, utcNow boot w = some now
      ∧ (JwtService.new issuer).stampedStandard now uuid claims (issuer.tokenTtl kind)
        = some stamped
      ∧ ∀ later : StoreWorld,
        verifier.leeway.getD DEFAULT_LEEWAY_SECS ≤ systemTime boot later / 10 ^ 9 →
        (∀ found, decodeStandardAt B rotation' verifier boot later token = .ok found
          ↔ found = stamped.truncSecs
            ∧ Honoured verifier stamped (systemTime boot later / 10 ^ 9 : ℕ)
            ∧ later.store.isRevoked (claims.jti.getD uuid) later.now = false)
        ∧ (decodeStandardAt B rotation' verifier boot later token = .error .revoked
          ↔ Honoured verifier stamped (systemTime boot later / 10 ^ 9 : ℕ)
            ∧ later.store.isRevoked (claims.jti.getD uuid) later.now = true) := by
  obtain ⟨now, stamped, hnow, hstamped, hencoded⟩ := stamped_of_mintAt hmint
  have h := stamped_of_stampedStandard hstamped
  have hplain : Plain stamped :=
    ⟨by rw [h.extra]; exact hplain.typed, by rw [h.extra]; exact hplain.nbf⟩
  have hexp : ExpiryReadable stamped :=
    expiryReadable_stamped hstamped hexp (nanos_of_utcNow hnow ▸ httl)
  exact ⟨now, stamped, hnow, hstamped, fun later hleeway =>
    decodeStandard_minted hdecode hencode hchecks hkeys hplain hexp hencoded h.jti
      (fun jti => later.store.isRevoked jti later.now) (Int.ofNat_le.2 hleeway)⟩

end Fate

/-- The private half of a key pair, and the public half at another service. -/
def privateHalf : JwtConfig := { fromEcPem .ES256 "private-a" with issuer := some "issuer" }

def publicHalf : JwtConfig :=
  { (fromEcPem .ES256 "").withPublicKey "public-a" with issuer := some "issuer" }

theorem halves_counterparts :
    Counterparts keyPairBackend true (.new privateHalf) (.new publicHalf) := by
  have h : Counterparts keyPairBackend true (.new (fromEcPem .ES256 "private-a"))
      (.new ((fromEcPem .ES256 "").withPublicKey "public-a")) :=
    counterparts_ecPem (.inl rfl) rfl rfl (transparent_matches (.pem "a"))
  exact ⟨h.algorithm, h.keyId, h.keys, h.entries⟩

def halvesToken : TransparentToken :=
  ⟨{ alg := .ES256, kid := none }, quickStartPayload [("iss", .str "issuer")], .pem "a"⟩

theorem minted_token_fate_halves : ∃ now stamped,
    utcNow (1000 * 10 ^ 9) (freshStore 10 none 0) = some now
    ∧ (JwtService.new privateHalf).stampedStandard now "id" quickStartClaims 3600 = some stamped
    ∧ ∀ later : StoreWorld,
      (∀ found, decodeStandardAt keyPairBackend true publicHalf (1000 * 10 ^ 9) later halvesToken
          = .ok found
        ↔ found = stamped.truncSecs
          ∧ Honoured publicHalf stamped (systemTime (1000 * 10 ^ 9) later / 10 ^ 9 : ℕ)
          ∧ later.store.isRevoked "id" later.now = false)
      ∧ (decodeStandardAt keyPairBackend true publicHalf (1000 * 10 ^ 9) later halvesToken
          = .error .revoked
        ↔ Honoured publicHalf stamped (systemTime (1000 * 10 ^ 9) later / 10 ^ 9 : ℕ)
          ∧ later.store.isRevoked "id" later.now = true) := by
  obtain ⟨now, stamped, hnow, hstamped, hfate⟩ := minted_token_fate (B := keyPairBackend)
    transparent_decodeChecks transparent_encodeRecords transparent_checksRegistered false true
    privateHalf publicHalf halves_counterparts (1000 * 10 ^ 9) (freshStore 10 none 0) .access "id"
    quickStartClaims ⟨fun _ h => absurd h (AList.notMem_empty _), AList.notMem_empty _⟩
    (by rintro _ ⟨⟩) (by decide) halvesToken rfl
  refine ⟨now, stamped, hnow, hstamped, fun later => hfate later ?_⟩
  show 60 ≤ (1000 * 10 ^ 9 + later.now) / 10 ^ 9
  omega

end TokenKit
