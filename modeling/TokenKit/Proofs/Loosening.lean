import TokenKit.Proofs.Checks
import TokenKit.Proofs.Minting

/-!
# Settings that loosen a config

A setter that gives more leeway, accepts more audiences, requires fewer claims or turns a check off
leaves a config that asks for nothing more (`Looser`), and so do any number of them, one after the
other (`Loosened`). What the config accepted, the loosened one accepts, with the same claims
(`loosened_accepts`).
-/

namespace TokenKit

open JwtService JwtConfig

/-- The second config verifies with the same keys, and checks nothing that the first does not. -/
structure Looser (config config' : JwtConfig) : Prop where
  algorithm : config'.algorithm = config.algorithm
  secret : config'.secret = config.secret
  publicKey : config'.publicKey = config.publicKey
  derPublicKey : config'.derPublicKey = config.derPublicKey
  keyId : config'.keyId = config.keyId
  rotationKeys : config'.rotationKeys = config.rotationKeys
  leeway : config.leeway.getD DEFAULT_LEEWAY_SECS ≤ config'.leeway.getD DEFAULT_LEEWAY_SECS
  validateExp : config'.validateExp = true → config.validateExp = true
  validateNbf : config'.validateNbf = true → config.validateNbf = true
  required : config'.requiredClaims ⊆ config.requiredClaims
  issuer : config'.issuer = config.issuer
  audiences : config.mergedAudiences ⊆ config'.mergedAudiences

/-- The config after setters each of which loosens it. -/
inductive Loosened (config : JwtConfig) : JwtConfig → Prop where
  | start : Loosened config config
  | withLeeway {config' : JwtConfig} (h : Loosened config config') (seconds : ℕ)
    (hle : config'.leeway.getD DEFAULT_LEEWAY_SECS ≤ seconds) :
    Loosened config (config'.withLeeway seconds)
  | withAudiences {config' : JwtConfig} (h : Loosened config config') (audiences : List String)
    (hsub : config'.audiences ⊆ audiences) : Loosened config (config'.withAudiences audiences)
  | withRequiredClaims {config' : JwtConfig} (h : Loosened config config') (claims : List String)
    (hsub : claims ⊆ config'.requiredClaims) : Loosened config (config'.withRequiredClaims claims)
  | withoutExp {config' : JwtConfig} (h : Loosened config config') :
    Loosened config (config'.withValidateExp false)
  | withoutNbf {config' : JwtConfig} (h : Loosened config config') :
    Loosened config (config'.withValidateNbf false)

section

variable {config config' config'' : JwtConfig}

theorem mem_mergedAudiences {aud : String} :
    aud ∈ config.mergedAudiences ↔ aud ∈ config.audiences ∨ config.audience = some aud := by
  unfold mergedAudiences
  rcases config.audience with _ | audience
  · simp
  · by_cases hmem : audience ∈ config.audiences
    · simp only [hmem, if_true, Option.some.injEq]
      refine ⟨.inl, ?_⟩
      rintro (h | rfl)
      · exact h
      · exact hmem
    · simp only [hmem, if_false, List.mem_append, List.mem_singleton, Option.some.injEq, eq_comm]

theorem Looser.refl (config : JwtConfig) : Looser config config where
  algorithm := rfl
  secret := rfl
  publicKey := rfl
  derPublicKey := rfl
  keyId := rfl
  rotationKeys := rfl
  leeway := le_rfl
  validateExp := id
  validateNbf := id
  required := List.Subset.refl _
  issuer := rfl
  audiences := List.Subset.refl _

theorem looser_of_loosened (h : Loosened config config') : Looser config config' := by
  induction h with
  | start => exact .refl config
  | withLeeway _ seconds hle ih => exact { ih with leeway := le_trans ih.leeway hle }
  | @withAudiences config' _ audiences hsub ih =>
    refine { ih with audiences := List.Subset.trans ih.audiences fun aud haud => ?_ }
    exact mem_mergedAudiences.2 ((mem_mergedAudiences.1 haud).imp_left fun h => hsub h)
  | withRequiredClaims _ claims hsub ih =>
    exact { ih with required := List.Subset.trans hsub ih.required }
  | withoutExp _ ih => exact { ih with validateExp := fun h => absurd h Bool.false_ne_true }
  | withoutNbf _ ih => exact { ih with validateNbf := fun h => absurd h Bool.false_ne_true }

/-! ## What a looser config accepts -/

variable {B : Backend} {rotation : Bool} {token : B.Token} {secs : ℤ}

theorem Looser.decodingKey (h : Looser config config') :
    (JwtService.new config').decodingKey B = (JwtService.new config).decodingKey B := by
  unfold JwtService.decodingKey JwtService.new
  rw [h.algorithm, h.secret, h.publicKey, h.derPublicKey]

theorem Looser.decodingKeys (h : Looser config config') :
    (JwtService.new config').decodingKeys B = (JwtService.new config).decodingKeys B := by
  have hentry : (JwtService.new config').entryKey B = (JwtService.new config).entryKey B := by
    funext entry
    unfold JwtService.entryKey JwtService.new
    rw [h.algorithm, h.publicKey, h.derPublicKey]
  have hkeys : (JwtService.new config').config.rotationKeys
      = (JwtService.new config).config.rotationKeys := h.rotationKeys
  have hid : (JwtService.new config').config.keyId = (JwtService.new config).config.keyId := h.keyId
  unfold JwtService.decodingKeys
  rw [h.decodingKey, hentry, hkeys, hid]

theorem Looser.authentic (h : Looser config config')
    (hauth : Authentic B rotation (JwtService.new config) token) :
    Authentic B rotation (JwtService.new config') token := by
  obtain ⟨⟨header, hheader, halg⟩, key, htried, hver⟩ := hauth
  refine ⟨⟨header, hheader, ?_⟩, key, ?_, hver⟩
  · have halgs : config'.buildValidation.algorithms = config.buildValidation.algorithms := by
      unfold buildValidation Validation.new
      rw [h.algorithm]
    exact halgs ▸ halg
  · unfold Tried at htried ⊢
    rw [h.decodingKey, h.decodingKeys]
    exact htried

theorem Looser.accepted (h : Looser config config') {payload : Json}
    (hpayload : Accepted config.buildValidation secs payload) :
    Accepted config'.buildValidation secs payload := by
  obtain ⟨⟨required, iss, aud⟩, exp, nbf⟩ := hpayload
  refine ⟨⟨fun name hname => required name (h.required hname), ?_, ?_⟩, ?_, ?_⟩
  · intro given hgiven
    refine issAccepts_iff.2 fun issuer hissuer => ?_
    exact issAccepts_iff.1 (iss given hgiven) issuer (h.issuer.symm.trans hissuer)
  · intro given hgiven
    obtain ⟨s, hs, hmem⟩ := audAccepts_iff.1 (aud given hgiven)
    exact audAccepts_iff.2 ⟨s, hs, h.audiences hmem⟩
  · intro hvalidate value hvalue
    obtain ⟨date, hdate, hbefore⟩ := exp (h.validateExp hvalidate) value hvalue
    have hbefore : secs - (config.leeway.getD DEFAULT_LEEWAY_SECS : ℤ) ≤ date := hbefore
    have hleeway := h.leeway
    refine ⟨date, hdate, ?_⟩
    show secs - (config'.leeway.getD DEFAULT_LEEWAY_SECS : ℤ) ≤ date
    omega
  · intro hvalidate value hvalue
    obtain ⟨date, hdate, hbefore⟩ := nbf (h.validateNbf hvalidate) value hvalue
    have hbefore : date ≤ secs + (config.leeway.getD DEFAULT_LEEWAY_SECS : ℤ) := hbefore
    have hleeway := h.leeway
    refine ⟨date, hdate, ?_⟩
    show date ≤ secs + (config'.leeway.getD DEFAULT_LEEWAY_SECS : ℤ)
    omega

end

/-- Setters that loosen a config, however many and in whatever order, lose no token whose dates can
be read: what was accepted is, with the same claims. The leeway does not reach back beyond the epoch
in the end. -/
theorem loosened_accepts {B : Backend} (hdecode : B.DecodeChecks) (hchecks : B.ChecksRegistered)
    {T : Type} [DeserializeOwned T] (rotation : Bool) {config config' : JwtConfig}
    (h : Loosened config config') (token : B.Token) (members : List (String × Json))
    (hpayload : B.payload token = some (.obj members)) (hnodup : (members.map Prod.fst).Nodup)
    (hdates : (Json.obj members).datesReadable = true) (secs : ℤ)
    (hleeway : config'.leeway.getD DEFAULT_LEEWAY_SECS ≤ secs) (claims : T)
    (haccepted : (JwtService.new config).decode B rotation token secs = .ok claims) :
    (JwtService.new config').decode B rotation token secs = .ok claims := by
  have hlooser := looser_of_loosened h
  obtain ⟨hauth, hread, hvalid⟩ := (decode_eq_ok_of_payload hdecode hpayload).1 haccepted
  refine (decode_eq_ok_of_payload hdecode hpayload).2 ⟨hlooser.authentic hauth, hread, ?_⟩
  have hearlier := hlooser.leeway
  have hbefore : (config.leeway.getD DEFAULT_LEEWAY_SECS : ℤ) ≤ secs := by omega
  have haccepted := accepts_iff.1 ((hchecks _ _ _ hnodup hdates hbefore).1 hvalid)
  exact (hchecks _ _ _ hnodup hdates hleeway).2 (accepts_iff.2 (hlooser.accepted haccepted))

/-- The quick start's config, with more leeway, more audiences, and only the expiry required. -/
def relaxedConfig : JwtConfig :=
  (((quickStart (some "issuer")).config.withLeeway 120).withAudiences ["mobile"]).withRequiredClaims
    ["exp"]

theorem loosened_relaxedConfig : Loosened (quickStart (some "issuer")).config relaxedConfig :=
  ((Loosened.start.withLeeway 120 (by decide)).withAudiences ["mobile"]
    (List.nil_subset _)).withRequiredClaims ["exp"] (by decide)

theorem loosened_accepts_quick_start :
    ∃ claims : StandardClaims, (JwtService.new relaxedConfig).decode transparentBackend true
      (quickStartToken [("iss", .str "issuer")]) 4660 = .ok claims :=
  ⟨_, loosened_accepts transparent_decodeChecks transparent_checksRegistered true
    loosened_relaxedConfig _ _ rfl (by decide) (by decide) 4660 (by decide) _ rfl⟩

end TokenKit
