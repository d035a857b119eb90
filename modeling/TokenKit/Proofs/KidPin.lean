import TokenKit.Proofs.Reading
import TokenKit.Lib.Pointwise
import TokenKit.TransparentBackend

/-!
# What a key id decides

A token that names a key id is read with the first candidate of that id, but every candidate is
loaded before the id is looked up. Such a token is accepted when all of them load and the pinned one
accepts it (`decode_of_kid`), so two configs that pin the same key tell it apart only if all the
keys of one load and not all of the other (`kid_pins_iff`).

Without key ids a build with rotation has one candidate, and accepts what a build without rotation
accepts, unless it names a key id (`rotation_additive`).
-/

namespace TokenKit

open JwtService

/-! ## Candidates before they are loaded -/

/-- What the verification key of a candidate is loaded from. -/
structure KeyMaterial where
  publicPem : Option String
  publicDer : Option (List UInt8)
  secret : String
  deriving DecidableEq

def KeyMaterial.load (B : Backend) (algorithm : JwtAlgorithm) (material : KeyMaterial) :
    Except JwtError B.DecodingKey :=
  decodingKeyFor B algorithm material.publicPem material.publicDer material.secret

namespace JwtConfig

def primaryMaterial (config : JwtConfig) : KeyMaterial :=
  ⟨config.publicKey, config.derPublicKey, config.secret⟩

/-- The material of a rotation entry, with the public material it falls back to. -/
def entryMaterial (config : JwtConfig) (entry : RotationKey) : KeyMaterial :=
  ⟨entry.publicKey <|> config.publicKey, entry.derPublicKey <|> config.derPublicKey, entry.secret⟩

/-- The candidates, primary key first, with their key ids. -/
def materials (config : JwtConfig) : List (Option String × KeyMaterial) :=
  (config.keyId, config.primaryMaterial)
    :: config.rotationKeys.map fun entry => (entry.keyId, config.entryMaterial entry)

/-- The material of the first candidate whose key id is `kid`. -/
def pinned (config : JwtConfig) (kid : String) : Option KeyMaterial :=
  (config.materials.find? fun candidate => candidate.1 = some kid).map Prod.snd

/-- Every configured key loads. -/
def AllLoad (B : Backend) (config : JwtConfig) : Prop :=
  ∀ candidate ∈ config.materials, ∃ key, candidate.2.load B config.algorithm = .ok key

end JwtConfig

variable {B : Backend} {service : JwtService} {token : B.Token} {now : ℤ}

theorem forall₂_of_decodingKeys {candidates : List (Option String × B.DecodingKey)} :
    service.decodingKeys B = .ok candidates ↔ List.Forall₂ (fun m candidate =>
      m.1 = candidate.1 ∧ m.2.load B service.config.algorithm = .ok candidate.2)
        service.config.materials candidates := by
  have hentry : ∀ (entry : RotationKey) (candidate : Option String × B.DecodingKey),
      (do
        let key ← service.entryKey B entry
        return (entry.keyId, key)) = Except.ok (ε := JwtError) candidate
        ↔ entry.keyId = candidate.1
          ∧ (service.config.entryMaterial entry).load B service.config.algorithm
            = .ok candidate.2 := by
    rintro entry ⟨id, key⟩
    rw [Except.ok_of_bind]
    constructor
    · rintro ⟨key, hkey, h⟩
      cases h
      exact ⟨rfl, hkey⟩
    · rintro ⟨rfl, hkey⟩
      exact ⟨key, hkey, rfl⟩
  rw [decodingKeys_eq_ok, JwtConfig.materials, List.forall₂_cons_left_iff]
  simp only [List.mapM_eq_ok, hentry, List.forall₂_map_left_iff]
  constructor
  · rintro ⟨primary, entries, hprimary, hentries, rfl⟩
    exact ⟨(_, primary), entries, ⟨rfl, hprimary⟩, hentries, rfl⟩
  · rintro ⟨⟨_, primary⟩, entries, ⟨rfl, hprimary⟩, hentries, rfl⟩
    exact ⟨primary, entries, hprimary, hentries, rfl⟩

theorem allLoad_iff : service.config.AllLoad B
    ↔ ∃ candidates, service.decodingKeys B = .ok candidates := by
  simp only [forall₂_of_decodingKeys, List.exists_forall₂_iff]
  refine forall_congr' fun candidate => forall_congr' fun _ => ?_
  constructor
  · rintro ⟨key, hkey⟩
    exact ⟨(candidate.1, key), rfl, hkey⟩
  · rintro ⟨⟨_, key⟩, -, hkey⟩
    exact ⟨key, hkey⟩

/-! ## Reading with a key id -/

section

variable {T : Type} [DeserializeOwned T]

/-- The backend accepts the token under the key that `kid` pins. -/
def AcceptsUnder (B : Backend) (config : JwtConfig) (kid : String) (token : B.Token) (now : ℤ)
    (claims : T) : Prop :=
  ∃ material key, config.pinned kid = some material
    ∧ material.load B config.algorithm = .ok key
    ∧ B.decode token key config.buildValidation now = .ok claims

/-- Of the candidates, the first of an id is the one its material is loaded into. -/
theorem find?_candidates {candidates : List (Option String × B.DecodingKey)}
    (hkeys : service.decodingKeys B = .ok candidates) (kid : String) :
    Option.Rel (fun material candidate => candidate.1 = some kid
        ∧ material.load B service.config.algorithm = .ok candidate.2)
      (service.config.pinned kid) (candidates.find? fun candidate => candidate.1 = some kid) := by
  have hrel := (forall₂_of_decodingKeys.1 hkeys).find?_rel
    (p := fun candidate => candidate.1 = some kid) (q := fun candidate => candidate.1 = some kid)
    fun a b hab => by rw [hab.1]
  unfold JwtConfig.pinned
  rcases hm : service.config.materials.find? fun candidate => candidate.1 = some kid with _ | m <;>
    rcases hc : candidates.find? fun candidate => candidate.1 = some kid with _ | candidate <;>
    rw [hm, hc] at hrel ⊢
  · exact .none
  · cases hrel
  · cases hrel
  · obtain ⟨-, hload⟩ : m.1 = candidate.1 ∧ _ := by
      cases hrel
      assumption
    exact .some ⟨by simpa using List.find?_some hc, hload⟩

theorem decode_of_kid {kid : String} (hkid : kidOf B token = some kid) (claims : T) :
    service.decode B true token now = .ok claims
      ↔ service.config.AllLoad B ∧ AcceptsUnder B service.config kid token now claims := by
  unfold JwtService.decode
  rw [if_pos rfl, allLoad_iff]
  rcases hkeys : service.decodingKeys B with e | candidates
  · refine iff_of_false (fun h => ?_) (by simp)
    obtain ⟨candidates, hc, -⟩ := exists_candidate_of_decode h
    rw [hkeys] at hc
    cases hc
  have hrel := find?_candidates hkeys kid
  simp only [Except.ok.injEq, exists_eq', true_and, AcceptsUnder,
    decodeWithRotation_kid_iff hkeys hkid]
  rcases hm : service.config.pinned kid with _ | material <;>
    rcases hc : candidates.find? fun candidate => candidate.1 = some kid with _ | ⟨id, key⟩ <;>
    rw [hm, hc] at hrel
  · simp [hc]
  · cases hrel
  · cases hrel
  · obtain ⟨rfl, hload⟩ : id = some kid
        ∧ material.load B service.config.algorithm = .ok key := by
      cases hrel
      assumption
    simp only [hc, hload, Option.some.injEq, Prod.mk.injEq, Except.ok.injEq, true_and,
      exists_and_left, exists_eq_left']

end

/-! ## Two configs that pin the same key -/

/-- Two configs validate alike, and their first candidates of key id `kid` are of one material. -/
structure AgreeOn (kid : String) (config config' : JwtConfig) : Prop where
  algorithm : config.algorithm = config'.algorithm
  issuer : config.issuer = config'.issuer
  audience : config.audience = config'.audience
  audiences : config.audiences = config'.audiences
  leeway : config.leeway = config'.leeway
  requiredClaims : config.requiredClaims = config'.requiredClaims
  validateExp : config.validateExp = config'.validateExp
  validateNbf : config.validateNbf = config'.validateNbf
  pinned : config.pinned kid = config'.pinned kid

theorem AgreeOn.buildValidation {kid : String} {config config' : JwtConfig}
    (h : AgreeOn kid config config') : config.buildValidation = config'.buildValidation := by
  unfold JwtConfig.buildValidation JwtConfig.mergedAudiences
  rw [h.algorithm, h.issuer, h.audience, h.audiences, h.leeway, h.requiredClaims, h.validateExp,
    h.validateNbf]

theorem AgreeOn.acceptsUnder {T : Type} [DeserializeOwned T] {kid : String}
    {config config' : JwtConfig} (h : AgreeOn kid config config') (claims : T) :
    AcceptsUnder B config kid token now claims ↔ AcceptsUnder B config' kid token now claims := by
  unfold AcceptsUnder
  rw [h.pinned, h.algorithm, h.buildValidation]

/-- A token that names a key id has one outcome under two configs that agree on that id exactly when
all the keys of both load, or of neither, or the pinned key accepts it under neither. -/
theorem kid_pins_iff {T : Type} [DeserializeOwned T] {kid : String} {config config' : JwtConfig}
    (h : AgreeOn kid config config') (hkid : kidOf B token = some kid) (now : ℤ) :
    (∀ claims : T, (JwtService.new config).decode B true token now = .ok claims
        ↔ (JwtService.new config').decode B true token now = .ok claims)
      ↔ (config.AllLoad B ↔ config'.AllLoad B)
        ∨ ∀ claims : T, ¬ AcceptsUnder B config kid token now claims := by
  have hread : ∀ (config : JwtConfig) (claims : T),
      (JwtService.new config).decode B true token now = .ok claims
        ↔ config.AllLoad B ∧ AcceptsUnder B config kid token now claims :=
    fun config claims => decode_of_kid hkid claims
  simp only [hread, ← h.acceptsUnder]
  constructor
  · intro hsame
    by_cases hacc : ∃ claims : T, AcceptsUnder B config kid token now claims
    · obtain ⟨claims, hacc⟩ := hacc
      have := hsame claims
      simp only [hacc, and_true] at this
      exact .inl this
    · exact .inr fun claims hclaims => hacc ⟨claims, hclaims⟩
  · rintro (hload | hno) claims
    · rw [hload]
    · simp [hno claims]

/-- A service that signs and verifies with the first key pair, under the key id `a`. -/
def pairConfig (entries : List RotationKey) : JwtConfig :=
  { JwtConfig.default with
    algorithm := .RS256
    secret := "private-a"
    publicKey := some "public-a"
    keyId := some "a"
    rotationKeys := entries }

def pairToken : TransparentToken where
  header := { alg := .RS256, kid := some "a" }
  payload := .obj [("exp", .int 4600), ("iss", .str "issuer")]
  signer := .pem "a"

def secondEntry : RotationKey :=
  { RotationKey.new "private-b" (some "b") with publicKey := some "public-b" }

/-- An entry whose key does not load. -/
def brokenEntry : RotationKey :=
  { RotationKey.new "private-b" (some "b") with publicKey := some "not a key" }

theorem pairConfig_agreeOn (entries entries' : List RotationKey) :
    AgreeOn "a" (pairConfig entries) (pairConfig entries') :=
  ⟨rfl, rfl, rfl, rfl, rfl, rfl, rfl, rfl, rfl⟩

theorem kid_pins_second_entry :
    (∀ claims : StandardClaims,
        (JwtService.new (pairConfig [])).decode keyPairBackend true pairToken 1000 = .ok claims
        ↔ (JwtService.new (pairConfig [secondEntry])).decode keyPairBackend true pairToken 1000
          = .ok claims)
      ↔ ((pairConfig []).AllLoad keyPairBackend ↔ (pairConfig [secondEntry]).AllLoad keyPairBackend)
        ∨ ∀ claims : StandardClaims,
          ¬ AcceptsUnder keyPairBackend (pairConfig []) "a" pairToken 1000 claims :=
  kid_pins_iff (pairConfig_agreeOn [] [secondEntry]) rfl 1000

/-- A token of the pinned key is accepted until an entry that does not load is added. -/
theorem broken_entry_rejects_pinned_token :
    AgreeOn "a" (pairConfig []) (pairConfig [brokenEntry])
      ∧ ¬ ∀ claims : StandardClaims,
        (JwtService.new (pairConfig [])).decode keyPairBackend true pairToken 1000 = .ok claims
        ↔ (JwtService.new (pairConfig [brokenEntry])).decode keyPairBackend true pairToken 1000
          = .ok claims := by
  refine ⟨pairConfig_agreeOn _ _, fun hsame => ?_⟩
  have haccept : ∃ claims : StandardClaims,
      (JwtService.new (pairConfig [])).decode keyPairBackend true pairToken 1000 = .ok claims :=
    ⟨_, rfl⟩
  obtain ⟨claims, haccept⟩ := haccept
  have := (hsame claims).1 haccept
  cases this

/-! ## A build with rotation and one without -/

theorem decode_of_no_kid {T : Type} [DeserializeOwned T] {key : B.DecodingKey}
    {validation : Validation} (hkeys : service.decodingKeys B = .ok [(none, key)])
    (hkid : kidOf B token = none) :
    (service.decodeWithRotation B token validation now : Except JwtError T)
      = (B.decode token key validation now).mapError .decodingFailed := by
  rw [decodeWithRotation_of_no_kid hkeys hkid]
  unfold tryEveryKey
  rcases B.decode token key validation now with e | claims
  · rfl
  · rfl

/-- Without key ids and rotation keys, a build with rotation accepts a token exactly when it names
no key id and a build without rotation accepts it. -/
theorem rotation_additive {T : Type} [DeserializeOwned T] {config : JwtConfig}
    (hid : config.keyId = none) (hentries : config.rotationKeys = [])
    (hload : ∃ key, (JwtService.new config).decodingKey B = .ok key) (token : B.Token) (now : ℤ)
    (claims : T) : (JwtService.new config).decode B true token now = .ok claims
      ↔ kidOf B token = none ∧ (JwtService.new config).decode B false token now = .ok claims := by
  obtain ⟨key, hkey⟩ := hload
  rcases hkid : kidOf B token with _ | kid
  · have hkeys : (JwtService.new config).decodingKeys B = .ok [(none, key)] := by
      rw [forall₂_of_decodingKeys, JwtConfig.materials]
      simp only [JwtService.new, hid, hentries, List.map_nil]
      exact .cons ⟨rfl, hkey⟩ .nil
    unfold JwtService.decode
    rw [if_pos rfl, decode_of_no_kid hkeys hkid, if_neg (by simp), Except.ok_of_mapError,
      Except.ok_of_bind]
    simp only [true_and, hkey, Except.ok.injEq, exists_eq_left', Except.ok_of_mapError]
  · refine iff_of_false (fun h => ?_) (by simp)
    obtain ⟨-, material, -, hpinned, -⟩ := (decode_of_kid hkid claims).1 h
    simp [JwtService.new, JwtConfig.pinned, JwtConfig.materials, hid, hentries] at hpinned

/-- The quick start's service, and a token it would accept if it did not name a key id. -/
def namedToken : TransparentToken where
  header := { alg := .HS256, kid := some "other" }
  payload := .obj [("exp", .int 4600), ("iss", .str "issuer")]
  signer := .secret ""

theorem rotation_additive_default :
    (JwtService.new JwtConfig.default).decode transparentBackend true
        { namedToken with header := { alg := .HS256, kid := none } } 1000
          = .ok { StandardClaims.default with
              iss := some "issuer", exp := DateTime.ofTimestamp 4600 }
      ↔ kidOf transparentBackend { namedToken with header := { alg := .HS256, kid := none } } = none
        ∧ (JwtService.new JwtConfig.default).decode transparentBackend false
          { namedToken with header := { alg := .HS256, kid := none } } 1000
            = .ok { StandardClaims.default with
                iss := some "issuer", exp := DateTime.ofTimestamp 4600 } :=
  rotation_additive rfl rfl ⟨_, rfl⟩ _ _ _

theorem rotation_rejects_named_token :
    ¬ ∀ claims : StandardClaims,
      (JwtService.new JwtConfig.default).decode transparentBackend true namedToken 1000 = .ok claims
      ↔ (JwtService.new JwtConfig.default).decode transparentBackend false namedToken 1000
        = .ok claims := by
  intro hsame
  have haccept : ∃ claims : StandardClaims, (JwtService.new JwtConfig.default).decode
      transparentBackend false namedToken 1000 = .ok claims := ⟨_, rfl⟩
  obtain ⟨claims, haccept⟩ := haccept
  have := (hsame claims).2 haccept
  cases this

end TokenKit
