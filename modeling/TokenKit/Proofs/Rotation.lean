import TokenKit.Proofs.Acceptance
import TokenKit.Lib.Pairs
import TokenKit.TransparentBackend

/-!
# Rotation

With an HMAC algorithm every key loads, so the candidates of a rotation config are its primary key
and then its list (`decodingKeys_of_hmac`), and the primary key is the first of the list. A token is
then accepted under a listed key, of the key id it names, unless the list is empty: the primary key
is then made of the empty secret (`rotation_sound_iff`).

A key that is still listed verifies the tokens it signed. A token that names its key id is read with
the first candidate of that id, which is that key as long as no two listed keys share an id; a token
without one is read with every candidate (`rotation_continuity`).
-/

namespace TokenKit

open JwtService JwtConfig

variable {B : Backend} {algorithm : JwtAlgorithm}

/-! ## The candidates -/

theorem encodingKeyFor_of_hmac (h : algorithm.IsHmac) (secret : String)
    (der : Option (List UInt8)) :
    encodingKeyFor B algorithm secret der = .ok (B.encodingFromSecret secret) := by
  rcases h with rfl | rfl | rfl <;> rfl

theorem decodingKeyFor_of_hmac (h : algorithm.IsHmac) (pem : Option String)
    (der : Option (List UInt8)) (secret : String) :
    decodingKeyFor B algorithm pem der secret = .ok (B.decodingFromSecret secret) := by
  rcases h with rfl | rfl | rfl <;> rfl

def candidateOf (B : Backend) (key : RotationKey) : Option String × B.DecodingKey :=
  (key.keyId, B.decodingFromSecret key.secret)

theorem decodingKeys_of_hmac {service : JwtService} (h : service.config.algorithm.IsHmac) :
    service.decodingKeys B = .ok ((service.config.keyId, B.decodingFromSecret service.config.secret)
      :: service.config.rotationKeys.map (candidateOf B)) := by
  rw [decodingKeys_eq_ok]
  refine ⟨_, _, decodingKeyFor_of_hmac h _ _ _, ?_, rfl⟩
  have hentry : ∀ entry, service.entryKey B entry = .ok (B.decodingFromSecret entry.secret) :=
    fun entry => decodingKeyFor_of_hmac h _ _ _
  simp only [hentry]
  exact List.mapM_pure

theorem candidates_of_rotation (h : algorithm.IsHmac) (primary : RotationKey)
    (rest : List RotationKey) :
    (JwtService.new (withRotationKeys algorithm (primary :: rest))).decodingKeys B
      = .ok (candidateOf B primary :: (primary :: rest).map (candidateOf B)) :=
  decodingKeys_of_hmac h

theorem candidates_of_no_keys (h : algorithm.IsHmac) :
    (JwtService.new (withRotationKeys algorithm [])).decodingKeys B
      = .ok [(none, B.decodingFromSecret "")] :=
  decodingKeys_of_hmac h

/-! ## Soundness -/

/-- Every token that `config` accepts verifies under a listed key, and if it names a key id, under
one of that id. -/
def KeySound (B : Backend) (config : JwtConfig) (keys : List RotationKey) : Prop :=
  ∀ {T : Type} [DeserializeOwned T] (token : B.Token) (now : ℤ) (claims : T),
    (JwtService.new config).decode B true token now = .ok claims →
      (∃ key ∈ keys, B.verifies token (B.decodingFromSecret key.secret))
        ∧ ∀ kid, kidOf B token = some kid → ∃ key ∈ keys, key.keyId = some kid
          ∧ B.verifies token (B.decodingFromSecret key.secret)

def VerifiesAccepted (B : Backend) : Prop :=
  ∀ {T : Type} [DeserializeOwned T] (token : B.Token) (key : B.DecodingKey) (v : Validation)
    (now : ℤ) (claims : T), B.decode token key v now = .ok claims → B.verifies token key

/-- The backend takes the empty secret as any other: some token without a key id, signed with it,
passes the validation of a rotation config. -/
def AcceptsEmptySecret (B : Backend) (algorithm : JwtAlgorithm) : Prop :=
  ∃ (token : B.Token) (now : ℤ) (claims : StandardClaims), kidOf B token = none
    ∧ B.decode token (B.decodingFromSecret "") (withRotationKeys algorithm []).buildValidation now
      = .ok claims

theorem keySound_of_cons (h : algorithm.IsHmac) (hverify : VerifiesAccepted B)
    (primary : RotationKey) (rest : List RotationKey) :
    KeySound B (withRotationKeys algorithm (primary :: rest)) (primary :: rest) := by
  intro T _ token now claims hdec
  unfold JwtService.decode at hdec
  obtain ⟨candidates, hkeys, candidate, hmem, hkid, hcand⟩ := exists_candidate_of_decode hdec
  rw [candidates_of_rotation h] at hkeys
  cases hkeys
  have hlisted : ∃ key ∈ primary :: rest, candidateOf B key = candidate := by
    rcases List.mem_cons.1 hmem with rfl | hmem
    · exact ⟨primary, List.mem_cons_self, rfl⟩
    · exact List.mem_map.1 hmem
  obtain ⟨key, hkey, rfl⟩ := hlisted
  have hver := hverify _ _ _ _ _ hcand
  exact ⟨⟨key, hkey, hver⟩, fun kid hk => ⟨key, hkey, hkid kid hk, hver⟩⟩

theorem not_keySound_nil (h : algorithm.IsHmac) (hempty : AcceptsEmptySecret B algorithm) :
    ¬ KeySound B (withRotationKeys algorithm []) [] := by
  intro hsound
  obtain ⟨token, now, claims, hkid, hdec⟩ := hempty
  have haccept : (JwtService.new (withRotationKeys algorithm [])).decode B true token now
      = .ok claims := by
    unfold JwtService.decode
    rw [if_pos rfl, decodeWithRotation_of_no_kid (candidates_of_no_keys h) hkid]
    unfold tryEveryKey
    rw [JwtService.new, hdec]
  obtain ⟨⟨key, hkey, -⟩, -⟩ := hsound token now claims haccept
  cases hkey

/-- What a rotation config of an HMAC algorithm accepts is signed under one of its listed keys
exactly when it lists any; so too for a config made from secrets. -/
theorem rotation_sound_iff (h : algorithm.IsHmac) (hverify : VerifiesAccepted B)
    (hempty : AcceptsEmptySecret B algorithm) :
    (∀ keys, KeySound B (withRotationKeys algorithm keys) keys ↔ keys ≠ [])
      ∧ ∀ secrets : List String, KeySound B (withRotationSecrets algorithm secrets)
        (secrets.map fun secret => .new secret none) ↔ secrets ≠ [] := by
  have hkeys : ∀ keys, KeySound B (withRotationKeys algorithm keys) keys ↔ keys ≠ [] := by
    intro keys
    rcases keys with _ | ⟨primary, rest⟩
    · exact iff_of_false (not_keySound_nil h hempty) (by simp)
    · exact iff_of_true (keySound_of_cons h hverify primary rest) (by simp)
  refine ⟨hkeys, fun secrets => ?_⟩
  rw [withRotationSecrets, hkeys, Ne, List.map_eq_nil_iff]

/-- A token that anyone can make: its signing secret is empty. -/
def forgedToken : TransparentToken where
  header := { alg := .HS256, kid := none }
  payload := .obj [("exp", .int 4600), ("iss", .str "anyone")]
  signer := .secret ""

theorem transparent_verifiesAccepted : VerifiesAccepted transparentBackend :=
  fun token key v now claims h => ((transparent_decodeChecks token key v now claims).1 h).2.1

theorem transparent_acceptsEmptySecret : AcceptsEmptySecret transparentBackend .HS256 :=
  ⟨forgedToken, 1000, _, rfl, rfl⟩

theorem rotation_sound_transparent :
    (∀ keys, KeySound transparentBackend (withRotationKeys .HS256 keys) keys ↔ keys ≠ [])
      ∧ ∀ secrets : List String,
        KeySound transparentBackend (withRotationSecrets .HS256 secrets)
          (secrets.map fun secret => .new secret none) ↔ secrets ≠ [] :=
  rotation_sound_iff (.inl rfl) transparent_verifiesAccepted transparent_acceptsEmptySecret

theorem empty_rotation_accepts_forged_token :
    ¬ KeySound transparentBackend (withRotationKeys .HS256 []) [] := by
  intro hsound
  have haccept : ∃ claims : StandardClaims, (JwtService.new (withRotationKeys .HS256 [])).decode
      transparentBackend true forgedToken 1000 = .ok claims := ⟨_, rfl⟩
  obtain ⟨claims, haccept⟩ := haccept
  obtain ⟨⟨key, hkey, -⟩, -⟩ := hsound forgedToken 1000 claims haccept
  cases hkey

/-! ## Continuity -/

/-- One service of a chain of rotations: its signing key, and the earlier keys it still lists. -/
structure Epoch where
  key : RotationKey
  retained : List RotationKey
  deriving DecidableEq

def Epoch.keys (epoch : Epoch) : List RotationKey := epoch.key :: epoch.retained

def Epoch.service (algorithm : JwtAlgorithm) (epoch : Epoch) : JwtService :=
  .new (withRotationKeys algorithm epoch.keys)

/-- A chain of rotations, newest first: each has a fresh key and lists some of the earlier ones, and
no two keys it lists share a key id. -/
inductive RotationChain : List Epoch → Prop
  | start : RotationChain []
  | rotate {past : List Epoch} {epoch : Epoch} (chain : RotationChain past)
      (fresh : epoch.key ∉ past.map Epoch.key) (once : epoch.retained.Nodup)
      (earlier : ∀ key ∈ epoch.retained, key ∈ past.map Epoch.key)
      (distinct : (epoch.keys.filterMap RotationKey.keyId).Nodup) : RotationChain (epoch :: past)

theorem RotationChain.distinct_ids {epochs : List Epoch} (h : RotationChain epochs) :
    ∀ epoch ∈ epochs, (epoch.keys.filterMap RotationKey.keyId).Nodup := by
  induction h with
  | start => simp
  | rotate chain fresh once earlier distinct ih => exact List.forall_mem_cons.2 ⟨distinct, ih⟩

theorem find?_candidate (primary : RotationKey) (rest : List RotationKey)
    (hdistinct : ((primary :: rest).filterMap RotationKey.keyId).Nodup) {key : RotationKey}
    {kid : String} (hmem : key ∈ primary :: rest) (hkid : key.keyId = some kid) :
    (candidateOf B primary :: (primary :: rest).map (candidateOf B)).find?
      (fun candidate => candidate.1 = some kid)
        = some (some kid, B.decodingFromSecret key.secret) := by
  have hkeys := List.find?_of_distinct hdistinct hmem hkid
  have htwice : (primary :: primary :: rest).find? (fun key => key.keyId = some kid)
      = some key := by
    by_cases hp : primary.keyId = some kid
    · rw [List.find?_cons_of_pos (by simpa using hp)] at hkeys ⊢
      exact hkeys
    · rw [List.find?_cons_of_neg (by simpa using hp)]
      exact hkeys
  rw [← List.map_cons, List.find?_map]
  have hcomp : ((fun candidate : Option String × B.DecodingKey => decide (candidate.1 = some kid))
      ∘ candidateOf B) = fun key : RotationKey => decide (key.keyId = some kid) := rfl
  rw [hcomp, htwice, Option.map_some, candidateOf, hkid]

/-- A token minted in one epoch is accepted, and read as it was encoded, in every later epoch that
still lists the key of the first. -/
theorem rotation_continuity (h : algorithm.IsHmac) (hdecode : B.DecodeChecks)
    (hencode : B.EncodeRecords)
    (hmatch : ∀ secret, B.Matches (B.encodingFromSecret secret) (B.decodingFromSecret secret))
    (after between before : List Epoch) (earlier later : Epoch)
    (hchain : RotationChain (after ++ later :: between ++ earlier :: before))
    (hkept : earlier.key ∈ later.keys) {T U : Type} [Serialize T] [DeserializeOwned U] (minted : T)
    {token : B.Token} (hmint : (earlier.service algorithm).encode B true minted = .ok token)
    {payload : Json} (hpayload : serialize minted = some payload) {claims : U}
    (hread : deserialize payload = some claims) {now : ℤ}
    (hvalid : B.claimsValid (later.service algorithm).config.buildValidation now payload) :
    (later.service algorithm).decode B true token now = .ok claims := by
  have hdistinct : (later.keys.filterMap RotationKey.keyId).Nodup :=
    hchain.distinct_ids later (by simp)
  have hsign : (earlier.service algorithm).encodingKey B
      = .ok (B.encodingFromSecret earlier.key.secret) := encodingKeyFor_of_hmac h _ _
  obtain ⟨key, hkey, hmint⟩ := encode_eq_ok.1 hmint
  obtain rfl : B.encodingFromSecret earlier.key.secret = key :=
    Except.ok.inj (hsign.symm.trans hkey)
  obtain ⟨hheader, recorded, hrec, htoken⟩ := hencode _ _ _ _ hmint
  obtain rfl : payload = recorded := Option.some.inj (hpayload.symm.trans hrec)
  have hver : B.verifies token (B.decodingFromSecret earlier.key.secret) := hmatch _ _ _ _ hmint
  have hkeys := candidates_of_rotation (B := B) h later.key later.retained
  refine (decode_eq_ok_of_payload hdecode htoken).2 ⟨⟨⟨_, hheader, List.mem_singleton_self _⟩,
    B.decodingFromSecret earlier.key.secret, ?_, hver⟩, hread, hvalid⟩
  rcases hid : earlier.key.keyId with _ | kid
  · have hkid : kidOf B token = none := (kidOf_of_header hheader).trans hid
    exact (tried_of_no_kid hkeys hkid _).2
      ⟨candidateOf B earlier.key, List.mem_cons_of_mem _ (List.mem_map_of_mem hkept), rfl⟩
  · have hkid : kidOf B token = some kid := (kidOf_of_header hheader).trans hid
    exact (tried_of_kid hkeys hkid _).2
      (find?_candidate later.key later.retained hdistinct hkept hid)

def oldEpoch : Epoch := ⟨.new "old-secret" (some "old-kid"), []⟩

def newEpoch : Epoch := ⟨.new "new-secret" none, [.new "old-secret" (some "old-kid")]⟩

theorem oldEpoch_newEpoch : RotationChain [newEpoch, oldEpoch] :=
  .rotate (.rotate .start (by decide) (by decide) (by decide) (by decide)) (by decide) (by decide)
    (by decide) (by decide)

def epochClaims : StandardClaims :=
  { StandardClaims.default with
    iss := some "issuer"
    exp := some ⟨4600 * 10 ^ 9, by decide, by decide⟩ }

def epochPayload : Json := .obj [("iss", .str "issuer"), ("exp", .int 4600)]

theorem rotation_continuity_two : (newEpoch.service .HS256).decode transparentBackend true
    ⟨{ alg := .HS256, kid := some "old-kid" }, epochPayload, .secret "old-secret"⟩ 1000
      = .ok epochClaims :=
  rotation_continuity (.inl rfl) transparent_decodeChecks transparent_encodeRecords
    (fun secret => transparent_matches (.secret secret)) [] [] [] oldEpoch newEpoch
    oldEpoch_newEpoch (by decide) epochClaims rfl rfl rfl rfl

end TokenKit
