import TokenKit.Proofs.Acceptance
import TokenKit.Proofs.KidPin

/-!
# The order of the previous keys

A token without key id is read with every candidate, in whatever order they come. One that names the
primary key's id is read with that key, and any other with the first entry of its id. So the order
of the entries matters exactly when it decides between two entries of the id that do not accept the
token alike (`key_order_iff`).
-/

namespace TokenKit

open JwtService

/-- The config with its rotation keys in another order. -/
def JwtConfig.reordered (config : JwtConfig) (entries : List RotationKey) : JwtConfig :=
  { config with rotationKeys := entries }

variable {B : Backend} {config : JwtConfig} {entries : List RotationKey} {token : B.Token} {now : ℤ}

/-- The backend accepts the token under the key of the entry. -/
def EntryAccepts (B : Backend) (config : JwtConfig) (entry : RotationKey) (token : B.Token)
    (now : ℤ) {T : Type} [DeserializeOwned T] (claims : T) : Prop :=
  ∃ key, (config.entryMaterial entry).load B config.algorithm = .ok key
    ∧ B.decode token key config.buildValidation now = .ok claims

/-! ## What does not depend on the order -/

theorem mem_materials_reordered (h : entries.Perm config.rotationKeys)
    {candidate : Option String × KeyMaterial} :
    candidate ∈ (config.reordered entries).materials ↔ candidate ∈ config.materials := by
  have hmap := h.map fun entry => (entry.keyId, config.entryMaterial entry)
  exact (hmap.cons (config.keyId, config.primaryMaterial)).mem_iff

theorem allLoad_reordered (h : entries.Perm config.rotationKeys) :
    (config.reordered entries).AllLoad B ↔ config.AllLoad B :=
  forall_congr' fun _ => imp_congr (mem_materials_reordered h) Iff.rfl

/-- Without a key id, a token is read with every key that is loaded. -/
theorem tried_iff_material (hkid : kidOf B token = none) (key : B.DecodingKey) :
    Tried B true (.new config) token key ↔ config.AllLoad B
      ∧ ∃ candidate ∈ config.materials, candidate.2.load B config.algorithm = .ok key := by
  have hload := @allLoad_iff B (.new config)
  have hmaterial : ∀ {candidates : List (Option String × B.DecodingKey)},
      (JwtService.new config).decodingKeys B = .ok candidates →
        ((∃ candidate ∈ config.materials, candidate.2.load B config.algorithm = .ok key)
          ↔ ∃ candidate ∈ candidates, candidate.2 = key) := by
    intro candidates hkeys
    refine (forall₂_of_decodingKeys.1 hkeys).exists_iff fun m candidate hm => ?_
    have hm : m.2.load B config.algorithm = .ok candidate.2 := hm.2
    rw [hm, Except.ok.injEq]
  refine ⟨?_, ?_⟩
  · intro h
    obtain ⟨candidates, hkeys⟩ := decodingKeys_of_tried h
    exact ⟨hload.2 ⟨candidates, hkeys⟩,
      (hmaterial hkeys).2 ((tried_of_no_kid hkeys hkid key).1 h)⟩
  · rintro ⟨hall, hmem⟩
    obtain ⟨candidates, hkeys⟩ := hload.1 hall
    exact (tried_of_no_kid hkeys hkid key).2 ((hmaterial hkeys).1 hmem)

section

variable {T : Type} [DeserializeOwned T]

theorem decode_reordered_of_no_kid (hdecode : B.DecodeChecks) (h : entries.Perm config.rotationKeys)
    (hkid : kidOf B token = none) (claims : T) :
    (JwtService.new (config.reordered entries)).decode B true token now = .ok claims
      ↔ (JwtService.new config).decode B true token now = .ok claims := by
  have htried : ∀ key, Tried B true (.new (config.reordered entries)) token key
      ↔ Tried B true (.new config) token key := by
    intro key
    rw [tried_iff_material hkid, tried_iff_material hkid, allLoad_reordered h]
    exact and_congr_right fun _ => exists_congr fun _ =>
      and_congr_left fun _ => mem_materials_reordered h
  simp only [decode_iff_tried hdecode, htried]
  rfl

/-! ## What does -/

/-- The primary key's id pins the primary key, whatever the entries. -/
theorem pinned_primary {kid : String} (hid : config.keyId = some kid) :
    config.pinned kid = some config.primaryMaterial := by
  unfold JwtConfig.pinned JwtConfig.materials
  rw [List.find?_cons_of_pos (by simpa using hid)]
  rfl

/-- Any other id pins the first entry that has it. -/
theorem acceptsUnder_iff_entry {kid : String} (hid : config.keyId ≠ some kid) (claims : T) :
    AcceptsUnder B config kid token now claims
      ↔ ∃ entry, config.rotationKeys.find? (fun entry => entry.keyId = some kid) = some entry
        ∧ EntryAccepts B config entry token now claims := by
  have hpinned : config.pinned kid
      = (config.rotationKeys.find? fun entry => entry.keyId = some kid).map
        config.entryMaterial := by
    unfold JwtConfig.pinned JwtConfig.materials
    rw [List.find?_cons_of_neg (by simpa using hid), List.find?_map, Option.map_map]
    rfl
  unfold AcceptsUnder EntryAccepts
  rw [hpinned]
  rcases config.rotationKeys.find? fun entry => entry.keyId = some kid with _ | entry
  · simp
  · simp

/-- The entries of the id accept the token alike. -/
def AcceptAlike (B : Backend) (config : JwtConfig) (kid : String) (token : B.Token) (now : ℤ)
    (T : Type) [DeserializeOwned T] : Prop :=
  ∀ entry ∈ config.rotationKeys, ∀ entry' ∈ config.rotationKeys,
    entry.keyId = some kid → entry'.keyId = some kid → ∀ claims : T,
      EntryAccepts B config entry token now claims → EntryAccepts B config entry' token now claims

theorem acceptsUnder_of_alike {kid : String} (hid : config.keyId ≠ some kid)
    (halike : AcceptAlike B config kid token now T) (claims : T) :
    AcceptsUnder B config kid token now claims ↔ ∃ entry ∈ config.rotationKeys,
      entry.keyId = some kid ∧ EntryAccepts B config entry token now claims := by
  rw [acceptsUnder_iff_entry hid]
  refine ⟨?_, ?_⟩
  · rintro ⟨entry, hfind, hacc⟩
    exact ⟨entry, List.mem_of_find?_eq_some hfind, by simpa using List.find?_some hfind, hacc⟩
  · rintro ⟨entry, hmem, hkid, hacc⟩
    obtain ⟨first, hfirst⟩ := Option.isSome_iff_exists.1
      (List.find?_isSome.2 ⟨entry, hmem, by simpa using hkid⟩ :
        (config.rotationKeys.find? fun entry => entry.keyId = some kid).isSome = true)
    refine ⟨first, hfirst, halike entry hmem first (List.mem_of_find?_eq_some hfirst) hkid ?_
      claims hacc⟩
    simpa using List.find?_some hfirst

theorem acceptsUnder_reordered {kid : String} (hid : config.keyId ≠ some kid)
    (h : entries.Perm config.rotationKeys) (halike : AcceptAlike B config kid token now T)
    (claims : T) : AcceptsUnder B (config.reordered entries) kid token now claims
      ↔ AcceptsUnder B config kid token now claims := by
  have halike' : AcceptAlike B (config.reordered entries) kid token now T :=
    fun entry hmem entry' hmem' => halike entry (h.mem_iff.1 hmem) entry' (h.mem_iff.1 hmem')
  have hid' : (config.reordered entries).keyId ≠ some kid := hid
  rw [acceptsUnder_of_alike hid' halike', acceptsUnder_of_alike hid halike]
  exact exists_congr fun entry => and_congr_left fun _ => h.mem_iff

/-- The first entry of a list is the one its id pins. -/
theorem acceptsUnder_head {kid : String} (hid : config.keyId ≠ some kid) {entry : RotationKey}
    (hkid : entry.keyId = some kid) (claims : T) :
    AcceptsUnder B (config.reordered (entry :: entries)) kid token now claims
      ↔ EntryAccepts B config entry token now claims := by
  have hid' : (config.reordered (entry :: entries)).keyId ≠ some kid := hid
  have hfind : (config.reordered (entry :: entries)).rotationKeys.find?
      (fun entry => entry.keyId = some kid) = some entry :=
    List.find?_cons_of_pos (by simpa using hkid)
  rw [acceptsUnder_iff_entry hid', hfind]
  simp only [Option.some.injEq, exists_eq_left']
  rfl

end

/-- A token has one outcome in every order of the entries exactly when it names no key id or the
primary key's, or a key does not load, or the entries of its id accept it alike. -/
theorem key_order_iff (hdecode : B.DecodeChecks) (T : Type) [DeserializeOwned T]
    (config : JwtConfig) (token : B.Token) (now : ℤ) :
    (∀ entries, entries.Perm config.rotationKeys → ∀ claims : T,
      (JwtService.new (config.reordered entries)).decode B true token now = .ok claims
        ↔ (JwtService.new config).decode B true token now = .ok claims)
      ↔ ∀ kid, kidOf B token = some kid →
        config.keyId = some kid ∨ ¬ config.AllLoad B ∨ AcceptAlike B config kid token now T := by
  refine ⟨?_, ?_⟩
  · intro hall kid hkid
    by_contra hcond
    simp only [not_or, not_not] at hcond
    obtain ⟨hid, hload, halike⟩ := hcond
    -- with an entry in front, decoding is reading with that entry
    have hfront : ∀ entry ∈ config.rotationKeys, entry.keyId = some kid → ∀ claims : T,
        (JwtService.new config).decode B true token now = .ok claims
          ↔ EntryAccepts B config entry token now claims := by
      intro entry hmem hentry claims
      have hperm := (List.perm_cons_erase hmem).symm
      rw [← hall _ hperm, decode_of_kid hkid]
      have hload' : (config.reordered (entry :: config.rotationKeys.erase entry)).AllLoad B :=
        (allLoad_reordered hperm).2 hload
      exact (and_iff_right hload').trans (acceptsUnder_head hid hentry claims)
    refine halike fun entry hmem entry' hmem' hentry hentry' claims hacc => ?_
    exact (hfront entry' hmem' hentry' claims).1 ((hfront entry hmem hentry claims).2 hacc)
  · intro hcond entries hperm claims
    rcases hkid : kidOf B token with _ | kid
    · exact decode_reordered_of_no_kid hdecode hperm hkid claims
    rw [decode_of_kid hkid, decode_of_kid hkid]
    refine (and_congr_left fun _ => allLoad_reordered hperm).trans (and_congr_right fun hload => ?_)
    by_cases hid : config.keyId = some kid
    · have hid' : (config.reordered entries).keyId = some kid := hid
      unfold AcceptsUnder
      rw [JwtService.new, JwtService.new, pinned_primary hid, pinned_primary hid']
      rfl
    · have halike := ((hcond kid hkid).resolve_left hid).resolve_left (not_not.2 hload)
      exact acceptsUnder_reordered hid hperm halike claims

/-- Two earlier secrets under one key id. -/
def sharedIdConfig : JwtConfig :=
  { JwtConfig.default with rotationKeys := [.new "old" (some "k"), .new "older" (some "k")] }

def oldToken (kid : Option String) : TransparentToken where
  header := { alg := .HS256, kid := kid }
  payload := .obj [("exp", .int 4600), ("iss", .str "issuer")]
  signer := .secret "old"

theorem key_order_no_kid :
    (∀ entries, entries.Perm sharedIdConfig.rotationKeys → ∀ claims : Json,
      (JwtService.new (sharedIdConfig.reordered entries)).decode transparentBackend true
          (oldToken none) 1000 = .ok claims
        ↔ (JwtService.new sharedIdConfig).decode transparentBackend true (oldToken none) 1000
          = .ok claims)
      ↔ ∀ kid, kidOf transparentBackend (oldToken none) = some kid →
        sharedIdConfig.keyId = some kid ∨ ¬ sharedIdConfig.AllLoad transparentBackend
          ∨ AcceptAlike transparentBackend sharedIdConfig kid (oldToken none) 1000 Json :=
  key_order_iff transparent_decodeChecks Json sharedIdConfig (oldToken none) 1000

/-- The secret that is listed first decides for the id. -/
theorem shared_id_order_matters :
    [.new "older" (some "k"), .new "old" (some "k")].Perm sharedIdConfig.rotationKeys
      ∧ (JwtService.new sharedIdConfig).decode transparentBackend true (oldToken (some "k")) 1000
        = .ok (Json.obj [("exp", .int 4600), ("iss", .str "issuer")])
      ∧ ((JwtService.new (sharedIdConfig.reordered
          [.new "older" (some "k"), .new "old" (some "k")])).decode transparentBackend true
            (oldToken (some "k")) 1000 : Except JwtError Json)
        = .error (.decodingFailed "InvalidSignature") :=
  ⟨.swap _ _ _, rfl, rfl⟩

end TokenKit
