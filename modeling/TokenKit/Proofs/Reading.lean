import TokenKit.Service
import TokenKit.Lib.Results

/-!
# What minting and reading go by

A minted token is encoded under the signing key, with the header the config gives it
(`encode_eq_ok`). With rotation, a token is accepted because the backend accepts it under a
candidate whose key id is the one the token names, if it names one (`exists_candidate_of_decode`).
A token that names a key id is read with the first candidate of that id
(`decodeWithRotation_kid_iff`), and one that names none is accepted when some candidate accepts it
and no two disagree on what it says (`tryEveryKey_of_exists`).
-/

namespace TokenKit

variable {B : Backend} {service : JwtService} {token : B.Token} {now : ℤ}

/-- The key id a token names, if its header can be read. -/
def kidOf (B : Backend) (token : B.Token) : Option String :=
  (B.decodeHeader token).toOption.bind Header.kid

theorem kidOf_of_header {header : Header} (h : B.decodeHeader token = .ok header) :
    kidOf B token = header.kid := by
  rw [kidOf, h]
  rfl

namespace JwtService

def header (rotation : Bool) (service : JwtService) : Header where
  alg := service.config.algorithm.toAlgorithm
  kid := if rotation then service.config.keyId else none

theorem encode_eq_ok {T : Type} [Serialize T] {rotation : Bool} {claims : T} :
    service.encode B rotation claims = .ok token ↔ ∃ key, service.encodingKey B = .ok key
      ∧ B.encode (service.header rotation) claims key = .ok token := by
  unfold encode
  simp only [Except.ok_of_bind, Except.ok_of_mapError]
  rfl

theorem decodingKeys_eq_ok {candidates : List (Option String × B.DecodingKey)} :
    service.decodingKeys B = .ok candidates ↔ ∃ primary entries,
      service.decodingKey B = .ok primary
        ∧ (service.config.rotationKeys.mapM fun entry => do
            let key ← service.entryKey B entry
            return (entry.keyId, key)) = .ok entries
        ∧ candidates = (service.config.keyId, primary) :: entries := by
  unfold decodingKeys
  simp only [Except.ok_of_bind, pure, Except.pure, Except.ok.injEq, eq_comm (a := candidates)]
  constructor
  · rintro ⟨primary, hp, entries, he, h⟩
    exact ⟨primary, entries, hp, he, h⟩
  · rintro ⟨primary, entries, hp, he, h⟩
    exact ⟨primary, hp, entries, he, h⟩

section Loop

variable {T : Type} [DeserializeOwned T] {validation : Validation}
  {candidates : List (Option String × B.DecodingKey)} {claims : T}

theorem exists_of_tryEveryKey : ∀ {candidates : List (Option String × B.DecodingKey)}
    {lastErr : JwtError}, tryEveryKey B token validation now lastErr candidates = .ok claims →
      ∃ candidate ∈ candidates, B.decode token candidate.2 validation now = .ok claims
  | [], _, h => by
    unfold tryEveryKey at h
    cases h
  | (kid, key) :: candidates, _, h => by
    unfold tryEveryKey at h
    split at h
    · rename_i found hkey
      cases h
      exact ⟨(kid, key), List.mem_cons_self, hkey⟩
    · obtain ⟨candidate, hmem, hdec⟩ := exists_of_tryEveryKey h
      exact ⟨candidate, List.mem_cons_of_mem _ hmem, hdec⟩

/-- The loop returns what the accepting candidates say, when they all say the same. -/
theorem tryEveryKey_of_exists : ∀ {candidates : List (Option String × B.DecodingKey)}
    {lastErr : JwtError},
    (∃ candidate ∈ candidates, B.decode token candidate.2 validation now = .ok claims) →
    (∀ candidate ∈ candidates, ∀ found : T,
      B.decode token candidate.2 validation now = .ok found → found = claims) →
    tryEveryKey B token validation now lastErr candidates = .ok claims
  | [], _, h, _ => by simp at h
  | (kid, key) :: candidates, _, h, hsame => by
    rw [List.forall_mem_cons] at hsame
    unfold tryEveryKey
    split
    · rename_i found hkey
      rw [hsame.1 found hkey]
    · rename_i e hkey
      refine tryEveryKey_of_exists ?_ hsame.2
      obtain ⟨candidate, hmem, hdec⟩ := h
      rcases List.mem_cons.1 hmem with rfl | hmem
      · rw [hkey] at hdec
        cases hdec
      · exact ⟨candidate, hmem, hdec⟩

theorem decodeWithRotation_of_kid (hkeys : service.decodingKeys B = .ok candidates) {kid : String}
    (hkid : kidOf B token = some kid) {key : B.DecodingKey}
    (hfind : candidates.find? (fun candidate => candidate.1 = some kid) = some (some kid, key)) :
    (service.decodeWithRotation B token validation now : Except JwtError T)
      = (B.decode token key validation now).mapError .decodingFailed := by
  unfold decodeWithRotation
  unfold kidOf at hkid
  simp only [hkeys, hkid, hfind, bind, Except.bind]

/-- A token that names a key id of no candidate is an error. -/
theorem decodeWithRotation_of_unknown (hkeys : service.decodingKeys B = .ok candidates)
    {kid : String} (hkid : kidOf B token = some kid)
    (hfind : candidates.find? (fun candidate => candidate.1 = some kid) = none) :
    (service.decodeWithRotation B token validation now : Except JwtError T)
      = .error (.decodingFailed s!"token references unknown key id `{kid}`") := by
  unfold decodeWithRotation
  unfold kidOf at hkid
  simp only [hkeys, hkid, hfind, bind, Except.bind]

theorem decodeWithRotation_kid_iff (hkeys : service.decodingKeys B = .ok candidates) {kid : String}
    (hkid : kidOf B token = some kid) :
    service.decodeWithRotation B token validation now = .ok claims ↔ ∃ key,
      candidates.find? (fun candidate => candidate.1 = some kid) = some (some kid, key)
        ∧ B.decode token key validation now = .ok claims := by
  rcases hfind : candidates.find? fun candidate => candidate.1 = some kid with _ | ⟨id, key⟩
  · rw [decodeWithRotation_of_unknown hkeys hkid hfind]
    simp [hfind]
  · obtain rfl : id = some kid := by simpa using List.find?_some hfind
    rw [decodeWithRotation_of_kid hkeys hkid hfind, Except.ok_of_mapError]
    simp only [hfind, Option.some.injEq, Prod.mk.injEq, true_and, exists_eq_left']

theorem decodeWithRotation_of_no_kid (hkeys : service.decodingKeys B = .ok candidates)
    (hkid : kidOf B token = none) :
    (service.decodeWithRotation B token validation now : Except JwtError T)
      = tryEveryKey B token validation now (.decodingFailed "no keys configured") candidates := by
  unfold decodeWithRotation
  unfold kidOf at hkid
  simp only [hkeys, hkid, bind, Except.bind]

theorem exists_candidate_of_decode
    (h : service.decodeWithRotation B token validation now = .ok claims) :
    ∃ candidates, service.decodingKeys B = .ok candidates ∧ ∃ candidate ∈ candidates,
      (∀ kid, kidOf B token = some kid → candidate.1 = some kid)
        ∧ B.decode token candidate.2 validation now = .ok claims := by
  unfold decodeWithRotation at h
  obtain ⟨candidates, hkeys, h⟩ := Except.ok_of_bind.1 h
  refine ⟨candidates, hkeys, ?_⟩
  rcases hkid : kidOf B token with _ | kid <;> unfold kidOf at hkid <;> simp only [hkid] at h
  · obtain ⟨candidate, hmem, hdec⟩ := exists_of_tryEveryKey h
    exact ⟨candidate, hmem, by simp, hdec⟩
  · split at h
    · rename_i id key hfind
      have hid := List.find?_some hfind
      refine ⟨(id, key), List.mem_of_find?_eq_some hfind, ?_, Except.ok_of_mapError.1 h⟩
      rintro _ ⟨⟩
      simpa using hid
    · cases h

end Loop

end JwtService

end TokenKit
