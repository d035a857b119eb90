import TokenKit.Proofs.Acceptance

/-!
# One key that does not load

All keys of a service are loaded before the token is looked at. So when the primary key or a
rotation key does not load, every token is rejected for the first of them that does not, in the
order of the candidates; and no token is when they all load (`key_loading_iff`). What else `decode`
fails with is a failed decoding (`error_of_decode`).
-/

namespace TokenKit

open JwtService

variable {B : Backend} {rotation : Bool} {service : JwtService} {token : B.Token} {now : ℤ}

/-- What comes of loading each key that `decode` loads, in the order of the candidates. -/
def JwtService.loadings (B : Backend) (rotation : Bool) (service : JwtService) :
    List (Except JwtError B.DecodingKey) :=
  service.decodingKey B
    :: if rotation then service.config.rotationKeys.map (service.entryKey B) else []

theorem keyLoading_of_mapError {α : Type} {x : Except String α} {e : JwtError}
    (h : x.mapError .keyLoading = .error e) : ∃ text, e = .keyLoading text := by
  rcases x with text | a
  · exact ⟨text, (Except.error.inj h).symm⟩
  · cases h

theorem keyLoading_of_decodingKeyFor {algorithm : JwtAlgorithm} {pem : Option String}
    {der : Option (List UInt8)} {secret : String} {e : JwtError}
    (h : decodingKeyFor B algorithm pem der secret = .error e) : ∃ text, e = .keyLoading text := by
  unfold decodingKeyFor at h
  cases algorithm <;> rcases der with _ | der <;>
    first | exact keyLoading_of_mapError h | cases h

theorem keyLoading_of_loadings {e : JwtError}
    (h : (service.loadings B rotation).findSome? Except.errorOf = some e) :
    ∃ text, e = .keyLoading text := by
  obtain ⟨loading, hmem, herror⟩ := List.exists_of_findSome?_eq_some h
  have herror := Except.errorOf_eq_some.1 herror
  rcases List.mem_cons.1 hmem with rfl | hmem
  · exact keyLoading_of_decodingKeyFor herror
  · split_ifs at hmem
    · obtain ⟨entry, -, rfl⟩ := List.mem_map.1 hmem
      exact keyLoading_of_decodingKeyFor herror
    · cases hmem

theorem decodingKeys_eq_error {e : JwtError} :
    service.decodingKeys B = .error e
      ↔ (service.loadings B true).findSome? Except.errorOf = some e := by
  have hentry : ∀ entry, Except.errorOf (do
      let key ← service.entryKey B entry
      return (entry.keyId, key)) = (service.entryKey B entry).errorOf := by
    intro entry
    rcases service.entryKey B entry with e' | key <;> rfl
  unfold decodingKeys loadings
  rw [if_pos rfl, List.findSome?_cons, List.findSome?_map, Except.error_of_bind]
  rcases service.decodingKey B with e' | primary
  · simp [Except.errorOf]
  · have hprimary : (Except.ok primary : Except JwtError B.DecodingKey).errorOf = none := rfl
    simp only [reduceCtorEq, false_or, Except.ok.injEq, exists_eq_left', Except.error_of_bind,
      Except.mapM_eq_error, hentry, hprimary, Function.comp_def]
    simp [pure, Except.pure]

/-- Where the candidates load, no key fails to. -/
theorem loads_of_decodingKeys {candidates : List (Option String × B.DecodingKey)}
    (hkeys : service.decodingKeys B = .ok candidates) :
    (service.loadings B true).findSome? Except.errorOf = none := by
  rcases hfails : (service.loadings B true).findSome? Except.errorOf with _ | e
  · rfl
  · cases hkeys.symm.trans (decodingKeys_eq_error.2 hfails)

theorem loadings_false : (service.loadings B false).findSome? Except.errorOf
    = (service.decodingKey B).errorOf := by
  unfold loadings
  rw [if_neg Bool.false_ne_true, List.findSome?_singleton]

section

variable {T : Type} [DeserializeOwned T] {claims : T}

/-- The loop fails with what the last failed decoding gave. -/
theorem tryEveryKey_error {validation : Validation} :
    ∀ {candidates : List (Option String × B.DecodingKey)} {lastErr e : JwtError},
      (∃ text, lastErr = .decodingFailed text) →
      (tryEveryKey B token validation now lastErr candidates : Except JwtError T) = .error e →
        ∃ text, e = .decodingFailed text
  | [], _, _, hlast, h => by
    unfold tryEveryKey at h
    obtain rfl := Except.error.inj h
    exact hlast
  | (kid, key) :: candidates, _, _, _, h => by
    unfold tryEveryKey at h
    split at h
    · cases h
    · exact tryEveryKey_error ⟨_, rfl⟩ h

theorem decodingFailed_of_mapError {α : Type} {x : Except String α} {e : JwtError}
    (h : x.mapError .decodingFailed = .error e) : ∃ text, e = .decodingFailed text := by
  rcases x with text | a
  · exact ⟨text, (Except.error.inj h).symm⟩
  · cases h

theorem loads_of_decode (h : service.decode B rotation token now = .ok claims) :
    (service.loadings B rotation).findSome? Except.errorOf = none := by
  unfold JwtService.decode at h
  cases rotation with
  | false =>
    rw [if_neg Bool.false_ne_true, Except.ok_of_bind] at h
    obtain ⟨key, hkey, -⟩ := h
    exact loadings_false.trans (Except.errorOf_eq_none.2 ⟨key, hkey⟩)
  | true =>
    rw [if_pos rfl] at h
    obtain ⟨candidates, hkeys, -⟩ := exists_candidate_of_decode h
    exact loads_of_decodingKeys hkeys

/-- `decode` fails because a key does not load, or because decoding fails with the keys that do. -/
theorem error_of_decode {e : JwtError}
    (h : (service.decode B rotation token now : Except JwtError T) = .error e) :
    (service.loadings B rotation).findSome? Except.errorOf = some e
      ∨ (service.loadings B rotation).findSome? Except.errorOf = none
        ∧ ∃ text, e = .decodingFailed text := by
  unfold JwtService.decode at h
  cases rotation with
  | false =>
    rw [if_neg Bool.false_ne_true, Except.error_of_bind] at h
    rw [loadings_false]
    rcases h with h | ⟨key, hkey, h⟩
    · exact .inl (Except.errorOf_eq_some.2 h)
    · exact .inr ⟨Except.errorOf_eq_none.2 ⟨key, hkey⟩, decodingFailed_of_mapError h⟩
  | true =>
    rw [if_pos rfl] at h
    rcases hkeys : service.decodingKeys B with e' | candidates
    · refine .inl (decodingKeys_eq_error.1 ?_)
      unfold decodeWithRotation at h
      rw [hkeys] at h
      rw [hkeys, Except.error.inj h]
    · refine .inr ⟨loads_of_decodingKeys hkeys, ?_⟩
      rcases hkid : kidOf B token with _ | kid
      · rw [decodeWithRotation_of_no_kid hkeys hkid] at h
        exact tryEveryKey_error ⟨_, rfl⟩ h
      · rcases hfind : candidates.find? fun candidate => candidate.1 = some kid with _ | ⟨id, key⟩
        · rw [decodeWithRotation_of_unknown hkeys hkid hfind] at h
          exact ⟨_, (Except.error.inj h).symm⟩
        · obtain rfl : id = some kid := by simpa using List.find?_some hfind
          rw [decodeWithRotation_of_kid hkeys hkid hfind] at h
          exact decodingFailed_of_mapError h

/-- Where a key does not load, every token is rejected, and for the first such key; the token, and
which key would verify it, has no part in it. -/
theorem key_loading_iff (service : JwtService) (token : B.Token) (now : ℤ) (text : String) :
    (service.decode B rotation token now : Except JwtError T) = .error (.keyLoading text)
      ↔ (service.loadings B rotation).findSome? Except.errorOf = some (.keyLoading text) := by
  constructor
  · intro h
    rcases error_of_decode h with hload | ⟨-, text', htext⟩
    · exact hload
    · cases htext
  · intro h
    rcases hresult : (service.decode B rotation token now : Except JwtError T) with e | claims
    · rcases error_of_decode hresult with hload | ⟨hnone, -⟩
      · rw [Option.some.inj (hload.symm.trans h)]
      · cases hnone.symm.trans h
    · cases (loads_of_decode hresult).symm.trans h

end

end TokenKit
