import TokenKit.Proofs.Acceptance
import TokenKit.Lib.Pairs

/-!
# What validation checks

`Accepted` spells out the documented check of the registered claims (`accepts_iff`). A `Signer` puts
the service's signature to any payload, so a payload that passes is that of an accepted token
(`Signer.decode_iff`). Unless a config contradicts itself there is a payload that passes, with every
claim it can ask for (`acceptable`), and one that lacks a claim it does not (`accepted_without`).
-/

namespace TokenKit

open JwtService JwtConfig Validation

/-! ## The check, one claim at a time -/

/-- The part of the check that is not about dates. -/
structure Enforced (v : Validation) (payload : Json) : Prop where
  required : ∀ name ∈ v.requiredSpecClaims, Validation.present payload name = true
  iss : ∀ given, (payload.member "iss").bind Json.strings = some given → v.issAccepts given = true
  aud : ∀ given, (payload.member "aud").bind Json.strings = some given → v.audAccepts given = true

structure Accepted (v : Validation) (now : ℤ) (payload : Json) : Prop extends
    Enforced v payload where
  exp : v.validateExp = true → ∀ date, payload.member "exp" = some date →
    ∃ exp, date.numericDate = some exp ∧ now - v.leeway ≤ exp
  nbf : v.validateNbf = true → ∀ date, payload.member "nbf" = some date →
    ∃ nbf, date.numericDate = some nbf ∧ nbf ≤ now + v.leeway

theorem enforced_iff {v : Validation} {payload : Json} :
    v.enforced payload = true ↔ Enforced v payload := by
  unfold Validation.enforced
  simp only [Bool.and_eq_true, Option.all_eq_true, List.all_eq_true]
  refine ⟨?_, ?_⟩
  · rintro ⟨⟨required, iss⟩, aud⟩
    exact ⟨required, iss, aud⟩
  · rintro ⟨required, iss, aud⟩
    exact ⟨⟨required, iss⟩, aud⟩

theorem dateAccepts_iff {payload : Json} {name : String} {check : ℤ → Bool} :
    dateAccepts payload name check = true ↔ ∀ date, payload.member name = some date →
      ∃ secs, date.numericDate = some secs ∧ check secs = true := by
  unfold dateAccepts
  simp only [Option.all_eq_true, Option.any_eq_true]

theorem accepts_iff {v : Validation} {now : ℤ} {payload : Json} :
    v.accepts now payload = true ↔ Accepted v now payload := by
  unfold Validation.accepts
  simp only [Bool.and_eq_true, Bool.or_eq_true, Bool.not_eq_true', ← Bool.not_eq_true,
    ← imp_iff_not_or, enforced_iff, dateAccepts_iff, decide_eq_true_eq]
  refine ⟨?_, ?_⟩
  · rintro ⟨⟨enforced, exp⟩, nbf⟩
    exact ⟨enforced, exp, nbf⟩
  · rintro ⟨enforced, exp, nbf⟩
    exact ⟨⟨enforced, exp⟩, nbf⟩

theorem datesReadable_iff {payload : Json} :
    payload.datesReadable = true ↔ ∀ name, name = "exp" ∨ name = "nbf" →
      ∀ date, payload.member name = some date → ∃ secs, date.numericDate = some secs := by
  unfold Json.datesReadable
  simp only [List.all_eq_true, List.mem_cons, List.not_mem_nil, or_false, Option.all_eq_true,
    Option.isSome_iff_exists]

theorem present_of_notMem {payload : Json} {name : String} (h : name ∉ SPEC_CLAIMS) :
    Validation.present payload name = true := by
  unfold Validation.present
  split
  case h_6 => rfl
  all_goals exact absurd (by decide) h

theorem exists_member_of_bind {α : Type} {payload : Json} {name : String}
    {read : Json → Option α} (h : ((payload.member name).bind read).isSome = true) :
    ∃ value, payload.member name = some value := by
  obtain ⟨a, ha⟩ := Option.isSome_iff_exists.1 h
  obtain ⟨value, hvalue, -⟩ := Option.bind_eq_some_iff.1 ha
  exact ⟨value, hvalue⟩

theorem exists_member_of_present {payload : Json} {name : String} (hname : name ∈ SPEC_CLAIMS)
    (h : Validation.present payload name = true) : ∃ value, payload.member name = some value := by
  unfold Validation.present at h
  split at h
  case h_6 hexp hnbf haud hiss hsub =>
    simp only [SPEC_CLAIMS, List.mem_cons, List.not_mem_nil, or_false] at hname
    rcases hname with h | h | h | h | h <;> contradiction
  all_goals exact exists_member_of_bind h

/-- Whether a name is present depends on the member of that name alone. -/
theorem present_congr {payload payload' : Json} {name : String}
    (h : payload.member name = payload'.member name) :
    present payload name = present payload' name := by
  unfold present
  split <;> simp only [h]

theorem audAccepts_of_no_audience {config : JwtConfig} (h : config.mergedAudiences = [])
    (given : List String) : config.buildValidation.audAccepts given = false := by
  unfold Validation.audAccepts buildValidation
  rw [h]
  rfl

/-- Without audiences, a payload with an `aud` that can be read does not pass. -/
theorem Enforced.no_aud {config : JwtConfig} {payload : Json}
    (h : Enforced config.buildValidation payload) (hnone : config.mergedAudiences = []) :
    present payload "aud" = false := by
  refine Bool.eq_false_iff.2 fun hpresent => ?_
  obtain ⟨given, hgiven⟩ := Option.isSome_iff_exists.1 hpresent
  have haud := h.aud given hgiven
  rw [audAccepts_of_no_audience hnone] at haud
  cases haud

theorem issAccepts_iff {config : JwtConfig} {given : List String} :
    config.buildValidation.issAccepts given = true
      ↔ ∀ issuer, config.issuer = some issuer → issuer ∈ given := by
  unfold Validation.issAccepts buildValidation
  rcases config.issuer with _ | issuer <;> simp

theorem audAccepts_iff {config : JwtConfig} {given : List String} :
    config.buildValidation.audAccepts given = true
      ↔ ∃ audience ∈ given, audience ∈ config.mergedAudiences := by
  unfold Validation.audAccepts buildValidation
  rcases config.mergedAudiences with _ | ⟨audience, audiences⟩ <;> simp

section

variable {B : Backend} {rotation : Bool} {service : JwtService} {token : B.Token} {now : ℤ}

theorem decode_of_decodeStandard {claims : StandardClaims}
    (h : service.decodeStandard B rotation token now = .ok claims) :
    service.decode B rotation token now = .ok claims := by
  unfold decodeStandard at h
  obtain ⟨found, hfound, h⟩ := Except.ok_of_bind.1 h
  have : found = claims := by
    split at h
    · split at h
      · exact Except.ok.inj h
      · cases h
      · cases h
    · exact Except.ok.inj h
  rw [hfound, this]

end

/-! ## Signing -/

/-- Someone who can put the service's signature to any payload, under the header it stamps. What
verifies one of the tokens verifies them all, the service's own key among it. -/
structure Signer (B : Backend) (rotation : Bool) (service : JwtService) where
  sign : Json → B.Token
  key : B.DecodingKey
  header : ∀ payload, B.decodeHeader (sign payload) = .ok (service.header rotation)
  payload : ∀ payload, B.payload (sign payload) = some payload
  loads : service.decodingKey B = .ok key
  entries : rotation = true → ∃ candidates, service.decodingKeys B = .ok candidates
  verifies : ∀ payload, B.verifies (sign payload) key
  alike : ∀ payload payload' key, B.verifies (sign payload) key ↔ B.verifies (sign payload') key

/-- An object that names no member twice, with dates that can be read, is accepted under the
service's signature when it passes the check. -/
theorem Signer.decode_iff {B : Backend} {rotation : Bool} {service : JwtService}
    (signer : Signer B rotation service) (hdecode : B.DecodeChecks)
    (hclaims : B.ChecksRegistered) {T : Type} [DeserializeOwned T] {claims : T}
    {members : List (String × Json)} (hnd : (members.map Prod.fst).Nodup)
    (hdates : (Json.obj members).datesReadable = true)
    (hread : deserialize (.obj members) = some claims) {now : ℤ}
    (hnow : service.config.buildValidation.leeway ≤ now) :
    service.decode B rotation (signer.sign (.obj members)) now = .ok claims
      ↔ Accepted service.config.buildValidation now (.obj members) := by
  have hauth : Authentic B rotation service (signer.sign (.obj members)) :=
    authentic_of_header (signer.header _) signer.loads signer.entries (signer.verifies _)
  simp only [decode_eq_ok_of_payload hdecode (signer.payload _), hauth, hread, true_and,
    hclaims _ _ _ hnd hdates hnow, accepts_iff]

/-! ## A payload that passes -/

/-- The claims that a config can ask for, as long as its leeway reaches back to the epoch. -/
def acceptable (config : JwtConfig) : List (String × Json) :=
  [("exp", .int 0), ("nbf", .int 0), ("sub", .str "subject"),
    ("iss", .str (config.issuer.getD "issuer"))]
    ++ (config.mergedAudiences.head?.map fun audience => ("aud", Json.str audience)).toList

theorem nodup_acceptable (config : JwtConfig) :
    ((acceptable config).map Prod.fst).Nodup := by
  unfold acceptable
  rcases config.mergedAudiences.head? with _ | audience <;> simp

theorem lookup_acceptable_aud (config : JwtConfig) :
    (acceptable config).lookup "aud" = config.mergedAudiences.head?.map .str := by
  unfold acceptable
  rcases config.mergedAudiences.head? with _ | audience <;> rfl

theorem present_acceptable {config : JwtConfig} {name : String}
    (haud : name = "aud" → config.mergedAudiences ≠ []) :
    present (.obj (acceptable config)) name = true := by
  by_cases hspec : name ∈ SPEC_CLAIMS
  · simp only [SPEC_CLAIMS, List.mem_cons, List.not_mem_nil, or_false] at hspec
    rcases hspec with rfl | rfl | rfl | rfl | rfl
    · rfl
    · rfl
    · obtain ⟨audience, audiences, h⟩ := List.exists_cons_of_ne_nil (haud rfl)
      show (((acceptable config).lookup "aud").bind Json.strings).isSome = true
      rw [lookup_acceptable_aud, h]
      rfl
    · rfl
    · rfl
  · exact present_of_notMem hspec

theorem lookup_without {config : JwtConfig} {name other : String} {value : Json}
    (h : (Json.obj ((acceptable config).filter fun m => m.1 ≠ name)).member other = some value) :
    (acceptable config).lookup other = some value := by
  simp only [Json.member, List.lookup_filter_ne] at h
  split_ifs at h
  exact h

theorem datesReadable_without (config : JwtConfig) (name : String) :
    (Json.obj ((acceptable config).filter fun m => m.1 ≠ name)).datesReadable = true := by
  refine datesReadable_iff.2 fun other hother date hdate => ?_
  have hdate := lookup_without hdate
  rcases hother with rfl | rfl
  · exact ⟨0, Option.some.inj hdate ▸ rfl⟩
  · exact ⟨0, Option.some.inj hdate ▸ rfl⟩

/-- Without the claim of a name that is not required, or not known, the payload still passes. -/
theorem accepted_without {config : JwtConfig} {name : String}
    (hname : name ∈ config.requiredClaims → name ∉ SPEC_CLAIMS)
    (haud : "aud" ∈ config.requiredClaims → config.mergedAudiences ≠ []) :
    Accepted config.buildValidation config.buildValidation.leeway
      (.obj ((acceptable config).filter fun m => m.1 ≠ name)) := by
  refine ⟨⟨?_, ?_, ?_⟩, ?_, ?_⟩
  · intro other hother
    by_cases hne : other = name
    · exact present_of_notMem (hne ▸ hname (hne ▸ hother))
    · refine (present_congr ?_).trans (present_acceptable fun h => haud (h ▸ hother))
      simp only [Json.member, List.lookup_filter_ne, if_neg hne]
  · intro given hgiven
    obtain ⟨value, hvalue, hgiven⟩ := Option.bind_eq_some_iff.1 hgiven
    obtain rfl : .str (config.issuer.getD "issuer") = value :=
      Option.some.inj (lookup_without hvalue)
    obtain rfl : [config.issuer.getD "issuer"] = given := Option.some.inj hgiven
    refine issAccepts_iff.2 fun issuer hissuer => ?_
    rw [hissuer]
    exact List.mem_singleton_self issuer
  · intro given hgiven
    obtain ⟨value, hvalue, hgiven⟩ := Option.bind_eq_some_iff.1 hgiven
    have hvalue := lookup_without hvalue
    rw [lookup_acceptable_aud, Option.map_eq_some_iff] at hvalue
    obtain ⟨audience, haudience, rfl⟩ := hvalue
    obtain rfl : [audience] = given := Option.some.inj hgiven
    exact audAccepts_iff.2 ⟨audience, List.mem_singleton_self _, List.mem_of_head? haudience⟩
  · intro _ date hdate
    obtain rfl : .int 0 = date := Option.some.inj (lookup_without hdate)
    exact ⟨0, rfl, by omega⟩
  · intro _ date hdate
    obtain rfl : .int 0 = date := Option.some.inj (lookup_without hdate)
    exact ⟨0, rfl, by omega⟩

end TokenKit
