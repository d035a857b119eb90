import TokenKit.Proofs.RequiredClaims
import TokenKit.Proofs.RoundTrip
import Mathlib.Data.Rat.Floor

/-!
# The two readings of a payload

The backend reads the registered claims of a payload in each form the standard allows, and
`StandardClaims` in one form only: `aud` as one string, `exp` and `iat` as whole numbers, each field
once. So of the payloads in the standard's forms that are accepted as JSON, `validate` accepts those
in the typed forms (`validate_iff_typed`).
-/

namespace TokenKit

open JwtService StandardClaims

variable {B : Backend} {rotation : Bool} {service : JwtService} {now : ℤ}

/-- A number, as seconds since the epoch. -/
def Json.seconds : Json → Option Rat
  | .int n => some n
  | .frac q => some q
  | _ => none

/-- The claims, where present, have the forms of the standard. -/
structure RfcForms (members : List (String × Json)) : Prop where
  strings : ∀ name ∈ ["sub", "iss", "jti", "role"], ∀ value, (name, value) ∈ members →
    ∃ text, value = .str text
  aud : ∀ value, ("aud", value) ∈ members →
    (∃ name, value = .str name) ∨ ∃ names : List String, value = .arr (names.map .str)
  dates : ∀ name ∈ ["exp", "iat"], ∀ value, (name, value) ∈ members →
    ∃ secs, value.seconds = some secs ∧ 0 ≤ secs ∧ secs * 10 ^ 9 ≤ MAX_UTC
  permissions : ∀ value, ("permissions", value) ∈ members →
    ∃ names : List String, value = .arr (names.map .str)

/-- No field is repeated, `aud` is one string and the dates are whole numbers. -/
structure TypedForms (members : List (String × Json)) : Prop where
  once : ∀ name ∈ TYPED_FIELDS, (members.filter fun m => m.1 = name).length ≤ 1
  aud : ∀ value, ("aud", value) ∈ members → ∃ name, value = .str name
  dates : ∀ name ∈ ["exp", "iat"], ∀ value, (name, value) ∈ members → ∃ secs, value = .int secs

section

variable {members : List (String × Json)} {claims : StandardClaims}

theorem once_of_readsAs (h : ReadsAs members claims) :
    ∀ name ∈ TYPED_FIELDS, (members.filter fun m => m.1 = name).length ≤ 1 := by
  intro name hname
  simp only [TYPED_FIELDS, List.mem_cons, List.not_mem_nil, or_false] at hname
  rcases hname with rfl | rfl | rfl | rfl | rfl | rfl | rfl | rfl
  · exact h.sub.once
  · exact h.iss.once
  · exact h.aud.once
  · exact h.exp.once
  · exact h.iat.once
  · exact h.jti.once
  · exact h.role.once
  · exact h.permissions.once

theorem int_of_readTimestamp {value : Json} {t : Option DateTime} {secs : Rat}
    (h : readTimestamp (some value) = some t) (hsecs : value.seconds = some secs) :
    ∃ n, value = .int n := by
  cases value with
  | int n => exact ⟨n, rfl⟩
  | frac q => cases h
  | _ => cases hsecs

theorem typedForms_of_readsAs (hforms : RfcForms members) (h : ReadsAs members claims) :
    TypedForms members := by
  refine ⟨once_of_readsAs h, fun value hmem => ?_, fun name hname value hmem => ?_⟩
  · obtain hname | ⟨names, rfl⟩ := hforms.aud value hmem
    · exact hname
    · cases (h.aud.of_mem hmem).1
  · obtain ⟨secs, hsecs, -⟩ := hforms.dates name hname value hmem
    simp only [List.mem_cons, List.not_mem_nil, or_false] at hname
    rcases hname with rfl | rfl
    · exact int_of_readTimestamp (h.exp.of_mem hmem).1 hsecs
    · exact int_of_readTimestamp (h.iat.of_mem hmem).1 hsecs

theorem exists_readTimestamp {n : ℤ} (hpos : (0 : Rat) ≤ n) (hmax : (n : Rat) * 10 ^ 9 ≤ MAX_UTC) :
    ∃ t, readTimestamp (some (.int n)) = some t := by
  have hpos : 0 ≤ n := by exact_mod_cast hpos
  have hmax : n * 10 ^ 9 ≤ MAX_UTC := by exact_mod_cast hmax
  have hmin : MIN_UTC ≤ n * 10 ^ 9 := by
    unfold MIN_UTC
    omega
  have hread : DateTime.ofTimestamp n = some ⟨n * 10 ^ 9, hmin, hmax⟩ := dif_pos ⟨hmin, hmax⟩
  exact ⟨some _, congrArg (Option.map some) hread⟩

theorem exists_readsAs (hforms : RfcForms members) (h : TypedForms members) :
    ∃ claims, ReadsAs members claims := by
  have hstring : ∀ name ∈ ["sub", "iss", "jti", "role"],
      ∃ value, FieldReads members name readString value := by
    intro name hname
    have htyped : name ∈ TYPED_FIELDS := by
      simp only [List.mem_cons, List.not_mem_nil, or_false] at hname
      rcases hname with rfl | rfl | rfl | rfl <;> decide
    refine exists_fieldReads (h.once name htyped) ⟨none, rfl⟩ fun written hmem => ?_
    obtain ⟨text, rfl⟩ := hforms.strings name hname written hmem
    exact ⟨some text, rfl⟩
  have hdate : ∀ name ∈ ["exp", "iat"], ∃ value, FieldReads members name readTimestamp value := by
    intro name hname
    have htyped : name ∈ TYPED_FIELDS := by
      simp only [List.mem_cons, List.not_mem_nil, or_false] at hname
      rcases hname with rfl | rfl <;> decide
    refine exists_fieldReads (h.once name htyped) ⟨none, rfl⟩ fun written hmem => ?_
    obtain ⟨n, rfl⟩ := h.dates name hname written hmem
    obtain ⟨secs, hsecs, hpos, hmax⟩ := hforms.dates name hname _ hmem
    obtain rfl : (n : Rat) = secs := Option.some.inj hsecs
    exact exists_readTimestamp hpos hmax
  obtain ⟨aud, haud⟩ : ∃ value, FieldReads members "aud" readString value := by
    refine exists_fieldReads (h.once "aud" (by decide)) ⟨none, rfl⟩ fun written hmem => ?_
    obtain ⟨name, rfl⟩ := h.aud written hmem
    exact ⟨some name, rfl⟩
  obtain ⟨permissions, hpermissions⟩ :
      ∃ value, FieldReads members "permissions" readStrings value := by
    refine exists_fieldReads (h.once "permissions" (by decide)) ⟨[], rfl⟩ fun written hmem => ?_
    obtain ⟨names, rfl⟩ := hforms.permissions written hmem
    exact ⟨names, mapM_stringOf names⟩
  obtain ⟨sub, hsub⟩ := hstring "sub" (by decide)
  obtain ⟨iss, hiss⟩ := hstring "iss" (by decide)
  obtain ⟨jti, hjti⟩ := hstring "jti" (by decide)
  obtain ⟨role, hrole⟩ := hstring "role" (by decide)
  obtain ⟨exp, hexp⟩ := hdate "exp" (by decide)
  obtain ⟨iat, hiat⟩ := hdate "iat" (by decide)
  exact ⟨⟨sub, iss, aud, exp, iat, jti, role, permissions, collectExtra members⟩,
    ⟨hsub, hiss, haud, hexp, hiat, hjti, hrole, hpermissions, rfl⟩⟩

end

/-- A token whose payload is accepted as JSON, with the claims in the standard's forms, is accepted
as standard claims exactly when they are in the typed forms. -/
theorem validate_iff_typed (hdecode : B.DecodeChecks) {token : B.Token}
    {members : List (String × Json)}
    (hjson : service.decode B rotation token now = .ok (Json.obj members))
    (hforms : RfcForms members) :
    (∃ claims, service.validate B rotation token now = .ok claims) ↔ TypedForms members := by
  obtain ⟨hauth, payload, hpayload, hread, hvalid⟩ := (decode_eq_ok_iff hdecode).1 hjson
  obtain rfl : payload = .obj members := Option.some.inj hread
  unfold JwtService.validate
  simp only [decode_eq_ok_of_payload hdecode hpayload]
  refine ⟨?_, ?_⟩
  · rintro ⟨claims, -, hclaims, -⟩
    exact typedForms_of_readsAs hforms (readsAs_of_deserialize hclaims)
  · intro htyped
    obtain ⟨claims, hclaims⟩ := exists_readsAs hforms htyped
    exact ⟨claims, hauth, deserialize_of_readsAs hclaims, hvalid⟩

/-- The claims of a token for one audience. -/
def apiClaims (aud : Json) : List (String × Json) :=
  [("aud", aud), ("exp", .int 4600), ("iss", .str "issuer")]

theorem apiClaims_rfcForms {aud : Json}
    (h : (∃ name, aud = .str name) ∨ ∃ names : List String, aud = .arr (names.map .str)) :
    RfcForms (apiClaims aud) := by
  constructor
  · intro name hname value hmem
    simp only [apiClaims, List.mem_cons, Prod.mk.injEq, List.not_mem_nil, or_false] at hmem hname
    rcases hmem with ⟨rfl, -⟩ | ⟨rfl, -⟩ | ⟨-, rfl⟩
    · simp at hname
    · simp at hname
    · exact ⟨_, rfl⟩
  · intro value hmem
    simp only [apiClaims, List.mem_cons, Prod.mk.injEq, List.not_mem_nil, or_false] at hmem
    rcases hmem with ⟨-, rfl⟩ | ⟨hname, -⟩ | ⟨hname, -⟩
    · exact h
    · simp at hname
    · simp at hname
  · intro name hname value hmem
    simp only [apiClaims, List.mem_cons, Prod.mk.injEq, List.not_mem_nil, or_false] at hmem hname
    rcases hmem with ⟨rfl, -⟩ | ⟨-, rfl⟩ | ⟨rfl, -⟩
    · simp at hname
    · exact ⟨4600, rfl, by norm_num, by norm_num [MAX_UTC]⟩
    · simp at hname
  · intro value hmem
    simp [apiClaims] at hmem

theorem validate_iff_typed_string :
    (∃ claims, (JwtService.new audienceConfig).validate transparentBackend false
        (secretToken (apiClaims (.str "api"))) 1000 = .ok claims)
      ↔ TypedForms (apiClaims (.str "api")) :=
  validate_iff_typed transparent_decodeChecks rfl (apiClaims_rfcForms (.inl ⟨_, rfl⟩))

/-- A token for two audiences is accepted as JSON and not as standard claims. -/
theorem two_audiences_not_validated :
    (JwtService.new audienceConfig).decode transparentBackend false
        (secretToken (apiClaims (.arr [.str "api", .str "other"]))) 1000
        = .ok (Json.obj (apiClaims (.arr [.str "api", .str "other"])))
      ∧ RfcForms (apiClaims (.arr [.str "api", .str "other"]))
      ∧ ¬ ∃ claims, (JwtService.new audienceConfig).validate transparentBackend false
        (secretToken (apiClaims (.arr [.str "api", .str "other"]))) 1000 = .ok claims := by
  refine ⟨rfl, apiClaims_rfcForms (.inr ⟨["api", "other"], rfl⟩), ?_⟩
  rintro ⟨claims, h⟩
  cases h

end TokenKit
