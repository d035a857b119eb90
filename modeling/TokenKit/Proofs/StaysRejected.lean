import TokenKit.Proofs.Overlap
import TokenKit.Proofs.RedisAnswers
import TokenKit.Proofs.RevokedToken

/-!
# Revocations that outlive the token

`decode_standard` reads the clock when it checks the claims, and asks the store after that. If a
store keeps a revocation for as long as a token can be accepted, and for the time that passes in
between, then a look that comes too late for the revocation belongs to a token that had expired
(`decodeStandard_ne_ok`). So a revoked token is never accepted again, however long after: neither
with the Redis store (`revoked_stays_rejected_over_redis`), nor with the in-memory one under
overlapping calls, as long as they insert fewer than its cap (`revoked_stays_rejected_overlapping`).
-/

namespace TokenKit

open JwtService StepMachine RedisWorld

section Minted

variable {B : Backend} {rotation : Bool} {config : JwtConfig}

/-- The clock can be set to any instant. -/
theorem utcNow_of_nanos (now : UtcNow) :
    utcNow now.nanos.toNat (freshStore 1 none 0) = some now := by
  have hnanos : ((systemTime now.nanos.toNat (freshStore 1 none 0) : ℕ) : ℤ) = now.nanos := by
    show ((now.nanos.toNat + 0 : ℕ) : ℤ) = now.nanos
    have := now.nonneg
    omega
  unfold utcNow
  rw [dif_pos (hnanos ▸ now.le_max)]
  obtain ⟨⟨nanos, hmin, hmax⟩, hnonneg⟩ := now
  simp only [Option.some.injEq, UtcNow.mk.injEq, DateTime.mk.injEq]
  exact hnanos

/-- A token minted with `exp` and `jti` unset carries the drawn `jti`, and expires one time to live
after the second it is minted in. -/
theorem payload_of_mint (hencode : B.EncodeRecords) {now : UtcNow} {kind : TokenKind}
    {uuid : String} {claims : StandardClaims} (hexp : claims.exp = none) (hjti : claims.jti = none)
    {token : B.Token}
    (hmint : (JwtService.new config).mint B rotation now uuid claims kind = some (.ok token)) :
    ∃ members exp, B.payload token = some (.obj members) ∧ ("exp", .int exp) ∈ members
      ∧ ("jti", .str uuid) ∈ members ∧ exp = now.nanos / 10 ^ 9 + config.tokenTtl kind := by
  have hat : mintAt B rotation config now.nanos.toNat (freshStore 1 none 0) kind uuid claims
      = some (.ok token) := by
    unfold mintAt
    rw [utcNow_of_nanos]
    exact hmint
  obtain ⟨members, exp, hpayload, hexpin, hjtiin, hexpeq⟩ := payload_of_mintAt hencode hexp hjti hat
  refine ⟨members, exp, hpayload, hexpin, hjtiin, ?_⟩
  rw [hexpeq]
  have := now.nonneg
  show ((now.nanos.toNat + 0 : ℕ) / 10 ^ 9 : ℕ) + config.tokenTtl kind = _
  omega

/-- A store that does not let the `jti` pass while the token can be accepted, nor a little longer,
keeps it rejected. -/
theorem decodeStandard_ne_ok (hdecode : B.DecodeChecks) (hencode : B.EncodeRecords)
    (hexpired : B.RejectsExpired) (hvalidate : config.validateExp = true) {now : UtcNow}
    {kind : TokenKind} {uuid : String} {claims : StandardClaims} (hexp : claims.exp = none)
    (hjti : claims.jti = none) {token : B.Token}
    (hmint : (JwtService.new config).mint B rotation now uuid claims kind = some (.ok token))
    {isRevoked : String → Except JwtError Bool} {readAt : ℕ}
    (hrevoked : readAt < now.nanos
        + (config.tokenTtl kind + config.leeway.getD DEFAULT_LEEWAY_SECS + 1) * 10 ^ 9 →
      isRevoked uuid ≠ .ok false) :
    ∀ found, ((JwtService.new config).withRevocation isRevoked).decodeStandard B rotation token
      (readAt / 10 ^ 9 : ℕ) ≠ .ok found := by
  intro found hfound
  obtain ⟨members, exp, hpayload, hexpin, hjtiin, hexpeq⟩ :=
    payload_of_mint hencode hexp hjti hmint
  obtain ⟨read, hread, -⟩ := Except.ok_of_bind.1 hfound
  obtain ⟨-, hdes, hvalid⟩ := (decode_eq_ok_of_payload hdecode hpayload).1 hread
  have hreads := StandardClaims.readsAs_of_deserialize hdes
  have hid : read.jti = some uuid := (Option.some.inj (hreads.jti.of_mem hjtiin).1).symm
  have hlive := hexpired config.buildValidation _ exp members hvalidate
    (hreads.exp.of_mem hexpin).2 hvalid
  have hleeway : (config.buildValidation.leeway : ℤ) = config.leeway.getD DEFAULT_LEEWAY_SECS := rfl
  have hsame : (JwtService.new config).validate B rotation token (readAt / 10 ^ 9 : ℕ) = .ok read :=
    hread
  have hrejected := decodeStandard_eq_revoked hsame hid (hrevoked (by omega))
  cases hrejected.symm.trans hfound

end Minted

/-! ## Over Redis -/

/-- With revocations that are kept for a token's life, the leeway, a second, and the time between
`decode_standard`'s reading of the clock and its return, a token is rejected by every
`decode_standard` that asks the store after the revocation of its `jti` has returned. -/
theorem revoked_stays_rejected_over_redis {server : RedisServer} (hserver : server.KeysLast)
    (store : RedisRevocationStore) (httl : 0 < store.ttl) (calls : ℕ → RedisCall)
    (connection : Option Bool) (up : Bool) (state : server.State) (now : ℕ)
    (before during after : List (RedisEvent server)) (r c : ℕ)
    (B : Backend) (hdecode : B.DecodeChecks) (hencode : B.EncodeRecords)
    (hexpired : B.RejectsExpired) (rotation : Bool) (config : JwtConfig)
    (hvalidate : config.validateExp = true) (boot delay : ℕ) (mintedAt : UtcNow) (kind : TokenKind)
    (uuid : String) (claims : StandardClaims) (hexp : claims.exp = none) (hjti : claims.jti = none)
    (token : B.Token)
    (hmint : (JwtService.new config).mint B rotation mintedAt uuid claims kind = some (.ok token))
    (hcovers : (config.tokenTtl kind + config.leeway.getD DEFAULT_LEEWAY_SECS + 1) * 10 ^ 9 + delay
      ≤ store.ttl * 10 ^ 9)
    (hrevoke : calls r = .revoke uuid) (hlook : calls c = .isRevoked uuid)
    (hminted : mintedAt.nanos
      ≤ boot + (redisRun store calls (storeWith connection up state now) before).now)
    (hstart : (redisRun store calls (storeWith connection up state now) before).pc r
      = .reading false)
    (hrevoked : (redisRun store calls (storeWith connection up state now)
      (before ++ during)).pc r = .returned (.ok .done))
    (hlater : (redisRun store calls (storeWith connection up state now)
      (before ++ during)).pc c = .reading false)
    (hspares : ∀ x ∈ redisSteps store calls (storeWith connection up state now)
      (before ++ during ++ after), SparesKey uuid x.1 x.2)
    (result : Except String RedisReply)
    (hret : (redisRun store calls (storeWith connection up state now)
      (before ++ during ++ after)).pc c = .returned result)
    (readAt : ℕ) (hdelay : (redisRun store calls (storeWith connection up state now)
      (before ++ during ++ after)).now ≤ readAt + delay) :
    ∀ found, ((JwtService.new config).withRevocation
        fun _ => isRevokedResult result).decodeStandard B rotation token
      ((boot + readAt) / 10 ^ 9 : ℕ) ≠ .ok found := by
  refine decodeStandard_ne_ok hdecode hencode hexpired hvalidate hexp hjti hmint fun hlive => ?_
  rw [redisRun_append] at hrevoked hlater
  rw [List.append_assoc, redisRun_append _ before] at hdelay hret
  rw [List.append_assoc, redisSteps_append] at hspares
  -- the key is there until the look has returned
  exact isRevokedResult_of_revoked hserver httl hrevoke hlook
    (waitsOnlyIfSent_run waitsOnlyIfSent_storeWith before) hstart hrevoked hlater
    (fun x hx => hspares x (List.mem_append_right _ hx)) (by omega) hret

/-- An hour's token is revoked, and looked for two hours after: by then its key is gone. -/
def revokeThenWait : List (RedisEvent deadlineServer) :=
  [.step 0, .step 0, .connected 0, .step 0, .execute 0, .reply 0, .tick (7200 * 10 ^ 9)]

def lookTwoHoursLater : List (RedisEvent deadlineServer) :=
  [.step 1, .step 1, .execute 1, .reply 1]

theorem lookTwoHoursLater_finds_nothing :
    (redisRun ⟨3661⟩ revokeAndLookCalls (storeWith none true deadlineServer.fresh 0)
      ([] ++ revokeThenWait ++ lookTwoHoursLater)).pc 1 = .returned (.ok (.found false)) := by
  rw [List.nil_append, redisRun_append]
  simp [redisRun, revokeThenWait, lookTwoHoursLater, redisStep, callSection, storeWith,
    readConnection, lockConnection, connected, execute, reply, goto, RedisCall.command,
    revokeAndLookCalls, deadlineServer, Function.update, -AList.insert_empty, AList.lookup_insert]

theorem revoked_stays_rejected_over_redis_hours :
    (((quickStart (some "issuer")).withRevocation
        fun _ => isRevokedResult (.ok (.found false))).decodeStandard transparentBackend true
      (quickStartToken [("iss", .str "issuer")])
        ((1000 * 10 ^ 9 + 7200 * 10 ^ 9) / 10 ^ 9 : ℕ)).toOption = none :=
  Except.toOption_eq_none.2 <|
    revoked_stays_rejected_over_redis deadlineServer_keysLast ⟨3661⟩ (by decide) revokeAndLookCalls
      none true deadlineServer.fresh 0 [] revokeThenWait lookTwoHoursLater 0 1 transparentBackend
      transparent_decodeChecks transparent_encodeRecords transparent_rejectsExpired true
      (quickStart (some "issuer")).config rfl (1000 * 10 ^ 9) 0 quickStartTime .access "id"
      quickStartClaims rfl rfl (quickStartToken [("iss", .str "issuer")]) rfl (by decide) rfl rfl
      (by decide) rfl rfl rfl
      (by simp [revokeThenWait, lookTwoHoursLater, redisSteps, taken, SparesKey])
      _ lookTwoHoursLater_finds_nothing (7200 * 10 ^ 9) (by decide)

/-! ## Under overlapping calls -/

section Overlapping

variable {jtis : ℕ → String} {w : SharedStore}

theorem now_le_sections (es : List Section) : w.now ≤ (run (sectionStep jtis) w es).now := by
  refine run_inv (sectionStep jtis) (P := fun v => w.now ≤ v.now) (fun v e h => ?_) es le_rfl
  cases e with
  | revoke c =>
    simp only [sectionStep]
    split <;> exact h
  | tick d => exact le_trans h (Nat.le_add_right _ _)
  | _ => exact h

/-- The log only grows. -/
theorem log_of_sections (jtis : ℕ → String) (cap : ℕ) (a : SharedLog) (es : List Section) :
    ∃ later, (run (sharedLogStep cap jtis) a es).log = a.log ++ later := by
  refine run_inv (sharedLogStep cap jtis) (P := fun b => ∃ later, b.log = a.log ++ later)
    (fun b e h => ?_) es ⟨[], by simp⟩
  obtain ⟨later, hlog⟩ := h
  cases e with
  | revoke c =>
    simp only [sharedLogStep]
    split
    · exact ⟨later, hlog⟩
    · refine ⟨later ++ [(jtis c, b.now)], ?_⟩
      rw [hlog, List.append_assoc]
    · exact ⟨later, hlog⟩
  | _ => exact ⟨later, hlog⟩

end Overlapping

/-- With entries that are kept for as long, and fewer than the cap inserted from the revocation on,
a token is rejected by every `decode_standard` that asks the store after its `jti` was inserted,
however the calls overlap. -/
theorem revoked_stays_rejected_overlapping (maxEntries : ℕ) (ttl : Option ℕ) (now : ℕ)
    (jtis : ℕ → String) (hdistinct : Function.Injective jtis) (before after : List Section) (c : ℕ)
    (B : Backend) (hdecode : B.DecodeChecks) (hencode : B.EncodeRecords)
    (hexpired : B.RejectsExpired) (rotation : Bool) (config : JwtConfig)
    (hvalidate : config.validateExp = true) (boot delay : ℕ) (mintedAt : UtcNow) (kind : TokenKind)
    (claims : StandardClaims) (hexp : claims.exp = none) (hjti : claims.jti = none)
    (token : B.Token)
    (hmint : (JwtService.new config).mint B rotation mintedAt (jtis c) claims kind
      = some (.ok token))
    (hcovers : ∀ R, ttl = some R →
      (config.tokenTtl kind + config.leeway.getD DEFAULT_LEEWAY_SECS + 1) * 10 ^ 9 + delay ≤ R)
    (hminted : mintedAt.nanos
      ≤ boot + (run (sectionStep jtis) (freshShared maxEntries ttl now) before).now)
    (hinserts : (run (sectionStep jtis) (freshShared maxEntries ttl now) before).pc c = .roomMade)
    (hroom : (run (sharedLogStep (max maxEntries 1) jtis) (freshLog now)
        (before ++ .revoke c :: after)).log.length
      < (run (sharedLogStep (max maxEntries 1) jtis) (freshLog now) before).log.length
        + max maxEntries 1)
    (readAt : ℕ) (hdelay : (run (sectionStep jtis) (freshShared maxEntries ttl now)
      (before ++ .revoke c :: after)).now ≤ readAt + delay) :
    ∀ found, ((JwtService.new config).withRevocation fun jti =>
        .ok ((run (sectionStep jtis) (freshShared maxEntries ttl now)
            (before ++ .revoke c :: after)).store.isRevoked jti
          (run (sectionStep jtis) (freshShared maxEntries ttl now)
            (before ++ .revoke c :: after)).now)).decodeStandard B rotation token
      ((boot + readAt) / 10 ^ 9 : ℕ) ≠ .ok found := by
  refine decodeStandard_ne_ok hdecode hencode hexpired hvalidate hexp hjti hmint fun hlive => ?_
  obtain ⟨_, _, hstart⟩ := remembers_run hdistinct maxEntries ttl now before
  obtain ⟨_, _, hend⟩ :=
    remembers_run hdistinct maxEntries ttl now (before ++ .revoke c :: after)
  set start := run (sectionStep jtis) (freshShared maxEntries ttl now) before
  set last := run (sectionStep jtis) (freshShared maxEntries ttl now)
    (before ++ .revoke c :: after)
  set log := run (sharedLogStep (max maxEntries 1) jtis) (freshLog now) before
  obtain ⟨later, hlog⟩ : ∃ later, (run (sharedLogStep (max maxEntries 1) jtis) (freshLog now)
      (before ++ .revoke c :: after)).log = log.log ++ (jtis c, start.now) :: later := by
    have hpc : log.pc c = .roomMade := hstart.pc ▸ hinserts
    obtain ⟨later, hlog⟩ := log_of_sections jtis (max maxEntries 1)
      (sharedLogStep (max maxEntries 1) jtis log (.revoke c)) after
    refine ⟨later, ?_⟩
    rw [run_append, run_cons, hlog, hstart.now]
    simp only [sharedLogStep, hpc, List.append_assoc, List.singleton_append]
  have hlen : later.length + 1 < max maxEntries 1 := by
    rw [hlog, List.length_append, List.length_cons] at hroom
    omega
  have hl : Live last.store.ttl last.now start.now := by
    have httl : last.store.ttl = ttl := ttl_of_sections maxEntries ttl now jtis _
    have hle : start.now ≤ last.now := by
      show start.now ≤ (run (sectionStep jtis) (freshShared maxEntries ttl now)
        (before ++ .revoke c :: after)).now
      rw [run_append]
      exact now_le_sections _
    rw [httl]
    intro R hR
    have hlong := hcovers R hR
    omega
  have hfound := hend.isRevoked_of_recent (forgotten_le_of_sections _ now _) hlog hlen hl
  simp [hfound]

/-- The calls are named by how many letters follow the token's `jti`. -/
def idsOf (c : ℕ) : String := "id" ++ lettersOf c

theorem idsOf_injective : Function.Injective idsOf := by
  intro c c' h
  refine lettersOf_injective (String.toList_inj.1 ?_)
  have h := congrArg String.toList h
  unfold idsOf at h
  simpa using h

/-- Two revocations overlap, the token's inserted first. -/
def twoOverlapping : SharedStore :=
  run (sectionStep idsOf) (freshShared 3 (some (3661 * 10 ^ 9)) 0)
    ([.revoke 1, .revoke 0] ++ .revoke 0 :: [.revoke 1])

theorem revoked_stays_rejected_overlapping_two :
    (((quickStart (some "issuer")).withRevocation fun jti =>
        .ok (twoOverlapping.store.isRevoked jti twoOverlapping.now)).decodeStandard
      transparentBackend true (quickStartToken [("iss", .str "issuer")])
      ((1000 * 10 ^ 9 + 0) / 10 ^ 9 : ℕ)).toOption = none :=
  Except.toOption_eq_none.2 <|
    revoked_stays_rejected_overlapping 3 (some (3661 * 10 ^ 9)) 0 idsOf idsOf_injective
      [.revoke 1, .revoke 0] [.revoke 1] 0 transparentBackend transparent_decodeChecks
      transparent_encodeRecords transparent_rejectsExpired true (quickStart (some "issuer")).config
      rfl (1000 * 10 ^ 9) 0 quickStartTime .access quickStartClaims rfl rfl
      (quickStartToken [("iss", .str "issuer")]) rfl (by rintro _ ⟨⟩; decide) (by decide) rfl
      (by decide) 0 (by decide)

end TokenKit
