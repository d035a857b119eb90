import TokenKit.Proofs.Minting

/-!
# Minting with any time to live

Two operations on the way to an expiry are partial: a time to live can be too long for a `Duration`,
and the sum with the current time can leave the range of instants. The range of instants is the
narrower of the two (`stampedExp_ne_none_iff`), so minting panics exactly when it leaves no expiry
that can be represented (`minting_returns_iff`).
-/

namespace TokenKit

open JwtService

variable {B : Backend} {rotation : Bool} {service : JwtService} {now : UtcNow} {uuid : String}
  {claims : StandardClaims} {ttlSecs : ℤ}

/-- An expiry is set, or the instant one time to live from now can be represented. -/
def ExpiryInRange (now : UtcNow) (ttlSecs : ℤ) (claims : StandardClaims) : Prop :=
  claims.exp = none →
    MIN_UTC ≤ now.nanos + ttlSecs * 10 ^ 9 ∧ now.nanos + ttlSecs * 10 ^ 9 ≤ MAX_UTC

/-- A call that mints returns, and if with a token, then an expiry that was unset is stamped one
time to live from now. -/
structure MintsInTime (B : Backend) (rotation : Bool) (service : JwtService) (now : UtcNow)
    (uuid : String) (claims : StandardClaims) (ttlSecs : ℤ)
    (minted : Option (Except JwtError B.Token)) : Prop where
  returns : minted ≠ none
  expiry : ∀ token, minted = some (.ok token) → claims.exp = none →
    ∃ stamped exp, service.stampedStandard now uuid claims ttlSecs = some stamped
      ∧ service.encode B rotation stamped = .ok token
      ∧ stamped.exp = some exp ∧ exp.nanos = now.nanos + ttlSecs * 10 ^ 9

theorem ofNanos_ne_none_iff {nanos : ℤ} :
    DateTime.ofNanos nanos ≠ none ↔ MIN_UTC ≤ nanos ∧ nanos ≤ MAX_UTC := by
  unfold DateTime.ofNanos
  split_ifs with h <;> simp [h]

theorem durationSeconds_of_natAbs_le (h : ttlSecs.natAbs ≤ MAX_DURATION_SECS) :
    durationSeconds ttlSecs = some (ttlSecs * 10 ^ 9) := if_pos h

/-- Whatever stays in the range of instants is short enough for a `Duration`. -/
theorem natAbs_le_of_range (hmin : MIN_UTC ≤ now.nanos + ttlSecs * 10 ^ 9)
    (hmax : now.nanos + ttlSecs * 10 ^ 9 ≤ MAX_UTC) : ttlSecs.natAbs ≤ MAX_DURATION_SECS := by
  have hnow := now.nonneg
  have hle := now.le_max
  unfold MIN_UTC at hmin
  unfold MAX_UTC at hmax hle
  unfold MAX_DURATION_SECS
  omega

theorem stampedExp_ne_none_iff :
    stampedExp now ttlSecs claims.exp ≠ none ↔ ExpiryInRange now ttlSecs claims := by
  unfold ExpiryInRange
  rcases claims.exp with _ | exp
  · have hadd : stampedExp now ttlSecs none
        = (durationSeconds ttlSecs).bind fun d => DateTime.ofNanos (now.nanos + d) := rfl
    rw [hadd]
    constructor
    · intro h _
      by_cases hlong : ttlSecs.natAbs ≤ MAX_DURATION_SECS
      · rw [durationSeconds_of_natAbs_le hlong] at h
        exact ofNanos_ne_none_iff.1 h
      · exact absurd (by rw [durationSeconds, if_neg hlong]; rfl) h
    · intro h
      obtain ⟨hmin, hmax⟩ := h rfl
      rw [durationSeconds_of_natAbs_le (natAbs_le_of_range hmin hmax)]
      exact ofNanos_ne_none_iff.2 ⟨hmin, hmax⟩
  · simp [stampedExp]

/-- Either kind of token is minted from the claims it is stamped with. -/
theorem mintsInTime_iff :
    MintsInTime B rotation service now uuid claims ttlSecs
        ((service.stampedStandard now uuid claims ttlSecs).bind fun stamped =>
          some (service.encode B rotation stamped))
      ↔ ExpiryInRange now ttlSecs claims := by
  have hstamp : service.stampedStandard now uuid claims ttlSecs ≠ none
      ↔ stampedExp now ttlSecs claims.exp ≠ none := by
    unfold stampedStandard
    rcases stampedExp now ttlSecs claims.exp with _ | exp <;> simp
  rw [← stampedExp_ne_none_iff, ← hstamp]
  constructor
  · intro h hnone
    exact h.returns (by rw [hnone]; rfl)
  · intro h
    obtain ⟨stamped, hstamped⟩ := Option.ne_none_iff_exists'.1 h
    refine ⟨by simp [hstamped], fun token hmint hexp => ?_⟩
    rw [hstamped] at hmint
    obtain ⟨exp, hsome, hnanos⟩ := (stamped_of_stampedStandard hstamped).exp hexp
    exact ⟨stamped, exp, hstamped, Option.some.inj hmint, hsome, hnanos⟩

/-- Minting an access or a refresh token returns, and stamps its expiry, exactly when an expiry is
set or the current time plus that token's time to live can be represented. -/
theorem minting_returns_iff (B : Backend) (rotation : Bool) (service : JwtService) (now : UtcNow)
    (uuid : String) (claims : StandardClaims) :
    (MintsInTime B rotation service now uuid claims service.config.accessTokenTtl
        (service.encodeStandard B rotation now uuid claims)
      ↔ ExpiryInRange now service.config.accessTokenTtl claims)
    ∧ (MintsInTime B rotation service now uuid claims service.config.refreshTokenTtl
        (service.encodeRefreshStandard B rotation now uuid claims)
      ↔ ExpiryInRange now service.config.refreshTokenTtl claims) :=
  ⟨mintsInTime_iff, mintsInTime_iff⟩

/-- Access tokens that are to live as long as an `i64` can say, and refresh tokens that are to
outlive the last instant. -/
def neverExpiring : JwtService :=
  .new { JwtConfig.default with
    secret := "my-secret-key"
    accessTokenTtl := 9223372036854775807
    refreshTokenTtl := 10000000000000 }

/-- Of the first no `Duration` can be made, and the second leads past the last instant. -/
theorem long_lived_minting_panics :
    neverExpiring.encodeStandard transparentBackend false quickStartTime "id" StandardClaims.default
        = none
      ∧ durationSeconds neverExpiring.config.refreshTokenTtl ≠ none
      ∧ neverExpiring.encodeRefreshStandard transparentBackend false quickStartTime "id"
        StandardClaims.default = none := by
  refine ⟨rfl, ?_, rfl⟩
  decide

end TokenKit
