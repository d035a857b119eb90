import TokenKit.Revocation

/-!
# What a bounded store is for

The abstract store forgets nothing: it logs every revocation with its insertion time. A `jti` is
revoked when the log's last `cap` entries hold it and that entry is within the time to live.

When calls overlap, the abstract store also counts how many entries from the front of the log it has
forgotten (`SharedLog`). The section that makes room forgets all but the last `cap - 1`, and the
section that inserts forgets nothing.
-/

namespace TokenKit

/-- An entry inserted at `inserted` has not reached the time to live by `now`. -/
def Live (ttl : Option ℕ) (now inserted : ℕ) : Prop :=
  ∀ d, ttl = some d → now - inserted < d

/-- Every revocation made, oldest first, and the clock. -/
structure RevocationLog where
  log : List (String × ℕ)
  now : ℕ

def logStep (a : RevocationLog) : StoreCall → RevocationLog
  | .revoke jti lag => ⟨a.log ++ [(jti, a.now + lag)], a.now + lag⟩
  | .isRevoked _ => a
  | .len => a
  | .isEmpty => a
  | .tick d => ⟨a.log, a.now + d⟩

/-- The entry for `jti` has fewer than `cap` entries after it and is live. -/
def RevocationLog.Revoked (a : RevocationLog) (cap : ℕ) (ttl : Option ℕ) (jti : String) : Prop :=
  ∃ before t after, a.log = before ++ (jti, t) :: after ∧ Live ttl a.now t ∧ after.length < cap

/-! ## Overlapping calls -/

/-- Every insertion made, oldest first; how many of them are forgotten; the clock; and where every
call is. -/
structure SharedLog where
  log : List (String × ℕ)
  forgotten : ℕ
  now : ℕ
  pc : ℕ → RevokePc

def sharedLogStep (cap : ℕ) (jtis : ℕ → String) (a : SharedLog) : Section → SharedLog
  | .revoke c =>
    match a.pc c with
    | .started =>
      { a with
        forgotten := max a.forgotten (a.log.length + 1 - cap)
        pc := Function.update a.pc c .roomMade }
    | .roomMade =>
      { a with
        log := a.log ++ [(jtis c, a.now)]
        pc := Function.update a.pc c .returned }
    | .returned => a
  | .isRevoked _ => a
  | .len => a
  | .isEmpty => a
  | .tick d => { a with now := a.now + d }

def freshLog (now : ℕ) : SharedLog := ⟨[], 0, now, fun _ => .started⟩

/-- An entry for `jti` is not forgotten, and live. -/
def SharedLog.Revoked (a : SharedLog) (ttl : Option ℕ) (jti : String) : Prop :=
  ∃ t, (jti, t) ∈ a.log.drop a.forgotten ∧ Live ttl a.now t

end TokenKit
