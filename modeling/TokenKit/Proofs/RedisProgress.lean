import TokenKit.Proofs.RedisDrops
import TokenKit.Proofs.Failures
import Mathlib.Tactic.IntervalCases

/-!
# Calls on the Redis store return

A call waits for one other call at most, the one that opens a connection under the lock
(`inTheWay`), and never for one that has been dropped. What takes a call on lowers its rank. So when
each call gets its turn again and again, and connections and commands come to something, good or
bad, until it is dropped, all calls return or are dropped, and the lock is free in the end
(`redis_calls_return`).
-/

namespace TokenKit

open StepMachine RedisWorld CallMachine

variable {server : RedisServer} {store : RedisRevocationStore} {calls : ℕ → RedisCall}
  {w w' w₀ : RedisWorld server} {e : RedisEvent server} {n c : ℕ}
  {schedule : ℕ → DropEvent (RedisEvent server)}

/-! ## What takes a call on -/

/-- The call that has to go on before the call can: itself, or the one that opens a connection under
the lock that it waits for. -/
def inTheWay (w : RedisWorld server) (c : ℕ) : ℕ :=
  match w.pc c with
  | .reading _ => w.lock.getD c
  | .locking _ => w.lock.getD c
  | .resetting => w.lock.getD c
  | _ => c

/-- What a call waits for. -/
inductive RedisWait where
  | turn
  | connection
  | reply

def RedisPc.wait : RedisPc → RedisWait
  | .opening _ _ => .connection
  | .waiting _ _ _ => .reply
  | _ => .turn

/-- What the call waits for comes about. -/
def ComesAbout (c : ℕ) (wait : RedisWait) (w : RedisWorld server) (e : RedisEvent server) : Prop :=
  match wait with
  | .turn => e = .step c
  | .connection => (∃ text, e = .connectFailed c text) ∨ e = .connected c ∧ w.up = true
  | .reply => (∃ text, e = .fail c text)
    ∨ e = .reply c ∧ ∃ retry conn reply, w.pc c = .waiting retry conn (some reply)

theorem inTheWay_eq (w : RedisWorld server) (c : ℕ) :
    w.lock = some (inTheWay w c) ∨ inTheWay w c = c ∧
      (w.lock = none ∨ (w.pc c).wait ≠ .turn ∨ (∃ retry conn, w.pc c = .holding retry conn)
        ∨ ∃ result, w.pc c = .returned result) := by
  unfold inTheWay
  rcases hlock : w.lock with _ | holder
  · rcases hpc : w.pc c <;> simp
  · rcases hpc : w.pc c <;> simp [RedisPc.wait]

theorem rank_lt_of_turn (hwait : (w.pc c).wait = .turn)
    (hfree : w.lock = none ∨ ∃ retry conn, w.pc c = .holding retry conn)
    (hpc : ∀ result, w.pc c ≠ .returned result) :
    ((redisStep store calls w (.step c)).pc c).rank < (w.pc c).rank := by
  rcases hstate : w.pc c with retry | retry | ⟨retry, conn⟩ | ⟨retry, conn⟩ |
    ⟨retry, conn, answer⟩ | _ | result
  · have hlock : w.lock = none := hfree.resolve_right (by simp [hstate])
    rcases hconn : w.connection with _ | conn <;>
      simp [redisStep, callSection, hstate, readConnection, hlock, hconn, RedisPc.rank]
  · have hlock : w.lock = none := hfree.resolve_right (by simp [hstate])
    rcases hconn : w.connection with _ | conn <;>
      simp [redisStep, callSection, hstate, lockConnection, hlock, hconn, RedisPc.rank]
  · simp [hstate, RedisPc.wait] at hwait
  · simp [redisStep, callSection, hstate, RedisPc.rank]
  · simp [hstate, RedisPc.wait] at hwait
  · have hlock : w.lock = none := hfree.resolve_right (by simp [hstate])
    simp [redisStep, callSection, hstate, resetConnection, hlock, RedisPc.rank]
  · exact absurd hstate (hpc result)

/-- Where what it waits for comes about, the call in the way of one that has not returned is taken
on. -/
theorem Locked.rank_lt (hw : Locked w) (hpc : ∀ result, w.pc c ≠ .returned result)
    (h : ComesAbout (inTheWay w c) (w.pc (inTheWay w c)).wait w e) :
    ((redisStep store calls w e).pc (inTheWay w c)).rank < (w.pc (inTheWay w c)).rank := by
  rcases hwait : (w.pc (inTheWay w c)).wait
  · rw [hwait] at h
    obtain rfl : e = .step (inTheWay w c) := h
    rcases inTheWay_eq w c with hlock | ⟨hc, hfree⟩
    · obtain ⟨retry, conn, hopening⟩ := hw.opening _ hlock
      simp [hopening, RedisPc.wait] at hwait
    · rw [hc] at hwait ⊢
      refine rank_lt_of_turn hwait ?_ hpc
      rcases hfree with hlock | hnot | hholding | ⟨result, hret⟩
      · exact .inl hlock
      · exact absurd hwait hnot
      · exact .inr hholding
      · exact absurd hret (hpc result)
  · rw [hwait] at h
    rcases hstate : w.pc (inTheWay w c) with retry | retry | ⟨retry, conn⟩ | ⟨retry, conn⟩ |
      ⟨retry, conn, answer⟩ | _ | result
    case opening =>
      rcases h with ⟨text, rfl⟩ | ⟨rfl, hup⟩
      · simp [redisStep, connectFailed, hstate, RedisPc.rank]
      · simp [redisStep, connected, hstate, hup, RedisPc.rank]
    all_goals simp [hstate, RedisPc.wait] at hwait
  · rw [hwait] at h
    rcases hstate : w.pc (inTheWay w c) with retry | retry | ⟨retry, conn⟩ | ⟨retry, conn⟩ |
      ⟨retry, conn, answer⟩ | _ | result
    case waiting =>
      have hrank := RedisPc.rank_waiting retry conn answer
      rcases h with ⟨text, rfl⟩ | ⟨rfl, retry', conn', answer', hreply⟩
      · cases retry
        · simpa [redisStep, fail, hstate, RedisPc.rank] using hrank
        · simpa [redisStep, fail, hstate, RedisPc.rank] using hrank
      · rw [hreply] at hstate
        cases hstate
        simp [redisStep, reply, hreply, RedisPc.rank]
    all_goals simp [hstate, RedisPc.wait] at hwait

/-- Where a call is, but for whether the server has executed its command. -/
def RedisPc.unanswered : RedisPc → RedisPc
  | waiting retry conn _ => waiting retry conn none
  | pc => pc

theorem inTheWay_unanswered (w : RedisWorld server) (c : ℕ) : inTheWay w c
    = match (w.pc c).unanswered with
      | .reading _ => w.lock.getD c
      | .locking _ => w.lock.getD c
      | .resetting => w.lock.getD c
      | _ => c := by
  unfold inTheWay
  rcases w.pc c <;> rfl

theorem wait_unanswered (pc : RedisPc) : pc.unanswered.wait = pc.wait := by
  cases pc <;> rfl

/-- A move changes no call but for what the server executes, and not the lock, or takes its own call
on. -/
theorem RedisMove.rest_or (h : RedisMove store calls w e w') :
    (w'.lock = w.lock ∧ (∀ c, (w'.pc c).unanswered = (w.pc c).unanswered)
        ∧ (w'.pc = w.pc ∨ ∃ c, e = .execute c))
      ∨ ∃ c, e.doneBy = some c ∧ (w'.pc c).unanswered.rank < (w.pc c).unanswered.rank
        ∧ ∀ c', c' ≠ c → w'.pc c' = w.pc c' := by
  have hothers : ∀ (v : RedisWorld server) (c : ℕ) (pc : RedisPc), v.pc = w.pc →
      ∀ c', c' ≠ c → (v.goto c pc).pc c' = w.pc c' := by
    intro v c pc hv c' hne
    rw [goto_pc, if_neg hne, hv]
  cases h with
  | idle | crash | restart | breaks | elsewhere | tick => exact .inl ⟨rfl, fun _ => rfl, .inl rfl⟩
  | executes c retry conn hpc =>
    refine .inl ⟨rfl, fun d => ?_, .inr ⟨c, rfl⟩⟩
    rw [goto_pc]
    split_ifs with hd
    · rw [hd, hpc]
      rfl
    · rfl
  | found c retry conn hpc =>
    refine .inr ⟨c, rfl, ?_, hothers _ c _ rfl⟩
    rcases hpc with hpc | hpc <;> simp [hpc, RedisPc.unanswered, RedisPc.rank]
  | missed c retry hpc =>
    exact .inr ⟨c, rfl, by simp [hpc, RedisPc.unanswered, RedisPc.rank], hothers _ c _ rfl⟩
  | opens c retry hpc =>
    exact .inr ⟨c, rfl, by simp [hpc, RedisPc.unanswered, RedisPc.rank], hothers _ c _ rfl⟩
  | sends c retry conn hpc =>
    exact .inr ⟨c, rfl, by simp [hpc, RedisPc.unanswered, RedisPc.rank], hothers _ c _ rfl⟩
  | resets c hpc =>
    exact .inr ⟨c, rfl, by simp [hpc, RedisPc.unanswered, RedisPc.rank], hothers _ c _ rfl⟩
  | connects c retry conn hpc =>
    exact .inr ⟨c, rfl, by simp [hpc, RedisPc.unanswered, RedisPc.rank], hothers _ c _ rfl⟩
  | refused c text retry conn hpc =>
    exact .inr ⟨c, rfl, by simp [hpc, RedisPc.unanswered, RedisPc.rank], hothers _ c _ rfl⟩
  | replies c retry conn answer hpc =>
    exact .inr ⟨c, rfl, by simp [hpc, RedisPc.unanswered, RedisPc.rank], hothers _ c _ rfl⟩
  | failsOnce c text conn answer hpc =>
    exact .inr ⟨c, rfl, by simp [hpc, RedisPc.unanswered, RedisPc.rank], hothers _ c _ rfl⟩
  | failsTwice c text conn answer hpc =>
    exact .inr ⟨c, rfl, by simp [hpc, RedisPc.unanswered, RedisPc.rank], hothers _ c _ rfl⟩

/-! ## Endless runs -/

theorem returned_redisStep (w : RedisWorld server) (e : RedisEvent server)
    {result : Except String RedisReply} (hpc : w.pc c = .returned result) :
    (redisStep store calls w e).pc c = .returned result := by
  have hmove : RedisMove store calls w e (redisStep store calls w e) := move_redisStep w e
  rcases hmove.rank c with hsame | hlt
  · rw [hsame, hpc]
  · simp [hpc, RedisPc.rank] at hlt

/-- What is locked stays so, and a call that is dropped opens no connection. -/
structure Unblocked (w : Dropping (RedisWorld server)) : Prop where
  locked : Locked w.world
  dropped : ∀ c, w.dropped c = true → ∀ retry conn, w.world.pc c ≠ .opening retry conn

theorem release_pc_of_ne {d : ℕ} (hd : d ≠ c) : (w.release c).pc d = w.pc d := by
  unfold RedisWorld.release
  split
  · exact Function.update_of_ne hd _ _
  · rfl

theorem release_not_opening (retry : Bool) (conn : ℕ) :
    (w.release c).pc c ≠ .opening retry conn := by
  unfold RedisWorld.release
  split
  · simp
  · next hnot => exact hnot retry conn

theorem Locked.released (hw : Locked w) (c : ℕ) : Locked (w.release c) := by
  unfold RedisWorld.release
  split
  · next hpc => exact hw.release hpc hw.connection (by simp) (by simp [RedisPc.conn])
  · exact hw

theorem opening_of_unanswered {pc : RedisPc} {retry : Bool} {conn : ℕ}
    (h : pc.unanswered = .opening retry conn) : pc = .opening retry conn := by
  rcases pc with retry | retry | ⟨retry, conn⟩ | ⟨retry, conn⟩ | ⟨retry, conn, answer⟩ | _ | result
  case waiting => cases h
  all_goals exact h

theorem Unblocked.step {v : Dropping (RedisWorld server)} (hv : Unblocked v)
    (e : DropEvent (RedisEvent server)) : Unblocked ((redisCalls store calls).dropStep v e) := by
  refine inv_dropStep (fun v e hown hv => ?_) (fun v c _ hv => ?_) v e hv
  · have hmove : RedisMove store calls v.world e (redisStep store calls v.world e) :=
      move_redisStep _ _
    refine ⟨locked_move hv.locked hmove, fun d hd retry conn hpc => ?_⟩
    rcases hmove.rest_or with ⟨-, hsame, -⟩ | ⟨c, hdone, -, hothers⟩
    · have hsame := hsame d
      rw [show (redisStep store calls v.world e).pc d = .opening retry conn from hpc] at hsame
      exact hv.dropped d hd retry conn (opening_of_unanswered hsame.symm)
    · have hne : d ≠ c := by
        rintro rfl
        have halive : v.dropped d = false := hown d hdone
        rw [halive] at hd
        cases hd
      exact hv.dropped d hd retry conn ((hothers d hne).symm.trans hpc)
  · refine ⟨hv.locked.released c, fun d hd retry conn => ?_⟩
    by_cases hdc : d = c
    · subst hdc
      exact release_not_opening retry conn
    · show (v.world.release c).pc d ≠ .opening retry conn
      rw [release_pc_of_ne hdc]
      exact hv.dropped d (by simpa [Function.update_of_ne hdc] using hd) retry conn

theorem unblocked_along (hw : Locked w₀) (k : ℕ) :
    Unblocked (redisAlong store calls w₀ schedule k) := by
  induction k with
  | zero => exact ⟨hw, by rintro c ⟨⟩⟩
  | succ k ih => exact ih.step (schedule k)

theorem redis_isReturned_iff {pc : RedisPc} :
    pc.isReturned = true ↔ ∃ result, pc = .returned result := by
  cases pc <;> simp [RedisPc.isReturned]

theorem redisCalls_gone_iff {v : Dropping (RedisWorld server)} :
    (redisCalls store calls).Gone v c
      ↔ v.dropped c = true ∨ ∃ result, v.world.pc c = .returned result :=
  or_congr_right redis_isReturned_iff

theorem gone_redis (v : Dropping (RedisWorld server)) (e : DropEvent (RedisEvent server))
    (h : (redisCalls store calls).Gone v c) :
    (redisCalls store calls).Gone ((redisCalls store calls).dropStep v e) c := by
  refine gone_dropStep (fun s e hfinished => ?_) (fun s c' hc hfinished => ?_) v e h
  · obtain ⟨result, hpc⟩ := redis_isReturned_iff.1 hfinished
    exact redis_isReturned_iff.2 ⟨result, returned_redisStep s e hpc⟩
  · show ((s.release c').pc c).isReturned = true
    rwa [release_pc_of_ne (Ne.symm hc)]

/-- The call in the way of one that is neither dropped nor over is neither itself. -/
theorem Unblocked.not_gone_inTheWay {v : Dropping (RedisWorld server)} (hv : Unblocked v)
    (hc : ¬ (redisCalls store calls).Gone v c) :
    ¬ (redisCalls store calls).Gone v (inTheWay v.world c) := by
  rcases inTheWay_eq v.world c with hlock | ⟨heq, -⟩
  · obtain ⟨retry, conn, hopening⟩ := hv.locked.opening _ hlock
    intro hgone
    rcases redisCalls_gone_iff.1 hgone with hdropped | ⟨result, hpc⟩
    · exact hv.dropped _ hdropped retry conn hopening
    · cases hpc.symm.trans hopening
  · rwa [heq]

theorem ComesAbout.doneBy {wait : RedisWait} (h : ComesAbout c wait w e) :
    e.doneBy = some c := by
  cases wait with
  | turn =>
    obtain rfl : e = .step c := h
    rfl
  | connection => rcases h with ⟨text, rfl⟩ | ⟨rfl, -⟩ <;> rfl
  | reply => rcases h with ⟨text, rfl⟩ | ⟨rfl, -⟩ <;> rfl

/-- The calls that are not made stay where they are. -/
theorem redis_pc_along_of_le (hstart : ∀ c, w₀.pc c = .reading false)
    (h : ∀ k c, (redisCalls store calls).dropCaller (schedule k) = some c → c < n) (hc : n ≤ c)
    (k : ℕ) : (redisAlong store calls w₀ schedule k).world.pc c = .reading false := by
  refine after_of_not_made (P := fun w : RedisWorld server => w.pc c = .reading false) (c := c)
    (fun s e hcaller hpc => ?_) (fun s c' hne hpc => ?_) (fun k hcaller => ?_) (hstart c) k
  · have hmove : RedisMove store calls s e (redisStep store calls s e) := move_redisStep _ _
    by_cases hexecute : e = .execute c
    · subst hexecute
      show (redisStep store calls s (.execute c)).pc c = .reading false
      rw [execute_of_not_waiting (by simp [hpc, IsWaiting])]
      exact hpc
    · have hother : e.caller ≠ some c := fun hcaller' =>
        hcaller (doneBy_of_caller hcaller' hexecute)
      exact (hmove.pc_of_ne hother).trans hpc
  · show (s.release c').pc c = .reading false
    rwa [release_pc_of_ne (Ne.symm hne)]
  · have := h k c hcaller
    omega

theorem Served.inTheWay_lt (h : Served store calls w₀ n schedule)
    (hlocked : Locked w₀) (hstart : ∀ c, w₀.pc c = .reading false) (hc : c < n) (k : ℕ) :
    inTheWay (redisAlong store calls w₀ schedule k).world c < n := by
  rcases inTheWay_eq (redisAlong store calls w₀ schedule k).world c with hlock | ⟨heq, -⟩
  · by_contra hge
    obtain ⟨retry, conn, hopening⟩ := (unblocked_along hlocked k).locked.opening _ hlock
    rw [redis_pc_along_of_le hstart h.calls_lt (by omega) k] at hopening
    cases hopening
  · omega

theorem Served.exists_gone (h : Served store calls w₀ n schedule)
    (hlocked : Locked w₀) (hstart : ∀ c, w₀.pc c = .reading false) (hc : c < n) :
    ∃ k, (redisCalls store calls).Gone (redisAlong store calls w₀ schedule k) c := by
  refine exists_gone_of_fair (I := Unblocked) (fun w c => (w.pc c).unanswered.rank)
    (fun w => (inTheWay w c, (w.pc (inTheWay w c)).wait)) (fun i w e => ComesAbout i.1 i.2 w e)
    (unblocked_along hlocked) h.calls_lt (fun i s e => ComesAbout.doneBy)
    (fun v hv => hv.not_gone_inTheWay) (fun v e hv hgone => ?_) (fun s c c' hne => ?_)
    fun k hgone => ?_
  · have hmove : RedisMove store calls v.world e (redisStep store calls v.world e) :=
      move_redisStep _ _
    rcases hmove.rest_or with ⟨hlock, hsame, hpc⟩ | ⟨c', hdone, hlt, hothers⟩
    · refine .inl ⟨fun c => congrArg RedisPc.rank (hsame c), ?_, fun hcomes => ?_⟩
      · have hway : inTheWay (redisStep store calls v.world e) c = inTheWay v.world c := by
          rw [inTheWay_unanswered, inTheWay_unanswered, hsame, hlock]
        have hwait : ((redisStep store calls v.world e).pc
            (inTheWay (redisStep store calls v.world e) c)).wait
            = (v.world.pc (inTheWay v.world c)).wait := by
          rw [hway, ← wait_unanswered, hsame, wait_unanswered]
        exact Prod.ext hway hwait
      · have hlt : ((redisStep store calls v.world e).pc (inTheWay v.world c)).rank
            < (v.world.pc (inTheWay v.world c)).rank :=
          hv.locked.rank_lt (fun result hret => hgone
            (redisCalls_gone_iff.2 (.inr ⟨result, hret⟩))) hcomes
        rcases hpc with hpc | ⟨c', rfl⟩
        · rw [hpc] at hlt
          exact lt_irrefl _ hlt
        · cases hcomes.doneBy
    · refine .inr ⟨⟨c', hdone, hlt⟩, fun d => ?_⟩
      by_cases hd : d = c'
      · subst hd
        exact le_of_lt hlt
      · exact le_of_eq (congrArg (fun pc => pc.unanswered.rank) (hothers d hd))
  · show ((s.release c).pc c').unanswered.rank ≤ _
    rw [release_pc_of_ne hne]
  · have halive : (redisAlong store calls w₀ schedule k).dropped
        (inTheWay (redisAlong store calls w₀ schedule k).world c) = false := by
      simpa using fun hdropped =>
        (unblocked_along hlocked k).not_gone_inTheWay hgone (.inl hdropped)
    show ∃ k', k ≤ k' ∧ Helps (fun i w e => ComesAbout i.1 i.2 w e)
      (inTheWay (redisAlong store calls w₀ schedule k).world c,
        ((redisAlong store calls w₀ schedule k).world.pc
          (inTheWay (redisAlong store calls w₀ schedule k).world c)).wait)
      (redisAlong store calls w₀ schedule k') (schedule k')
    rcases hstate : (redisAlong store calls w₀ schedule k).world.pc
      (inTheWay (redisAlong store calls w₀ schedule k).world c) with retry | retry |
      ⟨retry, conn⟩ | ⟨retry, conn⟩ | ⟨retry, conn, reply⟩ | _ | result
    case opening =>
      obtain ⟨k', hle, ⟨text, hevent⟩ | ⟨hevent, hup⟩ | hevent⟩ := h.connect k _ retry conn hstate
      · exact ⟨k', hle, .inl ⟨_, hevent, .inl ⟨text, rfl⟩⟩⟩
      · exact ⟨k', hle, .inl ⟨_, hevent, .inr ⟨rfl, hup⟩⟩⟩
      · exact ⟨k', hle, .inr hevent⟩
    case waiting =>
      obtain ⟨k', hle, ⟨text, hevent⟩ | ⟨hevent, hreply⟩ | hevent⟩ :=
        h.answer k _ retry conn reply halive hstate
      · exact ⟨k', hle, .inl ⟨_, hevent, .inl ⟨text, rfl⟩⟩⟩
      · exact ⟨k', hle, .inl ⟨_, hevent, .inr ⟨rfl, hreply⟩⟩⟩
      · exact ⟨k', hle, .inr hevent⟩
    all_goals
      obtain ⟨k', hle, hevent | hevent⟩ := h.turn _ (h.inTheWay_lt hlocked hstart hc k) k halive
      · exact ⟨k', hle, .inl ⟨_, hevent, rfl⟩⟩
      · exact ⟨k', hle, .inr hevent⟩

/-- Where each call gets its turn again and again, and what it opens or sends comes to something,
until it is dropped, every call is dropped or returns, and the lock is free from then on. -/
theorem redis_calls_return (store : RedisRevocationStore) (calls : ℕ → RedisCall)
    (connection : Option Bool) (up : Bool) (state : server.State) (now n : ℕ)
    (schedule : ℕ → DropEvent (RedisEvent server))
    (h : Served store calls (storeWith connection up state now) n schedule) :
    ∃ k, ∀ k', k ≤ k' →
      (∀ c < n, (redisAlong store calls (storeWith connection up state now) schedule
          k').dropped c = true
        ∨ ∃ result, (redisAlong store calls (storeWith connection up state now) schedule
          k').world.pc c = .returned result)
      ∧ (redisAlong store calls (storeWith connection up state now) schedule k').world.lock
        = none := by
  obtain ⟨k, hk⟩ := exists_forall_of_le (P := fun c w => (redisCalls store calls).Gone w c)
    (fun c w e => gone_redis w e) fun c hc => h.exists_gone locked_storeWith (fun _ => rfl) hc
  refine ⟨k, fun k' hle => ⟨fun c hc => redisCalls_gone_iff.1 (hk k' hle c hc), ?_⟩⟩
  have hunblocked : Unblocked (redisAlong store calls (storeWith connection up state now)
    schedule k') := unblocked_along locked_storeWith k'
  rcases hlock : (redisAlong store calls (storeWith connection up state now) schedule
    k').world.lock with _ | c
  · rfl
  · -- whoever holds the lock has begun, and is neither dropped nor over
    obtain ⟨retry, conn, hopening⟩ := hunblocked.locked.opening c hlock
    by_cases hc : c < n
    · rcases redisCalls_gone_iff.1 (hk k' hle c hc) with hdropped | ⟨result, hpc⟩
      · exact absurd hopening (hunblocked.dropped c hdropped retry conn)
      · cases hpc.symm.trans hopening
    · rw [redis_pc_along_of_le (fun _ => rfl) h.calls_lt (by omega) k'] at hopening
      cases hopening

/-- The first of two calls is dropped while it opens a connection. The second one opens another, and
its command is answered. -/
def redisHangUp (k : ℕ) : DropEvent (RedisEvent deadlineServer) :=
  match k % 11 with
  | 2 => .drop 0
  | 3 | 4 | 6 => .event (.step 1)
  | 5 => .event (.connected 1)
  | 7 => .event (.execute 1)
  | 8 => .event (.reply 1)
  | 9 => .event (.connectFailed 1 "connection refused")
  | 10 => .event (.fail 1 "timed out")
  | _ => .event (.step 0)

theorem redisHangUp_calls_lt (k c : ℕ)
    (h : (redisCalls ⟨60⟩ sharedCalls).dropCaller (redisHangUp k) = some c) : c < 2 := by
  unfold redisHangUp at h
  split at h <;> cases h <;> omega

theorem redis_calls_return_hangUp :
    (redisAlong ⟨60⟩ sharedCalls (storeWith none true deadlineServer.fresh 0) redisHangUp
        9).world.pc 1 = .returned (.ok (.found false))
      ∧ ∃ k, ∀ k', k ≤ k' →
        (∀ c < 2, (redisAlong ⟨60⟩ sharedCalls (storeWith none true deadlineServer.fresh 0)
            redisHangUp k').dropped c = true
          ∨ ∃ result, (redisAlong ⟨60⟩ sharedCalls (storeWith none true deadlineServer.fresh 0)
            redisHangUp k').world.pc c = .returned result)
        ∧ (redisAlong ⟨60⟩ sharedCalls (storeWith none true deadlineServer.fresh 0) redisHangUp
          k').world.lock = none := by
  have hlt : ∀ {k c : ℕ} {pc : RedisPc}, (redisAlong ⟨60⟩ sharedCalls
      (storeWith none true deadlineServer.fresh 0) redisHangUp k).world.pc c = pc →
        pc ≠ .reading false → c < 2 := by
    intro k c pc hpc hne
    by_contra hge
    rw [redis_pc_along_of_le (fun _ => rfl) redisHangUp_calls_lt (by omega) k] at hpc
    exact hne hpc.symm
  have hdrop : ∀ k, ∃ k', k ≤ k' ∧ redisHangUp k' = .drop 0 := by
    intro k
    obtain ⟨k', hle, hmod⟩ := exists_ge_mod_eq (n := 11) (i := 2) (by omega) k
    exact ⟨k', hle, by simp [redisHangUp, hmod]⟩
  refine ⟨rfl, redis_calls_return ⟨60⟩ sharedCalls none true deadlineServer.fresh 0 2 redisHangUp
    ⟨redisHangUp_calls_lt, fun c hc k _ => ?_, fun k c retry conn hpc => ?_,
      fun k c retry conn reply _ hpc => ?_⟩⟩
  · interval_cases c
    · obtain ⟨k', hle, hevent⟩ := hdrop k
      exact ⟨k', hle, .inr hevent⟩
    · obtain ⟨k', hle, hmod⟩ := exists_ge_mod_eq (n := 11) (i := 3) (by omega) k
      exact ⟨k', hle, .inl (by simp [redisHangUp, hmod])⟩
  · have hc : c < 2 := hlt hpc (by simp)
    interval_cases c
    · obtain ⟨k', hle, hevent⟩ := hdrop k
      exact ⟨k', hle, .inr (.inr hevent)⟩
    · obtain ⟨k', hle, hmod⟩ := exists_ge_mod_eq (n := 11) (i := 9) (by omega) k
      exact ⟨k', hle, .inl ⟨"connection refused", by simp [redisHangUp, hmod]⟩⟩
  · have hc : c < 2 := hlt hpc (by simp)
    interval_cases c
    · obtain ⟨k', hle, hevent⟩ := hdrop k
      exact ⟨k', hle, .inr (.inr hevent)⟩
    · obtain ⟨k', hle, hmod⟩ := exists_ge_mod_eq (n := 11) (i := 10) (by omega) k
      exact ⟨k', hle, .inl ⟨"timed out", by simp [redisHangUp, hmod]⟩⟩

end TokenKit
