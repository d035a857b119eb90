import TokenKit.Proofs.Resets
import Mathlib.Data.List.Perm.Subperm

/-!
# What failures cost

A call gives up when the connection it opens is refused, or when its second command fails after its
first has (`redis_error_reason`). And however many calls there are, a connection is opened only
where none is kept: at the start, after a drop, which the first failure of a call pays for, or after
a connection was refused (`connections_paid_for`).
-/

namespace TokenKit

open StepMachine RedisWorld

variable {server : RedisServer} {store : RedisRevocationStore} {calls : ℕ → RedisCall}
  {w w' : RedisWorld server} {e : RedisEvent server} {c : ℕ} {connection : Option Bool}
  {up : Bool} {state : server.State} {now : ℕ}

/-! ## Why a call fails -/

/-- The call has given up its first attempt, and has not returned. -/
def SecondAttempt (pc : RedisPc) : Prop := pc.Retrying ∨ pc = .resetting

/-- The first command of the call fails in this step. -/
def FirstFails (x : RedisWorld server × RedisEvent server) (c : ℕ) : Prop :=
  ∃ text conn answer, x.2 = .fail c text ∧ x.1.pc c = .waiting false conn answer

theorem RedisMove.secondAttempt (h : RedisMove store calls w e w')
    (hpc : SecondAttempt (w'.pc c)) : SecondAttempt (w.pc c) ∨ FirstFails (w, e) c := by
  cases h
  case failsOnce c' text conn answer hwaiting =>
    by_cases hc : c = c'
    · subst hc
      exact .inr ⟨text, conn, answer, rfl, hwaiting⟩
    · rw [goto_pc, if_neg hc] at hpc
      exact .inl hpc
  all_goals
    refine .inl ?_
    unfold SecondAttempt at hpc ⊢
    grind [goto_pc, RedisPc.Retrying]

/-- A call that is in its second attempt failed in its first. -/
theorem exists_firstFails {es : List (RedisEvent server)}
    (hpc : SecondAttempt
      ((redisRun store calls (storeWith connection up state now) es).pc c)) :
    ∃ x ∈ redisSteps store calls (storeWith connection up state now) es, FirstFails x c := by
  obtain ⟨es₁, e, es₂, rfl, hbefore, hafter⟩ := exists_step_of_run (redisStep store calls)
    (P := fun w => SecondAttempt (w.pc c)) es (by simp [SecondAttempt, storeWith, RedisPc.Retrying])
    hpc
  have hfails := ((move_redisStep _ e).secondAttempt hafter).resolve_left hbefore
  exact ⟨_, (mem_taken _).2 ⟨es₁, es₂, rfl, rfl⟩, hfails⟩

/-- A call returns an error for one of two reasons: the connection it opened was refused, or both
its commands failed, and the error is that of the second. -/
theorem redis_error_reason (store : RedisRevocationStore) (calls : ℕ → RedisCall)
    (connection : Option Bool) (up : Bool) (state : server.State) (now : ℕ)
    (es : List (RedisEvent server)) (c : ℕ) (text : String)
    (hret : (redisRun store calls (storeWith connection up state now) es).pc c
      = .returned (.error text)) :
    (∃ x ∈ redisSteps store calls (storeWith connection up state now) es,
        x.2 = .connectFailed c text ∧ ∃ retry conn, x.1.pc c = .opening retry conn)
      ∨ (∃ x ∈ redisSteps store calls (storeWith connection up state now) es, FirstFails x c)
        ∧ ∃ x ∈ redisSteps store calls (storeWith connection up state now) es,
          x.2 = .fail c text ∧ ∃ conn answer, x.1.pc c = .waiting true conn answer := by
  obtain ⟨es₁, e, es₂, rfl, hbefore, hafter⟩ := exists_step_of_run (redisStep store calls)
    (P := fun w => w.pc c = .returned (.error text)) es (by simp [storeWith]) hret
  have hmem : (redisRun store calls (storeWith connection up state now) es₁, e)
      ∈ redisSteps store calls (storeWith connection up state now) (es₁ ++ e :: es₂) :=
    (mem_taken _).2 ⟨es₁, es₂, rfl, rfl⟩
  rcases ((move_redisStep _ e).of_error hafter).resolve_left hbefore with
    ⟨rfl, hopening⟩ | ⟨rfl, conn, answer, hpc⟩
  · exact .inl ⟨_, hmem, rfl, hopening⟩
  · have hsecond : SecondAttempt
        ((redisRun store calls (storeWith connection up state now) es₁).pc c) := by
      have hpc : (redisRun store calls (storeWith connection up state now) es₁).pc c
        = .waiting true conn answer := hpc
      rw [hpc]
      exact .inl rfl
    obtain ⟨x, hx, hfails⟩ := exists_firstFails hsecond
    refine .inr ⟨⟨x, ?_, hfails⟩, _, hmem, rfl, conn, answer, hpc⟩
    rw [redisSteps_append]
    exact List.mem_append_left _ hx

/-- The connection that is kept is dead, and the one opened in its stead breaks as well. -/
def twiceBroken : List (RedisEvent deadlineServer) :=
  [.step 0, .step 0, .fail 0 "broken pipe", .step 0, .step 0, .step 0, .connected 0, .step 0,
    .fail 0 "server gone"]

theorem redis_error_reason_broken :
    (∃ x ∈ redisSteps ⟨60⟩ sharedCalls (storeWith (some false) true deadlineServer.fresh 0)
          twiceBroken,
        x.2 = .connectFailed 0 "server gone" ∧ ∃ retry conn, x.1.pc 0 = .opening retry conn)
      ∨ (∃ x ∈ redisSteps ⟨60⟩ sharedCalls (storeWith (some false) true deadlineServer.fresh 0)
            twiceBroken, FirstFails x 0)
        ∧ ∃ x ∈ redisSteps ⟨60⟩ sharedCalls (storeWith (some false) true deadlineServer.fresh 0)
            twiceBroken,
          x.2 = .fail 0 "server gone" ∧ ∃ conn answer, x.1.pc 0 = .waiting true conn answer :=
  redis_error_reason ⟨60⟩ sharedCalls (some false) true deadlineServer.fresh 0 twiceBroken 0
    "server gone" rfl

/-! ## What is paid for a connection -/

/-- The call whose first command fails in this step. -/
def firstFailureOf (x : RedisWorld server × RedisEvent server) : Option ℕ :=
  match x.2 with
  | .fail c _ =>
    match x.1.pc c with
    | .waiting false _ _ => some c
    | _ => none
  | _ => none

/-- The call whose connection is refused in this step. -/
def refusalOf (x : RedisWorld server × RedisEvent server) : Option ℕ :=
  match x.2 with
  | .connectFailed c _ =>
    match x.1.pc c with
    | .opening _ _ => some c
    | _ => none
  | _ => none

/-- No connection is kept and none is being opened. -/
def vacancy (w : RedisWorld server) : ℕ :=
  if w.connection = none ∧ w.lock = none then 1 else 0

/-- Whether the call is about to drop a connection. -/
def aboutToDrop : RedisPc → ℕ
  | .resetting => 1
  | _ => 0

/-- The calls `drops` have dropped a connection, and each of them, as each that is about to, failed
once. Every connection was begun from a vacancy, which was there at the start or was left by a drop
or a refusal. -/
structure PaidFor (start : ℕ) (failures refusals drops : List ℕ) (w : RedisWorld server) :
    Prop where
  opened : w.opened + vacancy w ≤ start + drops.length + refusals.length
  failed : ∀ c, drops.count c + aboutToDrop (w.pc c) ≤ failures.count c

theorem vacancy_le_one (w : RedisWorld server) : vacancy w ≤ 1 := by
  unfold vacancy
  split_ifs <;> omega

theorem PaidFor.more {start : ℕ} {failures refusals drops failures' refusals' : List ℕ}
    (h : PaidFor start failures refusals drops w) :
    PaidFor start (failures ++ failures') (refusals ++ refusals') drops w where
  opened := by
    have := h.opened
    rw [List.length_append]
    omega
  failed c := by
    have := h.failed c
    rw [List.count_append]
    omega

/-- A step that neither opens nor vacates, nor makes a call drop, changes nothing that counts. -/
theorem PaidFor.same {start : ℕ} {failures refusals drops : List ℕ}
    (h : PaidFor start failures refusals drops w) (hopened : w'.opened = w.opened)
    (hvacancy : vacancy w' ≤ vacancy w)
    (hdrop : ∀ c, aboutToDrop (w'.pc c) ≤ aboutToDrop (w.pc c)) :
    PaidFor start failures refusals drops w' where
  opened := by
    have := h.opened
    omega
  failed c := by
    have := h.failed c
    have := hdrop c
    omega

theorem aboutToDrop_goto {pc : RedisPc} (hpc : aboutToDrop pc = 0) (c' : ℕ) :
    aboutToDrop ((w.goto c pc).pc c') ≤ aboutToDrop (w.pc c') := by
  rw [goto_pc]
  split_ifs
  · omega
  · exact le_rfl

theorem paidFor_move {start : ℕ} {failures refusals drops : List ℕ}
    (hpaid : PaidFor start failures refusals drops w) (h : RedisMove store calls w e w') :
    ∃ drops', PaidFor start (failures ++ (firstFailureOf (w, e)).toList)
      (refusals ++ (refusalOf (w, e)).toList) drops' w' := by
  have hmore : PaidFor start (failures ++ (firstFailureOf (w, e)).toList)
      (refusals ++ (refusalOf (w, e)).toList) drops w := hpaid.more
  cases h with
  | idle => exact ⟨drops, hmore⟩
  | found c retry conn hpc hlock hconn =>
    exact ⟨drops, hmore.same rfl le_rfl (aboutToDrop_goto rfl)⟩
  | missed c retry hpc hlock => exact ⟨drops, hmore.same rfl le_rfl (aboutToDrop_goto rfl)⟩
  | sends c retry conn hpc => exact ⟨drops, hmore.same rfl le_rfl (aboutToDrop_goto rfl)⟩
  | executes c retry conn hpc => exact ⟨drops, hmore.same rfl le_rfl (aboutToDrop_goto rfl)⟩
  | replies c retry conn answer hpc =>
    exact ⟨drops, hmore.same rfl le_rfl (aboutToDrop_goto rfl)⟩
  | failsTwice c text conn answer hpc =>
    exact ⟨drops, hmore.same rfl le_rfl (aboutToDrop_goto rfl)⟩
  | crash => exact ⟨drops, hmore.same rfl le_rfl fun _ => le_rfl⟩
  | restart => exact ⟨drops, hmore.same rfl le_rfl fun _ => le_rfl⟩
  | breaks conn => exact ⟨drops, hmore.same rfl le_rfl fun _ => le_rfl⟩
  | elsewhere state => exact ⟨drops, hmore.same rfl le_rfl fun _ => le_rfl⟩
  | tick d => exact ⟨drops, hmore.same rfl le_rfl fun _ => le_rfl⟩
  | connects c retry conn hpc hup =>
    exact ⟨drops, hmore.same rfl (by simp [vacancy]) (aboutToDrop_goto rfl)⟩
  | opens c retry hpc hlock hconn =>
    -- the vacancy is used up
    refine ⟨drops, ?_, fun c' => le_trans ?_ (hmore.failed c')⟩
    · have hbefore := hmore.opened
      have hvacant : vacancy w = 1 := if_pos ⟨hconn, hlock⟩
      show w.opened + 1 + vacancy _ ≤ _
      have hfilled : vacancy ({ w with lock := some c, opened := w.opened + 1 }.goto c
          (.opening retry w.opened)) = 0 := if_neg (by simp)
      omega
    · exact Nat.add_le_add_left
        (aboutToDrop_goto (w := { w with lock := some c, opened := w.opened + 1 }) rfl c') _
  | refused c text retry conn hpc =>
    have hrefusal : refusalOf (w, .connectFailed c text) = some c := by
      simp [refusalOf, hpc]
    refine ⟨drops, ?_, fun c' => le_trans ?_ (hmore.failed c')⟩
    · have hbefore := hpaid.opened
      have hone := vacancy_le_one ({ w with lock := none }.goto c (.returned (.error text)))
      rw [hrefusal, List.length_append, Option.toList_some, List.length_singleton]
      show w.opened + vacancy _ ≤ _
      omega
    · exact Nat.add_le_add_left (aboutToDrop_goto (w := { w with lock := none }) rfl c') _
  | resets c hpc hlock =>
    -- the drop is one of a call that has failed
    refine ⟨drops ++ [c], ?_, fun c' => ?_⟩
    · have hbefore := hmore.opened
      have hone := vacancy_le_one ({ w with connection := none }.goto c (.reading true))
      rw [List.length_append, List.length_singleton]
      show w.opened + vacancy _ ≤ _
      omega
    · have hbefore := hmore.failed c'
      rw [goto_pc, List.count_append]
      split_ifs with hc
      · subst hc
        rw [hpc] at hbefore
        simpa [aboutToDrop] using hbefore
      · rw [List.count_singleton, if_neg (by simpa using Ne.symm hc)]
        exact hbefore
  | failsOnce c text conn answer hpc =>
    have hfailure : firstFailureOf (w, .fail c text) = some c := by
      simp [firstFailureOf, hpc]
    refine ⟨drops, hmore.opened, fun c' => ?_⟩
    have hbefore := hpaid.failed c'
    rw [goto_pc, hfailure, Option.toList_some, List.count_append]
    split_ifs with hc
    · subst hc
      rw [hpc] at hbefore
      simpa [aboutToDrop] using hbefore
    · exact le_trans hbefore (Nat.le_add_right _ _)

/-- The calls whose first command failed along the steps. -/
def firstFailures (steps : List (RedisWorld server × RedisEvent server)) : List ℕ :=
  steps.filterMap firstFailureOf

/-- The calls whose connection was refused along the steps. -/
def refusals (steps : List (RedisWorld server × RedisEvent server)) : List ℕ :=
  steps.filterMap refusalOf

theorem paidFor_run {start : ℕ} : ∀ {failed refused drops : List ℕ} {w : RedisWorld server}
    (es : List (RedisEvent server)), PaidFor start failed refused drops w →
      ∃ drops', PaidFor start (failed ++ firstFailures (redisSteps store calls w es))
        (refused ++ refusals (redisSteps store calls w es)) drops' (redisRun store calls w es)
  | failed, refused, drops, w, [], h => by
    have hnil : redisSteps store calls w [] = [] := rfl
    rw [hnil, firstFailures, refusals, List.filterMap_nil, List.filterMap_nil, List.append_nil,
      List.append_nil]
    exact ⟨drops, h⟩
  | failed, refused, drops, w, e :: es, h => by
    have hmove : RedisMove store calls w e (redisStep store calls w e) := move_redisStep w e
    obtain ⟨drops', hstep⟩ := paidFor_move h hmove
    obtain ⟨drops'', hrun⟩ := paidFor_run es hstep
    rw [List.append_assoc, List.append_assoc] at hrun
    rw [firstFailures, refusals, redisSteps, filterMap_taken_cons, filterMap_taken_cons]
    exact ⟨drops'', hrun⟩

theorem rank_redisStep_le (w : RedisWorld server) (e : RedisEvent server) (c : ℕ) :
    ((redisStep store calls w e).pc c).rank ≤ (w.pc c).rank := by
  rcases (move_redisStep w e).rank c with hsame | hless
  · rw [hsame]
  · exact le_of_lt hless

theorem firstFailureOf_eq_some (h : firstFailureOf (w, e) = some c) :
    ∃ text conn answer, e = .fail c text ∧ w.pc c = .waiting false conn answer := by
  unfold firstFailureOf at h
  split at h
  · next c' text he =>
    split at h
    · next conn answer hpc =>
      obtain rfl := Option.some.inj h
      exact ⟨text, conn, answer, he, hpc⟩
    · cases h
  · cases h

theorem refusalOf_eq_some (h : refusalOf (w, e) = some c) :
    ∃ text retry conn, e = .connectFailed c text ∧ w.pc c = .opening retry conn := by
  unfold refusalOf at h
  split at h
  · next c' text he =>
    split at h
    · next retry conn hpc =>
      obtain rfl := Option.some.inj h
      exact ⟨text, retry, conn, he, hpc⟩
    · cases h
  · cases h

/-- A call fails in its first attempt at most once. -/
theorem nodup_firstFailures (w : RedisWorld server) (es : List (RedisEvent server)) :
    (firstFailures (redisSteps store calls w es)).Nodup := by
  refine (nodup_filterMap_taken (redisStep store calls) (m := fun c w => (w.pc c).rank) (n := 7)
    rank_redisStep_le (fun w e c h => ?_) w es).1
  obtain ⟨text, conn, answer, rfl, hpc⟩ := firstFailureOf_eq_some h
  refine ⟨?_, ?_⟩
  · rw [hpc]
    exact RedisPc.rank_waiting false conn answer
  · simp [redisStep, fail, hpc, RedisPc.rank]

/-- A call is refused a connection at most once. -/
theorem nodup_refusals (w : RedisWorld server) (es : List (RedisEvent server)) :
    (refusals (redisSteps store calls w es)).Nodup := by
  refine (nodup_filterMap_taken (redisStep store calls) (m := fun c w => (w.pc c).rank) (n := 0)
    rank_redisStep_le (fun w e c h => ?_) w es).1
  obtain ⟨text, retry, conn, rfl, hpc⟩ := refusalOf_eq_some h
  refine ⟨?_, ?_⟩
  · simp [hpc, RedisPc.rank]
  · simp [redisStep, connectFailed, hpc, RedisPc.rank]

theorem paidFor_storeWith : PaidFor (1 + connection.isNone.toNat) [] [] []
    (storeWith connection up state now) where
  opened := by
    rcases connection with _ | live <;> simp [storeWith, vacancy]
  failed c := by simp [storeWith, aboutToDrop]

/-- Beyond the one that may be missing at the start, each connection that the store begins to open
is paid for by the first failure of a call or by a refusal, and no call fails first or is refused
twice. -/
theorem connections_paid_for (store : RedisRevocationStore) (calls : ℕ → RedisCall)
    (connection : Option Bool) (up : Bool) (state : server.State) (now : ℕ)
    (es : List (RedisEvent server)) :
    (redisRun store calls (storeWith connection up state now) es).opened
        ≤ 1 + connection.isNone.toNat
          + (firstFailures (redisSteps store calls (storeWith connection up state now) es)).length
          + (refusals (redisSteps store calls (storeWith connection up state now) es)).length
      ∧ (firstFailures (redisSteps store calls (storeWith connection up state now) es)).Nodup
      ∧ (refusals (redisSteps store calls (storeWith connection up state now) es)).Nodup := by
  refine ⟨?_, nodup_firstFailures _ es, nodup_refusals _ es⟩
  have hstart : PaidFor (1 + connection.isNone.toNat) [] [] []
      (storeWith connection up state now) := paidFor_storeWith
  obtain ⟨drops, hpaid⟩ : ∃ drops, PaidFor (1 + connection.isNone.toNat)
      ([] ++ firstFailures (redisSteps store calls (storeWith connection up state now) es))
      ([] ++ refusals (redisSteps store calls (storeWith connection up state now) es)) drops
      (redisRun store calls (storeWith connection up state now) es) := paidFor_run es hstart
  rw [List.nil_append, List.nil_append] at hpaid
  have hopened := hpaid.opened
  have hdrops := (List.subperm_ext_iff.2 fun c _ =>
    le_trans (Nat.le_add_right _ _) (hpaid.failed c)).length_le
  omega

end TokenKit
