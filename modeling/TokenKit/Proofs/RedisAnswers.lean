import TokenKit.RedisHistory
import TokenKit.Proofs.Minting
import TokenKit.Proofs.Reconnect

/-!
# What the Redis store answers

As long as only this store writes to it, the server has the keys that the log of executed
revocations says, now and at any later instant (`KeysOf`). A call that returns an answer had its
command executed at one instant between its start and its end, and answers what the log said then
(`redis_answers_at_instant`).

A revocation that has returned was executed before. From that instant on the key is there until the
time to live is over (`KeyUntil`), whatever other clients do except taking it away, so a later look
at it finds it or fails. Either way the token is rejected (`revoked_rejected_over_redis`).
-/

namespace TokenKit

open StepMachine RedisWorld

variable {server : RedisServer} {store : RedisRevocationStore} {calls : ℕ → RedisCall}
  {w w' : RedisWorld server} {e : RedisEvent server} {c : ℕ} {log : List (String × ℕ)}

/-! ## The keys and the log -/

theorem revokedIn_eq_true {jti : String} {now : ℕ} : store.revokedIn log jti now = true
    ↔ ∃ t, (jti, t) ∈ log ∧ now - t < store.ttl * 10 ^ 9 := by
  unfold RedisRevocationStore.revokedIn
  rw [List.any_eq_true]
  constructor
  · rintro ⟨⟨key, t⟩, hmem, h⟩
    rw [Bool.and_eq_true, decide_eq_true_eq, decide_eq_true_eq] at h
    obtain ⟨rfl, hyoung⟩ := h
    exact ⟨t, hmem, hyoung⟩
  · rintro ⟨t, hmem, hyoung⟩
    exact ⟨(jti, t), hmem, by simpa using hyoung⟩

/-- The server's keys are those of the log, now and at any later instant. -/
structure KeysOf (store : RedisRevocationStore) (log : List (String × ℕ))
    (w : RedisWorld server) : Prop where
  past : ∀ entry ∈ log, entry.2 ≤ w.now
  keys : ∀ jti now, w.now ≤ now →
    server.existsKey w.state now jti = store.revokedIn log jti now

theorem RedisMove.now_le (h : RedisMove store calls w e w') : w.now ≤ w'.now := by
  cases h <;> first | exact le_rfl | exact Nat.le_add_right _ _

theorem RedisMove.state (h : RedisMove store calls w e w') :
    w'.state = w.state ∨ (∃ c, e = .execute c) ∨ ∃ state, e = .elsewhere state := by
  cases h with
  | executes c => exact .inr (.inl ⟨c, rfl⟩)
  | elsewhere state => exact .inr (.inr ⟨state, rfl⟩)
  | _ => exact .inl rfl

/-- Where the server executes a command, it is a revocation or leaves the keys as they are. -/
theorem state_execute (store : RedisRevocationStore) (calls : ℕ → RedisCall)
    (w : RedisWorld server) (c : ℕ) :
    (executionOf calls (w, .execute c) = none
        ∧ (redisStep store calls w (.execute c)).state = w.state)
      ∨ ∃ jti, executionOf calls (w, .execute c) = some (jti, w.now)
        ∧ (redisStep store calls w (.execute c)).state
          = server.setex w.state w.now jti store.ttl "1" := by
  simp only [executionOf, redisStep, execute]
  rcases hpc : w.pc c with retry | retry | ⟨retry, conn⟩ | ⟨retry, conn⟩ |
    ⟨retry, conn, _ | answer⟩ | _ | result
  case waiting.none =>
    rcases hcall : calls c with jti | jti
    · simp only []
      split_ifs
      · exact .inr ⟨jti, rfl, rfl⟩
      · exact .inl ⟨rfl, rfl⟩
    · refine .inl ⟨rfl, ?_⟩
      simp only []
      split_ifs <;> rfl
  all_goals exact .inl ⟨rfl, rfl⟩

theorem executionOf_of_ne (he : ∀ c, e ≠ .execute c) : executionOf calls (w, e) = none := by
  cases e with
  | execute c => exact absurd rfl (he c)
  | _ => rfl

theorem KeysOf.setex (hserver : server.KeysLast) (httl : 0 < store.ttl)
    (h : KeysOf store log w) (jti : String) (hnow : w'.now = w.now)
    (hstate : w'.state = server.setex w.state w.now jti store.ttl "1") :
    KeysOf store (log ++ [(jti, w.now)]) w' where
  past entry hentry := by
    rw [hnow]
    rcases List.mem_append.1 hentry with hold | hnew
    · exact h.past entry hold
    · rw [List.mem_singleton.1 hnew]
  keys other now hle := by
    rw [hnow] at hle
    rw [hstate, hserver.setex _ _ _ _ _ _ _ httl hle, h.keys other now hle, Bool.eq_iff_iff]
    simp only [revokedIn_eq_true, List.mem_append, List.mem_singleton, Prod.mk.injEq]
    split_ifs with hk
    · subst hk
      rw [decide_eq_true_eq]
      constructor
      · exact fun hyoung => ⟨w.now, .inr ⟨rfl, rfl⟩, hyoung⟩
      · rintro ⟨t, hold | ⟨-, rfl⟩, hyoung⟩
        · -- an older revocation would still be younger than the time to live
          have : t ≤ w.now := h.past _ hold
          omega
        · exact hyoung
    · simp [revokedIn_eq_true, hk]

theorem keysOf_step (hserver : server.KeysLast) (httl : 0 < store.ttl)
    (hown : ∀ state, e ≠ .elsewhere state) (h : KeysOf store log w) :
    KeysOf store (log ++ (executionOf calls (w, e)).toList) (redisStep store calls w e) := by
  have hmove : RedisMove store calls w e (redisStep store calls w e) := move_redisStep w e
  by_cases he : ∃ c, e = .execute c
  · obtain ⟨c, rfl⟩ := he
    have hnow : (redisStep store calls w (.execute c)).now = w.now := by
      simp only [redisStep, execute]
      split
      · split_ifs <;> rfl
      · rfl
    rcases state_execute store calls w c with
      ⟨hnone, hstate⟩ | ⟨jti, hsome, hstate⟩
    · rw [hnone, Option.toList_none, List.append_nil]
      refine ⟨fun entry hentry => hnow ▸ h.past entry hentry, fun jti now hle => ?_⟩
      rw [hstate]
      exact h.keys jti now (hnow ▸ hle)
    · rw [hsome]
      exact h.setex hserver httl jti hnow hstate
  · have hnone : executionOf calls (w, e) = none :=
      executionOf_of_ne fun c hc => he ⟨c, hc⟩
    have hstate : (redisStep store calls w e).state = w.state := by
      refine hmove.state.resolve_right fun h => ?_
      rcases h with hexecutes | ⟨state, helsewhere⟩
      · exact he hexecutes
      · exact hown state helsewhere
    rw [hnone, Option.toList_none, List.append_nil]
    refine ⟨fun entry hentry => le_trans (h.past entry hentry) hmove.now_le,
      fun jti now hle => ?_⟩
    rw [hstate]
    exact h.keys jti now (le_trans hmove.now_le hle)

theorem executions_append (steps steps' : List (RedisWorld server × RedisEvent server)) :
    executions calls (steps ++ steps') = executions calls steps ++ executions calls steps' :=
  List.filterMap_append

theorem executions_cons (w : RedisWorld server) (es : List (RedisEvent server)) :
    executions calls (redisSteps store calls w (e :: es)) = (executionOf calls (w, e)).toList
      ++ executions calls (redisSteps store calls (redisStep store calls w e) es) :=
  filterMap_taken_cons _ _ w e es

theorem keysOf_run (hserver : server.KeysLast) (httl : 0 < store.ttl) :
    ∀ {w : RedisWorld server} {log : List (String × ℕ)} (es : List (RedisEvent server)),
      (∀ state, .elsewhere state ∉ es) → KeysOf store log w →
        KeysOf store (log ++ executions calls (redisSteps store calls w es))
          (redisRun store calls w es)
  | w, log, [], _, h => by
    have hnil : executions calls (redisSteps store calls w []) = [] := rfl
    rw [hnil, List.append_nil]
    exact h
  | w, log, e :: es, hown, h => by
    have hstep : KeysOf store (log ++ (executionOf calls (w, e)).toList)
        (redisStep store calls w e) :=
      keysOf_step hserver httl (fun state he => hown state (he ▸ List.mem_cons_self)) h
    have hrest := keysOf_run hserver httl es
      (fun state hmem => hown state (List.mem_cons_of_mem _ hmem)) hstep
    rw [executions_cons, ← List.append_assoc]
    exact hrest

variable {connection : Option Bool} {up : Bool} {now : ℕ}

theorem keysOf_storeWith (hserver : server.KeysLast) :
    KeysOf store [] (storeWith connection up server.fresh now) where
  past _ h := by cases h
  keys jti now _ := hserver.fresh now jti

/-! ## Answers -/

theorem command_answer (h : KeysOf store log w) (call : RedisCall) :
    (call.command store w.now w.state).1 = call.answerFrom store log w.now := by
  cases call with
  | revoke jti => rfl
  | isRevoked jti => exact congrArg RedisReply.found (h.keys jti w.now le_rfl)

/-- A command that the server executes at the end of a run is the last one of its log. -/
theorem execution_of_waiting {retry : Bool} {conn : ℕ} {jti : String}
    (hpc : w.pc c = .waiting retry conn none) (hup : w.up = true) (hlive : w.live conn = true)
    (hcall : calls c = .revoke jti) : executionOf calls (w, .execute c) = some (jti, w.now) := by
  simp [executionOf, hpc, hcall, hup, hlive]

/-- Of a store that is alone in writing to its server, and starts with no key set: a call that has
returned an answer had its command executed at an instant of the call, and answers what the
revocations executed before that instant say; a revocation is then among those executed. -/
theorem redis_answers_at_instant (hserver : server.KeysLast) (store : RedisRevocationStore)
    (httl : 0 < store.ttl) (calls : ℕ → RedisCall) (connection : Option Bool) (up : Bool)
    (now : ℕ) (es : List (RedisEvent server)) (hown : ∀ state, .elsewhere state ∉ es) (c : ℕ)
    (answer : RedisReply)
    (hret : (redisRun store calls (storeWith connection up server.fresh now) es).pc c
      = .returned (.ok answer)) :
    ∃ es₁ es₂ w, es = es₁ ++ .execute c :: es₂
      ∧ w = redisRun store calls (storeWith connection up server.fresh now) es₁
      ∧ (∃ retry conn, w.pc c = .waiting retry conn none)
      ∧ answer = (calls c).answerFrom store (executions calls
          (redisSteps store calls (storeWith connection up server.fresh now) es₁)) w.now
      ∧ ∀ jti, calls c = .revoke jti → (jti, w.now) ∈ executions calls
          (redisSteps store calls (storeWith connection up server.fresh now) es) := by
  obtain ⟨es₁, es₂, es₃, retry, conn, rfl, hpc, -, hup, hlive, hanswer, -⟩ :=
    answered_of_returned waitsOnlyIfSent_storeWith rfl hret
  have hkeys : KeysOf store ([] ++ executions calls (redisSteps store calls
      (storeWith connection up server.fresh now) es₁))
      (redisRun store calls (storeWith connection up server.fresh now) es₁) :=
    keysOf_run hserver httl es₁ (fun state hmem => hown state (List.mem_append_left _ hmem))
      (keysOf_storeWith hserver)
  refine ⟨es₁, _, _, rfl, rfl, ⟨retry, conn, hpc⟩, ?_, fun jti hcall => ?_⟩
  · rw [← hanswer]
    exact command_answer hkeys (calls c)
  · rw [redisSteps_append, executions_append, List.mem_append]
    refine .inr ?_
    rw [executions_cons, execution_of_waiting hpc hup hlive hcall]
    exact List.mem_append_left _ (List.mem_singleton_self _)

/-- A call revokes over a connection it opens, and another one looks over the same connection. -/
def revokeThenLook : List (RedisEvent deadlineServer) :=
  [.step 0, .step 0, .connected 0, .step 0, .execute 0, .reply 0, .tick (59 * 10 ^ 9), .step 1,
    .step 1, .execute 1, .reply 1]

def revokeAndLookCalls (c : ℕ) : RedisCall := if c = 0 then .revoke "id" else .isRevoked "id"

theorem revokeThenLook_finds :
    (redisRun ⟨60⟩ revokeAndLookCalls (storeWith none true deadlineServer.fresh 0)
      revokeThenLook).pc 1 = .returned (.ok (.found true)) := by
  simp [redisRun, revokeThenLook, redisStep, callSection, storeWith, readConnection,
    lockConnection, connected, execute, reply, goto, RedisCall.command, revokeAndLookCalls,
    deadlineServer, Function.update, -AList.insert_empty, AList.lookup_insert]

theorem redis_answers_at_instant_found :
    ∃ es₁ es₂ w, revokeThenLook = es₁ ++ .execute 1 :: es₂
      ∧ w = redisRun ⟨60⟩ revokeAndLookCalls (storeWith none true deadlineServer.fresh 0) es₁
      ∧ (∃ retry conn, w.pc 1 = .waiting retry conn none)
      ∧ RedisReply.found true = (revokeAndLookCalls 1).answerFrom ⟨60⟩
          (executions revokeAndLookCalls (redisSteps ⟨60⟩ revokeAndLookCalls
            (storeWith none true deadlineServer.fresh 0) es₁)) w.now
      ∧ ∀ jti, revokeAndLookCalls 1 = .revoke jti → (jti, w.now) ∈ executions revokeAndLookCalls
          (redisSteps ⟨60⟩ revokeAndLookCalls (storeWith none true deadlineServer.fresh 0)
            revokeThenLook) :=
  redis_answers_at_instant deadlineServer_keysLast ⟨60⟩ (by decide) revokeAndLookCalls none true 0
    revokeThenLook (by simp [revokeThenLook]) 1 (.found true) revokeThenLook_finds

/-! ## Revoked tokens -/

/-- The key is there from now until the deadline, which is at most one time to live away. -/
structure KeyUntil (store : RedisRevocationStore) (jti : String) (deadline : ℕ)
    (w : RedisWorld server) : Prop where
  near : deadline ≤ w.now + store.ttl * 10 ^ 9
  keys : ∀ now, w.now ≤ now → now < deadline → server.existsKey w.state now jti = true

theorem keyUntil_step (hserver : server.KeysLast) (httl : 0 < store.ttl) {jti : String}
    {deadline : ℕ} (hspares : SparesKey jti w e) (h : KeyUntil store jti deadline w) :
    KeyUntil store jti deadline (redisStep store calls w e) := by
  have hmove : RedisMove store calls w e (redisStep store calls w e) := move_redisStep w e
  have hnear : deadline ≤ (redisStep store calls w e).now + store.ttl * 10 ^ 9 :=
    le_trans h.near (Nat.add_le_add_right hmove.now_le _)
  refine ⟨hnear, fun now hle hlt => ?_⟩
  have hle' : w.now ≤ now := le_trans hmove.now_le hle
  rcases hmove.state with hstate | ⟨c, rfl⟩ | ⟨state, rfl⟩
  · rw [hstate]
    exact h.keys now hle' hlt
  · rcases state_execute store calls w c with
      ⟨-, hstate⟩ | ⟨other, -, hstate⟩
    · rw [hstate]
      exact h.keys now hle' hlt
    · rw [hstate, hserver.setex _ _ _ _ _ _ _ httl hle']
      split_ifs
      · -- revoked anew, the key outlives the deadline
        have := h.near
        rw [decide_eq_true_eq]
        omega
      · exact h.keys now hle' hlt
  · exact hspares now hle' (h.keys now hle' hlt)

theorem keyUntil_run (hserver : server.KeysLast) (httl : 0 < store.ttl) {jti : String}
    {deadline : ℕ} {es : List (RedisEvent server)}
    (hspares : ∀ x ∈ redisSteps store calls w es, SparesKey jti x.1 x.2)
    (h : KeyUntil store jti deadline w) : KeyUntil store jti deadline (redisRun store calls w es) :=
  forall_visited_of_taken _ h (fun x hx hx1 => keyUntil_step hserver httl (hspares x hx) hx1) _
    (run_mem_visited _ _ _)

/-- From the instant a revocation is executed, its key is there for the time to live. -/
theorem keyUntil_execute (hserver : server.KeysLast) (httl : 0 < store.ttl) {jti : String}
    {retry : Bool} {conn : ℕ} (hpc : w.pc c = .waiting retry conn none) (hup : w.up = true)
    (hlive : w.live conn = true) (hcall : calls c = .revoke jti) :
    KeyUntil store jti (w.now + store.ttl * 10 ^ 9) (redisStep store calls w (.execute c)) := by
  have hstep : redisStep store calls w (.execute c)
      = { w with state := server.setex w.state w.now jti store.ttl "1" }.goto c
        (.waiting retry conn (some .done)) := by
    simp [redisStep, execute, hpc, hup, hlive, hcall, RedisCall.command]
  rw [hstep]
  refine ⟨le_rfl, fun now hle hlt => ?_⟩
  have hle : w.now ≤ now := hle
  have hset := hserver.setex w.state w.now jti store.ttl "1" now jti httl hle
  rw [if_pos rfl] at hset
  show server.existsKey (server.setex w.state w.now jti store.ttl "1") now jti = true
  rw [hset, decide_eq_true_eq]
  omega

theorem now_le_redisRun (w : RedisWorld server) (es : List (RedisEvent server)) :
    w.now ≤ (redisRun store calls w es).now :=
  run_inv (redisStep store calls) (P := fun w' => w.now ≤ w'.now)
    (fun w' e h => le_trans h (move_redisStep w' e).now_le) es le_rfl

/-- A look at a `jti` whose revocation has returned finds the key, if it is answered before the time
to live is over. -/
theorem found_of_revoked (hserver : server.KeysLast) (httl : 0 < store.ttl) {jti : String}
    {r : ℕ} {during after : List (RedisEvent server)} {answer answer' : RedisReply}
    (hrevoke : calls r = .revoke jti) (hlook : calls c = .isRevoked jti)
    (hsent : WaitsOnlyIfSent w) (hstart : w.pc r = .reading false)
    (hrevoked : (redisRun store calls w during).pc r = .returned (.ok answer))
    (hlater : (redisRun store calls w during).pc c = .reading false)
    (hspares : ∀ x ∈ redisSteps store calls w (during ++ after), SparesKey jti x.1 x.2)
    (hnow : (redisRun store calls w (during ++ after)).now < w.now + store.ttl * 10 ^ 9)
    (hret : (redisRun store calls w (during ++ after)).pc c = .returned (.ok answer')) :
    answer' = .found true := by
  -- the revocation was executed before it returned
  obtain ⟨es₁, es₂, es₃, retry, conn, hduring, hpc, -, hup, hlive, -, -⟩ :=
    answered_of_returned hsent hstart hrevoked
  -- and the look is executed after that
  rw [redisRun_append] at hret
  obtain ⟨es₁', es₂', es₃', -, -, rfl, -, -, -, -, hanswer, -⟩ :=
    answered_of_returned (waitsOnlyIfSent_run hsent during) hlater hret
  set executed := redisRun store calls w es₁ with hexecuted
  have hsplit : during ++ es₁' = es₁ ++ .execute r :: (es₂ ++ .reply r :: es₃ ++ es₁') := by
    rw [hduring]
    simp
  have hrun : redisRun store calls w (during ++ es₁')
      = redisRun store calls (redisStep store calls executed (.execute r))
        (es₂ ++ .reply r :: es₃ ++ es₁') := by
    rw [hsplit, redisRun_append]
    rfl
  have hkey : KeyUntil store jti (executed.now + store.ttl * 10 ^ 9)
      (redisRun store calls w (during ++ es₁')) := by
    rw [hrun]
    refine keyUntil_run hserver httl (fun x hx => hspares x ?_)
      (keyUntil_execute hserver httl hpc hup hlive hrevoke)
    rw [← List.append_assoc during, hsplit, redisSteps_append, redisSteps_append, ← hexecuted]
    exact List.mem_append_left _ (List.mem_append_right _ (List.mem_cons_of_mem _ hx))
  have hexec_le : w.now ≤ executed.now := now_le_redisRun w es₁
  have hlook_le : (redisRun store calls w (during ++ es₁')).now
      ≤ (redisRun store calls w (during ++ (es₁' ++ .execute c :: (es₂' ++ .reply c :: es₃')))).now
      := by
    rw [← List.append_assoc, redisRun_append w (during ++ es₁')]
    exact now_le_redisRun _ _
  rw [← redisRun_append, hlook] at hanswer
  rw [← hanswer]
  exact congrArg RedisReply.found (hkey.keys _ le_rfl (by omega))

theorem decodeStandard_eq_revoked {B : Backend} {rotation : Bool} {service : JwtService}
    {token : B.Token} {secs : ℤ} {claims : StandardClaims} {jti : String}
    {isRevoked : String → Except JwtError Bool}
    (hvalid : service.validate B rotation token secs = .ok claims)
    (hjti : claims.jti = some jti) (hrevoked : isRevoked jti ≠ .ok false) :
    (service.withRevocation isRevoked).decodeStandard B rotation token secs
      = .error .revoked := by
  have hdecode : (service.withRevocation isRevoked).decode B rotation token secs
      = .ok claims := hvalid
  unfold JwtService.decodeStandard
  rw [hdecode]
  simp only [bind, Except.bind, JwtService.withRevocation, hjti]
  rcases hanswer : isRevoked jti with e | _ | _
  · rfl
  · exact absurd hanswer hrevoked
  · rfl

/-- What `decode_standard` makes of a look at a revoked `jti` is not that it may go on. -/
theorem isRevokedResult_of_revoked (hserver : server.KeysLast) (httl : 0 < store.ttl)
    {jti : String} {r : ℕ} {during after : List (RedisEvent server)} {answer : RedisReply}
    {result : Except String RedisReply} (hrevoke : calls r = .revoke jti)
    (hlook : calls c = .isRevoked jti) (hsent : WaitsOnlyIfSent w)
    (hstart : w.pc r = .reading false)
    (hrevoked : (redisRun store calls w during).pc r = .returned (.ok answer))
    (hlater : (redisRun store calls w during).pc c = .reading false)
    (hspares : ∀ x ∈ redisSteps store calls w (during ++ after), SparesKey jti x.1 x.2)
    (hnow : (redisRun store calls w (during ++ after)).now < w.now + store.ttl * 10 ^ 9)
    (hret : (redisRun store calls w (during ++ after)).pc c = .returned result) :
    isRevokedResult result ≠ .ok false := by
  rcases result with text | answer'
  · simp [isRevokedResult]
  · obtain rfl : answer' = .found true :=
      found_of_revoked hserver httl hrevoke hlook hsent hstart hrevoked hlater hspares hnow hret
    simp [isRevokedResult]

/-- A token is rejected by every `decode_standard` that starts after the revocation of its `jti` has
returned, and is done before the time to live is over since the revocation started: whatever the
server and the connections do meanwhile, and whatever else is written by others except to the
key. -/
theorem revoked_rejected_over_redis (hserver : server.KeysLast) (store : RedisRevocationStore)
    (httl : 0 < store.ttl) (calls : ℕ → RedisCall) (connection : Option Bool) (up : Bool)
    (state : server.State) (now : ℕ) (before during after : List (RedisEvent server))
    (jti : String) (r c : ℕ) (hrevoke : calls r = .revoke jti) (hlook : calls c = .isRevoked jti)
    (hstart : (redisRun store calls (storeWith connection up state now) before).pc r
      = .reading false)
    (hrevoked : (redisRun store calls (storeWith connection up state now)
      (before ++ during)).pc r = .returned (.ok .done))
    (hlater : (redisRun store calls (storeWith connection up state now)
      (before ++ during)).pc c = .reading false)
    (hspares : ∀ x ∈ redisSteps store calls (storeWith connection up state now)
      (before ++ during ++ after), SparesKey jti x.1 x.2)
    (hnow : (redisRun store calls (storeWith connection up state now)
        (before ++ during ++ after)).now
      < (redisRun store calls (storeWith connection up state now) before).now
        + store.ttl * 10 ^ 9)
    (result : Except String RedisReply)
    (hret : (redisRun store calls (storeWith connection up state now)
      (before ++ during ++ after)).pc c = .returned result)
    (B : Backend) (rotation : Bool) (service : JwtService) (token : B.Token) (secs : ℤ)
    (claims : StandardClaims) (hvalid : service.validate B rotation token secs = .ok claims)
    (hjti : claims.jti = some jti) :
    (service.withRevocation fun _ => isRevokedResult result).decodeStandard B rotation token secs
      = .error .revoked := by
  rw [redisRun_append] at hrevoked hlater
  rw [List.append_assoc, redisRun_append] at hnow hret
  rw [List.append_assoc, redisSteps_append] at hspares
  exact decodeStandard_eq_revoked hvalid hjti
    (isRevokedResult_of_revoked hserver httl hrevoke hlook
      (waitsOnlyIfSent_run waitsOnlyIfSent_storeWith before) hstart hrevoked hlater
      (fun x hx => hspares x (List.mem_append_right _ hx)) hnow hret)

/-- The second attempt of the look fails as well, and the service rejects the token. -/
def revokeThenLose : List (RedisEvent deadlineServer) :=
  [.step 1, .step 1, .fail 1 "broken pipe", .step 1, .step 1, .step 1,
    .connectFailed 1 "connection refused"]

theorem revoked_rejected_over_redis_lost :
    ((quickStart (some "issuer")).withRevocation fun _ =>
        isRevokedResult (.error "connection refused")).decodeStandard transparentBackend true
      (quickStartToken [("iss", .str "issuer")]) 1005 = .error .revoked :=
  revoked_rejected_over_redis deadlineServer_keysLast ⟨60⟩ (by decide) revokeAndLookCalls none true
    deadlineServer.fresh 0 [] (revokeThenLook.take 7) revokeThenLose "id" 0 1 rfl rfl rfl rfl rfl
    (by simp [revokeThenLook, revokeThenLose, redisSteps, taken, SparesKey]) (by decide) _ rfl _ _ _
    _ 1005 _ rfl rfl

end TokenKit
