import TokenKit.Proofs.RedisSteps
import TokenKit.Proofs.Backends

/-!
# Getting over a dead connection

A call that makes its second attempt has dropped the connection that was kept, and nobody was
opening one while it did. So any connection it can find from then on was begun later
(`Reconnects`). If the server stays up meanwhile, that connection is live, and the second command is
answered (`redis_recovers`).
-/

namespace TokenKit

open StepMachine RedisWorld

variable {server : RedisServer} {store : RedisRevocationStore} {calls : ℕ → RedisCall}
  {w w' : RedisWorld server} {e : RedisEvent server} {first c conn : ℕ}

/-! ## The lock -/

/-- The lock is held by the call that opens a connection, and no connection has a number that is
yet to be given. -/
structure Locked (w : RedisWorld server) : Prop where
  holder : ∀ c retry conn, w.pc c = .opening retry conn → w.lock = some c
  opening : ∀ c, w.lock = some c → ∃ retry conn, w.pc c = .opening retry conn
  connection : ∀ conn, w.connection = some conn → conn < w.opened
  conn : ∀ c conn, (w.pc c).conn = some conn → conn < w.opened

theorem Locked.not_opening (hw : Locked w) (hlock : w.lock = none) (c : ℕ) (retry : Bool)
    (conn : ℕ) : w.pc c ≠ .opening retry conn := by
  intro hpc
  rw [hw.holder c retry conn hpc] at hlock
  cases hlock

theorem Locked.goto (hw : Locked w) {pc : RedisPc}
    (hold : ∀ retry conn, w.pc c ≠ .opening retry conn)
    (hnew : ∀ retry conn, pc ≠ .opening retry conn)
    (hconn : ∀ conn, pc.conn = some conn → conn < w.opened) : Locked (w.goto c pc) where
  holder c' retry conn h := by
    rw [goto_pc] at h
    split_ifs at h with hc
    · exact absurd h (hnew retry conn)
    · exact hw.holder c' retry conn h
  opening c' h := by
    obtain ⟨retry, conn, hpc⟩ := hw.opening c' h
    refine ⟨retry, conn, ?_⟩
    rw [goto_pc, if_neg]
    · exact hpc
    · rintro rfl
      exact hold retry conn hpc
  connection := hw.connection
  conn c' conn h := by
    rw [goto_pc] at h
    split_ifs at h with hc
    · exact hconn conn h
    · exact hw.conn c' conn h

/-- The call that opens a connection lets go of the lock, with a connection kept or not. -/
theorem Locked.release (hw : Locked w) {retry : Bool} (hpc : w.pc c = .opening retry conn)
    {kept : Option ℕ} {live : ℕ → Bool} {pc : RedisPc}
    (hkept : ∀ conn, kept = some conn → conn < w.opened)
    (hnew : ∀ retry conn, pc ≠ .opening retry conn)
    (hconn : ∀ conn, pc.conn = some conn → conn < w.opened) :
    Locked ({ w with connection := kept, lock := none, live := live }.goto c pc) where
  holder c' retry' conn' h := by
    rw [goto_pc] at h
    split_ifs at h with hc
    · exact absurd h (hnew retry' conn')
    · have := (hw.holder c retry conn hpc).symm.trans (hw.holder c' retry' conn' h)
      exact absurd (Option.some.inj this).symm hc
  opening c' h := by cases h
  connection := hkept
  conn c' conn' h := by
    rw [goto_pc] at h
    split_ifs at h with hc
    · exact hconn conn' h
    · exact hw.conn c' conn' h

theorem locked_move (hw : Locked w) (h : RedisMove store calls w e w') : Locked w' := by
  have hconn : ∀ {c : ℕ} {conn : ℕ}, (w.pc c).conn = some conn → conn < w.opened :=
    fun {c conn} => hw.conn c conn
  cases h with
  | idle => exact hw
  | crash | restart | breaks | elsewhere | tick =>
    exact ⟨hw.holder, hw.opening, hw.connection, hw.conn⟩
  | found c retry conn hpc hlock hkept =>
    refine hw.goto (hw.not_opening hlock c) (by simp) ?_
    rintro _ ⟨⟩
    exact hw.connection conn hkept
  | missed c retry hpc hlock =>
    exact hw.goto (hw.not_opening hlock c) (by simp) (by simp [RedisPc.conn])
  | opens c retry hpc hlock hkept =>
    constructor
    · intro c' retry' conn' h
      rw [goto_pc] at h
      split_ifs at h with hc
      · exact congrArg some hc.symm
      · exact absurd h (hw.not_opening hlock c' retry' conn')
    · rintro _ ⟨⟩
      exact ⟨retry, w.opened, goto_pc_self _ _ _⟩
    · intro conn' h
      have := hw.connection conn' h
      simp only [goto_opened]
      omega
    · intro c' conn' h
      rw [goto_pc] at h
      simp only [goto_opened]
      split_ifs at h with hc
      · cases h
        omega
      · have := hconn h
        omega
  | sends c retry conn hpc =>
    have hsent : Locked { w with sent := w.sent ++ [(c, conn)] } :=
      ⟨hw.holder, hw.opening, hw.connection, hw.conn⟩
    refine hsent.goto (by simp [hpc]) (by simp) ?_
    rintro _ ⟨⟩
    exact hconn (by rw [hpc]; rfl)
  | resets c hpc hlock =>
    have hdropped : Locked { w with connection := none } :=
      ⟨hw.holder, hw.opening, by simp, hw.conn⟩
    exact hdropped.goto (by simp [hpc]) (by simp) (by simp [RedisPc.conn])
  | connects c retry conn hpc hup =>
    have hlt : conn < w.opened := hconn (by rw [hpc]; rfl)
    refine hw.release hpc ?_ (by simp) ?_
    · rintro _ ⟨⟩
      exact hlt
    · rintro _ ⟨⟩
      exact hlt
  | refused c text retry conn hpc =>
    exact hw.release hpc hw.connection (by simp) (by simp [RedisPc.conn])
  | executes c retry conn hpc hup hlive =>
    have hstate : Locked { w with state := ((calls c).command store w.now w.state).2 } :=
      ⟨hw.holder, hw.opening, hw.connection, hw.conn⟩
    refine hstate.goto (by simp [hpc]) (by simp) ?_
    rintro _ ⟨⟩
    exact hconn (by rw [hpc]; rfl)
  | replies c retry conn answer hpc =>
    exact hw.goto (by simp [hpc]) (by simp) (by simp [RedisPc.conn])
  | failsOnce c text conn answer hpc =>
    exact hw.goto (by simp [hpc]) (by simp) (by simp [RedisPc.conn])
  | failsTwice c text conn answer hpc =>
    exact hw.goto (by simp [hpc]) (by simp) (by simp [RedisPc.conn])

/-! ## The connections of a second attempt -/

/-- The connection is the one that is kept, one that is being opened, or the call's own. -/
def InReach (w : RedisWorld server) (c conn : ℕ) : Prop :=
  w.connection = some conn ∨ (∃ c' retry, w.pc c' = .opening retry conn)
    ∨ (w.pc c).conn = some conn

/-- Since connection `first` was still to come: a call that makes its second attempt can only come
by a later one, and has only sent a second command over a later one. -/
structure Reconnects (first c : ℕ) (w : RedisWorld server) : Prop where
  opened : first ≤ w.opened
  inReach : (w.pc c).Retrying → ∀ conn, InReach w c conn → first ≤ conn
  commands : (w.sentBy c).length ≤ (w.pc c).commands
  second : ∀ conn ∈ (w.sentBy c).tail, first ≤ conn

theorem RedisMove.opened_le (h : RedisMove store calls w e w') : w.opened ≤ w'.opened := by
  cases h <;> simp

/-- What comes into reach was in reach before, or is the connection that is begun next. -/
theorem RedisMove.inReach (h : RedisMove store calls w e w') (hreach : InReach w' c conn) :
    InReach w c conn ∨ conn = w.opened := by
  unfold InReach at hreach ⊢
  cases h <;> grind [goto_pc, RedisPc.conn, goto_connection]

/-- A call comes to its second attempt when it drops the connection that is kept. -/
theorem RedisMove.retrying (h : RedisMove store calls w e w') (hretry : (w'.pc c).Retrying) :
    (w.pc c).Retrying
      ∨ w.lock = none ∧ w' = { w with connection := none }.goto c (.reading true) := by
  cases h <;> grind [goto_pc, RedisPc.Retrying]

theorem sentBy_concat (w : RedisWorld server) (c c' conn : ℕ) (pc : RedisPc) :
    ({ w with sent := w.sent ++ [(c', conn)] }.goto c' pc).sentBy c
      = w.sentBy c ++ if c' = c then [conn] else [] := by
  unfold sentBy
  simp only [goto_sent, List.filter_append, List.map_append]
  by_cases hc : c' = c <;> simp [hc]

theorem RedisMove.commands_le (h : RedisMove store calls w e w') (c : ℕ) :
    (w.pc c).commands ≤ (w'.pc c).commands := by
  cases h <;> grind [goto_pc, RedisPc.commands, RedisPc.commands_le_two]

/-- A step sends no command, or sends that of the call that has a connection for it. -/
theorem RedisMove.sentBy (h : RedisMove store calls w e w') (c : ℕ) :
    w'.sentBy c = w.sentBy c ∨ ∃ retry conn, w.pc c = .holding retry conn
      ∧ w'.pc c = .waiting retry conn none ∧ w'.sentBy c = w.sentBy c ++ [conn] := by
  cases h
  case sends c' retry conn hpc =>
    rw [sentBy_concat]
    split_ifs with hc
    · subst hc
      exact .inr ⟨retry, conn, hpc, goto_pc_self _ _ _, rfl⟩
    · exact .inl (List.append_nil _)
  all_goals exact .inl rfl

theorem reconnects_move (hlocked : Locked w) (hw : Reconnects first c w)
    (h : RedisMove store calls w e w') : Reconnects first c w' := by
  refine ⟨le_trans hw.opened h.opened_le, fun hretry conn hreach => ?_, ?_, ?_⟩
  · rcases h.retrying hretry with hold | ⟨hlock, rfl⟩
    · rcases h.inReach hreach with hreach | rfl
      · exact hw.inReach hold conn hreach
      · exact hw.opened
    · -- the call has just dropped the connection, and nobody was opening one
      rcases hreach with hconn | ⟨c', retry, hopening⟩ | hconn
      · cases hconn
      · rw [goto_pc] at hopening
        split_ifs at hopening
        exact absurd hopening (hlocked.not_opening hlock c' retry conn)
      · rw [goto_pc_self] at hconn
        cases hconn
  · rcases h.sentBy c with hsent | ⟨retry, conn, hpc, hpc', hsent⟩
    · rw [hsent]
      exact le_trans hw.commands (h.commands_le c)
    · have := hw.commands
      rw [hpc] at this
      rw [hsent, hpc', List.length_append, List.length_singleton]
      simp only [RedisPc.commands] at this ⊢
      omega
  · rcases h.sentBy c with hsent | ⟨retry, conn, hpc, -, hsent⟩
    · rw [hsent]
      exact hw.second
    · have hcommands := hw.commands
      have hreach := hw.inReach
      rw [hpc] at hcommands hreach
      rw [hsent]
      intro conn' hmem
      rcases hold : w.sentBy c with _ | ⟨conn₁, rest⟩ <;> rw [hold] at hmem hcommands
      · cases hmem
      · -- it is the second command
        have hretry : retry = true := by
          cases retry with
          | true => rfl
          | false => cases hcommands
        rw [List.cons_append, List.tail_cons, List.mem_append, List.mem_singleton] at hmem
        rcases hmem with hmem | rfl
        · exact hw.second conn' (by rw [hold]; exact hmem)
        · exact hreach hretry conn' (.inr (.inr (by rw [hpc]; rfl)))

/-! ## While the server is up -/

/-- The server is up, an attempt to connect succeeds, a connection from `first` on stays live, and a
command over a live connection is answered. -/
def Serves (first : ℕ) (w : RedisWorld server) : RedisEvent server → Prop
  | .crash => False
  | .broken conn => conn < first
  | .connectFailed c _ => ∀ retry conn, w.pc c ≠ .opening retry conn
  | .fail c _ => ∀ retry conn answer, w.pc c = .waiting retry conn answer → w.live conn = false
  | _ => True

/-- The connection is kept, or a call has it. -/
def InUse (w : RedisWorld server) (conn : ℕ) : Prop :=
  w.connection = some conn ∨ ∃ c, (w.pc c).has = some conn

theorem Locked.lt_of_inUse (hw : Locked w) (huse : InUse w conn) : conn < w.opened := by
  rcases huse with hkept | ⟨c, hhas⟩
  · exact hw.connection conn hkept
  · exact hw.conn c conn (RedisPc.conn_of_has hhas)

structure Serving (first : ℕ) (w : RedisWorld server) : Prop where
  up : w.up = true
  live : ∀ conn, first ≤ conn → InUse w conn → w.live conn = true

theorem RedisMove.up (h : RedisMove store calls w e w') (hserves : Serves first w e)
    (hup : w.up = true) : w'.up = true := by
  cases h
  case crash => exact hserves.elim
  case restart => rfl
  all_goals exact hup

theorem RedisMove.live (h : RedisMove store calls w e w') (hserves : Serves first w e)
    (hfirst : first ≤ conn) (hlive : w.live conn = true) : w'.live conn = true := by
  cases h
  case crash => exact hserves.elim
  case breaks conn' =>
    have hne : conn ≠ conn' := by
      have : conn' < first := hserves
      omega
    exact (Function.update_of_ne hne _ _).trans hlive
  case connects c retry conn' hpc hup =>
    simp only [goto_live, Function.update_apply]
    split_ifs
    · rfl
    · exact hlive
  all_goals exact hlive

theorem RedisMove.inUse (h : RedisMove store calls w e w') (huse : InUse w' conn) :
    InUse w conn ∨ w'.live conn = true := by
  unfold InUse at huse ⊢
  cases h
  case connects c retry conn' hpc hup =>
    by_cases hc : conn = conn'
    · subst hc
      exact .inr (Function.update_self _ _ _)
    · left
      grind [goto_pc, RedisPc.has, goto_connection]
  all_goals grind [goto_pc, RedisPc.has, goto_connection]

theorem serving_move (hw : Serving first w) (hserves : Serves first w e)
    (h : RedisMove store calls w e w') : Serving first w' := by
  refine ⟨h.up hserves hw.up, fun conn hfirst huse => ?_⟩
  rcases h.inUse huse with huse | hlive
  · exact h.live hserves hfirst (hw.live conn hfirst huse)
  · exact hlive

/-! ## What a call returns -/

theorem RedisMove.of_error (h : RedisMove store calls w e w') {text : String}
    (hret : w'.pc c = .returned (.error text)) : w.pc c = .returned (.error text)
      ∨ (e = .connectFailed c text ∧ ∃ retry conn, w.pc c = .opening retry conn)
      ∨ e = .fail c text ∧ ∃ conn answer, w.pc c = .waiting true conn answer := by
  cases h <;> grind [goto_pc]

theorem RedisMove.of_ok (h : RedisMove store calls w e w') {answer : RedisReply}
    (hret : w'.pc c = .returned (.ok answer)) : w.pc c = .returned (.ok answer)
      ∨ e = .reply c ∧ ∃ retry conn, w.pc c = .waiting retry conn (some answer) := by
  cases h <;> grind [goto_pc]

theorem RedisMove.of_executed (h : RedisMove store calls w e w') {retry : Bool}
    {answer : RedisReply} (hpc : w'.pc c = .waiting retry conn (some answer)) :
    w.pc c = .waiting retry conn (some answer) ∨ e = .execute c
      ∧ w.pc c = .waiting retry conn none ∧ w.up = true ∧ w.live conn = true
      ∧ ((calls c).command store w.now w.state).1 = answer := by
  cases h <;> grind [goto_pc]

/-- A call that waits for a reply has sent its command. -/
def WaitsOnlyIfSent (w : RedisWorld server) : Prop :=
  ∀ c retry conn answer, w.pc c = .waiting retry conn answer → (c, conn) ∈ w.sent

theorem waitsOnlyIfSent_move (hw : WaitsOnlyIfSent w) (h : RedisMove store calls w e w') :
    WaitsOnlyIfSent w' := by
  unfold WaitsOnlyIfSent at hw ⊢
  cases h <;> grind [goto_pc, goto_sent]

/-- The server executed a command that the call had sent, over a live connection, and its reply
arrived. -/
def Answered (store : RedisRevocationStore) (calls : ℕ → RedisCall) (w : RedisWorld server)
    (es : List (RedisEvent server)) (c : ℕ) (answer : RedisReply) : Prop :=
  ∃ es₁ es₂ es₃ retry conn, es = es₁ ++ .execute c :: (es₂ ++ .reply c :: es₃)
    ∧ (redisRun store calls w es₁).pc c = .waiting retry conn none
    ∧ (c, conn) ∈ (redisRun store calls w es₁).sent
    ∧ (redisRun store calls w es₁).up = true
    ∧ (redisRun store calls w es₁).live conn = true
    ∧ ((calls c).command store (redisRun store calls w es₁).now
        (redisRun store calls w es₁).state).1 = answer
    ∧ (redisRun store calls w (es₁ ++ .execute c :: es₂)).pc c
      = .waiting retry conn (some answer)

section Runs

variable {es : List (RedisEvent server)}

theorem waitsOnlyIfSent_run (hw : WaitsOnlyIfSent w) (es : List (RedisEvent server)) :
    WaitsOnlyIfSent (redisRun store calls w es) :=
  run_inv _ (fun _ e h => waitsOnlyIfSent_move h (move_redisStep _ e)) es hw

theorem answered_of_returned (hsent : WaitsOnlyIfSent w) (hpc : w.pc c = .reading false)
    {answer : RedisReply}
    (hret : (redisRun store calls w es).pc c = .returned (.ok answer)) :
    Answered store calls w es c answer := by
  obtain ⟨es', e, es₃, rfl, hbefore, hafter⟩ := exists_step_of_run (redisStep store calls)
    (P := fun w => w.pc c = .returned (.ok answer)) es (by simp [hpc]) hret
  obtain ⟨rfl, retry, conn, hreplied⟩ :=
    ((move_redisStep _ e).of_ok hafter).resolve_left hbefore
  obtain ⟨es₁, e, es₂, rfl, hbefore, hafter⟩ := exists_step_of_run (redisStep store calls)
    (P := fun w => w.pc c = .waiting retry conn (some answer)) es' (by simp [hpc]) hreplied
  obtain ⟨rfl, hwaiting, hup, hlive, hanswer⟩ :=
    ((move_redisStep _ e).of_executed hafter).resolve_left hbefore
  have hsent' : WaitsOnlyIfSent (redisRun store calls w es₁) := waitsOnlyIfSent_run hsent es₁
  exact ⟨es₁, es₂, es₃, retry, conn, by simp, hwaiting, hsent' c retry conn none hwaiting, hup,
    hlive, hanswer, hreplied⟩

/-- Where nobody else holds the lock, a call that has not returned can be taken on. -/
theorem exists_step (hlocked : Locked w) (hup : w.up = true)
    (hfree : w.lock = none ∨ w.lock = some c) (hpc : ∀ result, w.pc c ≠ .returned result) :
    ∃ e, Serves first w e ∧ ((redisStep store calls w e).pc c).rank < (w.pc c).rank
      ∧ ((redisStep store calls w e).lock = none ∨ (redisStep store calls w e).lock = some c) := by
  have hnone : (∀ retry conn, w.pc c ≠ .opening retry conn) → w.lock = none := by
    intro hno
    refine hfree.resolve_right fun hlock => ?_
    obtain ⟨retry, conn, hopening⟩ := hlocked.opening c hlock
    exact hno retry conn hopening
  rcases hstate : w.pc c with retry | retry | ⟨retry, conn⟩ | ⟨retry, conn⟩ |
    ⟨retry, conn, answer⟩ | _ | result
  · have hlock := hnone (by simp [hstate])
    refine ⟨.step c, trivial, ?_⟩
    rcases hconn : w.connection with _ | conn <;>
      simp [redisStep, callSection, hstate, readConnection, hlock, hconn, RedisPc.rank]
  · have hlock := hnone (by simp [hstate])
    refine ⟨.step c, trivial, ?_⟩
    rcases hconn : w.connection with _ | conn <;>
      simp [redisStep, callSection, hstate, lockConnection, hlock, hconn, RedisPc.rank]
  · refine ⟨.connected c, trivial, ?_⟩
    simp [redisStep, connected, hstate, hup, RedisPc.rank]
  · have hlock := hnone (by simp [hstate])
    refine ⟨.step c, trivial, ?_⟩
    simp [redisStep, callSection, hstate, hlock, RedisPc.rank]
  · have hlock := hnone (by simp [hstate])
    rcases answer with _ | answer
    · by_cases hlive : w.live conn = true
      · refine ⟨.execute c, trivial, ?_⟩
        simp [redisStep, execute, hstate, hup, hlive, hlock, RedisPc.rank]
      · refine ⟨.fail c "broken", ?_, ?_⟩
        · intro retry' conn' answer' h
          rw [hstate] at h
          cases h
          simpa using hlive
        · cases retry <;> simp [redisStep, fail, hstate, hlock, RedisPc.rank]
    · refine ⟨.reply c, trivial, ?_⟩
      simp [redisStep, reply, hstate, hlock, RedisPc.rank]
  · have hlock := hnone (by simp [hstate])
    refine ⟨.step c, trivial, ?_⟩
    simp [redisStep, callSection, hstate, resetConnection, hlock, RedisPc.rank]
  · exact absurd hstate (hpc result)

theorem exists_finish_of_free (n : ℕ) : ∀ {w : RedisWorld server}, Locked w → w.up = true →
    (w.lock = none ∨ w.lock = some c) → (w.pc c).rank ≤ n →
      ∃ es, (∀ x ∈ redisSteps store calls w es, Serves first x.1 x.2)
        ∧ ∃ result, (redisRun store calls w es).pc c = .returned result := by
  induction n with
  | zero =>
    intro w _ _ _ hrank
    have hret : ∃ result, w.pc c = .returned result := by
      rcases hpc : w.pc c with retry | retry | ⟨retry, conn⟩ | ⟨retry, conn⟩ |
        ⟨retry, conn, answer⟩ | _ | result
      case returned => exact ⟨result, rfl⟩
      case waiting =>
        have := RedisPc.rank_waiting retry conn answer
        rw [hpc] at hrank
        omega
      all_goals simp [hpc, RedisPc.rank] at hrank
    exact ⟨[], by simp [redisSteps, taken], hret⟩
  | succ n ih =>
    intro w hlocked hup hfree hrank
    by_cases hret : ∃ result, w.pc c = .returned result
    · exact ⟨[], by simp [redisSteps, taken], hret⟩
    · obtain ⟨e, hserves, hdown, hfree'⟩ : ∃ e, Serves first w e
          ∧ ((redisStep store calls w e).pc c).rank < (w.pc c).rank
          ∧ ((redisStep store calls w e).lock = none ∨ (redisStep store calls w e).lock = some c) :=
        exists_step hlocked hup hfree fun result h => hret ⟨result, h⟩
      have hmove : RedisMove store calls w e (redisStep store calls w e) := move_redisStep w e
      obtain ⟨es, hes, hend⟩ := ih (locked_move hlocked hmove) (hmove.up hserves hup) hfree'
        (by omega)
      exact ⟨e :: es, forall_redisSteps_cons.2 ⟨hserves, hes⟩, hend⟩

/-- Whoever holds the lock, a call can come to its end while the server is up. -/
theorem exists_finish (store : RedisRevocationStore) (calls : ℕ → RedisCall) (first c : ℕ)
    (hlocked : Locked w) (hup : w.up = true) :
    ∃ es, (∀ x ∈ redisSteps store calls w es, Serves first x.1 x.2)
      ∧ ∃ result, (redisRun store calls w es).pc c = .returned result := by
  rcases hlock : w.lock with _ | holder
  · exact exists_finish_of_free _ hlocked hup (.inl hlock) le_rfl
  by_cases hc : holder = c
  · exact exists_finish_of_free _ hlocked hup (.inr (by rw [hlock, hc])) le_rfl
  · -- the connection that is being opened opens
    obtain ⟨retry, conn, hopening⟩ := hlocked.opening holder hlock
    have hmove : RedisMove store calls w (.connected holder)
      (redisStep store calls w (.connected holder)) := move_redisStep w _
    have hfree : (redisStep store calls w (.connected holder)).lock = none := by
      simp [redisStep, connected, hopening, hup]
    have hserves : Serves first w (.connected holder) := trivial
    obtain ⟨es, hes, hend⟩ :=
      exists_finish_of_free _ (locked_move hlocked hmove) (hmove.up hserves hup) (.inl hfree) le_rfl
    exact ⟨.connected holder :: es, forall_redisSteps_cons.2 ⟨hserves, hes⟩, hend⟩

/-- What holds of a call that has not started, along a stretch in which the server is up. -/
structure Recovers (first c : ℕ) (w : RedisWorld server) : Prop where
  locked : Locked w
  reconnects : Reconnects first c w
  serving : Serving first w
  no_error : ∀ text, w.pc c ≠ .returned (.error text)

theorem recovers_move (hw : Recovers first c w) (hserves : Serves first w e)
    (h : RedisMove store calls w e w') : Recovers first c w' := by
  refine ⟨locked_move hw.locked h, reconnects_move hw.locked hw.reconnects h,
    serving_move hw.serving hserves h, fun text hret => ?_⟩
  rcases h.of_error hret with hret | ⟨rfl, retry, conn, hpc⟩ | ⟨rfl, conn, answer, hpc⟩
  · exact hw.no_error text hret
  · exact hserves retry conn hpc
  · -- the second attempt's connection is live, so its command does not fail
    have hdead : w.live conn = false := hserves true conn answer hpc
    have hnew := hw.reconnects.inReach (by rw [hpc]; rfl) conn (.inr (.inr (by rw [hpc]; rfl)))
    rw [hw.serving.live conn hnew (.inr ⟨c, by rw [hpc]; rfl⟩)] at hdead
    cases hdead

theorem recovers_run (hw : Recovers first c w)
    (hserves : ∀ x ∈ redisSteps store calls w es, Serves first x.1 x.2) :
    Recovers first c (redisRun store calls w es) :=
  forall_visited_of_taken _ hw (fun x hx h => recovers_move h (hserves x hx) (move_redisStep _ _))
    _ (run_mem_visited _ _ _)

theorem recovers_of_reading (hlocked : Locked w) (hreconnects : Reconnects w.opened c w)
    (hpc : w.pc c = .reading false) (hup : w.up = true) : Recovers w.opened c w := by
  refine ⟨hlocked, hreconnects, ⟨hup, fun conn hfirst huse => ?_⟩, fun text h => ?_⟩
  · have := hlocked.lt_of_inUse huse
    omega
  · rw [hpc] at h
    cases h

theorem ok_of_returned (hw : Recovers first c w)
    (hserves : ∀ x ∈ redisSteps store calls w es, Serves first x.1 x.2)
    {result : Except String RedisReply}
    (hret : (redisRun store calls w es).pc c = .returned result) :
    ∃ answer, result = .ok answer := by
  rcases result with text | answer
  · exact absurd hret ((recovers_run hw hserves).no_error text)
  · exact ⟨answer, rfl⟩

/-- While the server is up a call can come to its end, and then it has its answer. -/
theorem exists_answer (hw : Recovers first c w)
    (hserves : ∀ x ∈ redisSteps store calls w es, Serves first x.1 x.2) :
    ∃ es' answer, (∀ x ∈ redisSteps store calls (redisRun store calls w es) es',
        Serves first x.1 x.2)
      ∧ (redisRun store calls w (es ++ es')).pc c = .returned (.ok answer) := by
  have hend := recovers_run hw hserves
  obtain ⟨es', hserves', result, hret⟩ :=
    exists_finish store calls first c hend.locked hend.serving.up
  obtain ⟨answer, rfl⟩ := ok_of_returned hend hserves' hret
  exact ⟨es', answer, hserves', by rw [redisRun_append, hret]⟩

/-- A call goes on at most as often as its rank. -/
theorem length_le_rank {steps : List (RedisWorld server × RedisEvent server)}
    (hsub : steps.Sublist (redisSteps store calls w es))
    (hmoves : ∀ x ∈ steps, (redisStep store calls x.1 x.2).pc c ≠ x.1.pc c) :
    steps.length ≤ (w.pc c).rank := by
  refine length_le_of_sublist_taken (redisStep store calls) (m := fun w => (w.pc c).rank) hsub
    (fun x _ => ?_) fun x hx => ?_
  · rcases (move_redisStep x.1 x.2).rank c with hpc | hdown
    · exact le_of_eq (congrArg RedisPc.rank hpc)
    · exact le_of_lt hdown
  · exact ((move_redisStep x.1 x.2).rank c).resolve_left (hmoves x hx)

theorem sentBy_eq_nil (hw : Reconnects first c w) (hpc : w.pc c = .reading false) :
    w.sentBy c = [] := by
  have := hw.commands
  rw [hpc] at this
  exact List.eq_nil_of_length_eq_zero (by simpa [RedisPc.commands] using this)

theorem locked_run (hw : Locked w) (es : List (RedisEvent server)) :
    Locked (redisRun store calls w es) :=
  run_inv _ (fun _ _ h => locked_move h (move_redisStep _ _)) es hw

theorem reconnects_run (hlocked : Locked w) (hw : Reconnects first c w)
    (es : List (RedisEvent server)) :
    Reconnects first c (redisRun store calls w es) :=
  (run_inv (redisStep store calls) (P := fun w => Locked w ∧ Reconnects first c w)
    (fun _ _ h => ⟨locked_move h.1 (move_redisStep _ _),
      reconnects_move h.1 h.2 (move_redisStep _ _)⟩) es ⟨hlocked, hw⟩).2

variable {connection : Option Bool} {up : Bool} {state : server.State} {now : ℕ}

theorem locked_storeWith : Locked (storeWith connection up state now) := by
  refine ⟨by simp [storeWith], by simp [storeWith], ?_, by simp [storeWith, RedisPc.conn]⟩
  intro conn h
  obtain ⟨live, -, rfl⟩ := Option.map_eq_some_iff.1 h
  exact Nat.zero_lt_one

theorem reconnects_storeWith : Reconnects 0 c (storeWith connection up state now) :=
  ⟨Nat.zero_le _, fun _ _ _ => Nat.zero_le _, by simp [storeWith, sentBy, RedisPc.commands],
    fun _ _ => Nat.zero_le _⟩

theorem waitsOnlyIfSent_storeWith : WaitsOnlyIfSent (storeWith connection up state now) := by
  simp [WaitsOnlyIfSent, storeWith]

/-- Until it starts, a call is as it was when the store was made. -/
theorem reconnects_of_start {before : List (RedisEvent server)}
    (hw : w = redisRun store calls (storeWith connection up state now) before)
    (hpc : w.pc c = .reading false) : Reconnects w.opened c w := by
  have hnone : w.sentBy c = [] :=
    sentBy_eq_nil (hw ▸ reconnects_run locked_storeWith reconnects_storeWith before) hpc
  refine ⟨le_rfl, fun h => ?_, ?_, ?_⟩
  · rw [hpc] at h
    cases h
  · simp [hnone]
  · simp [hnone]

end Runs

/-- From where a call has not started: it sends at most two commands, the second over a connection
that was begun since. If the server stays up, it returns the server's answer, and it can always come
to that. It never returns an answer that the server did not give it, and it goes on at most thirteen
times. -/
theorem redis_recovers (store : RedisRevocationStore) (calls : ℕ → RedisCall)
    (connection : Option Bool) (up : Bool) (state : server.State) (now : ℕ)
    (before es : List (RedisEvent server)) (w : RedisWorld server)
    (hw : w = redisRun store calls (storeWith connection up state now) before) (c : ℕ)
    (hstart : w.pc c = .reading false) :
    ((redisRun store calls w es).sentBy c).length ≤ 2
      ∧ (∀ conn ∈ ((redisRun store calls w es).sentBy c).tail, w.opened ≤ conn)
      ∧ (w.up = true → (∀ x ∈ redisSteps store calls w es, Serves w.opened x.1 x.2) →
          (∀ result, (redisRun store calls w es).pc c = .returned result →
              ∃ answer, result = .ok answer)
            ∧ ∃ es' answer,
              (∀ x ∈ redisSteps store calls (redisRun store calls w es) es',
                Serves w.opened x.1 x.2)
                ∧ (redisRun store calls w (es ++ es')).pc c = .returned (.ok answer))
      ∧ (∀ answer, (redisRun store calls w es).pc c = .returned (.ok answer) →
          Answered store calls w es c answer)
      ∧ ∀ steps : List (RedisWorld server × RedisEvent server),
          steps.Sublist (redisSteps store calls w es) →
          (∀ x ∈ steps, (redisStep store calls x.1 x.2).pc c ≠ x.1.pc c) → steps.length ≤ 13 := by
  have hlocked : Locked w := hw ▸ locked_run locked_storeWith before
  have hreconnects : Reconnects w.opened c w := reconnects_of_start hw hstart
  have hsent : WaitsOnlyIfSent w := hw ▸ waitsOnlyIfSent_run waitsOnlyIfSent_storeWith before
  have hrun : Reconnects w.opened c (redisRun store calls w es) :=
    reconnects_run hlocked hreconnects es
  refine ⟨le_trans hrun.commands (RedisPc.commands_le_two _), hrun.second, ?_, ?_, ?_⟩
  · intro hup hserves
    have hrecovers : Recovers w.opened c w := recovers_of_reading hlocked hreconnects hstart hup
    exact ⟨fun result hret => ok_of_returned hrecovers hserves hret,
      exists_answer hrecovers hserves⟩
  · intro answer hret
    exact answered_of_returned hsent hstart hret
  · intro steps hsub hmoves
    have hle := length_le_rank hsub hmoves
    rwa [hstart] at hle

/-- Two calls share a connection that is dead. The first opens a new one, and the second drops it
again before the first has sent its command. -/
def sharedDead : List (RedisEvent deadlineServer) :=
  [.step 0, .step 0, .step 1, .step 1, .fail 0 "broken pipe", .fail 1 "broken pipe", .step 0,
    .step 0, .step 0, .connected 0, .step 1, .step 0, .execute 0, .reply 0]

def sharedCalls (_ : ℕ) : RedisCall := .isRevoked "jti"

theorem sharedDead_serves : ∀ x ∈ redisSteps ⟨60⟩ sharedCalls
    (storeWith (some false) true deadlineServer.fresh 0) sharedDead, Serves 1 x.1 x.2 := by
  simp only [sharedDead, forall_redisSteps_cons]
  refine ⟨trivial, trivial, trivial, trivial, ?_, ?_, trivial, trivial, trivial, trivial, trivial,
    trivial, trivial, trivial, by simp [redisSteps, taken]⟩
  · rintro _ _ _ ⟨⟩
    rfl
  · rintro _ _ _ ⟨⟩
    rfl

theorem redis_recovers_shared :
    (∀ result, (redisRun ⟨60⟩ sharedCalls (storeWith (some false) true deadlineServer.fresh 0)
        sharedDead).pc 0 = .returned result → ∃ answer, result = .ok answer)
      ∧ Answered ⟨60⟩ sharedCalls (storeWith (some false) true deadlineServer.fresh 0) sharedDead 0
        (.found false) := by
  have h := redis_recovers ⟨60⟩ sharedCalls (some false) true deadlineServer.fresh 0 [] sharedDead _
    rfl 0 rfl
  exact ⟨(h.2.2.1 rfl sharedDead_serves).1, h.2.2.2.1 _ rfl⟩

end TokenKit
