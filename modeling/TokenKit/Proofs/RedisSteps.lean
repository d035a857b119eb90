import TokenKit.RedisConnections

/-!
# What one step on the connection does

`RedisMove` lists what a step on the shared connection can do, and when; every other fact about a
step is read off it. The lock is held exactly by a call that opens a connection (`Locked`). A step
that takes a call on lowers its `rank`, and no step raises it (`RedisMove.rank`).
-/

namespace TokenKit

open StepMachine

namespace RedisPc

/-- The connection a call opens or has. -/
def conn : RedisPc → Option ℕ
  | opening _ conn => some conn
  | holding _ conn => some conn
  | waiting _ conn _ => some conn
  | _ => none

/-- The connection a call has. -/
def has : RedisPc → Option ℕ
  | holding _ conn => some conn
  | waiting _ conn _ => some conn
  | _ => none

theorem conn_of_has {pc : RedisPc} {k : ℕ} (h : pc.has = some k) : pc.conn = some k := by
  cases pc <;> first | exact h | cases h

/-- The call makes its second attempt. -/
def Retrying : RedisPc → Prop
  | reading retry => retry = true
  | locking retry => retry = true
  | opening retry _ => retry = true
  | holding retry _ => retry = true
  | waiting retry _ _ => retry = true
  | _ => False

/-- How many commands a call may have sent. -/
def commands : RedisPc → ℕ
  | reading retry => retry.toNat
  | locking retry => retry.toNat
  | opening retry _ => retry.toNat
  | holding retry _ => retry.toNat
  | waiting retry _ _ => retry.toNat + 1
  | resetting => 1
  | returned _ => 2

theorem commands_le_two (pc : RedisPc) : pc.commands ≤ 2 := by
  cases pc <;> grind [commands, Bool.toNat_le]

/-- How many sections a call is from its end, at most. -/
def rank : RedisPc → ℕ
  | reading retry => 7 * (!retry).toNat + 6
  | locking retry => 7 * (!retry).toNat + 5
  | opening retry _ => 7 * (!retry).toNat + 4
  | holding retry _ => 7 * (!retry).toNat + 3
  | waiting retry _ none => 7 * (!retry).toNat + 2
  | waiting retry _ (some _) => 7 * (!retry).toNat + 1
  | resetting => 7
  | returned _ => 0

theorem rank_waiting (retry : Bool) (conn : ℕ) (answer : Option RedisReply) :
    7 * (!retry).toNat < (waiting retry conn answer).rank := by
  rcases answer with _ | answer <;> simp [rank]

end RedisPc

variable {server : RedisServer}

namespace RedisWorld

variable (w : RedisWorld server) (c : ℕ)

@[simp] theorem goto_connection (pc : RedisPc) : (w.goto c pc).connection = w.connection := rfl

@[simp] theorem goto_lock (pc : RedisPc) : (w.goto c pc).lock = w.lock := rfl

@[simp] theorem goto_opened (pc : RedisPc) : (w.goto c pc).opened = w.opened := rfl

@[simp] theorem goto_live (pc : RedisPc) : (w.goto c pc).live = w.live := rfl

@[simp] theorem goto_up (pc : RedisPc) : (w.goto c pc).up = w.up := rfl

@[simp] theorem goto_sent (pc : RedisPc) : (w.goto c pc).sent = w.sent := rfl

@[simp] theorem goto_pc_self (pc : RedisPc) : (w.goto c pc).pc c = pc :=
  Function.update_self _ _ _

theorem goto_pc (pc : RedisPc) (c' : ℕ) :
    (w.goto c pc).pc c' = if c' = c then pc else w.pc c' := Function.update_apply _ _ _ _

/-- The connections a call sent its commands over, in order. -/
def sentBy : List ℕ := (w.sent.filter fun command => command.1 = c).map Prod.snd

end RedisWorld

/-! ## Runs -/

section Runs

variable {store : RedisRevocationStore} {calls : ℕ → RedisCall} {e : RedisEvent server}
  {es : List (RedisEvent server)}

theorem redisRun_append (w : RedisWorld server) (es es' : List (RedisEvent server)) :
    redisRun store calls w (es ++ es') = redisRun store calls (redisRun store calls w es) es' :=
  run_append _ w es es'

theorem redisSteps_append (w : RedisWorld server) (es es' : List (RedisEvent server)) :
    redisSteps store calls w (es ++ es')
      = redisSteps store calls w es ++ redisSteps store calls (redisRun store calls w es) es' :=
  taken_append _ w es es'

theorem forall_redisSteps_cons {w : RedisWorld server}
    {P : RedisWorld server × RedisEvent server → Prop} :
    (∀ x ∈ redisSteps store calls w (e :: es), P x)
      ↔ P (w, e) ∧ ∀ x ∈ redisSteps store calls (redisStep store calls w e) es, P x :=
  List.forall_mem_cons

end Runs

/-! ## Moves -/

section Moves

variable (store : RedisRevocationStore) (calls : ℕ → RedisCall)

inductive RedisMove (w : RedisWorld server) : RedisEvent server → RedisWorld server → Prop where
  | idle (e : RedisEvent server) : RedisMove w e w
  | found (c : ℕ) (retry : Bool) (conn : ℕ)
    (hpc : w.pc c = .reading retry ∨ w.pc c = .locking retry) (hlock : w.lock = none)
    (hconn : w.connection = some conn) : RedisMove w (.step c) (w.goto c (.holding retry conn))
  | missed (c : ℕ) (retry : Bool) (hpc : w.pc c = .reading retry) (hlock : w.lock = none) :
    RedisMove w (.step c) (w.goto c (.locking retry))
  | opens (c : ℕ) (retry : Bool) (hpc : w.pc c = .locking retry) (hlock : w.lock = none)
    (hconn : w.connection = none) : RedisMove w (.step c)
      ({ w with lock := some c, opened := w.opened + 1 }.goto c (.opening retry w.opened))
  | sends (c : ℕ) (retry : Bool) (conn : ℕ) (hpc : w.pc c = .holding retry conn) :
    RedisMove w (.step c)
      ({ w with sent := w.sent ++ [(c, conn)] }.goto c (.waiting retry conn none))
  | resets (c : ℕ) (hpc : w.pc c = .resetting) (hlock : w.lock = none) :
    RedisMove w (.step c) ({ w with connection := none }.goto c (.reading true))
  | connects (c : ℕ) (retry : Bool) (conn : ℕ) (hpc : w.pc c = .opening retry conn)
    (hup : w.up = true) : RedisMove w (.connected c)
      ({ w with
        connection := some conn
        lock := none
        live := Function.update w.live conn true }.goto c (.holding retry conn))
  | refused (c : ℕ) (text : String) (retry : Bool) (conn : ℕ)
    (hpc : w.pc c = .opening retry conn) : RedisMove w (.connectFailed c text)
      ({ w with lock := none }.goto c (.returned (.error text)))
  | executes (c : ℕ) (retry : Bool) (conn : ℕ) (hpc : w.pc c = .waiting retry conn none)
    (hup : w.up = true) (hlive : w.live conn = true) : RedisMove w (.execute c)
      ({ w with state := ((calls c).command store w.now w.state).2 }.goto c
        (.waiting retry conn (some ((calls c).command store w.now w.state).1)))
  | replies (c : ℕ) (retry : Bool) (conn : ℕ) (answer : RedisReply)
    (hpc : w.pc c = .waiting retry conn (some answer)) :
    RedisMove w (.reply c) (w.goto c (.returned (.ok answer)))
  | failsOnce (c : ℕ) (text : String) (conn : ℕ) (answer : Option RedisReply)
    (hpc : w.pc c = .waiting false conn answer) :
    RedisMove w (.fail c text) (w.goto c .resetting)
  | failsTwice (c : ℕ) (text : String) (conn : ℕ) (answer : Option RedisReply)
    (hpc : w.pc c = .waiting true conn answer) :
    RedisMove w (.fail c text) (w.goto c (.returned (.error text)))
  | crash : RedisMove w .crash { w with up := false, live := fun _ => false }
  | restart : RedisMove w .restart { w with up := true }
  | breaks (conn : ℕ) : RedisMove w (.broken conn)
      { w with live := Function.update w.live conn false }
  | elsewhere (state : server.State) : RedisMove w (.elsewhere state) { w with state }
  | tick (d : ℕ) : RedisMove w (.tick d) { w with now := w.now + d }

variable {store calls} {w : RedisWorld server}

theorem move_readConnection {c : ℕ} {retry : Bool} (hpc : w.pc c = .reading retry) :
    RedisMove store calls w (.step c) (w.readConnection c retry) := by
  unfold RedisWorld.readConnection
  split_ifs with hlock
  · exact .idle _
  · have hlock : w.lock = none := by simpa using hlock
    split
    · next conn hconn => exact .found c retry conn (.inl hpc) hlock hconn
    · exact .missed c retry hpc hlock

theorem move_lockConnection {c : ℕ} {retry : Bool} (hpc : w.pc c = .locking retry) :
    RedisMove store calls w (.step c) (w.lockConnection c retry) := by
  unfold RedisWorld.lockConnection
  split_ifs with hlock
  · exact .idle _
  · have hlock : w.lock = none := by simpa using hlock
    split
    · next conn hconn => exact .found c retry conn (.inr hpc) hlock hconn
    · next hconn => exact .opens c retry hpc hlock hconn

theorem move_callSection (c : ℕ) : RedisMove store calls w (.step c) (w.callSection c) := by
  unfold RedisWorld.callSection
  split
  · next hpc => exact move_readConnection hpc
  · next hpc => exact move_lockConnection hpc
  · next hpc => exact .sends c _ _ hpc
  · next hpc =>
    unfold RedisWorld.resetConnection
    split_ifs with hlock
    · exact .idle _
    · exact .resets c hpc (by simpa using hlock)
  · exact .idle _

theorem move_redisStep (w : RedisWorld server) (e : RedisEvent server) :
    RedisMove store calls w e (redisStep store calls w e) := by
  rcases e with c | c | ⟨c, text⟩ | c | c | ⟨c, text⟩ | _ | _ | conn | state | d <;>
    simp only [redisStep]
  · exact move_callSection c
  · unfold RedisWorld.connected
    split
    · next hpc =>
      split_ifs with hup
      · exact .connects c _ _ hpc hup
      · exact .idle _
    · exact .idle _
  · unfold RedisWorld.connectFailed
    split
    · next hpc => exact .refused c text _ _ hpc
    · exact .idle _
  · unfold RedisWorld.execute
    split
    · next hpc =>
      split_ifs with hserved
      · rw [Bool.and_eq_true] at hserved
        exact .executes c _ _ hpc hserved.1 hserved.2
      · exact .idle _
    · exact .idle _
  · unfold RedisWorld.reply
    split
    · next hpc => exact .replies c _ _ _ hpc
    · exact .idle _
  · unfold RedisWorld.fail
    split
    · next hpc => exact .failsOnce c text _ _ hpc
    · next hpc => exact .failsTwice c text _ _ hpc
    · exact .idle _
  · exact .crash
  · exact .restart
  · exact .breaks conn
  · exact .elsewhere state
  · exact .tick d

theorem goto_rank {c : ℕ} {pc : RedisPc} (h : pc.rank < (w.pc c).rank) (c' : ℕ) :
    (w.goto c pc).pc c' = w.pc c' ∨ ((w.goto c pc).pc c').rank < (w.pc c').rank := by
  rw [RedisWorld.goto_pc]
  split_ifs with hc
  · subst hc
    exact .inr h
  · exact .inl rfl

/-- Where a step takes a call on, the call is nearer to its end. -/
theorem RedisMove.rank {w' : RedisWorld server} {e : RedisEvent server}
    (h : RedisMove store calls w e w') (c : ℕ) :
    w'.pc c = w.pc c ∨ (w'.pc c).rank < (w.pc c).rank := by
  cases h with
  | idle | crash | restart | breaks | elsewhere | tick => exact .inl rfl
  | found c' retry conn hpc =>
    refine goto_rank ?_ c
    rcases hpc with hpc | hpc <;> simp [hpc, RedisPc.rank]
  | missed c' retry hpc => exact goto_rank (by simp [hpc, RedisPc.rank]) c
  | opens c' retry hpc => exact goto_rank (by simp [hpc, RedisPc.rank]) c
  | sends c' retry conn hpc => exact goto_rank (by simp [hpc, RedisPc.rank]) c
  | resets c' hpc => exact goto_rank (by simp [hpc, RedisPc.rank]) c
  | connects c' retry conn hpc => exact goto_rank (by simp [hpc, RedisPc.rank]) c
  | refused c' text retry conn hpc => exact goto_rank (by simp [hpc, RedisPc.rank]) c
  | executes c' retry conn hpc => exact goto_rank (by simp [hpc, RedisPc.rank]) c
  | replies c' retry conn answer hpc => exact goto_rank (by simp [hpc, RedisPc.rank]) c
  | failsOnce c' text conn answer hpc =>
    refine goto_rank ?_ c
    rw [hpc]
    exact RedisPc.rank_waiting false conn answer
  | failsTwice c' text conn answer hpc =>
    refine goto_rank ?_ c
    rw [hpc]
    exact RedisPc.rank_waiting true conn answer

end Moves

end TokenKit
