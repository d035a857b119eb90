import TokenKit.Proofs.RedisSteps

/-!
# A call that has the store to itself

While no other call goes on, what a call does to the server and returns follows from what comes of
its attempts alone. It is what `query` says of them (`query_alone`), so the store as calls that do
not overlap see it is the one whose calls share a connection.
-/

namespace TokenKit

open RedisWorld

variable {server : RedisServer}

/-- What happens in an attempt of a call that finds no connection, while no other call goes on. -/
def Attempt.events (c : ℕ) : Attempt → List (RedisEvent server)
  | .refused e => [.step c, .step c, .connectFailed c e]
  | .lost reached e =>
    [.step c, .step c, .connected c, .step c] ++ (if reached then [.execute c] else [])
      ++ [.fail c e]
  | .answered => [.step c, .step c, .connected c, .step c, .execute c, .reply c]

/-- Both attempts; before a second one the call drops the connection. -/
def aloneEvents (c : ℕ) (first second : Attempt) : List (RedisEvent server) :=
  match first with
  | .lost _ _ => first.events c ++ .step c :: second.events c
  | _ => first.events c

/-- No connection is kept, nobody holds the lock, the server is up and the call is about to read the
connection. -/
structure Alone (w : RedisWorld server) (c : ℕ) (retry : Bool) : Prop where
  connection : w.connection = none
  lock : w.lock = none
  up : w.up = true
  pc : w.pc c = .reading retry

section Alone

variable {store : RedisRevocationStore} {calls : ℕ → RedisCall} {w : RedisWorld server}
  {c : ℕ} {retry : Bool}

theorem Alone.answered (store : RedisRevocationStore) (calls : ℕ → RedisCall)
    (h : Alone w c retry) :
    (redisRun store calls w (Attempt.answered.events c)).pc c
        = .returned (.ok ((calls c).command store w.now w.state).1)
      ∧ (redisRun store calls w (Attempt.answered.events c)).state
        = ((calls c).command store w.now w.state).2 := by
  obtain ⟨hconn, hlock, hup, hpc⟩ := h
  simp [Attempt.events, redisRun, redisStep, callSection, readConnection, lockConnection, connected,
    execute, reply, hconn, hlock, hup, hpc, goto]

theorem Alone.refused (store : RedisRevocationStore) (calls : ℕ → RedisCall)
    (h : Alone w c retry) (e : String) :
    (redisRun store calls w ((Attempt.refused e).events c)).pc c = .returned (.error e)
      ∧ (redisRun store calls w ((Attempt.refused e).events c)).state = w.state := by
  obtain ⟨hconn, hlock, hup, hpc⟩ := h
  simp [Attempt.events, redisRun, redisStep, callSection, readConnection, lockConnection,
    connectFailed, hconn, hlock, hpc, goto]

theorem Alone.lost (store : RedisRevocationStore) (calls : ℕ → RedisCall)
    (h : Alone w c retry) (reached : Bool) (e : String) :
    (redisRun store calls w ((Attempt.lost reached e).events c)).pc c
        = (if retry then .returned (.error e) else .resetting)
      ∧ (redisRun store calls w ((Attempt.lost reached e).events c)).lock = none
      ∧ (redisRun store calls w ((Attempt.lost reached e).events c)).up = true
      ∧ (redisRun store calls w ((Attempt.lost reached e).events c)).now = w.now
      ∧ (redisRun store calls w ((Attempt.lost reached e).events c)).state
        = if reached then ((calls c).command store w.now w.state).2 else w.state := by
  obtain ⟨hconn, hlock, hup, hpc⟩ := h
  cases reached <;> cases retry <;>
    simp [Attempt.events, redisRun, redisStep, callSection, readConnection, lockConnection,
      connected, execute, fail, hconn, hlock, hup, hpc, goto]

/-- A call that has the store to itself does what `query` says. -/
theorem query_alone (h : Alone w c false) (first second : Attempt) :
    (redisRun store calls w (aloneEvents c first second)).pc c
        = .returned (RedisRevocationStore.query ((calls c).command store w.now) first second
          w.state).1
      ∧ (redisRun store calls w (aloneEvents c first second)).state
        = (RedisRevocationStore.query ((calls c).command store w.now) first second w.state).2 := by
  rcases first with e | ⟨reached, e⟩ | _
  · exact h.refused store calls e
  · obtain ⟨hpc, hlock, hup, hnow, hstate⟩ := h.lost store calls reached e
    have hpc : _ = RedisPc.resetting := hpc
    rw [aloneEvents, redisRun_append]
    set w₁ := redisRun store calls w ((Attempt.lost reached e).events c)
    have hreset : redisStep store calls w₁ (.step c)
        = { w₁ with connection := none }.goto c (.reading true) := by
      simp [redisStep, callSection, hpc, resetConnection, hlock]
    have hcons : redisRun store calls w₁ (.step c :: second.events c)
        = redisRun store calls ({ w₁ with connection := none }.goto c (.reading true))
          (second.events c) := by
      rw [← hreset]
      rfl
    have h₂ : Alone ({ w₁ with connection := none }.goto c (.reading true)) c true :=
      ⟨rfl, hlock, hup, goto_pc_self _ _ _⟩
    have hnow₂ : ({ w₁ with connection := none }.goto c (.reading true)).now = w.now := hnow
    have hstate₂ : ({ w₁ with connection := none }.goto c (.reading true)).state
        = if reached then ((calls c).command store w.now w.state).2 else w.state := hstate
    rw [hcons]
    rcases second with e' | ⟨reached', e'⟩ | _
    · obtain ⟨hpc', hstate'⟩ := h₂.refused store calls e'
      exact ⟨hpc', hstate'.trans hstate₂⟩
    · obtain ⟨hpc', -, -, -, hstate'⟩ := h₂.lost store calls reached' e'
      rw [hnow₂, hstate₂] at hstate'
      exact ⟨hpc', hstate'⟩
    · obtain ⟨hpc', hstate'⟩ := h₂.answered store calls
      rw [hnow₂, hstate₂] at hpc' hstate'
      exact ⟨hpc', hstate'⟩
  · exact h.answered store calls

end Alone

end TokenKit
