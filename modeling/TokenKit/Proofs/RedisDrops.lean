import TokenKit.DroppedCalls
import TokenKit.Proofs.Reconnect

/-!
# Dropped calls on the Redis store

A call on the store that is dropped leaves behind what it has sent, which the server may still
execute, and nothing else: only one that was opening a connection holds something to let go of. The
world it leaves looks like one in which it has stopped there, its connection refused.
-/

namespace TokenKit

open StepMachine RedisWorld CallMachine

variable {server : RedisServer} {store : RedisRevocationStore} {calls : ℕ → RedisCall}
  {w w₀ : Dropping (RedisWorld server)} {w' : RedisWorld server} {e : RedisEvent server} {c : ℕ}

/-! ## Where the calls are -/

theorem RedisMove.pc_of_ne {v v' : RedisWorld server} (h : RedisMove store calls v e v')
    (hc : e.caller ≠ some c) : v'.pc c = v.pc c := by
  have hne : ∀ c', some c' ≠ some c → c ≠ c' := fun c' h hcc => h (congrArg some hcc.symm)
  cases h with
  | idle | crash | restart | breaks | elsewhere | tick => rfl
  | _ => exact Function.update_of_ne (hne _ hc) _ _

/-- A step reads and writes where its own call is, and not where any other one is. -/
theorem redisStep_pc (v : RedisWorld server) (p : ℕ → RedisPc) (hcaller : e.caller = some c)
    (hp : p c = v.pc c) : redisStep store calls { v with pc := p } e
      = { redisStep store calls v e with
          pc := Function.update p c ((redisStep store calls v e).pc c) } := by
  have hself : Function.update p c (v.pc c) = p := by rw [← hp, Function.update_eq_self]
  rcases e with c' | c' | ⟨c', text⟩ | c' | c' | ⟨c', text⟩ | _ | _ | conn | state | d <;>
    cases hcaller
  · simp only [redisStep, callSection, hp]
    rcases hpc : v.pc c with retry | retry | ⟨retry, conn⟩ | ⟨retry, conn⟩ |
      ⟨retry, conn, reply⟩ | _ | result <;> rw [hpc] at hself
    · simp only [readConnection]
      split_ifs
      · simp [hpc, hself]
      · rcases hconn : v.connection <;> simp [goto, hconn]
    · simp only [lockConnection]
      split_ifs
      · simp [hpc, hself]
      · rcases hconn : v.connection <;> simp [goto, hconn]
    · simp [hpc, hself]
    · simp [goto]
    · simp [hpc, hself]
    · simp only [resetConnection]
      split_ifs
      · simp [hpc, hself]
      · simp [goto]
    · simp [hpc, hself]
  · simp only [redisStep, connected, hp]
    split
    · split_ifs
      · simp [goto]
      · simp [hself]
    · simp [hself]
  · simp only [redisStep, connectFailed, hp]
    split
    · simp [goto]
    · simp [hself]
  · simp only [redisStep, execute, hp]
    split
    · split_ifs
      · simp [goto]
      · simp [hself]
    · simp [hself]
  · simp only [redisStep, reply, hp]
    split
    · simp [goto]
    · simp [hself]
  · simp only [redisStep, fail, hp]
    split
    · simp [goto]
    · simp [goto]
    · simp [hself]

theorem redisStep_pc_of_none (v : RedisWorld server) (p : ℕ → RedisPc) (hcaller : e.caller = none) :
    redisStep store calls { v with pc := p } e = { redisStep store calls v e with pc := p }
      ∧ (redisStep store calls v e).pc = v.pc := by
  cases e <;> first | exact ⟨rfl, rfl⟩ | cases hcaller

/-! ## The world beside -/

def IsWaiting : RedisPc → Prop
  | .waiting _ _ _ => True
  | _ => False

/-- The worlds differ at most in where calls are that are dropped and have nothing sent. -/
structure Beside (w : Dropping (RedisWorld server)) (w' : RedisWorld server) : Prop where
  eq : w' = { w.world with pc := w'.pc }
  pc : ∀ c, w'.pc c = w.world.pc c
    ∨ w.dropped c = true ∧ ¬ IsWaiting (w'.pc c) ∧ ¬ IsWaiting (w.world.pc c)

theorem Beside.pc_eq (h : Beside w w') (halive : w.dropped c = false) :
    w'.pc c = w.world.pc c := by
  rcases h.pc c with hpc | ⟨hdropped, -⟩
  · exact hpc
  · rw [halive] at hdropped
    cases hdropped

theorem execute_of_not_waiting {v : RedisWorld server} (h : ¬ IsWaiting (v.pc c)) :
    redisStep store calls v (.execute c) = v := by
  simp only [redisStep, execute]
  split
  · next hpc =>
    rw [hpc] at h
    exact absurd trivial h
  · rfl

/-- An event of a call that is in the same place happens in both worlds. -/
theorem Beside.step (h : Beside w w') (hcaller : e.caller = some c)
    (hpc : w'.pc c = w.world.pc c) :
    Beside { w with world := redisStep store calls w.world e } (redisStep store calls w' e) := by
  have hstep : redisStep store calls w' e = { redisStep store calls w.world e with
      pc := Function.update w'.pc c ((redisStep store calls w.world e).pc c) } := by
    conv_lhs => rw [h.eq]
    exact redisStep_pc w.world w'.pc hcaller hpc
  have hmove : RedisMove store calls w.world e (redisStep store calls w.world e) :=
    move_redisStep _ _
  refine ⟨by rw [hstep], fun d => ?_⟩
  rw [hstep]
  by_cases hc : d = c
  · exact .inl (by simp [hc])
  · have hother : e.caller ≠ some d := fun hd => hc (Option.some.inj (hd.symm.trans hcaller))
    simpa [Function.update_of_ne hc, hmove.pc_of_ne hother] using h.pc d

theorem Beside.step_of_none (h : Beside w w') (hcaller : e.caller = none) :
    Beside { w with world := redisStep store calls w.world e } (redisStep store calls w' e) := by
  obtain ⟨hstep, hpc⟩ : redisStep store calls { w.world with pc := w'.pc } e
      = { redisStep store calls w.world e with pc := w'.pc }
        ∧ (redisStep store calls w.world e).pc = w.world.pc := redisStep_pc_of_none _ _ hcaller
  rw [← h.eq] at hstep
  refine ⟨by rw [hstep], fun d => ?_⟩
  rw [hstep]
  simpa [hpc] using h.pc d

/-- What the server does with a command that has been sent it does in both worlds. -/
theorem Beside.exists_execute (h : Beside w w') (c : ℕ) :
    ∃ fs, (∀ e ∈ fs, e = .execute c)
      ∧ Beside { w with world := redisStep store calls w.world (.execute c) }
        (run (redisStep store calls) w' fs) := by
  rcases h.pc c with hpc | ⟨-, -, hnot⟩
  · exact ⟨[.execute c], by simp, h.step rfl hpc⟩
  · refine ⟨[], by simp, ?_⟩
    rw [execute_of_not_waiting hnot]
    exact h

/-- A call that is dropped while it opens a connection is refused it in the other world. -/
theorem Beside.exists_drop (h : Beside w w') (halive : w.dropped c = false) :
    ∃ fs, (∀ e ∈ fs, e = .connectFailed c "")
      ∧ Beside { world := w.world.release c, dropped := Function.update w.dropped c true }
        (run (redisStep store calls) w' fs) := by
  have hdropped : ∀ d, d ≠ c → w'.pc d = w.world.pc d
      ∨ Function.update w.dropped c true d = true ∧ ¬ IsWaiting (w'.pc d)
        ∧ ¬ IsWaiting (w.world.pc d) := by
    intro d hd
    rw [Function.update_of_ne hd]
    exact h.pc d
  rcases hpc : w.world.pc c with retry | retry | ⟨retry, conn⟩ | ⟨retry, conn⟩ |
    ⟨retry, conn, answer⟩ | _ | result
  case opening =>
    have hopening : w'.pc c = .opening retry conn := (h.pc_eq halive).trans hpc
    have hrelease : w.world.release c = { w.world with lock := none }.goto c (.reading retry) := by
      simp only [RedisWorld.release, hpc]
    have hstep : redisStep store calls w' (.connectFailed c "")
        = { w' with lock := none }.goto c (.returned (.error "")) := by
      simp only [redisStep, connectFailed, hopening]
    refine ⟨[.connectFailed c ""], by simp, ?_⟩
    rw [run_cons, run_nil, hrelease, hstep]
    refine ⟨?_, fun d => ?_⟩
    · rw [h.eq]
      rfl
    · by_cases hd : d = c
      · subst hd
        exact .inr ⟨by simp, by simp [IsWaiting], by simp [IsWaiting]⟩
      · simpa only [goto_pc, if_neg hd] using hdropped d hd
  all_goals
    refine ⟨[], by simp, ?_⟩
    have hrelease : w.world.release c = w.world := by simp only [RedisWorld.release, hpc]
    rw [hrelease]
    refine ⟨h.eq, fun d => ?_⟩
    by_cases hd : d = c
    · subst hd
      exact .inl (h.pc_eq halive)
    · exact hdropped d hd

theorem Beside.looksLike (h : Beside w w') : RedisLooksLike w w' := by
  refine ⟨?_, ?_, ?_, ?_, ?_, ?_, ?_, ?_, fun c hc => h.pc_eq hc⟩
  all_goals rw [h.eq]

/-! ## Runs -/

/-- Every event is one of the first run, or refuses a call that is dropped its connection. -/
def RedisHeard (es : List (DropEvent (RedisEvent server))) (es' : List (RedisEvent server))
    (dropped : ℕ → Bool) : Prop :=
  ∀ e ∈ es', .event e ∈ es ∨ ∃ c text, e = .connectFailed c text ∧ dropped c = true

theorem RedisHeard.more {es : List (DropEvent (RedisEvent server))}
    {es' fs : List (RedisEvent server)} {dropped dropped' : ℕ → Bool}
    (h : RedisHeard es es' dropped) (e : DropEvent (RedisEvent server))
    (hdropped : ∀ c, dropped c = true → dropped' c = true)
    (hfs : ∀ f ∈ fs, .event f ∈ es ++ [e]
      ∨ ∃ c text, f = .connectFailed c text ∧ dropped' c = true) :
    RedisHeard (es ++ [e]) (es' ++ fs) dropped' := by
  intro f hmem
  rcases List.mem_append.1 hmem with hmem | hmem
  · rcases h f hmem with hheard | ⟨c, text, hf, hc⟩
    · exact .inl (List.mem_append_left _ hheard)
    · exact .inr ⟨c, text, hf, hdropped c hc⟩
  · exact hfs f hmem

/-- The second run follows the first. -/
structure RedisFollows (store : RedisRevocationStore) (calls : ℕ → RedisCall)
    (v : RedisWorld server) (w : Dropping (RedisWorld server))
    (es : List (DropEvent (RedisEvent server))) (es' : List (RedisEvent server)) : Prop where
  beside : Beside w (redisRun store calls v es')
  heard : RedisHeard es es' w.dropped

theorem doneBy_of_caller (hcaller : e.caller = some c) (hexecute : e ≠ .execute c) :
    e.doneBy = some c := by
  rcases e with c' | c' | ⟨c', text⟩ | c' | c' | ⟨c', text⟩ | _ | _ | conn | state | d
  case execute => exact absurd (by rw [Option.some.inj hcaller]) hexecute
  all_goals exact hcaller

/-- An event that happens in the first world happens in the second, or does nothing there. -/
theorem Beside.exists_event (h : Beside w w')
    (hown : ∀ c, e.doneBy = some c → w.dropped c = false) :
    ∃ fs, (∀ f ∈ fs, f = e)
      ∧ Beside { w with world := redisStep store calls w.world e }
        (run (redisStep store calls) w' fs) := by
  rcases hcaller : e.caller with _ | c
  · exact ⟨[e], by simp, h.step_of_none hcaller⟩
  · by_cases hexecute : e = .execute c
    · subst hexecute
      exact h.exists_execute c
    · have halive : w.dropped c = false := hown c (doneBy_of_caller hcaller hexecute)
      exact ⟨[e], by simp, h.step hcaller (h.pc_eq halive)⟩

theorem RedisFollows.step {v : RedisWorld server} {es : List (DropEvent (RedisEvent server))}
    {es' : List (RedisEvent server)} (h : RedisFollows store calls v w es es')
    (e : DropEvent (RedisEvent server)) :
    ∃ fs, RedisFollows store calls v ((redisCalls store calls).dropStep w e) (es ++ [e])
      (es' ++ fs) := by
  suffices hfs : ∃ fs,
      Beside ((redisCalls store calls).dropStep w e)
        (run (redisStep store calls) (redisRun store calls v es') fs)
      ∧ RedisHeard (es ++ [e]) (es' ++ fs) ((redisCalls store calls).dropStep w e).dropped by
    obtain ⟨fs, hbeside, hheard⟩ := hfs
    exact ⟨fs, (redisRun_append v es' fs).symm ▸ hbeside, hheard⟩
  have hsame : RedisHeard (es ++ [e]) (es' ++ []) w.dropped :=
    h.heard.more e (fun _ => id) (by simp)
  rcases e with e | c
  · rcases dropStep_event_cases (redisCalls store calls) w e with ⟨hown, heq⟩ | ⟨-, heq⟩ <;>
      rw [heq]
    · obtain ⟨fs, hheard, hbeside⟩ := h.beside.exists_event hown
      refine ⟨fs, hbeside, h.heard.more _ (fun _ => id) fun f hf => .inl ?_⟩
      rw [hheard f hf]
      simp
    · exact ⟨[], h.beside, hsame⟩
  · by_cases hgone : (redisCalls store calls).Gone w c
    · rw [dropStep_drop_of_gone hgone]
      exact ⟨[], h.beside, hsame⟩
    · have halive : w.dropped c = false := by simpa using fun hdropped => hgone (.inl hdropped)
      obtain ⟨fs, hheard, hbeside⟩ := h.beside.exists_drop halive
      rw [dropStep_drop hgone]
      refine ⟨fs, hbeside, h.heard.more _ (fun d hd => ?_) fun f hf => ?_⟩
      · by_cases hc : d = c <;> simp [hc, hd]
      · exact .inr ⟨c, "", hheard f hf, by simp⟩

/-- A run in which calls are dropped looks to the other calls, at every moment, like a run in which
none is, and in which some of those calls have been refused a connection instead. -/
theorem redis_dropped_calls_leave_no_trace (store : RedisRevocationStore) (calls : ℕ → RedisCall)
    (v : RedisWorld server) (es : List (DropEvent (RedisEvent server))) :
    ∃ chunks : List (List (RedisEvent server)), chunks.length = es.length ∧ ∀ k, k ≤ es.length →
      RedisLooksLike (redisDropRun store calls v (es.take k))
          (redisRun store calls v (chunks.take k).flatten)
        ∧ RedisHeard (es.take k) (chunks.take k).flatten
          (redisDropRun store calls v (es.take k)).dropped := by
  have hnil : RedisFollows store calls v ⟨v, fun _ => false⟩ [] [] :=
    ⟨⟨rfl, fun _ => .inl rfl⟩, by rintro e ⟨⟩⟩
  have hstep : ∀ es es' e,
      RedisFollows store calls v (redisDropRun store calls v es) es es' →
      ∃ fs, RedisFollows store calls v (redisDropRun store calls v (es ++ [e])) (es ++ [e])
        (es' ++ fs) := by
    intro es es' e h
    obtain ⟨fs, hfs⟩ := h.step e
    refine ⟨fs, ?_⟩
    unfold redisDropRun at hfs ⊢
    rwa [run_concat]
  obtain ⟨chunks, hlength, hchunks⟩ := exists_chunks
    (R := fun es es' => RedisFollows store calls v (redisDropRun store calls v es) es es')
    hnil hstep es
  exact ⟨chunks, hlength, fun k hk => ⟨(hchunks k hk).beside.looksLike, (hchunks k hk).heard⟩⟩

end TokenKit
