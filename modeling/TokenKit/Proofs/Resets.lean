import TokenKit.Proofs.Reconnect
import Mathlib.Data.List.Induction

/-!
# Dropping a connection

A call whose command failed drops the connection that is kept by the time it gets to it, without a
look whether that is the one its command was sent over. As long as it is, or has failed another call
by then (`ResetsInTime`), a connection is dropped only after a command failed over it, and the
failure of one connection leads to one new connection (`drops_only_failed_iff`). A call that comes
later drops the connection that another has opened meanwhile (`late_reset_drops_fresh`).
-/

namespace TokenKit

open StepMachine RedisWorld

variable {server : RedisServer} {store : RedisRevocationStore} {calls : ℕ → RedisCall}
  {w w' : RedisWorld server} {e : RedisEvent server} {es es' : List (RedisEvent server)}
  {first c conn : ℕ}

/-! ## Failed connections -/

/-- A command that was sent over the connection fails. -/
def FailsOver (w : RedisWorld server) (e : RedisEvent server) (conn : ℕ) : Prop :=
  ∃ c text retry answer, e = .fail c text ∧ w.pc c = .waiting retry conn answer

/-- Along the events a command has failed over the connection. -/
def HasFailed (store : RedisRevocationStore) (calls : ℕ → RedisCall) (w : RedisWorld server)
    (es : List (RedisEvent server)) (conn : ℕ) : Prop :=
  ∃ x ∈ redisSteps store calls w es, FailsOver x.1 x.2 conn

theorem hasFailed_append : HasFailed store calls w (es ++ es') conn
    ↔ HasFailed store calls w es conn
      ∨ HasFailed store calls (redisRun store calls w es) es' conn := by
  unfold HasFailed
  rw [redisSteps_append]
  simp only [List.mem_append, or_and_right, exists_or]

theorem hasFailed_singleton : HasFailed store calls w [e] conn ↔ FailsOver w e conn := by
  simp [HasFailed, redisSteps, taken]

theorem opened_le_run (w : RedisWorld server) (es : List (RedisEvent server)) :
    w.opened ≤ (redisRun store calls w es).opened :=
  run_inv _ (P := fun v : RedisWorld server => w.opened ≤ v.opened)
    (fun _ _ h => le_trans h (move_redisStep _ _).opened_le) es le_rfl

/-- A connection that has failed was begun before. -/
theorem HasFailed.lt_opened (h : HasFailed store calls w es conn) (hw : Locked w) :
    conn < (redisRun store calls w es).opened := by
  obtain ⟨x, hx, c, text, retry, answer, -, hpc⟩ := h
  obtain ⟨es₁, es₂, rfl, hrun⟩ := (mem_taken _).1 hx
  have hlocked : Locked x.1 := hrun ▸ locked_run hw es₁
  have hlt : conn < x.1.opened := hlocked.conn c conn (by rw [hpc]; rfl)
  rw [redisRun_append]
  refine lt_of_lt_of_le hlt ?_
  rw [hrun]
  exact opened_le_run _ _

/-! ## A call's own connection -/

theorem mem_sentBy : conn ∈ w.sentBy c ↔ (c, conn) ∈ w.sent := by
  simp [sentBy]

theorem RedisMove.resetting (h : RedisMove store calls w e w') (hpc : w'.pc c = .resetting) :
    w.pc c = .resetting
      ∨ ∃ text conn answer, e = .fail c text ∧ w.pc c = .waiting false conn answer := by
  cases h
  case failsOnce c' text conn answer hwaiting =>
    by_cases hc : c = c'
    · subst hc
      exact .inr ⟨text, conn, answer, rfl, hwaiting⟩
    · rw [goto_pc, if_neg hc] at hpc
      exact .inl hpc
  all_goals grind [goto_pc]

theorem RedisMove.sentBy_of_resetting (h : RedisMove store calls w e w')
    (hpc : w'.pc c = .resetting) : w'.sentBy c = w.sentBy c := by
  refine (h.sentBy c).resolve_right ?_
  rintro ⟨retry, conn, -, hwaiting, -⟩
  rw [hpc] at hwaiting
  cases hwaiting

/-- A call that waits for its first reply has sent one command. -/
theorem sentBy_of_waiting (hw : Reconnects first c w) (hwaits : WaitsOnlyIfSent w)
    {answer : Option RedisReply} (hpc : w.pc c = .waiting false conn answer) :
    w.sentBy c = [conn] := by
  have hone : (w.sentBy c).length ≤ 1 := by
    have := hw.commands
    rwa [hpc] at this
  have hown : conn ∈ w.sentBy c := mem_sentBy.2 (hwaits c false conn answer hpc)
  obtain ⟨own, hlist⟩ : ∃ own, w.sentBy c = [own] :=
    List.length_eq_one_iff.1 (le_antisymm hone (List.length_pos_of_mem hown))
  rw [hlist, List.mem_singleton] at hown
  rw [hlist, hown]

/-- What a call sent its command over has failed by the time the call drops a connection. -/
theorem hasFailed_of_resetting {connection : Option Bool} {up : Bool} {state : server.State}
    {now : ℕ} (es : List (RedisEvent server))
    (hpc : (redisRun store calls (storeWith connection up state now) es).pc c = .resetting)
    (hsent : (c, conn) ∈ (redisRun store calls (storeWith connection up state now) es).sent) :
    HasFailed store calls (storeWith connection up state now) es conn := by
  induction es using List.reverseRecOn with
  | nil => cases hpc
  | append_singleton es e ih =>
    have hreconnects : Reconnects 0 c
        (redisRun store calls (storeWith connection up state now) es) :=
      reconnects_run locked_storeWith reconnects_storeWith es
    have hwaits : WaitsOnlyIfSent
        (redisRun store calls (storeWith connection up state now) es) :=
      waitsOnlyIfSent_run waitsOnlyIfSent_storeWith es
    have hrun : redisRun store calls (storeWith connection up state now) (es ++ [e])
        = redisStep store calls (redisRun store calls (storeWith connection up state now) es) e :=
      run_concat _ _ _ _
    rw [hrun] at hpc hsent
    rw [hasFailed_append, hasFailed_singleton]
    generalize redisRun store calls (storeWith connection up state now) es = w at *
    have hmove : RedisMove store calls w e (redisStep store calls w e) := move_redisStep w e
    rw [← mem_sentBy, hmove.sentBy_of_resetting hpc] at hsent
    rcases hmove.resetting hpc with hold | ⟨text, conn', answer, rfl, hold⟩
    · exact .inl (ih hold (mem_sentBy.1 hsent))
    · -- it has sent one command, and that one fails
      rw [sentBy_of_waiting hreconnects hwaits hold, List.mem_singleton] at hsent
      subst hsent
      exact .inr ⟨c, text, false, answer, rfl, hold⟩

/-! ## What changes the connection that is kept -/

theorem RedisMove.opening (h : RedisMove store calls w e w') {retry : Bool}
    (hpc : w'.pc c = .opening retry conn) : w.pc c = .opening retry conn
      ∨ conn = w.opened ∧ w'.connection = none := by
  cases h <;> grind [goto_pc, goto_connection]

theorem RedisMove.connection (h : RedisMove store calls w e w') : w'.connection = w.connection
    ∨ (∃ c, e = .step c ∧ w.pc c = .resetting ∧ w.lock = none ∧ w'.connection = none)
    ∨ ∃ c retry conn, e = .connected c ∧ w.pc c = .opening retry conn
      ∧ w'.lock = none ∧ w'.connection = some conn := by
  cases h
  case resets c hpc hlock => exact .inr (.inl ⟨c, rfl, hpc, hlock, rfl⟩)
  case connects c retry conn hpc hup => exact .inr (.inr ⟨c, retry, conn, rfl, hpc, rfl, rfl⟩)
  all_goals exact .inl rfl

/-- The lock is in order, a connection is opened only where none is kept, and one that is being
opened was begun at `first` or later. -/
structure OpensSince (first : ℕ) (w : RedisWorld server) : Prop where
  locked : Locked w
  opened : first ≤ w.opened
  missing : ∀ c retry conn, w.pc c = .opening retry conn → w.connection = none
  opening : ∀ c retry conn, w.pc c = .opening retry conn → first ≤ conn

theorem opensSince_move (hw : OpensSince first w) (h : RedisMove store calls w e w') :
    OpensSince first w' := by
  have hlocked := locked_move hw.locked h
  refine ⟨hlocked, le_trans hw.opened h.opened_le, fun c retry conn hpc => ?_,
    fun c retry conn hpc => ?_⟩
  · rcases h.opening hpc with hold | ⟨-, hnone⟩
    · rcases h.connection with hsame | ⟨c', -, -, -, hnone⟩ | ⟨c', retry', conn', -, -, hlock, -⟩
      · rw [hsame]
        exact hw.missing c retry conn hold
      · exact hnone
      · -- the lock is free now, so nobody is opening a connection
        exact absurd hpc (hlocked.not_opening hlock c retry conn)
    · exact hnone
  · rcases h.opening hpc with hold | ⟨rfl, -⟩
    · exact hw.opening c retry conn hold
    · exact hw.opened

theorem opensSince_run (hw : OpensSince first w) (es : List (RedisEvent server)) :
    OpensSince first (redisRun store calls w es) :=
  run_inv _ (fun _ _ h => opensSince_move h (move_redisStep _ _)) es hw

theorem opensSince_storeWith {connection : Option Bool} {up : Bool} {state : server.State}
    {now : ℕ} : OpensSince 0 (storeWith connection up state now) := by
  refine ⟨locked_storeWith, Nat.zero_le _, fun c retry conn hpc => ?_, fun _ _ _ _ => Nat.zero_le _⟩
  cases hpc

/-! ## New connections -/

/-- The connection that a call is opening opens. -/
def opens (w : RedisWorld server) : RedisEvent server → Bool
  | .connected c =>
    match w.pc c with
    | .opening _ _ => w.up
    | _ => false
  | _ => false

theorem exists_of_opens (h : opens w e = true) :
    ∃ c retry conn, e = .connected c ∧ w.pc c = .opening retry conn ∧ w.up = true := by
  unfold opens at h
  split at h
  · split at h
    · next c retry conn hpc => exact ⟨_, retry, conn, rfl, hpc, h⟩
    · cases h
  · cases h

/-- How many connections are still to be opened, until one from `first` on is kept. -/
def toOpen (first : ℕ) (w : RedisWorld server) : ℕ :=
  if w.connection.any fun conn => first ≤ conn then 0 else 1

theorem toOpen_le_one (first : ℕ) (w : RedisWorld server) : toOpen first w ≤ 1 := by
  unfold toOpen
  split_ifs <;> omega

theorem toOpen_of_connection (hconn : w.connection = some conn) (hfirst : first ≤ conn) :
    toOpen first w = 0 := by
  simp [toOpen, hconn, hfirst]

theorem toOpen_of_forall_lt (h : ∀ conn, w.connection = some conn → conn < first) :
    toOpen first w = 1 := by
  unfold toOpen
  rw [if_neg]
  intro hany
  obtain ⟨conn, hconn, hfirst⟩ := (Option.any_eq_true _ _).1 hany
  have := h conn hconn
  have := of_decide_eq_true hfirst
  omega

/-- As long as no connection from `first` on is dropped, nothing more is to be opened. -/
theorem toOpen_move (hw : OpensSince first w) (h : RedisMove store calls w e w')
    (hkeeps : ∀ c conn, e = .step c → w.pc c = .resetting → w.lock = none →
      w.connection = some conn → conn < first) : toOpen first w' ≤ toOpen first w := by
  rcases h.connection with hsame | ⟨c, rfl, hpc, hlock, -⟩ | ⟨c, retry, conn, -, hpc, -, hconn⟩
  · unfold toOpen
    rw [hsame]
  · rw [toOpen_of_forall_lt fun conn => hkeeps c conn rfl hpc hlock]
    exact toOpen_le_one first w'
  · rw [toOpen_of_connection hconn (hw.opening c retry conn hpc)]
    exact Nat.zero_le _

theorem toOpen_lt_of_opens (hw : OpensSince first w) (hopens : opens w e = true) :
    toOpen first (redisStep store calls w e) < toOpen first w := by
  obtain ⟨c, retry, conn, rfl, hpc, hup⟩ := exists_of_opens hopens
  have hnone := hw.missing c retry conn hpc
  have hconn : (redisStep store calls w (.connected c)).connection = some conn := by
    simp [redisStep, connected, hpc, hup]
  rw [toOpen_of_connection hconn (hw.opening c retry conn hpc),
    toOpen_of_forall_lt (by simp [hnone])]
  exact Nat.zero_lt_one

/-! ## Resets in time -/

/-- Where a call drops a connection, the call's own command was sent over it, or a command has
failed over it before. -/
def ResetsInTime (store : RedisRevocationStore) (calls : ℕ → RedisCall) (w : RedisWorld server)
    (es : List (RedisEvent server)) : Prop :=
  ∀ es₁ c es₂ conn, es = es₁ ++ .step c :: es₂ →
    (redisRun store calls w es₁).pc c = .resetting → (redisRun store calls w es₁).lock = none →
    (redisRun store calls w es₁).connection = some conn →
      (c, conn) ∈ (redisRun store calls w es₁).sent ∨ HasFailed store calls w es₁ conn

/-- A connection is dropped only after a command has failed over it. -/
def DropsOnlyFailed (store : RedisRevocationStore) (calls : ℕ → RedisCall)
    (w : RedisWorld server) (es : List (RedisEvent server)) : Prop :=
  ∀ es₁ e es₂ conn, es = es₁ ++ e :: es₂ → (redisRun store calls w es₁).connection = some conn →
    (redisStep store calls (redisRun store calls w es₁) e).connection ≠ some conn →
      HasFailed store calls w es₁ conn

/-- From where a connection is kept, as long as commands fail over no other, at most one new
connection is opened. -/
def OpensAtMostOne (store : RedisRevocationStore) (calls : ℕ → RedisCall) (w : RedisWorld server)
    (es : List (RedisEvent server)) : Prop :=
  ∀ es₁ es₂ conn, es = es₁ ++ es₂ → (redisRun store calls w es₁).connection = some conn →
    (∀ failed, HasFailed store calls (redisRun store calls w es₁) es₂ failed → failed = conn) →
    ((redisSteps store calls (redisRun store calls w es₁) es₂).filter
      fun x => opens x.1 x.2).length ≤ 1

section Runs

variable {connection : Option Bool} {up : Bool} {state : server.State} {now : ℕ}

theorem hasFailed_of_reset
    (h : ResetsInTime store calls (storeWith connection up state now) es)
    {es₁ es₂ : List (RedisEvent server)} (hes : es = es₁ ++ .step c :: es₂)
    (hw : w = redisRun store calls (storeWith connection up state now) es₁)
    (hpc : w.pc c = .resetting) (hlock : w.lock = none) (hkept : w.connection = some conn) :
    HasFailed store calls (storeWith connection up state now) es₁ conn := by
  subst hw
  rcases h es₁ c es₂ conn hes hpc hlock hkept with hsent | hfailed
  · exact hasFailed_of_resetting es₁ hpc hsent
  · exact hfailed

theorem dropsOnlyFailed_of_resetsInTime
    (h : ResetsInTime store calls (storeWith connection up state now) es) :
    DropsOnlyFailed store calls (storeWith connection up state now) es := by
  intro es₁ e es₂ conn hes hkept hdropped
  have hsince : OpensSince 0 (redisRun store calls (storeWith connection up state now) es₁) :=
    opensSince_run opensSince_storeWith es₁
  rcases (move_redisStep _ e).connection with hsame | ⟨c, rfl, hpc, hlock, -⟩ |
    ⟨c, retry, conn', rfl, hpc, -, -⟩
  · exact absurd (hsame.trans hkept) hdropped
  · exact hasFailed_of_reset h hes rfl hpc hlock hkept
  · rw [hsince.missing c retry conn' hpc] at hkept
    cases hkept

/-- What is dropped in a stretch in which commands fail over one old connection only is old. -/
theorem lt_of_reset (h : ResetsInTime store calls (storeWith connection up state now) es)
    {es₁ es₂ es₃ es₄ : List (RedisEvent server)} (hes : es = es₁ ++ es₂)
    (hsplit : es₂ = es₃ ++ .step c :: es₄)
    (hw : w = redisRun store calls (storeWith connection up state now) es₁)
    (hold : ∀ failed, HasFailed store calls w es₂ failed → failed < w.opened)
    (hpc : (redisRun store calls w es₃).pc c = .resetting)
    (hlock : (redisRun store calls w es₃).lock = none)
    (hkept : (redisRun store calls w es₃).connection = some conn) : conn < w.opened := by
  subst hw
  rw [← redisRun_append] at hpc hlock hkept
  have hes' : es = (es₁ ++ es₃) ++ .step c :: es₄ := by
    rw [hes, hsplit, List.append_assoc]
  have hfailed : HasFailed store calls (storeWith connection up state now) (es₁ ++ es₃) conn :=
    hasFailed_of_reset h hes' rfl hpc hlock hkept
  rcases hasFailed_append.1 hfailed with hbefore | hsince
  · exact hbefore.lt_opened locked_storeWith
  · refine hold conn ?_
    rw [hsplit]
    exact hasFailed_append.2 (.inl hsince)

theorem opensAtMostOne_of_resetsInTime
    (h : ResetsInTime store calls (storeWith connection up state now) es) :
    OpensAtMostOne store calls (storeWith connection up state now) es := by
  intro es₁ es₂ conn hes hkept hfails
  have hstart : OpensSince 0 (redisRun store calls (storeWith connection up state now) es₁) :=
    opensSince_run opensSince_storeWith es₁
  generalize hw : redisRun store calls (storeWith connection up state now) es₁ = w at *
  have hlt : conn < w.opened := hstart.locked.connection conn hkept
  -- where a connection is kept, nobody is opening one
  have hsince : OpensSince w.opened w := by
    refine ⟨hstart.locked, le_rfl, hstart.missing, fun c retry conn' hpc => ?_⟩
    rw [hstart.missing c retry conn' hpc] at hkept
    cases hkept
  have hold : ∀ failed, HasFailed store calls w es₂ failed → failed < w.opened := by
    intro failed hfailed
    rw [hfails failed hfailed]
    exact hlt
  refine le_trans (length_le_of_sublist_taken (redisStep store calls) (m := toOpen w.opened)
    List.filter_sublist (fun x hx => ?_) fun x hx => ?_) (toOpen_le_one w.opened w)
  · obtain ⟨es₃, es₄, hsplit, hrun⟩ := (mem_taken _).1 hx
    have hrun : x.1 = redisRun store calls w es₃ := hrun
    refine toOpen_move (hrun ▸ opensSince_run hsince es₃) (move_redisStep _ _) ?_
    intro c conn' he hpc hlock hkept'
    rw [he] at hsplit
    rw [hrun] at hpc hlock hkept'
    exact lt_of_reset h hes hsplit hw.symm hold hpc hlock hkept'
  · obtain ⟨hx, hopens⟩ := List.mem_filter.1 hx
    obtain ⟨es₃, es₄, -, hrun⟩ := (mem_taken _).1 hx
    have hrun : x.1 = redisRun store calls w es₃ := hrun
    exact toOpen_lt_of_opens (hrun ▸ opensSince_run hsince es₃) hopens

theorem resetsInTime_of_dropsOnlyFailed (h : DropsOnlyFailed store calls w es) :
    ResetsInTime store calls w es := by
  intro es₁ c es₂ conn hes hpc hlock hkept
  refine .inr (h es₁ (.step c) es₂ conn hes hkept ?_)
  simp [redisStep, callSection, hpc, resetConnection, hlock]

end Runs

/-- Along any run of any number of calls, no connection is dropped before a command has failed over
it, and after the failure of one connection at most one is opened, exactly when each call that drops
a connection finds there the one its own command was sent over, or one that has failed already. -/
theorem drops_only_failed_iff (store : RedisRevocationStore) (calls : ℕ → RedisCall)
    (connection : Option Bool) (up : Bool) (state : server.State) (now : ℕ)
    (es : List (RedisEvent server)) :
    DropsOnlyFailed store calls (storeWith connection up state now) es
        ∧ OpensAtMostOne store calls (storeWith connection up state now) es
      ↔ ResetsInTime store calls (storeWith connection up state now) es :=
  ⟨fun h => resetsInTime_of_dropsOnlyFailed h.1,
    fun h => ⟨dropsOnlyFailed_of_resetsInTime h, opensAtMostOne_of_resetsInTime h⟩⟩

/-- Two calls share a connection that is dead, and the first opens a new one. -/
def reconnected : List (RedisEvent deadlineServer) :=
  [.step 0, .step 0, .step 1, .step 1, .fail 0 "broken pipe", .fail 1 "broken pipe", .step 0,
    .step 0, .step 0, .connected 0]

/-- The second drops that one, over which nothing was sent yet, and opens another. -/
def resetLate : List (RedisEvent deadlineServer) := [.step 1, .step 1, .step 1, .connected 1]

theorem resetLate_failed (conn : ℕ) (h : HasFailed ⟨60⟩ sharedCalls
    (storeWith (some false) true deadlineServer.fresh 0) (reconnected ++ resetLate) conn) :
    conn = 0 := by
  have hall : ∀ x ∈ redisSteps ⟨60⟩ sharedCalls
      (storeWith (some false) true deadlineServer.fresh 0) (reconnected ++ resetLate),
      FailsOver x.1 x.2 conn → conn = 0 := by
    simp only [reconnected, resetLate, List.cons_append, List.nil_append, forall_redisSteps_cons]
    refine ⟨?_, ?_, ?_, ?_, ?_, ?_, ?_, ?_, ?_, ?_, ?_, ?_, ?_, ?_, by simp [redisSteps, taken]⟩ <;>
      rintro ⟨c, text, retry, answer, ⟨⟩, hpc⟩
    -- what is left are the two commands that fail
    · cases hpc
      rfl
    · cases hpc
      rfl
  obtain ⟨x, hx, hfails⟩ := h
  exact hall x hx hfails

/-- Only connection 0 fails, but connection 1 is dropped, and two connections are opened. -/
theorem late_reset_drops_fresh :
    ¬ DropsOnlyFailed ⟨60⟩ sharedCalls (storeWith (some false) true deadlineServer.fresh 0)
        (reconnected ++ resetLate)
      ∧ ¬ OpensAtMostOne ⟨60⟩ sharedCalls (storeWith (some false) true deadlineServer.fresh 0)
        (reconnected ++ resetLate) := by
  refine ⟨fun h => ?_, fun h => ?_⟩
  · have hfailed := h reconnected (.step 1) [.step 1, .step 1, .connected 1] 1 rfl rfl nofun
    cases resetLate_failed 1 (hasFailed_append.2 (.inl hfailed))
  · have htwo := h [] (reconnected ++ resetLate) 0 rfl rfl resetLate_failed
    exact absurd htwo (by decide)

end TokenKit
