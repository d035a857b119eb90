import TokenKit.Proofs.JwksAnswers
import TokenKit.Proofs.JwksDrops
import Mathlib.Tactic.IntervalCases

/-!
# Calls on a cache return

The refresh lock is held by a look-up that is on its way to letting go of it, so a call waits for
one other call at most (`ahead`), and never for one that has been dropped. Whatever takes a call on
raises its stage, and the call that another one waits for, or the call itself, is taken on when its
turn comes or its response does. So when each call gets its turn again and again and each request a
response, in whatever order, until it is dropped, all calls return or are dropped, and the lock is
free in the end (`calls_return`).
-/

namespace TokenKit

open StepMachine JwksWorld CallMachine

variable {B : Backend} {T : Type}

/-! ## What takes a call on -/

section Ahead

variable {calls : ℕ → JwksCall B} {w : JwksWorld B T} {c : ℕ}

/-- The call that has to go on before the call can: itself, or the holder of the lock that it waits
for. -/
def ahead (w : JwksWorld B T) (c : ℕ) : ℕ :=
  match w.pc c with
  | .waiting => w.refreshLock.getD c
  | _ => c

theorem ahead_eq (w : JwksWorld B T) (c : ℕ) :
    (ahead w c = c ∧ (w.pc c = .waiting → w.refreshLock = none))
      ∨ w.pc c = .waiting ∧ w.refreshLock = some (ahead w c) := by
  unfold ahead
  rcases hpc : w.pc c with _ | _ | _ | _ | keys | _ | answer
  case waiting =>
    rcases hlock : w.refreshLock with _ | holder
    · exact .inl ⟨rfl, fun _ => rfl⟩
    · exact .inr ⟨rfl, rfl⟩
  all_goals exact .inl ⟨rfl, by simp⟩

/-- The event takes on a call at the stage: its response if it waits for one, and its turn if
not. -/
def TakesOn (c stage : ℕ) (e : JwksEvent B) : Prop :=
  if stage = 3 then ∃ outcome, e = .respond c outcome else e = .step c

theorem stage_eq_three {pc : JwksPc B T} : stage pc = 3 ↔ pc = .fetching := by
  cases pc <;> simp [stage]

/-- The step does nothing to a call. -/
def Quiet (calls : ℕ → JwksCall B) (w : JwksWorld B T) : JwksEvent B → Prop
  | .step c => Idle calls w c
  | .respond c _ => w.pc c ≠ .fetching
  | .tick _ => True

/-- The call ahead of one that has not returned is taken on when it is its turn. -/
theorem Orderly.not_quiet {e : JwksEvent B} (h : Orderly calls w)
    (hpc : ∀ answer, w.pc c ≠ .returned answer)
    (htakes : TakesOn (ahead w c) (stage (w.pc (ahead w c))) e) : ¬ Quiet calls w e := by
  unfold TakesOn at htakes
  split_ifs at htakes with hstage
  · obtain ⟨outcome, rfl⟩ := htakes
    exact not_not.2 (stage_eq_three.1 hstage)
  subst htakes
  rintro (⟨hwaiting, hlock⟩ | hfetching | ⟨hlooking, hcall⟩ | ⟨answer, hreturned⟩)
  · rcases ahead_eq w c with ⟨hc, hfree⟩ | ⟨-, hholder⟩
    · rw [hc] at hwaiting
      exact hlock (hfree hwaiting)
    · obtain ⟨hlow, -, -⟩ := h.holder _ hholder
      simp [hwaiting, stage] at hlow
  · exact hstage (stage_eq_three.2 hfetching)
  · have := h.forced _ hcall
    simp [hlooking, stage] at this
  · rcases ahead_eq w c with ⟨hc, -⟩ | ⟨-, hholder⟩
    · rw [hc] at hreturned
      exact hpc answer hreturned
    · obtain ⟨-, hhigh, -⟩ := h.holder _ hholder
      simp [hreturned, stage] at hhigh

end Ahead

section Moves

variable [DeserializeOwned T] {cache : JwksCache B} {boot : ℕ} {calls : ℕ → JwksCall B}
  {w w' : JwksWorld B T} {e : JwksEvent B} {c : ℕ}

/-- A move changes no call and not the lock, or takes its own call on. -/
theorem Move.quiet_or (h : Move cache boot calls w e w') :
    (Quiet calls w e ∧ w'.pc = w.pc ∧ w'.refreshLock = w.refreshLock)
      ∨ ∃ c, e.caller = some c ∧ stage (w.pc c) < stage (w'.pc c) := by
  have hreturned : ∀ (v : JwksWorld B T) (c : ℕ) (result : Except JwtError Unit),
      stage (w.pc c) ≤ 4 →
        stage (w.pc c) < stage ((v.refreshReturned boot c (calls c) result).pc c) := by
    intro v c result hlt
    have hstage := stage_pcAfterRefresh boot v (calls c) result
    rw [refreshReturned_eq, goto_pc_self]
    omega
  cases h with
  | tick d => exact .inl ⟨trivial, rfl, rfl⟩
  | idle c hidle => exact .inl ⟨hidle, rfl, rfl⟩
  | unheard c outcome hpc => exact .inl ⟨hpc, rfl, rfl⟩
  | hit c look want cached hcall hpc =>
    exact .inr ⟨c, rfl, by simp [answered, hpc, stage]⟩
  | refused c look err hcall hpc => exact .inr ⟨c, rfl, by simp [answered, hpc, stage]⟩
  | wait c look hcall hpc => exact .inr ⟨c, rfl, by simp [hpc, stage]⟩
  | acquire c hpc hlock => exact .inr ⟨c, rfl, by simp [hpc, stage]⟩
  | skip c hpc hfresh => exact .inr ⟨c, rfl, hreturned _ c _ (by simp [hpc, stage])⟩
  | noUrl c err hurl hmay =>
    have := hmay.stage_le
    exact .inr ⟨c, rfl, hreturned _ c _ (by omega)⟩
  | request c hurl hmay =>
    have := hmay.stage_le
    refine .inr ⟨c, rfl, ?_⟩
    rw [goto_pc_self]
    show stage (w.pc c) < 3
    omega
  | parsed c outcome keys hpc hkeys => exact .inr ⟨c, rfl, by simp [hpc, stage]⟩
  | failed c outcome err hpc hkeys =>
    exact .inr ⟨c, rfl, hreturned _ c _ (by simp [hpc, stage])⟩
  | install c keys hpc => exact .inr ⟨c, rfl, hreturned _ c _ (by simp [hpc, stage])⟩
  | again c look hcall hpc =>
    exact .inr ⟨c, rfl, by simp [lookAgain_eq, answered, hpc, stage]⟩

end Moves

/-! ## Endless runs -/

section Schedules

theorem isReturned_iff {pc : JwksPc B T} :
    pc.isReturned = true ↔ ∃ answer, pc = .returned answer := by
  cases pc <;> simp [JwksPc.isReturned]

variable [DeserializeOwned T] {cache : JwksCache B} {boot : ℕ}
  {calls : ℕ → JwksCall B} {now n c : ℕ} {schedule : ℕ → DropEvent (JwksEvent B)}
  {w : Dropping (JwksWorld B T)}

theorem undisturbed_along (cache : JwksCache B) (boot : ℕ) (calls : ℕ → JwksCall B) (now : ℕ)
    (schedule : ℕ → DropEvent (JwksEvent B)) (k : ℕ) :
    ∃ es, Undisturbed cache calls es (jwksAlong (T := T) cache boot calls now schedule k) := by
  induction k with
  | zero => exact ⟨[], undisturbed_undropped now⟩
  | succ k ih =>
    obtain ⟨es, h⟩ := ih
    exact ⟨_, h.step (schedule k)⟩

/-- The call that another one waits for is neither dropped nor over. -/
theorem Undisturbed.not_gone_ahead {es : List (DropEvent (JwksEvent B))}
    (h : Undisturbed cache calls es w) (hc : ¬ (jwksCalls cache boot calls).Gone w c) :
    ¬ (jwksCalls cache boot calls).Gone w (ahead w.world c) := by
  rcases ahead_eq w.world c with ⟨heq, -⟩ | ⟨-, hlock⟩
  · rwa [heq]
  · obtain ⟨hlow, hhigh, -⟩ := h.orderly.holder _ hlock
    rintro (hdropped | hfinished)
    · simp [h.gone _ hdropped, stage] at hlow
    · obtain ⟨answer, hpc⟩ := isReturned_iff.1 hfinished
      simp [hpc, stage] at hhigh

theorem jwksCalls_gone_iff : (jwksCalls cache boot calls).Gone w c
    ↔ w.dropped c = true ∨ ∃ answer, w.world.pc c = .returned answer :=
  or_congr_right isReturned_iff

theorem gone_jwks (w : Dropping (JwksWorld B T)) (e : DropEvent (JwksEvent B))
    (h : (jwksCalls cache boot calls).Gone w c) :
    (jwksCalls cache boot calls).Gone ((jwksCalls cache boot calls).dropStep w e) c := by
  refine gone_dropStep (fun s e hfinished => ?_) (fun s c' hc hfinished => ?_) w e h
  · obtain ⟨answer, hpc⟩ := isReturned_iff.1 hfinished
    exact isReturned_iff.2 ⟨answer, returned_jwksStep s e hpc⟩
  · show ((s.release c').pc c).isReturned = true
    rwa [release_pc, if_neg (Ne.symm hc)]

/-- The calls that are not made stay where they are. -/
theorem pc_along_of_le
    (h : ∀ k c, (jwksCalls (T := T) cache boot calls).dropCaller (schedule k) = some c → c < n)
    (hc : n ≤ c) (k : ℕ) :
    (jwksAlong (T := T) cache boot calls now schedule k).world.pc c = .started := by
  refine after_of_not_made (P := fun w : JwksWorld B T => w.pc c = .started) (c := c)
    (fun s e hcaller hpc => ?_) (fun s c' hne hpc => ?_) (fun k hcaller => ?_) rfl k
  · exact ((move_jwksStep s e).pc_of_ne hcaller).trans hpc
  · show (s.release c').pc c = .started
    rwa [release_pc, if_neg (Ne.symm hne)]
  · have := h k c hcaller
    omega

theorem Attended.ahead_lt (h : Attended T cache boot calls now n schedule)
    (hc : c < n) (k : ℕ) :
    ahead (jwksAlong (T := T) cache boot calls now schedule k).world c < n := by
  rcases ahead_eq (jwksAlong (T := T) cache boot calls now schedule k).world c with
    ⟨heq, -⟩ | ⟨-, hlock⟩
  · omega
  · by_contra hge
    obtain ⟨es, hundisturbed⟩ := undisturbed_along (T := T) cache boot calls now schedule k
    obtain ⟨hlow, -, -⟩ := hundisturbed.orderly.holder _ hlock
    rw [pc_along_of_le h.calls_lt (by omega) k] at hlow
    simp [stage] at hlow

theorem TakesOn.caller {c stage : ℕ} {e : JwksEvent B} (h : TakesOn c stage e) :
    e.caller = some c := by
  unfold TakesOn at h
  split_ifs at h
  · obtain ⟨outcome, rfl⟩ := h
    rfl
  · rw [h]
    rfl

theorem takesOn_respond {stage : ℕ} (outcome : FetchOutcome B) (hstage : stage = 3) :
    TakesOn c stage (.respond c outcome) := by
  unfold TakesOn
  rw [if_pos hstage]
  exact ⟨outcome, rfl⟩

theorem takesOn_step {stage : ℕ} (hstage : stage ≠ 3) :
    TakesOn c stage (.step c : JwksEvent B) := by
  unfold TakesOn
  rw [if_neg hstage]

theorem Attended.exists_gone (h : Attended T cache boot calls now n schedule)
    (hc : c < n) :
    ∃ k, (jwksCalls cache boot calls).Gone
      (jwksAlong (T := T) cache boot calls now schedule k) c := by
  refine exists_gone_of_fair (I := fun w => ∃ es, Undisturbed cache calls es w)
    (fun w c => 6 - stage (w.pc c)) (fun w => (ahead w c, stage (w.pc (ahead w c))))
    (fun i _ e => TakesOn i.1 i.2 e) (undisturbed_along cache boot calls now schedule) h.calls_lt
    (fun i s e => TakesOn.caller) (fun w hw hgone => ?_) (fun w e hw hgone => ?_)
    (fun s c c' hne => ?_) fun k hgone => ?_
  · obtain ⟨es, hundisturbed⟩ := hw
    exact hundisturbed.not_gone_ahead hgone
  · obtain ⟨es, hundisturbed⟩ := hw
    have hmove : Move cache boot calls w.world e (jwksStep cache boot calls w.world e) :=
      move_jwksStep _ _
    rcases hmove.quiet_or with ⟨hquiet, hsame, hlock⟩ | ⟨c', hcaller, hlt⟩
    · refine .inl ⟨fun c => ?_, ?_, fun htakes => ?_⟩
      · show 6 - stage ((jwksStep cache boot calls w.world e).pc c) = _
        rw [hsame]
      · show (ahead (jwksStep cache boot calls w.world e) c, stage ((jwksStep cache boot calls
          w.world e).pc (ahead (jwksStep cache boot calls w.world e) c))) = _
        have hahead : ahead (jwksStep cache boot calls w.world e) c = ahead w.world c := by
          unfold ahead
          rw [hsame, hlock]
        rw [hahead, hsame]
      · refine hundisturbed.orderly.not_quiet (fun answer hpc => hgone ?_) htakes hquiet
        exact jwksCalls_gone_iff.2 (.inr ⟨answer, hpc⟩)
    · refine .inr ⟨⟨c', hcaller, ?_⟩, fun c => Nat.sub_le_sub_left (hmove.stage_le c) 6⟩
      have := stage_le_six ((jwksStep cache boot calls w.world e).pc c')
      show 6 - stage ((jwksStep cache boot calls w.world e).pc c') < 6 - stage (w.world.pc c')
      omega
  · show 6 - stage ((s.release c).pc c') ≤ 6 - stage (s.pc c')
    rw [release_pc, if_neg hne]
  · obtain ⟨es, hundisturbed⟩ := undisturbed_along (T := T) cache boot calls now schedule k
    have halive : (jwksAlong (T := T) cache boot calls now schedule k).dropped
        (ahead (jwksAlong (T := T) cache boot calls now schedule k).world c) = false := by
      simpa using fun hdropped => hundisturbed.not_gone_ahead hgone (.inl hdropped)
    by_cases hstage : stage ((jwksAlong (T := T) cache boot calls now schedule k).world.pc
        (ahead (jwksAlong (T := T) cache boot calls now schedule k).world c)) = 3
    · obtain ⟨k', hle, ⟨outcome, hevent⟩ | hevent⟩ := h.response k _ (stage_eq_three.1 hstage)
      · exact ⟨k', hle, .inl ⟨_, hevent, takesOn_respond outcome hstage⟩⟩
      · exact ⟨k', hle, .inr hevent⟩
    · obtain ⟨k', hle, hevent | hevent⟩ := h.turn _ (h.ahead_lt hc k) k halive
      · exact ⟨k', hle, .inl ⟨_, hevent, takesOn_step hstage⟩⟩
      · exact ⟨k', hle, .inr hevent⟩

/-- Where each call gets its turn again and again and its request a response, until it is dropped,
every call is dropped or returns, and the refresh lock is free from then on. -/
theorem calls_return (cache : JwksCache B) (boot : ℕ) (calls : ℕ → JwksCall B) (now n : ℕ)
    (schedule : ℕ → DropEvent (JwksEvent B))
    (h : Attended T cache boot calls now n schedule) :
    ∃ k, ∀ k', k ≤ k' →
      (∀ c < n, (jwksAlong (T := T) cache boot calls now schedule k').dropped c = true
        ∨ ∃ answer, (jwksAlong (T := T) cache boot calls now schedule k').world.pc c
          = .returned answer)
      ∧ (jwksAlong (T := T) cache boot calls now schedule k').world.refreshLock = none := by
  obtain ⟨k, hk⟩ := exists_forall_of_le
    (P := fun c w => (jwksCalls (T := T) cache boot calls).Gone w c) (fun c w e => gone_jwks w e)
    fun c hc => h.exists_gone hc
  refine ⟨k, fun k' hle => ⟨fun c hc => jwksCalls_gone_iff.1 (hk k' hle c hc), ?_⟩⟩
  obtain ⟨es, hundisturbed⟩ := undisturbed_along (T := T) cache boot calls now schedule k'
  rcases hlock : (jwksAlong (T := T) cache boot calls now schedule k').world.refreshLock with
    _ | c
  · rfl
  · -- whoever holds the lock has begun, and is neither dropped nor over
    obtain ⟨hlow, hhigh, -⟩ := hundisturbed.orderly.holder c hlock
    by_cases hc : c < n
    · rcases jwksCalls_gone_iff.1 (hk k' hle c hc) with hdropped | ⟨answer, hpc⟩
      · have hpc := hundisturbed.gone c hdropped
        simp [hpc, stage] at hlow
      · have hhigh' := hhigh
        unfold jwksAlong at hhigh'
        simp [hpc, stage] at hhigh'
    · rw [pc_along_of_le h.calls_lt (by omega) k'] at hlow
      simp [stage] at hlow

end Schedules

/-- The first of two look-ups is dropped while its request is under way, and the second one goes on,
again and again. -/
def hangUp (k : ℕ) : DropEvent (JwksEvent transparentBackend) :=
  match k % 6 with
  | 3 => .drop 0
  | 4 => .event (.step 1)
  | 5 => .event (.respond 1 (.document rsaSet))
  | _ => .event (.step 0)

def twoLookups (_ : ℕ) : JwksCall transparentBackend := .lookup (.decodingKey (some "k"))

theorem hangUp_calls_lt (k c : ℕ) (h : (jwksCalls (T := StandardClaims) (issuerCache 600 10) 0
    twoLookups).dropCaller (hangUp k) = some c) : c < 2 := by
  unfold hangUp at h
  split at h <;> cases h <;> omega

theorem calls_return_hangUp : ∃ k, ∀ k', k ≤ k' →
    (∀ c < 2, (jwksAlong (T := StandardClaims) (issuerCache 600 10) 0 twoLookups 0 hangUp
        k').dropped c = true
      ∨ ∃ answer, (jwksAlong (T := StandardClaims) (issuerCache 600 10) 0 twoLookups 0 hangUp
        k').world.pc c = .returned answer)
    ∧ (jwksAlong (T := StandardClaims) (issuerCache 600 10) 0 twoLookups 0 hangUp
      k').world.refreshLock = none := by
  refine calls_return (issuerCache 600 10) 0 twoLookups 0 2 hangUp
    ⟨hangUp_calls_lt, fun c hc k _ => ?_, fun k c hpc => ?_⟩
  · interval_cases c
    · obtain ⟨k', hle, hmod⟩ := exists_ge_mod_eq (n := 6) (i := 3) (by omega) k
      exact ⟨k', hle, .inr (by simp [hangUp, hmod])⟩
    · obtain ⟨k', hle, hmod⟩ := exists_ge_mod_eq (n := 6) (i := 4) (by omega) k
      exact ⟨k', hle, .inl (by simp [hangUp, hmod])⟩
  · have hc : c < 2 := by
      by_contra hge
      rw [pc_along_of_le hangUp_calls_lt (by omega) k] at hpc
      cases hpc
    interval_cases c
    · obtain ⟨k', hle, hmod⟩ := exists_ge_mod_eq (n := 6) (i := 3) (by omega) k
      exact ⟨k', hle, .inr (by simp [hangUp, hmod])⟩
    · obtain ⟨k', hle, hmod⟩ := exists_ge_mod_eq (n := 6) (i := 5) (by omega) k
      exact ⟨k', hle, .inl ⟨.document rsaSet, by simp [hangUp, hmod]⟩⟩

end TokenKit
