import TokenKit.Proofs.SingleFlight
import Mathlib.Data.List.Induction
import Mathlib.Tactic.Ring

/-!
# How many requests look-ups make

Forced refreshes may be under way all along. A look-up still makes its request under the refresh
lock (`Exclusive`), and only when the last installation is an interval old. So between two requests
of look-ups, the first of which did not fail, an interval passes: over any stretch of a run they are
at most one for each failure, one for each interval that passes, and one (`lookup_requests_le`).
What carries it is how many of the stretch's requests have led to an installation, each an interval
after the one before (`Paced`).
-/

namespace TokenKit

open StepMachine JwksWorld

variable {B : Backend} {T : Type}

section Worlds

variable {calls : ℕ → JwksCall B} {w w' : JwksWorld B T} {c c' : ℕ}

/-- A look-up between taking the refresh lock and the end of its refresh holds that lock. -/
def Exclusive (calls : ℕ → JwksCall B) (w : JwksWorld B T) : Prop :=
  ∀ c, (calls c).isLookup = true → Holding (w.pc c) → w.refreshLock = some c

theorem Exclusive.eq (h : Exclusive calls w) (hc : (calls c).isLookup = true)
    (hc' : (calls c').isLookup = true) (hholding : Holding (w.pc c))
    (hholding' : Holding (w.pc c')) : c = c' :=
  Option.some.inj ((h c hc hholding).symm.trans (h c' hc' hholding'))

/-- A call goes on without touching the lock, and not to where the lock is held. -/
theorem Exclusive.goto (h : Exclusive calls w) {pc : JwksPc B T}
    (hpc : (calls c).isLookup = true → Holding pc → Holding (w.pc c)) :
    Exclusive calls (w.goto c pc) := by
  intro c' hlook hholding
  rw [goto_refreshLock]
  rw [goto_pc] at hholding
  split_ifs at hholding with hc
  · subst hc
    exact h c' hlook (hpc hlook hholding)
  · exact h c' hlook hholding

theorem MayFetch.holding {cache : JwksCache B} (h : MayFetch cache calls w c)
    (hlook : (calls c).isLookup = true) : Holding (w.pc c) := by
  rcases h with ⟨-, hcall⟩ | ⟨hpc, -⟩
  · simp [hcall, JwksCall.isLookup] at hlook
  · simp [hpc, Holding, stage]

theorem MayFetch.stale {cache : JwksCache B} (h : MayFetch cache calls w c)
    (hlook : (calls c).isLookup = true) :
    w.pc c = .checking ∧ isFresh w.now w.state.fetchedAt cache.minRefreshInterval = false := by
  rcases h with ⟨-, hcall⟩ | h
  · simp [hcall, JwksCall.isLookup] at hlook
  · exact h

end Worlds

section Steps

variable [DeserializeOwned T] {cache : JwksCache B} {boot : ℕ} {calls : ℕ → JwksCall B}
  {w w' : JwksWorld B T} {e : JwksEvent B} {c : ℕ}

theorem Exclusive.refreshReturned (h : Exclusive calls w)
    (hholding : (calls c).isLookup = true → Holding (w.pc c)) (state : CachedKeys B)
    (result : Except JwtError Unit) :
    Exclusive calls ({ w with state }.refreshReturned boot c (calls c) result) := by
  rw [refreshReturned_eq]
  have hstage := stage_pcAfterRefresh (T := T) boot { w with state } (calls c) result
  intro c' hlook hholding'
  rw [goto_pc] at hholding'
  split_ifs at hholding' with hc
  · have := hholding'.2
    omega
  · rcases hcall : calls c with look | _
    · -- the look-up lets go of the lock, which no other one held
      have hlook' : (calls c).isLookup = true := by rw [hcall]; rfl
      exact absurd (h.eq hlook hlook' hholding' (hholding hlook')) hc
    · exact h c' hlook hholding'

theorem exclusive_move (h : Exclusive calls w) (hmove : Move cache boot calls w e w') :
    Exclusive calls w' := by
  cases hmove with
  | tick d => exact h
  | idle c hidle => exact h
  | unheard c outcome hpc => exact h
  | hit c look want cached hcall hpc => exact h.goto (by simp [Holding, stage])
  | refused c look err hcall hpc => exact h.goto (by simp [Holding, stage])
  | wait c look hcall hpc => exact h.goto (by simp [Holding, stage])
  | again c look hcall hpc => exact h.goto (by simp [Holding, stage])
  | acquire c hpc hlock =>
    intro c' hlook hholding
    rw [goto_pc] at hholding
    split_ifs at hholding with hc
    · rw [hc]
      rfl
    · have hheld := h c' hlook hholding
      rw [hlock] at hheld
      cases hheld
  | skip c hpc hfresh =>
    exact h.refreshReturned (fun _ => by simp [hpc, Holding, stage]) w.state _
  | noUrl c err hurl hmay => exact h.refreshReturned hmay.holding w.state _
  | request c hurl hmay =>
    have hfetches : Exclusive calls { w with fetches := w.fetches ++ [(c, w.now)] } := h
    exact hfetches.goto fun hlook _ => hmay.holding hlook
  | parsed c outcome keys hpc hkeys =>
    exact h.goto fun _ _ => by simp [hpc, Holding, stage]
  | failed c outcome err hpc hkeys =>
    exact h.refreshReturned (fun _ => by simp [hpc, Holding, stage]) w.state _
  | install c keys hpc =>
    exact h.refreshReturned (fun _ => by simp [hpc, Holding, stage]) ⟨keys, some w.now⟩ _

end Steps

/-! ## The pace of look-ups -/

/-- Of a stretch that starts at `start`, when `before` requests have been made, `failures` requests
of look-ups have failed and `successes` have led to an installation. -/
structure Paced (calls : ℕ → JwksCall B) (interval start before failures successes : ℕ)
    (w : JwksWorld B T) : Prop where
  exclusive : Exclusive calls w
  start_le : start ≤ w.now
  count : lookupRequests calls w ≤ before + failures + successes + 1
  quiet : (∀ c, (calls c).isLookup = true → ¬ InFlight w c) →
    lookupRequests calls w ≤ before + failures + successes
  flight : ∀ c, (calls c).isLookup = true → InFlight w c → start + successes * interval ≤ w.now
  past : successes ≠ 0 → ∃ t, w.state.fetchedAt = some t ∧ t ≤ w.now
    ∧ start + successes * interval ≤ t + interval

section Pace

variable {calls : ℕ → JwksCall B} {interval start before failures successes : ℕ}
  {w w' : JwksWorld B T} {c c' : ℕ}

theorem inFlight_goto_of_ne {pc : JwksPc B T} (hc : c' ≠ c) :
    InFlight (w.goto c pc) c' ↔ InFlight w c' := by
  rw [inFlight_iff, inFlight_iff, goto_pc_of_ne _ _ hc]

theorem inFlight_goto_iff {pc : JwksPc B T}
    (hpc : 3 ≤ stage pc ∧ stage pc ≤ 4 ↔ 3 ≤ stage (w.pc c) ∧ stage (w.pc c) ≤ 4) (c' : ℕ) :
    InFlight (w.goto c pc) c' ↔ InFlight w c' := by
  by_cases hc : c' = c
  · rw [hc, inFlight_iff, inFlight_iff, goto_pc_self]
    exact hpc
  · exact inFlight_goto_of_ne hc

/-- No request of a look-up is made, fails or leads to an installation. -/
theorem Paced.same (h : Paced calls interval start before failures successes w)
    (hexclusive : Exclusive calls w') (hnow : w.now ≤ w'.now)
    (hrequests : lookupRequests calls w' = lookupRequests calls w)
    (hfetched : w'.state.fetchedAt = w.state.fetchedAt ∨ w'.state.fetchedAt = some w'.now)
    (hflight : ∀ c, (calls c).isLookup = true → (InFlight w' c ↔ InFlight w c)) :
    Paced calls interval start before failures successes w' where
  exclusive := hexclusive
  start_le := le_trans h.start_le hnow
  count := hrequests ▸ h.count
  quiet hnone := hrequests ▸ h.quiet fun c hlook hc => hnone c hlook ((hflight c hlook).2 hc)
  flight c hlook hc := le_trans (h.flight c hlook ((hflight c hlook).1 hc)) hnow
  past hsuccesses := by
    obtain ⟨t, ht, hle, hpace⟩ := h.past hsuccesses
    rcases hfetched with hfetched | hfetched
    · exact ⟨t, hfetched.trans ht, le_trans hle hnow, hpace⟩
    · exact ⟨w'.now, hfetched, le_rfl, by omega⟩

/-- A look-up that finds the last installation an interval old makes its request. -/
theorem Paced.request (h : Paced calls interval start before failures successes w)
    (hlook : (calls c).isLookup = true) (hpc : w.pc c = .checking)
    (hstale : isFresh w.now w.state.fetchedAt interval = false)
    (hexclusive : Exclusive calls
      ({ w with fetches := w.fetches ++ [(c, w.now)] }.goto c .fetching)) :
    Paced calls interval start before failures successes
      ({ w with fetches := w.fetches ++ [(c, w.now)] }.goto c .fetching) := by
  have hnone : ∀ c', (calls c').isLookup = true → ¬ InFlight w c' := by
    intro c' hlook' hflight
    have hstage := hflight.stage
    obtain rfl := h.exclusive.eq hlook hlook' (by simp [hpc, Holding, stage]) hflight.holding
    simp [hpc, stage] at hstage
  have hquiet := h.quiet hnone
  have hcount : lookupRequests calls
      ({ w with fetches := w.fetches ++ [(c, w.now)] }.goto c .fetching)
        = lookupRequests calls w + 1 := by
    simp [lookupRequests, hlook]
  refine ⟨hexclusive, h.start_le, by omega, fun hnone => ?_, fun _ _ _ => ?_, h.past⟩
  · exact absurd (.inl (goto_pc_self _ _ _)) (hnone c hlook)
  · show start + successes * interval ≤ w.now
    by_cases hsuccesses : successes = 0
    · rw [hsuccesses, Nat.zero_mul]
      exact h.start_le
    · obtain ⟨t, ht, hle, hpace⟩ := h.past hsuccesses
      have hage := le_of_stale hstale ht
      omega

/-- The request of a look-up fails. -/
theorem Paced.fail (h : Paced calls interval start before failures successes w)
    (hexclusive : Exclusive calls w') (hnow : w'.now = w.now) (hstate : w'.state = w.state)
    (hfetches : w'.fetches = w.fetches) (hpc : ∀ c', InFlight w' c' → InFlight w c') :
    Paced calls interval start before (failures + 1) successes w' := by
  have hrequests : lookupRequests calls w' = lookupRequests calls w := by
    unfold lookupRequests
    rw [hfetches]
  have hcount := h.count
  refine ⟨hexclusive, hnow ▸ h.start_le, by omega, fun _ => by omega, ?_, ?_⟩
  · intro c' hlook hflight
    rw [hnow]
    exact h.flight c' hlook (hpc c' hflight)
  · rw [hstate, hnow]
    exact h.past

/-- The request of a look-up leads to an installation. -/
theorem Paced.install (h : Paced calls interval start before failures successes w)
    (hlook : (calls c).isLookup = true) (hflight : InFlight w c) (hexclusive : Exclusive calls w')
    (hnow : w'.now = w.now) (hfetched : w'.state.fetchedAt = some w.now)
    (hfetches : w'.fetches = w.fetches) (hnone : ¬ InFlight w' c)
    (hpc : ∀ c', c' ≠ c → InFlight w' c' → InFlight w c') :
    Paced calls interval start before failures (successes + 1) w' := by
  have hrequests : lookupRequests calls w' = lookupRequests calls w := by
    unfold lookupRequests
    rw [hfetches]
  have hcount := h.count
  have hpace := h.flight c hlook hflight
  refine ⟨hexclusive, hnow ▸ h.start_le, by omega, fun _ => by omega, fun c' hlook' hflight' => ?_,
    fun _ => ⟨w.now, hfetched, by omega, by rw [Nat.add_mul]; omega⟩⟩
  by_cases hc : c' = c
  · exact absurd (hc ▸ hflight') hnone
  · exact absurd (h.exclusive.eq hlook' hlook (hpc c' hc hflight').holding hflight.holding) hc

/-- A stretch begins with no requests of its own. -/
theorem paced_start (hexclusive : Exclusive calls w) :
    Paced calls interval w.now (lookupRequests calls w) 0 0 w :=
  ⟨hexclusive, le_rfl, by omega, fun _ => le_rfl, fun _ _ _ => by omega, fun h => absurd rfl h⟩

/-- The requests that can have been made by now. -/
theorem Paced.requests_le (h : Paced calls interval start before failures successes w) :
    lookupRequests calls w * interval
      ≤ (before + failures + 1) * interval + (w.now - start) := by
  have hstart := h.start_le
  by_cases hflying : ∃ c, (calls c).isLookup = true ∧ InFlight w c
  · obtain ⟨c, hlook, hflight⟩ := hflying
    have hpace := h.flight c hlook hflight
    calc lookupRequests calls w * interval
        ≤ (before + failures + successes + 1) * interval := Nat.mul_le_mul_right _ h.count
      _ = (before + failures + 1) * interval + successes * interval := by ring
      _ ≤ (before + failures + 1) * interval + (w.now - start) := by omega
  · have hquiet := h.quiet fun c hlook hflight => hflying ⟨c, hlook, hflight⟩
    have hpace : successes * interval ≤ interval + (w.now - start) := by
      by_cases hsuccesses : successes = 0
      · simp [hsuccesses]
      · obtain ⟨t, -, hle, hpace⟩ := h.past hsuccesses
        omega
    calc lookupRequests calls w * interval
        ≤ (before + failures + successes) * interval := Nat.mul_le_mul_right _ hquiet
      _ = (before + failures) * interval + successes * interval := by ring
      _ ≤ (before + failures) * interval + (interval + (w.now - start)) := by omega
      _ = (before + failures + 1) * interval + (w.now - start) := by ring

end Pace

section Runs

variable [DeserializeOwned T] {cache : JwksCache B} {boot : ℕ} {calls : ℕ → JwksCall B}
  {start before failures successes : ℕ} {w w' : JwksWorld B T} {e : JwksEvent B} {c : ℕ}

theorem refreshReturned_not_inFlight (v : JwksWorld B T) (call : JwksCall B)
    (result : Except JwtError Unit) : ¬ InFlight (v.refreshReturned boot c call result) c := by
  have hstage := stage_pcAfterRefresh (T := T) boot v call result
  rw [refreshReturned_eq, inFlight_iff, goto_pc_self]
  omega

theorem inFlight_refreshReturned_of_ne (v : JwksWorld B T) (call : JwksCall B)
    (result : Except JwtError Unit) {c' : ℕ} (hc : c' ≠ c) (hpc : v.pc = w.pc) :
    InFlight (v.refreshReturned boot c call result) c' ↔ InFlight w c' := by
  rw [refreshReturned_eq, inFlight_goto_of_ne hc, inFlight_iff, inFlight_iff, hpc]

/-- A call that had no request in flight has none when its refresh returns. -/
theorem inFlight_refreshReturned_iff (call : JwksCall B) (result : Except JwtError Unit)
    (hnone : ¬ InFlight w c) (c' : ℕ) :
    InFlight (w.refreshReturned boot c call result) c' ↔ InFlight w c' := by
  by_cases hc : c' = c
  · rw [hc]
    exact iff_of_false (refreshReturned_not_inFlight w call result) hnone
  · exact inFlight_refreshReturned_of_ne w call result hc rfl

theorem paced_move
    (h : Paced calls cache.minRefreshInterval start before failures successes w)
    (hmove : Move cache boot calls w e w') :
    ∃ successes', Paced calls cache.minRefreshInterval start before
      (failures + if failsLookup cache calls (w, e) then 1 else 0) successes' w' := by
  have hexclusive := exclusive_move h.exclusive hmove
  cases hmove with
  | tick d => exact ⟨_, h.same hexclusive (Nat.le_add_right _ _) rfl (.inl rfl) fun _ _ => .rfl⟩
  | idle c hidle => exact ⟨_, h⟩
  | unheard c outcome hpc =>
    have hnot : failsLookup cache calls (w, .respond c outcome) = false := by
      unfold failsLookup
      split <;> simp_all
    rw [hnot]
    exact ⟨_, h⟩
  | hit c look want cached hcall hpc | refused c look err hcall hpc | wait c look hcall hpc
  | again c look hcall hpc | acquire c hpc hlock =>
    refine ⟨_, h.same hexclusive le_rfl rfl (.inl rfl) fun c' _ => ?_⟩
    exact inFlight_goto_iff (by simp [hpc, stage]) c'
  | skip c hpc hfresh =>
    refine ⟨_, h.same hexclusive (by simp) (by simp [lookupRequests]) (.inl (by simp)) ?_⟩
    exact fun c' _ => inFlight_refreshReturned_iff _ _ (by simp [inFlight_iff, hpc, stage]) c'
  | noUrl c err hurl hmay =>
    refine ⟨_, h.same hexclusive (by simp) (by simp [lookupRequests]) (.inl (by simp)) ?_⟩
    have := hmay.stage_le
    exact fun c' _ => inFlight_refreshReturned_iff _ _ (by rw [inFlight_iff]; omega) c'
  | request c hurl hmay =>
    rcases hlook : (calls c).isLookup
    · refine ⟨_, h.same hexclusive le_rfl (by simp [lookupRequests, hlook]) (.inl rfl) ?_⟩
      intro c' hlook'
      have hc : c' ≠ c := by
        rintro rfl
        simp [hlook] at hlook'
      exact inFlight_goto_of_ne hc
    · obtain ⟨hpc, hstale⟩ := hmay.stale hlook
      exact ⟨_, h.request hlook hpc hstale hexclusive⟩
  | parsed c outcome keys hpc hkeys =>
    have hnot : failsLookup cache calls (w, .respond c outcome) = false := by
      unfold failsLookup
      simp [hkeys]
    rw [hnot]
    refine ⟨_, h.same hexclusive le_rfl rfl (.inl rfl) fun c' _ => ?_⟩
    exact inFlight_goto_iff (by simp [hpc, stage]) c'
  | failed c outcome err hpc hkeys =>
    rcases hcall : calls c with look | _
    · have hfails : failsLookup cache calls (w, .respond c outcome) = true := by
        simp [failsLookup, hpc, hcall, hkeys]
      rw [hfails]
      rw [hcall] at hexclusive
      refine ⟨successes, h.fail hexclusive (by simp) (by simp) (by simp) fun c' hflight => ?_⟩
      have hc : c' ≠ c := by
        rintro rfl
        exact refreshReturned_not_inFlight w (.lookup look) _ hflight
      exact (inFlight_refreshReturned_of_ne w (.lookup look) _ hc rfl).1 hflight
    · have hnot : failsLookup cache calls (w, .respond c outcome) = false := by
        simp [failsLookup, hpc, hcall]
      rw [hnot]
      rw [hcall] at hexclusive
      refine ⟨_, h.same hexclusive (by simp) (by simp [lookupRequests]) (.inl (by simp)) ?_⟩
      intro c' hlook'
      have hc : c' ≠ c := by
        rintro rfl
        simp [hcall, JwksCall.isLookup] at hlook'
      exact inFlight_refreshReturned_of_ne w .refresh _ hc rfl
  | install c keys hpc =>
    rcases hlook : (calls c).isLookup
    · refine ⟨_, h.same hexclusive (by simp) (by simp [lookupRequests]) (.inr (by simp)) ?_⟩
      intro c' hlook'
      have hc : c' ≠ c := by
        rintro rfl
        simp [hlook] at hlook'
      exact inFlight_refreshReturned_of_ne { w with state := ⟨keys, some w.now⟩ } _ _ hc rfl
    · refine ⟨_, h.install hlook (.inr ⟨keys, hpc⟩) hexclusive (by simp) (by simp) (by simp) ?_ ?_⟩
      · exact refreshReturned_not_inFlight { w with state := ⟨keys, some w.now⟩ } _ _
      · intro c' hc hflight
        exact (inFlight_refreshReturned_of_ne { w with state := ⟨keys, some w.now⟩ } _ _ hc
          rfl).1 hflight

theorem paced_run (cache : JwksCache B) (boot : ℕ) (hexclusive : Exclusive calls w)
    (es : List (JwksEvent B)) :
    ∃ successes, Paced calls cache.minRefreshInterval w.now (lookupRequests calls w)
      ((taken (jwksStep cache boot calls) w es).countP (failsLookup cache calls)) successes
      (run (jwksStep cache boot calls) w es) := by
  induction es using List.reverseRecOn with
  | nil => exact ⟨0, paced_start hexclusive⟩
  | append_singleton es e ih =>
    obtain ⟨successes, ih⟩ := ih
    obtain ⟨successes', h⟩ := paced_move ih (move_jwksStep _ e)
    refine ⟨successes', ?_⟩
    rw [run_concat, taken_append, List.countP_append]
    simpa [taken, List.countP_cons] using h

/-- Over any stretch of any run, look-ups make one request for each that fails, one for each
interval that passes, and one. -/
theorem lookup_requests_le (cache : JwksCache B) (boot : ℕ) (calls : ℕ → JwksCall B) (now : ℕ)
    (es stretch : List (JwksEvent B)) :
    lookupRequests calls (jwksRun (T := T) cache boot calls now (es ++ stretch))
        * cache.minRefreshInterval
      ≤ (lookupRequests calls (jwksRun (T := T) cache boot calls now es)
          + (taken (jwksStep cache boot calls) (jwksRun (T := T) cache boot calls now es)
              stretch).countP (failsLookup cache calls) + 1) * cache.minRefreshInterval
        + ((jwksRun (T := T) cache boot calls now (es ++ stretch)).now
          - (jwksRun (T := T) cache boot calls now es).now) := by
  have hexclusive : Exclusive calls (jwksRun (T := T) cache boot calls now es) :=
    run_inv _ (P := fun w : JwksWorld B T => Exclusive calls w)
      (fun w e h => exclusive_move h (move_jwksStep w e)) es
      fun c _ h => by simp [freshCache, Holding, stage] at h
  obtain ⟨successes, h⟩ := paced_run cache boot hexclusive stretch
  have hrun : jwksRun (T := T) cache boot calls now (es ++ stretch)
      = run (jwksStep cache boot calls) (jwksRun cache boot calls now es) stretch :=
    run_append _ _ es stretch
  rw [hrun]
  exact h.requests_le

end Runs

end TokenKit
