import TokenKit.DroppedCalls
import TokenKit.Proofs.RequestRate

/-!
# Dropped look-ups

The refresh lock is held by a look-up that is on its way to letting go of it (`Orderly`).

A world in which calls are dropped is followed by one in which none is, and which puts off what a
call might still be dropped before: there a call takes the refresh lock only as it goes on under it,
and a response arrives only as its keys are installed (`lag`). So a call that is dropped between the
two leaves nothing behind there. One that is dropped while it waits for a response gets an error
there, and lets go of the lock all the same.
-/

namespace TokenKit

open StepMachine JwksWorld CallMachine

variable {B : Backend} {T : Type}

/-! ## The holder of the lock -/

/-- The refresh lock is held by a look-up between its two looks, and a forced refresh is never
where a look-up is that waits, asks or looks again. -/
structure Orderly (calls : ℕ → JwksCall B) (w : JwksWorld B T) : Prop where
  holder : ∀ c, w.refreshLock = some c → 2 ≤ stage (w.pc c) ∧ stage (w.pc c) ≤ 4
    ∧ ∃ look, calls c = .lookup look
  forced : ∀ c, calls c = .refresh → stage (w.pc c) ∈ [0, 3, 4, 6]

section Holder

variable {calls : ℕ → JwksCall B} {w : JwksWorld B T} {c : ℕ}

/-- A call goes on without touching the lock. -/
theorem Orderly.goto (h : Orderly calls w) {pc : JwksPc B T}
    (hholder : w.refreshLock = some c → 2 ≤ stage pc ∧ stage pc ≤ 4)
    (hforced : calls c = .refresh → stage pc ∈ [0, 3, 4, 6]) : Orderly calls (w.goto c pc) where
  holder c' hlock := by
    obtain ⟨hlow, hhigh, hlook⟩ := h.holder c' hlock
    rw [goto_pc]
    split_ifs with hc
    · subst hc
      exact ⟨(hholder hlock).1, (hholder hlock).2, hlook⟩
    · exact ⟨hlow, hhigh, hlook⟩
  forced c' hcall := by
    rw [goto_pc]
    split_ifs with hc
    · subst hc
      exact hforced hcall
    · exact h.forced c' hcall

theorem Orderly.not_held (h : Orderly calls w) (hpc : stage (w.pc c) < 2 ∨ 4 < stage (w.pc c)) :
    w.refreshLock ≠ some c := by
  intro hlock
  obtain ⟨hlow, hhigh, -⟩ := h.holder c hlock
  omega

/-- A call that does not hold the lock goes on. -/
theorem Orderly.goto_of_not_held (h : Orderly calls w) {pc : JwksPc B T}
    (hpc : stage (w.pc c) < 2 ∨ 4 < stage (w.pc c))
    (hforced : calls c = .refresh → stage pc ∈ [0, 3, 4, 6]) : Orderly calls (w.goto c pc) :=
  h.goto (fun hlock => absurd hlock (h.not_held hpc)) hforced

theorem Orderly.lookup (h : Orderly calls w) (hpc : stage (w.pc c) ∉ [0, 3, 4, 6]) :
    calls c ≠ .refresh := fun hcall => hpc (h.forced c hcall)

end Holder

section Moves

variable [DeserializeOwned T] {cache : JwksCache B} {boot : ℕ} {calls : ℕ → JwksCall B}
  {w w' : JwksWorld B T} {e : JwksEvent B} {c : ℕ}

theorem Orderly.refreshReturned (h : Orderly calls w) (state : CachedKeys B)
    (result : Except JwtError Unit) :
    Orderly calls ({ w with state }.refreshReturned boot c (calls c) result) := by
  rw [refreshReturned_eq]
  have hstage := stage_pcAfterRefresh (T := T) boot { w with state } (calls c) result
  rcases hcall : calls c with look | _
  · -- the look-up lets go of the lock
    refine ⟨by rintro c' ⟨⟩, fun c' hcall' => ?_⟩
    rw [goto_pc, if_neg]
    · exact h.forced c' hcall'
    · rintro rfl
      cases hcall.symm.trans hcall'
  · have hstate : Orderly calls { w with state } := ⟨h.holder, h.forced⟩
    refine hstate.goto (fun hlock => ?_) fun _ => by simp [pcAfterRefresh, stage]
    obtain ⟨-, -, look, hlook⟩ := h.holder c hlock
    cases hcall.symm.trans hlook

theorem orderly_move (h : Orderly calls w) (hmove : Move cache boot calls w e w') :
    Orderly calls w' := by
  cases hmove with
  | tick d => exact ⟨h.holder, h.forced⟩
  | idle c hidle => exact h
  | unheard c outcome hpc => exact h
  | hit c look want cached hcall hpc =>
    exact h.goto_of_not_held (by simp [hpc, stage]) fun hf => by cases hcall.symm.trans hf
  | refused c look err hcall hpc =>
    exact h.goto_of_not_held (by simp [hpc, stage]) fun hf => by cases hcall.symm.trans hf
  | wait c look hcall hpc =>
    exact h.goto_of_not_held (by simp [hpc, stage]) fun hf => by cases hcall.symm.trans hf
  | again c look hcall hpc =>
    exact h.goto_of_not_held (by simp [hpc, stage]) fun hf => by cases hcall.symm.trans hf
  | acquire c hpc hlock =>
    have hlookup := h.lookup (c := c) (by simp [hpc, stage])
    refine ⟨fun c' hc' => ?_, fun c' hcall' => ?_⟩
    · obtain rfl := Option.some.inj hc'
      rw [goto_pc_self]
      refine ⟨by simp [stage], by simp [stage], ?_⟩
      rcases hcall : calls c with look | _
      · exact ⟨look, rfl⟩
      · exact absurd hcall hlookup
    · rw [goto_pc, if_neg]
      · exact h.forced c' hcall'
      · rintro rfl
        exact hlookup hcall'
  | skip c hpc hfresh => exact h.refreshReturned w.state _
  | noUrl c err hurl hmay => exact h.refreshReturned w.state _
  | request c hurl hmay =>
    have hfetches : Orderly calls { w with fetches := w.fetches ++ [(c, w.now)] } :=
      ⟨h.holder, h.forced⟩
    exact hfetches.goto (fun _ => by simp [stage]) fun _ => by simp [stage]
  | parsed c outcome keys hpc hkeys =>
    exact h.goto (fun _ => by simp [stage]) fun _ => by simp [stage]
  | failed c outcome err hpc hkeys => exact h.refreshReturned w.state _
  | install c keys hpc => exact h.refreshReturned ⟨keys, some w.now⟩ _

end Moves

/-! ## Sections -/

/-- What a section of a call changes. -/
structure Effect (B : Backend) (T : Type) where
  state : Option (CachedKeys B)
  fetches : List (ℕ × ℕ)
  releases : Bool
  pc : JwksPc B T

def Effect.apply (effect : Effect B T) (w : JwksWorld B T) (c : ℕ) : JwksWorld B T :=
  { w with
    state := effect.state.getD w.state
    fetches := w.fetches ++ effect.fetches
    refreshLock := if effect.releases then none else w.refreshLock }.goto c effect.pc

/-- Where a call is once what might be put off is put off. -/
def lag : JwksPc B T → JwksPc B T
  | .checking => .waiting
  | .installing _ => .fetching
  | pc => pc

/-- Nothing is put off for a call that is here. -/
def Prompt (pc : JwksPc B T) : Prop := stage pc ≠ 2 ∧ stage pc ≠ 4

theorem Prompt.lag {pc : JwksPc B T} (h : Prompt pc) : lag pc = pc := by
  rcases pc with _ | _ | _ | _ | keys | _ | answer
  case checking => exact absurd rfl h.1
  case installing => exact absurd rfl h.2
  all_goals rfl

theorem prompt_pcAfterRefresh [DeserializeOwned T] (boot : ℕ) (w : JwksWorld B T)
    (call : JwksCall B) (result : Except JwtError Unit) :
    Prompt (pcAfterRefresh boot w call result) := by
  have := stage_pcAfterRefresh boot w call result
  constructor <;> omega

/-- The two worlds look the same to a section. -/
def SameView (v w : JwksWorld B T) : Prop := w.state = v.state ∧ w.now = v.now

/-- The effect is that of the section, in every world that looks the same. -/
def EffectOf (f : JwksWorld B T → JwksWorld B T) (v : JwksWorld B T) (c : ℕ)
    (effect : Effect B T) : Prop :=
  Prompt effect.pc ∧ ∀ w, SameView v w → f w = effect.apply w c

theorem EffectOf.congr {f g : JwksWorld B T → JwksWorld B T} {v : JwksWorld B T} {c : ℕ}
    {effect : Effect B T} (h : EffectOf f v c effect) (hfg : ∀ w, SameView v w → g w = f w) :
    EffectOf g v c effect := ⟨h.1, fun w hw => (hfg w hw).trans (h.2 w hw)⟩

theorem SameView.freshHit {v w : JwksWorld B T} (h : SameView v w) (cache : JwksCache B)
    (want : String) : w.freshHit cache want = v.freshHit cache want := by
  unfold JwksWorld.freshHit
  rw [h.1, h.2]

section Sections

variable [DeserializeOwned T] (cache : JwksCache B) (boot : ℕ)

theorem effectOf_answered (v : JwksWorld B T) (c : ℕ) (look : JwksLookup B)
    (resolved : Except JwtError (CachedKey B)) :
    EffectOf (fun w => w.answered boot c look resolved) v c
      ⟨none, [], false, .returned (look.answer boot v.now resolved)⟩ := by
  refine ⟨by simp [Prompt, stage], fun w h => ?_⟩
  rw [← h.2]
  simp [answered, Effect.apply]

theorem effectOf_refreshReturned (v : JwksWorld B T) (c : ℕ) (call : JwksCall B)
    (result : Except JwtError Unit) :
    EffectOf (fun w => w.refreshReturned boot c call result) v c
      ⟨none, [], call.isLookup, pcAfterRefresh boot v call result⟩ := by
  refine ⟨prompt_pcAfterRefresh boot v call result, fun w h => ?_⟩
  have hpc : pcAfterRefresh boot w call result = pcAfterRefresh boot v call result := by
    unfold pcAfterRefresh
    rw [h.2]
  show w.refreshReturned boot c call result = _
  rw [refreshReturned_eq, hpc]
  rcases call with look | _ <;> simp [Effect.apply, lockAfterRefresh, JwksCall.isLookup]

theorem exists_effect_refresh (v : JwksWorld B T) (c : ℕ) (call : JwksCall B) :
    ∃ effect : Effect B T, EffectOf (fun w => w.refresh cache boot c call) v c effect := by
  unfold JwksWorld.refresh
  split_ifs with hurl
  · exact ⟨_, effectOf_refreshReturned boot v c call _⟩
  · refine ⟨⟨none, [(c, v.now)], false, .fetching⟩, by simp [Prompt, stage], fun w h => ?_⟩
    rw [← h.2]
    simp [Effect.apply]

theorem exists_effect_start (v : JwksWorld B T) (c : ℕ) (call : JwksCall B) :
    ∃ effect : Effect B T, EffectOf (fun w => w.start cache boot c call) v c effect := by
  rcases call with look | _
  · simp only [start]
    rcases hwant : look.want with e | want
    · exact ⟨_, effectOf_answered boot v c look _⟩
    · simp only [resolveKey]
      rcases hhit : v.freshHit cache want with _ | cached
      · by_cases hstatic : cache.staticKeys = true
        · refine ⟨_, (effectOf_answered boot v c look
            (.error (.jwks s!"unknown key id `{want}` in static key set"))).congr fun w h => ?_⟩
          simp only [h.freshHit, hhit, hstatic, if_true]
        · refine ⟨⟨none, [], false, .waiting⟩, by simp [Prompt, stage], fun w h => ?_⟩
          simp [h.freshHit, hhit, hstatic, Effect.apply]
      · refine ⟨_, (effectOf_answered boot v c look (.ok cached)).congr fun w h => ?_⟩
        simp only [h.freshHit, hhit]
  · exact exists_effect_refresh cache boot v c .refresh

/-- The call goes on at its turn, whoever holds the lock. -/
def GoesOn (call : JwksCall B) : JwksPc B T → Prop
  | .started => True
  | .checking => True
  | .installing _ => True
  | .looking => call.isLookup = true
  | _ => False

theorem exists_effect (v : JwksWorld B T) (c : ℕ) (call : JwksCall B)
    (hgoes : GoesOn call (v.pc c)) :
    ∃ effect : Effect B T, Prompt effect.pc ∧ ∀ w, SameView v w → w.pc c = v.pc c →
      w.callSection cache boot c call = effect.apply w c := by
  rcases hpc : v.pc c with _ | _ | _ | _ | keys | _ | answer <;> rw [hpc] at hgoes
  · obtain ⟨effect, hprompt, happly⟩ := exists_effect_start cache boot v c call
    refine ⟨effect, hprompt, fun w hw hpc => ?_⟩
    rw [← happly w hw]
    simp only [callSection, hpc]
  · exact hgoes.elim
  · by_cases hfresh : isFresh v.now v.state.fetchedAt cache.minRefreshInterval = true
    · obtain ⟨hprompt, happly⟩ := effectOf_refreshReturned boot v c call (.ok ())
      refine ⟨_, hprompt, fun w hw hpc => ?_⟩
      rw [← happly w hw]
      simp only [callSection, hpc, hw.1, hw.2, hfresh, if_true]
    · obtain ⟨effect, hprompt, happly⟩ := exists_effect_refresh cache boot v c call
      refine ⟨effect, hprompt, fun w hw hpc => ?_⟩
      rw [← happly w hw]
      simp only [callSection, hpc, hw.1, hw.2, hfresh]
      rfl
  · exact hgoes.elim
  · refine ⟨⟨some ⟨keys, some v.now⟩, [], call.isLookup, pcAfterRefresh boot v call (.ok ())⟩,
      prompt_pcAfterRefresh boot v call _, fun w hw hpc => ?_⟩
    have happly := (effectOf_refreshReturned boot { v with state := ⟨keys, some v.now⟩ } c call
      (.ok ())).2 { w with state := ⟨keys, some w.now⟩ } ⟨by rw [hw.2], hw.2⟩
    simp only [callSection, hpc]
    refine happly.trans ?_
    rw [← hw.2]
    rfl
  · rcases call with look | _
    · obtain ⟨hprompt, happly⟩ := effectOf_answered boot v c look (secondLook v.state.keys look)
      refine ⟨_, hprompt, fun w hw hpc => ?_⟩
      rw [← happly w hw]
      simp only [callSection, hpc, lookAgain_eq, hw.1]
    · cases hgoes
  · exact hgoes.elim

end Sections

/-! ## The world that puts off -/

/-- The second world puts off what the first has done, for every call but one at most. -/
structure Lags (caught : Option ℕ) (w : Dropping (JwksWorld B T)) (w' : JwksWorld B T) : Prop where
  state : w'.state = w.world.state
  now : w'.now = w.world.now
  fetches : w'.fetches = w.world.fetches
  pc : ∀ c, w.dropped c = false →
    w'.pc c = if caught = some c then w.world.pc c else lag (w.world.pc c)
  lock : ∀ c, w'.refreshLock = some c
    ↔ w.world.refreshLock = some c ∧ (caught = some c ∨ stage (w.world.pc c) ≠ 2)

/-- What holds after events among which calls are dropped: the lock is with the call it should be
with, a call that is dropped is gone, and keys to be installed came with a response. -/
structure Undisturbed (cache : JwksCache B) (calls : ℕ → JwksCall B)
    (es : List (DropEvent (JwksEvent B))) (w : Dropping (JwksWorld B T)) : Prop where
  orderly : Orderly calls w.world
  exclusive : Exclusive calls w.world
  gone : ∀ c, w.dropped c = true → w.world.pc c = .started
  answered : ∀ c keys, w.world.pc c = .installing keys → ∃ outcome,
    .event (.respond c outcome) ∈ es ∧ keysOfResponse B cache.url outcome = .ok keys

theorem release_pc (w : JwksWorld B T) (c d : ℕ) :
    (w.release c).pc d = if d = c then .started else w.pc d := goto_pc _ _ _ _

/-- A released lock is held by nobody, and any other one by whom it was. -/
theorem release_refreshLock (w : JwksWorld B T) (c d : ℕ) :
    (w.release c).refreshLock = some d ↔ w.refreshLock = some d ∧ d ≠ c := by
  unfold JwksWorld.release
  rw [goto_refreshLock]
  split_ifs with hheld
  · rw [hheld]
    refine ⟨by rintro ⟨⟩, ?_⟩
    rintro ⟨hd, hne⟩
    exact absurd (Option.some.inj hd).symm hne
  · refine ⟨fun hd => ⟨hd, ?_⟩, And.left⟩
    rintro rfl
    exact hheld hd

section Follow

variable {cache : JwksCache B} {boot : ℕ} {calls : ℕ → JwksCall B}
  {es : List (DropEvent (JwksEvent B))} {w : Dropping (JwksWorld B T)} {w' : JwksWorld B T}
  {c : ℕ}

theorem Undisturbed.alive (h : Undisturbed cache calls es w) (hpc : w.world.pc c ≠ .started) :
    w.dropped c = false := by
  rcases hdropped : w.dropped c
  · rfl
  · exact absurd (h.gone c hdropped) hpc

theorem undisturbed_undropped (now : ℕ) :
    Undisturbed cache calls [] (undropped (T := T) cache now) := by
  refine ⟨⟨by rintro c ⟨⟩, fun c _ => ?_⟩, fun c _ hpc => ?_, by rintro c ⟨⟩, by rintro c keys ⟨⟩⟩
  · simp [undropped, freshCache, stage]
  · simp [undropped, freshCache, Holding, stage] at hpc

theorem Undisturbed.more (h : Undisturbed cache calls es w) (e : DropEvent (JwksEvent B)) :
    Undisturbed cache calls (es ++ [e]) w where
  orderly := h.orderly
  exclusive := h.exclusive
  gone := h.gone
  answered c keys hpc := by
    obtain ⟨outcome, hheard, hkeys⟩ := h.answered c keys hpc
    exact ⟨outcome, List.mem_append_left _ hheard, hkeys⟩

theorem Undisturbed.drop (h : Undisturbed cache calls es w) (c : ℕ) :
    Undisturbed cache calls es
      { world := w.world.release c, dropped := Function.update w.dropped c true } := by
  refine ⟨⟨fun d hd => ?_, fun d hcall => ?_⟩, fun d hlook hd => ?_, fun d hd => ?_,
    fun d keys hpc => ?_⟩
  · obtain ⟨hheld, hc⟩ := (release_refreshLock _ _ _).1 hd
    simp only [release_pc, if_neg hc]
    exact h.orderly.holder d hheld
  · simp only [release_pc]
    split_ifs with hc
    · simp [stage]
    · exact h.orderly.forced d hcall
  · simp only [release_pc] at hd
    split_ifs at hd with hc
    · exact absurd hd.1 (by simp [stage])
    · exact (release_refreshLock _ _ _).2 ⟨h.exclusive d hlook hd, hc⟩
  · simp only [release_pc]
    split_ifs with hc
    · rfl
    · exact h.gone d (by simpa [Function.update_of_ne hc] using hd)
  · simp only [release_pc] at hpc
    split_ifs at hpc with hc
    exact h.answered d keys hpc

theorem Lags.lock_of_ne (h : Lags none w w') (hstage : stage (w.world.pc c) ≠ 2) (d : ℕ) :
    w'.refreshLock = some d
      ↔ w.world.refreshLock = some d ∧ (some c = some d ∨ stage (w.world.pc d) ≠ 2) := by
  rw [h.lock d]
  refine and_congr_right fun _ => ⟨fun hd => .inr (hd.resolve_left (by simp)), fun hd => .inr ?_⟩
  rcases hd with hc | hd
  · obtain rfl := Option.some.inj hc
    exact hstage
  · exact hd

/-- A call for which nothing is put off has caught up. -/
theorem Lags.of_prompt (h : Lags none w w') (hprompt : Prompt (w.world.pc c)) :
    Lags (some c) w w' where
  state := h.state
  now := h.now
  fetches := h.fetches
  pc d hd := by
    rw [h.pc d hd, if_neg (by simp)]
    split_ifs with hc
    · obtain rfl := Option.some.inj hc
      exact hprompt.lag
    · rfl
  lock := h.lock_of_ne hprompt.1

/-- The call goes to where it is in the other world. -/
theorem Lags.goto (h : Lags none w w') {lock : Option ℕ}
    (hlock : ∀ d, lock = some d
      ↔ w.world.refreshLock = some d ∧ (some c = some d ∨ stage (w.world.pc d) ≠ 2)) :
    Lags (some c) w ({ w' with refreshLock := lock }.goto c (w.world.pc c)) where
  state := h.state
  now := h.now
  fetches := h.fetches
  pc d hd := by
    rw [goto_pc]
    by_cases hc : d = c
    · simp [hc]
    · rw [if_neg hc, if_neg fun hcd => hc (Option.some.inj hcd).symm, h.pc d hd, if_neg (by simp)]
  lock := hlock

/-- A look-up that asks under the lock holds it, and has put it off in the other world. -/
theorem Lags.lock_of_checking (h : Lags none w w') (hw : Undisturbed cache calls es w)
    (hpc : w.world.pc c = .checking) :
    w.world.refreshLock = some c ∧ w'.refreshLock = none := by
  have hlook : (calls c).isLookup = true := by
    rcases hcall : calls c with look | _
    · rfl
    · exact absurd hcall (hw.orderly.lookup (by simp [hpc, stage]))
  have hlock : w.world.refreshLock = some c :=
    hw.exclusive c hlook (by simp [hpc, Holding, stage])
  refine ⟨hlock, Option.eq_none_iff_forall_ne_some.2 fun d hd => ?_⟩
  obtain ⟨hheld, hstage⟩ := (h.lock d).1 hd
  obtain rfl : c = d := Option.some.inj (hlock.symm.trans hheld)
  exact hstage.elim (by simp) (by simp [hpc, stage])

/-- A call that has caught up goes on in both worlds, to where nothing is put off. -/
theorem Lags.effect (h : Lags (some c) w w') {effect : Effect B T} (hprompt : Prompt effect.pc) :
    Lags none { w with world := effect.apply w.world c } (effect.apply w' c) := by
  refine ⟨?_, h.now, ?_, fun d hd => ?_, fun d => ?_⟩
  · simp only [Effect.apply, goto_state, h.state]
  · simp only [Effect.apply, goto_fetches, h.fetches]
  · simp only [Effect.apply, goto_pc]
    by_cases hc : d = c
    · simp [hc, hprompt.lag]
    · have hpc := h.pc d hd
      rw [if_neg fun hcd => hc (Option.some.inj hcd).symm] at hpc
      simp [hc, hpc]
  · simp only [Effect.apply, goto_refreshLock, goto_pc]
    by_cases hreleased : effect.releases = true
    · simp [hreleased]
    · simp only [hreleased, Bool.false_eq_true, if_false, h.lock d]
      refine and_congr_right fun _ => ?_
      by_cases hc : d = c
      · simp [hc, hprompt.1]
      · simp [hc, Ne.symm hc]

theorem Lags.tick (h : Lags none w w') (d : ℕ) :
    Lags none { w with world := { w.world with now := w.world.now + d } }
      { w' with now := w'.now + d } where
  state := h.state
  now := congrArg (· + d) h.now
  fetches := h.fetches
  pc := h.pc
  lock := h.lock

/-- The call takes the refresh lock, and does not in the other world. -/
theorem Lags.acquire (h : Lags none w w') (hpc : w.world.pc c = .waiting)
    (hlock : w.world.refreshLock = none) :
    Lags none { w with world := { w.world with refreshLock := some c }.goto c .checking } w' where
  state := h.state
  now := h.now
  fetches := h.fetches
  pc d hd := by
    have hd' := h.pc d hd
    simp only [goto_pc]
    by_cases hc : d = c
    · simpa [hc, hpc, lag] using hd'
    · simpa [hc] using hd'
  lock d := by
    rw [h.lock d, hlock]
    simp only [goto_refreshLock, goto_pc]
    constructor
    · rintro ⟨⟨⟩, -⟩
    · rintro ⟨hd, hstage⟩
      obtain rfl := Option.some.inj hd
      simp [stage] at hstage

/-- A response arrives, and does not in the other world. -/
theorem Lags.parsed (h : Lags none w w') (hpc : w.world.pc c = .fetching)
    (keys : AList fun _ : String => CachedKey B) :
    Lags none { w with world := w.world.goto c (.installing keys) } w' where
  state := h.state
  now := h.now
  fetches := h.fetches
  pc d hd := by
    have hd' := h.pc d hd
    simp only [goto_pc]
    by_cases hc : d = c
    · simpa [hc, hpc, lag] using hd'
    · simpa [hc] using hd'
  lock d := by
    rw [h.lock d]
    simp only [goto_refreshLock, goto_pc]
    by_cases hc : d = c
    · simp [hc, hpc, stage]
    · simp [hc]

/-- Whatever becomes of the call in the other world, dropping it leaves the other calls alike, if
the lock is let go of there too. -/
theorem Lags.release (h : Lags none w w') {v : JwksWorld B T} (hstate : v.state = w'.state)
    (hnow : v.now = w'.now) (hfetches : v.fetches = w'.fetches)
    (hpc : ∀ d, d ≠ c → v.pc d = w'.pc d)
    (hlock : v.refreshLock = if w.world.refreshLock = some c then none else w'.refreshLock) :
    Lags none { world := w.world.release c, dropped := Function.update w.dropped c true } v where
  state := hstate.trans h.state
  now := hnow.trans h.now
  fetches := hfetches.trans h.fetches
  pc d hd := by
    have hc : d ≠ c := by
      rintro rfl
      simp at hd
    have hd : w.dropped d = false := by simpa [Function.update_of_ne hc] using hd
    rw [hpc d hc, h.pc d hd]
    simp [release_pc, hc]
  lock d := by
    simp only [release_refreshLock, release_pc, hlock]
    split_ifs with hheld hc hc
    · simp [hc]
    · simp [hheld, Ne.symm hc]
    · simp [h.lock, hc, hheld]
    · simpa [hc] using h.lock d

theorem Lags.looksLike (h : Lags none w w') : LooksLike w w' where
  state := h.state
  now := h.now
  fetches := h.fetches
  started c hc := by
    rw [h.pc c hc, if_neg (by simp)]
    rcases w.world.pc c <;> simp [lag]
  returned c answer hc := by
    rw [h.pc c hc, if_neg (by simp)]
    rcases w.world.pc c <;> simp [lag]

variable [DeserializeOwned T]

/-- The call catches up, with its turn for the lock or with the response to its request. -/
theorem Lags.catch_up (h : Lags none w w') (hw : Undisturbed cache calls es w)
    (hgoes : GoesOn (calls c) (w.world.pc c)) (halive : w.dropped c = false) :
    ∃ fs, (∀ d outcome, .respond d outcome ∈ fs → .event (.respond d outcome) ∈ es)
      ∧ Lags (some c) w (run (jwksStep cache boot calls) w' fs) := by
  have hlag : w'.pc c = lag (w.world.pc c) := by rw [h.pc c halive, if_neg (by simp)]
  rcases hpc : w.world.pc c with _ | _ | _ | _ | keys | _ | answer <;> rw [hpc] at hgoes hlag
  · exact ⟨[], by simp, h.of_prompt (by simp [hpc, Prompt, stage])⟩
  · exact hgoes.elim
  · obtain ⟨hlock, hfree⟩ := h.lock_of_checking hw hpc
    refine ⟨[.step c], by simp, ?_⟩
    have hstep : jwksStep cache boot calls w' (.step c)
        = { w' with refreshLock := some c }.goto c (w.world.pc c) := by
      simp [jwksStep, callSection, hlag, lag, hfree, hpc]
    rw [run_cons, run_nil, hstep]
    refine h.goto fun d => ?_
    rw [hlock]
    exact ⟨fun hd => ⟨hd, .inl hd⟩, And.left⟩
  · exact hgoes.elim
  · obtain ⟨outcome, hheard, hkeys⟩ := hw.answered c keys hpc
    refine ⟨[.respond c outcome], by simpa using hheard, ?_⟩
    have hstep : jwksStep cache boot calls w' (.respond c outcome) = w'.goto c (w.world.pc c) := by
      simp [jwksStep, JwksWorld.respond, hlag, lag, hkeys, hpc]
    rw [run_cons, run_nil, hstep]
    exact h.goto (h.lock_of_ne (by simp [hpc, stage]))
  · exact ⟨[], by simp, h.of_prompt (by simp [hpc, Prompt, stage])⟩
  · exact hgoes.elim

theorem Lags.go_on (h : Lags (some c) w w') (hgoes : GoesOn (calls c) (w.world.pc c))
    (halive : w.dropped c = false) :
    Lags none { w with world := jwksStep cache boot calls w.world (.step c) }
      (jwksStep cache boot calls w' (.step c)) := by
  obtain ⟨effect, hprompt, happly⟩ := exists_effect cache boot w.world c (calls c) hgoes
  have hown : jwksStep cache boot calls w.world (.step c) = effect.apply w.world c :=
    happly w.world ⟨rfl, rfl⟩ rfl
  have hother : jwksStep cache boot calls w' (.step c) = effect.apply w' c :=
    happly w' ⟨h.state, h.now⟩ (by rw [h.pc c halive, if_pos rfl])
  rw [hown, hother]
  exact h.effect hprompt

/-- A call that waits, or has returned, does nothing at its turn. -/
theorem callSection_eq_self (hwaiting : w'.pc c ≠ .waiting) (hgoes : ¬ GoesOn (calls c) (w'.pc c)) :
    w'.callSection cache boot c (calls c) = w' := by
  rcases hpc : w'.pc c with _ | _ | _ | _ | keys | _ | answer <;> rw [hpc] at hwaiting hgoes
  · exact absurd trivial hgoes
  · exact absurd rfl hwaiting
  · exact absurd trivial hgoes
  · simp only [callSection, hpc]
  · exact absurd trivial hgoes
  · rcases hcall : calls c with look | _
    · exact absurd (by rw [hcall]; rfl) hgoes
    · simp only [callSection, hpc]
  · simp only [callSection, hpc]

theorem Lags.exists_step (h : Lags none w w') (hw : Undisturbed cache calls es w)
    (halive : w.dropped c = false) :
    ∃ fs, (∀ d outcome, .respond d outcome ∈ fs → .event (.respond d outcome) ∈ es)
      ∧ Lags none { w with world := jwksStep cache boot calls w.world (.step c) }
        (run (jwksStep cache boot calls) w' fs) := by
  by_cases hgoes : GoesOn (calls c) (w.world.pc c)
  · obtain ⟨fs, hheard, hcaught⟩ : ∃ fs,
        (∀ d outcome, .respond d outcome ∈ fs → .event (.respond d outcome) ∈ es)
        ∧ Lags (some c) w (run (jwksStep cache boot calls) w' fs) := h.catch_up hw hgoes halive
    refine ⟨fs ++ [.step c], fun d outcome hd => ?_, ?_⟩
    · exact hheard d outcome (by simpa using hd)
    · rw [run_concat]
      exact hcaught.go_on hgoes halive
  refine ⟨[], by simp, ?_⟩
  by_cases hpc : w.world.pc c = .waiting
  · by_cases hlock : w.world.refreshLock = none
    · have hstep : jwksStep cache boot calls w.world (.step c)
          = { w.world with refreshLock := some c }.goto c .checking := by
        simp [jwksStep, callSection, hpc, hlock]
      rw [hstep]
      exact h.acquire hpc hlock
    · have hstep : jwksStep cache boot calls w.world (.step c) = w.world := by
        simp [jwksStep, callSection, hpc, hlock]
      rw [hstep]
      exact h
  · have hstep : jwksStep cache boot calls w.world (.step c) = w.world :=
      callSection_eq_self hpc hgoes
    rw [hstep]
    exact h

theorem Lags.exists_respond (h : Lags none w w') (halive : w.dropped c = false)
    (outcome : FetchOutcome B) :
    ∃ fs, (∀ d o, .respond d o ∈ fs → d = c ∧ o = outcome)
      ∧ Lags none { w with world := jwksStep cache boot calls w.world (.respond c outcome) }
        (run (jwksStep cache boot calls) w' fs) := by
  by_cases hpc : w.world.pc c = .fetching
  · rcases hkeys : keysOfResponse B cache.url outcome with e | keys
    · refine ⟨[.respond c outcome], by simp, ?_⟩
      have hlag : w'.pc c = .fetching := by
        rw [h.pc c halive, if_neg (by simp), hpc]
        rfl
      have hcaught : Lags (some c) w w' := h.of_prompt (by simp [hpc, Prompt, stage])
      obtain ⟨hprompt, happly⟩ := effectOf_refreshReturned boot w.world c (calls c) (.error e)
      have hown : jwksStep cache boot calls w.world (.respond c outcome) = _ :=
        Eq.trans (by simp [jwksStep, JwksWorld.respond, hpc, hkeys]) (happly w.world ⟨rfl, rfl⟩)
      have hother : jwksStep cache boot calls w' (.respond c outcome) = _ :=
        Eq.trans (by simp [jwksStep, JwksWorld.respond, hlag, hkeys]) (happly w' ⟨h.state, h.now⟩)
      rw [run_cons, run_nil, hown, hother]
      exact hcaught.effect hprompt
    · refine ⟨[], by simp, ?_⟩
      have hstep : jwksStep cache boot calls w.world (.respond c outcome)
          = w.world.goto c (.installing keys) := by
        simp [jwksStep, JwksWorld.respond, hpc, hkeys]
      rw [hstep]
      exact h.parsed hpc keys
  · refine ⟨[], by simp, ?_⟩
    have hstep : jwksStep cache boot calls w.world (.respond c outcome) = w.world := by
      simp only [jwksStep, JwksWorld.respond]
    rw [hstep]
    exact h

theorem Lags.exists_drop (h : Lags none w w') (hw : Undisturbed cache calls es w) :
    ∃ fs, (∀ d outcome, .respond d outcome ∈ fs →
        d = c ∧ ∃ e, keysOfResponse B cache.url outcome = .error e)
      ∧ Lags none { world := w.world.release c, dropped := Function.update w.dropped c true }
        (run (jwksStep cache boot calls) w' fs) := by
  by_cases hheld : w.world.refreshLock = some c
  · obtain ⟨hlow, hhigh, look, hlook⟩ := hw.orderly.holder c hheld
    have halive : w.dropped c = false := hw.alive fun hpc => by simp [hpc, stage] at hlow
    have hlag : w'.pc c = lag (w.world.pc c) := by rw [h.pc c halive, if_neg (by simp)]
    by_cases hpc : w.world.pc c = .checking
    · obtain ⟨-, hfree⟩ := h.lock_of_checking hw hpc
      exact ⟨[], by simp, h.release rfl rfl rfl (fun _ _ => rfl) (by simp [hheld, hfree])⟩
    · have hfetching : w'.pc c = .fetching := by
        rcases hstate : w.world.pc c <;> simp_all [stage, lag]
      obtain ⟨e, hkeys⟩ : ∃ e, keysOfResponse B cache.url (.sendFailed "") = .error e := ⟨_, rfl⟩
      have hstep : jwksStep cache boot calls w' (.respond c (.sendFailed ""))
          = { w' with refreshLock := none }.goto c
            (pcAfterRefresh boot w' (calls c) (.error e)) := by
        simp [jwksStep, JwksWorld.respond, hfetching, hkeys, refreshReturned_eq, hlook,
          lockAfterRefresh]
      refine ⟨[.respond c (.sendFailed "")], by simp [keysOfResponse], ?_⟩
      rw [run_cons, run_nil, hstep]
      exact h.release rfl rfl rfl (fun d hd => goto_pc_of_ne _ _ hd) (by simp [hheld])
  · exact ⟨[], by simp, h.release rfl rfl rfl (fun _ _ => rfl) (by simp [hheld])⟩

/-! ## What holds whatever is dropped -/

theorem Undisturbed.event (h : Undisturbed cache calls es w) {e : JwksEvent B}
    (hown : ∀ c, e.caller = some c → w.dropped c = false) :
    Undisturbed cache calls (es ++ [.event e])
      { w with world := jwksStep cache boot calls w.world e } := by
  have hmove : Move cache boot calls w.world e (jwksStep cache boot calls w.world e) :=
    move_jwksStep _ _
  refine ⟨orderly_move h.orderly hmove, exclusive_move h.exclusive hmove, fun c hc => ?_,
    fun c keys hpc => ?_⟩
  · have hother : e.caller ≠ some c := fun hcaller => by
      rw [hown c hcaller] at hc
      cases hc
    exact (hmove.pc_of_ne hother).trans (h.gone c hc)
  · have hadvance : _ ∨ Advance cache boot calls w.world c e _ := hmove.advance c
    rw [hpc] at hadvance
    rcases hadvance with hsame | hadvance
    · obtain ⟨outcome, hheard, hkeys⟩ := h.answered c keys hsame.symm
      exact ⟨outcome, List.mem_append_left _ hheard, hkeys⟩
    · cases hadvance with
      | parsed outcome keys hpc hkeys => exact ⟨outcome, by simp, hkeys⟩

theorem Undisturbed.step (h : Undisturbed cache calls es w) (e : DropEvent (JwksEvent B)) :
    Undisturbed cache calls (es ++ [e]) ((jwksCalls cache boot calls).dropStep w e) := by
  rcases e with e | c
  · rcases dropStep_event_cases (jwksCalls (T := T) cache boot calls) w e with
      ⟨hown, heq⟩ | ⟨-, heq⟩
    · exact heq ▸ h.event hown
    · exact heq.symm ▸ h.more _
  · by_cases hgone : (jwksCalls (T := T) cache boot calls).Gone w c
    · exact (dropStep_drop_of_gone hgone).symm ▸ h.more _
    · exact dropStep_drop hgone ▸ (h.drop c).more _

end Follow

/-! ## Runs -/

section Runs

variable [DeserializeOwned T] {cache : JwksCache B} {boot : ℕ} {calls : ℕ → JwksCall B} {now : ℕ}

/-- Every response is one of the first run, or tells a call that is dropped that its request has
failed. -/
def Heard (cache : JwksCache B) (es : List (DropEvent (JwksEvent B))) (es' : List (JwksEvent B))
    (dropped : ℕ → Bool) : Prop :=
  ∀ c outcome, .respond c outcome ∈ es' → .event (.respond c outcome) ∈ es
    ∨ dropped c = true ∧ ∃ e, keysOfResponse B cache.url outcome = .error e

/-- The second run follows the first. -/
structure Follows (cache : JwksCache B) (boot : ℕ) (calls : ℕ → JwksCall B) (now : ℕ)
    (w : Dropping (JwksWorld B T)) (es : List (DropEvent (JwksEvent B)))
    (es' : List (JwksEvent B)) : Prop where
  undisturbed : Undisturbed cache calls es w
  lags : Lags none w (jwksRun cache boot calls now es')
  heard : Heard cache es es' w.dropped

theorem Heard.more {es : List (DropEvent (JwksEvent B))} {es' fs : List (JwksEvent B)}
    {dropped dropped' : ℕ → Bool} (h : Heard cache es es' dropped) (e : DropEvent (JwksEvent B))
    (hdropped : ∀ c, dropped c = true → dropped' c = true)
    (hfs : ∀ c outcome, .respond c outcome ∈ fs → .event (.respond c outcome) ∈ es ++ [e]
      ∨ dropped' c = true ∧ ∃ e, keysOfResponse B cache.url outcome = .error e) :
    Heard cache (es ++ [e]) (es' ++ fs) dropped' := by
  intro c outcome hmem
  rcases List.mem_append.1 hmem with hmem | hmem
  · rcases h c outcome hmem with hheard | ⟨hc, hfailed⟩
    · exact .inl (List.mem_append_left _ hheard)
    · exact .inr ⟨hdropped c hc, hfailed⟩
  · exact hfs c outcome hmem

theorem Follows.step {w : Dropping (JwksWorld B T)} {es : List (DropEvent (JwksEvent B))}
    {es' : List (JwksEvent B)} (h : Follows cache boot calls now w es es')
    (e : DropEvent (JwksEvent B)) :
    ∃ fs, Follows cache boot calls now ((jwksCalls cache boot calls).dropStep w e) (es ++ [e])
      (es' ++ fs) := by
  suffices hfs : ∃ fs,
      Lags none ((jwksCalls cache boot calls).dropStep w e)
        (run (jwksStep cache boot calls) (jwksRun cache boot calls now es') fs)
      ∧ Heard cache (es ++ [e]) (es' ++ fs) ((jwksCalls cache boot calls).dropStep w e).dropped by
    obtain ⟨fs, hlags, hheard⟩ := hfs
    refine ⟨fs, h.undisturbed.step e, ?_, hheard⟩
    unfold jwksRun at hlags ⊢
    rwa [run_append]
  have hsame : Heard cache (es ++ [e]) (es' ++ []) w.dropped :=
    h.heard.more e (fun _ => id) (by simp)
  rcases e with e | c
  · rcases dropStep_event_cases (jwksCalls (T := T) cache boot calls) w e with
      ⟨hown, heq⟩ | ⟨-, heq⟩ <;> rw [heq]
    · rcases e with c | ⟨c, outcome⟩ | d
      · obtain ⟨fs, hheard, hlags⟩ := h.lags.exists_step h.undisturbed (hown c rfl)
        exact ⟨fs, hlags, h.heard.more _ (fun _ => id) fun d outcome hd =>
          .inl (List.mem_append_left _ (hheard d outcome hd))⟩
      · obtain ⟨fs, hheard, hlags⟩ := h.lags.exists_respond (hown c rfl) outcome
        refine ⟨fs, hlags, h.heard.more _ (fun _ => id) fun d o hd => .inl ?_⟩
        obtain ⟨rfl, rfl⟩ := hheard d o hd
        simp
      · exact ⟨[.tick d], h.lags.tick d, h.heard.more _ (fun _ => id) (by simp)⟩
    · exact ⟨[], h.lags, hsame⟩
  · by_cases hgone : (jwksCalls (T := T) cache boot calls).Gone w c
    · rw [dropStep_drop_of_gone hgone]
      exact ⟨[], h.lags, hsame⟩
    · obtain ⟨fs, hheard, hlags⟩ := h.lags.exists_drop (c := c) h.undisturbed
      rw [dropStep_drop hgone]
      refine ⟨fs, hlags, h.heard.more _ (fun d hd => ?_) fun d outcome hd => ?_⟩
      · by_cases hc : d = c <;> simp [hc, hd]
      · obtain ⟨rfl, hfailed⟩ := hheard d outcome hd
        exact .inr ⟨by simp, hfailed⟩

/-- A run in which calls are dropped looks to the other calls, at every moment, like a run in which
none is, and in which the requests of some of those calls have failed instead. -/
theorem dropped_calls_leave_no_trace (cache : JwksCache B) (boot : ℕ) (calls : ℕ → JwksCall B)
    (now : ℕ) (es : List (DropEvent (JwksEvent B))) :
    ∃ chunks : List (List (JwksEvent B)), chunks.length = es.length ∧ ∀ k, k ≤ es.length →
      LooksLike (T := T) (jwksDropRun cache boot calls now (es.take k))
          (jwksRun cache boot calls now (chunks.take k).flatten)
        ∧ Heard cache (es.take k) (chunks.take k).flatten
          (jwksDropRun (T := T) cache boot calls now (es.take k)).dropped := by
  have hnil : Follows (T := T) cache boot calls now (undropped cache now) [] [] := by
    refine ⟨undisturbed_undropped now, ⟨rfl, rfl, rfl, fun c _ => rfl, fun c => ?_⟩, ?_⟩
    · simp [undropped, jwksRun, freshCache]
    · rintro c outcome ⟨⟩
  have hstep : ∀ es es' e,
      Follows (T := T) cache boot calls now (jwksDropRun cache boot calls now es) es es' →
      ∃ fs, Follows (T := T) cache boot calls now (jwksDropRun cache boot calls now (es ++ [e]))
        (es ++ [e]) (es' ++ fs) := by
    intro es es' e h
    obtain ⟨fs, hfs⟩ := h.step e
    refine ⟨fs, ?_⟩
    unfold jwksDropRun at hfs ⊢
    rwa [run_concat]
  obtain ⟨chunks, hlength, hchunks⟩ := exists_chunks
    (R := fun es es' => Follows (T := T) cache boot calls now (jwksDropRun cache boot calls now es)
      es es') hnil hstep es
  exact ⟨chunks, hlength, fun k hk => ⟨(hchunks k hk).lags.looksLike, (hchunks k hk).heard⟩⟩

end Runs

end TokenKit
