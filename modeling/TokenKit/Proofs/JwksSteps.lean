import TokenKit.JwksHistory

/-!
# What one step of a cache does

`Move` lists what a step can do, and when; every other fact about a step is read off it. A step
leaves every other call where it was and takes its own one on (`Advance`), never back (`stage`). It
writes the keys only where it installs (`Move.state`) and makes a request only where it goes to
fetch (`Move.fetches`).
-/

namespace TokenKit

open StepMachine JwksWorld

theorem lt_of_isFresh {now ttl : ℕ} {fetchedAt : Option ℕ}
    (h : isFresh now fetchedAt ttl = true) : ∃ t, fetchedAt = some t ∧ now - t < ttl := by
  rcases fetchedAt with _ | t
  · cases h
  · exact ⟨t, rfl, by simpa [isFresh] using h⟩

theorem le_of_stale {now ttl t : ℕ} {fetchedAt : Option ℕ}
    (h : isFresh now fetchedAt ttl = false) (ht : fetchedAt = some t) : ttl ≤ now - t := by
  subst ht
  simpa [isFresh] using h

section Worlds

variable {B : Backend} {T : Type} (w : JwksWorld B T) (c : ℕ)

namespace JwksWorld

@[simp] theorem goto_state (pc : JwksPc B T) : (w.goto c pc).state = w.state := rfl

@[simp] theorem goto_refreshLock (pc : JwksPc B T) :
    (w.goto c pc).refreshLock = w.refreshLock := rfl

@[simp] theorem goto_now (pc : JwksPc B T) : (w.goto c pc).now = w.now := rfl

@[simp] theorem goto_fetches (pc : JwksPc B T) : (w.goto c pc).fetches = w.fetches := rfl

@[simp] theorem goto_pc_self (pc : JwksPc B T) : (w.goto c pc).pc c = pc :=
  Function.update_self _ _ _

theorem goto_pc (pc : JwksPc B T) (c' : ℕ) :
    (w.goto c pc).pc c' = if c' = c then pc else w.pc c' := Function.update_apply _ _ _ _

theorem goto_pc_of_ne {c c' : ℕ} (pc : JwksPc B T) (h : c' ≠ c) :
    (w.goto c pc).pc c' = w.pc c' := Function.update_of_ne h _ _

end JwksWorld

/-- How far a call has come. -/
def stage : JwksPc B T → ℕ
  | .started => 0
  | .waiting => 1
  | .checking => 2
  | .fetching => 3
  | .installing _ => 4
  | .looking => 5
  | .returned _ => 6

theorem stage_le_six (pc : JwksPc B T) : stage pc ≤ 6 := by
  cases pc <;> simp [stage]

/-- A call makes its request at the start if it is forced, and otherwise under the refresh lock when
the last document is not recent. -/
def MayFetch (cache : JwksCache B) (calls : ℕ → JwksCall B) (w : JwksWorld B T) (c : ℕ) : Prop :=
  (w.pc c = .started ∧ calls c = .refresh)
    ∨ (w.pc c = .checking ∧ isFresh w.now w.state.fetchedAt cache.minRefreshInterval = false)

theorem MayFetch.stage_le {cache : JwksCache B} {calls : ℕ → JwksCall B} {w : JwksWorld B T}
    {c : ℕ} (h : MayFetch cache calls w c) : stage (w.pc c) ≤ 2 := by
  rcases h with ⟨hpc, -⟩ | ⟨hpc, -⟩ <;> simp [hpc, stage]

theorem MayFetch.checking {cache : JwksCache B} {calls : ℕ → JwksCall B} {w : JwksWorld B T}
    {c : ℕ} (h : MayFetch cache calls w c)
    (hlookups : ∀ c, ∃ look, calls c = .lookup look) :
    w.pc c = .checking ∧ isFresh w.now w.state.fetchedAt cache.minRefreshInterval = false := by
  rcases h with ⟨-, hcall⟩ | h
  · obtain ⟨look, hlook⟩ := hlookups c
    cases hcall.symm.trans hlook
  · exact h

theorem freshHit_eq_some {cache : JwksCache B} {w : JwksWorld B T} {want : String}
    {cached : CachedKey B} :
    w.freshHit cache want = some cached
      ↔ isFresh w.now w.state.fetchedAt cache.ttl = true
        ∧ w.state.keys.lookup want = some cached := by
  unfold freshHit
  split_ifs with h <;> simp [h]

/-- What a look-up finds among the keys when it looks again. -/
def secondLook (keys : AList fun _ : String => CachedKey B) (look : JwksLookup B) :
    Except JwtError (CachedKey B) := do
  let want ← look.want
  match keys.lookup want with
  | some cached => return cached
  | none => throw (.jwks s!"unknown key id `{want}` after JWKS refresh")

theorem secondLook_eq_ok {keys : AList fun _ : String => CachedKey B} {look : JwksLookup B}
    {cached : CachedKey B} :
    secondLook keys look = .ok cached
      ↔ ∃ want, look.want = .ok want ∧ keys.lookup want = some cached := by
  unfold secondLook
  rcases look.want with e | want
  · simp [bind, Except.bind]
  · rcases hlookup : keys.lookup want with _ | found <;>
      simp [bind, Except.bind, pure, Except.pure, throw, throwThe, MonadExceptOf.throw, hlookup]

end Worlds

section Returns

variable {B : Backend} {T : Type} [DeserializeOwned T] (boot : ℕ) (w : JwksWorld B T) (c : ℕ)

/-- Where `refresh` leaves its call. -/
def pcAfterRefresh (call : JwksCall B) (result : Except JwtError Unit) : JwksPc B T :=
  match call with
  | .refresh => .returned (.refreshed result)
  | .lookup look =>
    match result with
    | .ok () => .looking
    | .error e => .returned (look.answer boot w.now (.error e))

theorem stage_pcAfterRefresh (call : JwksCall B) (result : Except JwtError Unit) :
    5 ≤ stage (pcAfterRefresh boot w call result) := by
  rcases call with look | _
  · rcases result with e | u <;> simp [pcAfterRefresh, stage]
  · simp [pcAfterRefresh, stage]

def lockAfterRefresh (call : JwksCall B) : Option ℕ :=
  match call with
  | .refresh => w.refreshLock
  | .lookup _ => none

@[simp] theorem answered_state (look : JwksLookup B) (resolved : Except JwtError (CachedKey B)) :
    (w.answered boot c look resolved).state = w.state := rfl

@[simp] theorem answered_now (look : JwksLookup B) (resolved : Except JwtError (CachedKey B)) :
    (w.answered boot c look resolved).now = w.now := rfl

@[simp] theorem answered_fetches (look : JwksLookup B)
    (resolved : Except JwtError (CachedKey B)) :
    (w.answered boot c look resolved).fetches = w.fetches := rfl

theorem lookAgain_eq (look : JwksLookup B) : w.lookAgain boot c look
    = w.answered boot c look (secondLook w.state.keys look) := rfl

theorem refreshReturned_eq (call : JwksCall B) (result : Except JwtError Unit) :
    w.refreshReturned boot c call result
      = { w with refreshLock := lockAfterRefresh w call }.goto c
          (pcAfterRefresh boot w call result) := by
  rcases call with look | _
  · rcases result with e | u
    · rfl
    · rfl
  · rfl

@[simp] theorem refreshReturned_state (call : JwksCall B) (result : Except JwtError Unit) :
    (w.refreshReturned boot c call result).state = w.state := by
  rw [refreshReturned_eq, goto_state]

@[simp] theorem refreshReturned_now (call : JwksCall B) (result : Except JwtError Unit) :
    (w.refreshReturned boot c call result).now = w.now := by
  rw [refreshReturned_eq, goto_now]

@[simp] theorem refreshReturned_fetches (call : JwksCall B) (result : Except JwtError Unit) :
    (w.refreshReturned boot c call result).fetches = w.fetches := by
  rw [refreshReturned_eq, goto_fetches]

end Returns

/-! ## Moves -/

section Moves

variable {B : Backend} {T : Type} [DeserializeOwned T] (cache : JwksCache B) (boot : ℕ)
  (calls : ℕ → JwksCall B)

/-- The section of a call does nothing: it waits for the lock or a response, or the call is over. -/
def Idle (w : JwksWorld B T) (c : ℕ) : Prop :=
  (w.pc c = .waiting ∧ w.refreshLock ≠ none) ∨ w.pc c = .fetching
    ∨ (w.pc c = .looking ∧ calls c = .refresh) ∨ ∃ answer, w.pc c = .returned answer

inductive Move (w : JwksWorld B T) : JwksEvent B → JwksWorld B T → Prop where
  | tick (d : ℕ) : Move w (.tick d) { w with now := w.now + d }
  | idle (c : ℕ) (h : Idle calls w c) : Move w (.step c) w
  | unheard (c : ℕ) (outcome : FetchOutcome B) (hpc : w.pc c ≠ .fetching) :
    Move w (.respond c outcome) w
  | hit (c : ℕ) (look : JwksLookup B) (want : String) (cached : CachedKey B)
    (hcall : calls c = .lookup look) (hpc : w.pc c = .started) (hwant : look.want = .ok want)
    (hhit : w.freshHit cache want = some cached) :
    Move w (.step c) (w.answered boot c look (.ok cached))
  | refused (c : ℕ) (look : JwksLookup B) (e : JwtError) (hcall : calls c = .lookup look)
    (hpc : w.pc c = .started) : Move w (.step c) (w.answered boot c look (.error e))
  | wait (c : ℕ) (look : JwksLookup B) (hcall : calls c = .lookup look)
    (hpc : w.pc c = .started) : Move w (.step c) (w.goto c .waiting)
  | acquire (c : ℕ) (hpc : w.pc c = .waiting) (hlock : w.refreshLock = none) :
    Move w (.step c) ({ w with refreshLock := some c }.goto c .checking)
  | skip (c : ℕ) (hpc : w.pc c = .checking)
    (hfresh : isFresh w.now w.state.fetchedAt cache.minRefreshInterval = true) :
    Move w (.step c) (w.refreshReturned boot c (calls c) (.ok ()))
  | noUrl (c : ℕ) (e : JwtError) (hurl : cache.url.isEmpty = true)
    (h : MayFetch cache calls w c) :
    Move w (.step c) (w.refreshReturned boot c (calls c) (.error e))
  | request (c : ℕ) (hurl : cache.url.isEmpty = false) (h : MayFetch cache calls w c) :
    Move w (.step c) ({ w with fetches := w.fetches ++ [(c, w.now)] }.goto c .fetching)
  | parsed (c : ℕ) (outcome : FetchOutcome B) (keys : AList fun _ : String => CachedKey B)
    (hpc : w.pc c = .fetching) (hkeys : keysOfResponse B cache.url outcome = .ok keys) :
    Move w (.respond c outcome) (w.goto c (.installing keys))
  | failed (c : ℕ) (outcome : FetchOutcome B) (e : JwtError) (hpc : w.pc c = .fetching)
    (hkeys : keysOfResponse B cache.url outcome = .error e) :
    Move w (.respond c outcome) (w.refreshReturned boot c (calls c) (.error e))
  | install (c : ℕ) (keys : AList fun _ : String => CachedKey B)
    (hpc : w.pc c = .installing keys) :
    Move w (.step c)
      ({ w with state := ⟨keys, some w.now⟩ }.refreshReturned boot c (calls c) (.ok ()))
  | again (c : ℕ) (look : JwksLookup B) (hcall : calls c = .lookup look)
    (hpc : w.pc c = .looking) : Move w (.step c) (w.lookAgain boot c look)

variable {cache boot calls} {w : JwksWorld B T}

theorem move_refresh {c : ℕ} (h : MayFetch cache calls w c) :
    Move cache boot calls w (.step c) (w.refresh cache boot c (calls c)) := by
  unfold refresh
  split
  · next hurl => exact .noUrl c _ hurl h
  · next hurl => exact .request c (by simpa using hurl) h

theorem move_start {c : ℕ} (hpc : w.pc c = .started) :
    Move cache boot calls w (.step c) (w.start cache boot c (calls c)) := by
  rcases hcall : calls c with look | _
  · simp only [start]
    rcases hwant : look.want with e | want
    · exact .refused c look e hcall hpc
    · simp only [resolveKey]
      rcases hhit : w.freshHit cache want with _ | cached
      · simp only []
        split
        · exact .refused c look _ hcall hpc
        · exact .wait c look hcall hpc
      · exact .hit c look want cached hcall hpc hwant hhit
  · simp only [start]
    have h : Move cache boot calls w (.step c) (w.refresh cache boot c (calls c)) :=
      move_refresh (.inl ⟨hpc, hcall⟩)
    rwa [hcall] at h

theorem move_section (c : ℕ) :
    Move cache boot calls w (.step c) (w.callSection cache boot c (calls c)) := by
  unfold callSection
  rcases hpc : w.pc c with _ | _ | _ | _ | keys | _ | answer
  · exact move_start hpc
  · simp only []
    split
    · next hlock => exact .acquire c hpc (by simpa using hlock)
    · next hlock => exact .idle c (.inl ⟨hpc, by simpa using hlock⟩)
  · simp only []
    split
    · next hfresh => exact .skip c hpc hfresh
    · next hfresh => exact move_refresh (.inr ⟨hpc, by simpa using hfresh⟩)
  · exact .idle c (.inr (.inl hpc))
  · exact .install c keys hpc
  · rcases hcall : calls c with look | _
    · exact .again c look hcall hpc
    · exact .idle c (.inr (.inr (.inl ⟨hpc, hcall⟩)))
  · exact .idle c (.inr (.inr (.inr ⟨answer, hpc⟩)))

theorem move_jwksStep (w : JwksWorld B T) (e : JwksEvent B) :
    Move cache boot calls w e (jwksStep cache boot calls w e) := by
  rcases e with c | ⟨c, outcome⟩ | d
  · exact move_section c
  · unfold jwksStep JwksWorld.respond
    by_cases hpc : w.pc c = .fetching
    · simp only [hpc]
      rcases hkeys : keysOfResponse B cache.url outcome with e | keys
      · exact .failed c outcome e hpc hkeys
      · exact .parsed c outcome keys hpc hkeys
    · rcases hw : w.pc c with _ | _ | _ | _ | keys | _ | answer <;> simp only []
      case fetching => exact absurd hw hpc
      all_goals exact .unheard c outcome hpc
  · exact .tick d

end Moves

/-! ## What a move changes -/

section Changes

variable {B : Backend} {T : Type} [DeserializeOwned T] {cache : JwksCache B} {boot : ℕ}
  {calls : ℕ → JwksCall B} {w w' : JwksWorld B T} {e : JwksEvent B} {c : ℕ}

theorem Move.now_le (h : Move cache boot calls w e w') : w.now ≤ w'.now := by
  cases h <;> simp [lookAgain_eq]

theorem Move.now_step (h : Move cache boot calls w (.step c) w') : w'.now = w.now := by
  cases h <;> simp [lookAgain_eq]

/-- Keys change hands at installations only. -/
theorem Move.state (h : Move cache boot calls w e w') :
    w'.state = ((installOf (w, e)).map Install.cached).getD w.state := by
  cases h with
  | idle c h =>
    rcases h with ⟨hpc, -⟩ | hpc | ⟨hpc, -⟩ | ⟨answer, hpc⟩ <;> simp [installOf, hpc]
  | install c keys hpc => simp [installOf, hpc, Install.cached]
  | noUrl c e hurl h =>
    rcases h with ⟨hpc, -⟩ | ⟨hpc, -⟩ <;> simp [installOf, hpc]
  | request c hurl h =>
    rcases h with ⟨hpc, -⟩ | ⟨hpc, -⟩ <;> simp [installOf, hpc]
  | _ => simp_all [installOf, lookAgain_eq]

theorem Move.fetches (h : Move cache boot calls w e w') :
    w'.fetches = w.fetches ∨ ∃ c, e = .step c ∧ cache.url.isEmpty = false
      ∧ MayFetch cache calls w c ∧ w'.fetches = w.fetches ++ [(c, w.now)]
      ∧ w'.pc c = .fetching := by
  cases h with
  | request c hurl h => exact .inr ⟨c, rfl, hurl, h, rfl, goto_pc_self _ _ _⟩
  | _ => exact .inl (by simp [lookAgain_eq])

/-- A move takes its own call on, and no other. -/
theorem Move.pc_of_ne (h : Move cache boot calls w e w') (hc : e.caller ≠ some c) :
    w'.pc c = w.pc c := by
  have hne : ∀ c', some c' ≠ some c → c ≠ c' := fun c' h hcc => h (congrArg some hcc.symm)
  cases h with
  | tick d => rfl
  | idle c' h => rfl
  | unheard c' outcome hpc => rfl
  | skip | noUrl | failed | install =>
    rw [refreshReturned_eq]
    exact goto_pc_of_ne _ _ (hne _ hc)
  | _ => exact goto_pc_of_ne _ _ (hne _ hc)

/-- How a move takes a call on: what it found, and where it left the call. -/
inductive Advance (cache : JwksCache B) (boot : ℕ) (calls : ℕ → JwksCall B) (w : JwksWorld B T)
    (c : ℕ) : JwksEvent B → JwksPc B T → Prop where
  | wait (hpc : w.pc c = .started) : Advance cache boot calls w c (.step c) .waiting
  | acquire (hpc : w.pc c = .waiting) (hlock : w.refreshLock = none) :
    Advance cache boot calls w c (.step c) .checking
  | request (h : MayFetch cache calls w c) : Advance cache boot calls w c (.step c) .fetching
  | parsed (outcome : FetchOutcome B) (keys : AList fun _ : String => CachedKey B)
    (hpc : w.pc c = .fetching) (hkeys : keysOfResponse B cache.url outcome = .ok keys) :
    Advance cache boot calls w c (.respond c outcome) (.installing keys)
  | skip (hpc : w.pc c = .checking)
    (hfresh : isFresh w.now w.state.fetchedAt cache.minRefreshInterval = true) :
    Advance cache boot calls w c (.step c) .looking
  | install (keys : AList fun _ : String => CachedKey B) (hpc : w.pc c = .installing keys) :
    Advance cache boot calls w c (.step c) .looking
  | answered (e : JwksEvent B) (look : JwksLookup B) (resolved : Except JwtError (CachedKey B))
    (hcall : calls c = .lookup look)
    (hresolved : ∀ cached, resolved = .ok cached → e = .step c
      ∧ (w.pc c = .started ∧ isFresh w.now w.state.fetchedAt cache.ttl = true
        ∨ w.pc c = .looking)
      ∧ ∃ want, look.want = .ok want ∧ w.state.keys.lookup want = some cached) :
    Advance cache boot calls w c e (.returned (look.answer boot w.now resolved))
  | refreshed (e : JwksEvent B) (result : Except JwtError Unit) (hcall : calls c = .refresh) :
    Advance cache boot calls w c e (.returned (.refreshed result))

theorem advance_error (w : JwksWorld B T) (e : JwksEvent B) (err : JwtError) :
    Advance cache boot calls w c e (pcAfterRefresh boot w (calls c) (.error err)) := by
  rcases hcall : calls c with look | _
  · exact .answered e look _ hcall (by rintro _ ⟨⟩)
  · exact .refreshed e _ hcall

theorem Move.advance (h : Move cache boot calls w e w') (c : ℕ) :
    w'.pc c = w.pc c ∨ Advance cache boot calls w c e (w'.pc c) := by
  by_cases hc : e.caller = some c
  · cases h with
    | tick d => exact .inl rfl
    | idle c' h => exact .inl rfl
    | unheard c' outcome hpc => exact .inl rfl
    | hit c' look want cached hcall hpc hwant hhit =>
      obtain rfl := Option.some.inj hc
      obtain ⟨hfresh, hlookup⟩ := freshHit_eq_some.1 hhit
      refine .inr ?_
      rw [answered, goto_pc_self]
      exact .answered _ look _ hcall fun _ h =>
        Except.ok.inj h ▸ ⟨rfl, .inl ⟨hpc, hfresh⟩, want, hwant, hlookup⟩
    | refused c' look err hcall hpc =>
      obtain rfl := Option.some.inj hc
      refine .inr ?_
      rw [answered, goto_pc_self]
      exact .answered _ look _ hcall (by rintro _ ⟨⟩)
    | wait c' look hcall hpc =>
      obtain rfl := Option.some.inj hc
      exact .inr (by rw [goto_pc_self]; exact .wait hpc)
    | acquire c' hpc hlock =>
      obtain rfl := Option.some.inj hc
      exact .inr (by rw [goto_pc_self]; exact .acquire hpc hlock)
    | skip c' hpc hfresh =>
      obtain rfl := Option.some.inj hc
      refine .inr ?_
      rw [refreshReturned_eq, goto_pc_self]
      rcases hcall : calls c' with look | _
      · exact .skip hpc hfresh
      · exact .refreshed _ _ hcall
    | noUrl c' err hurl h =>
      obtain rfl := Option.some.inj hc
      rw [refreshReturned_eq, goto_pc_self]
      exact .inr (advance_error w _ err)
    | request c' hurl h =>
      obtain rfl := Option.some.inj hc
      exact .inr (by rw [goto_pc_self]; exact .request h)
    | parsed c' outcome keys hpc hkeys =>
      obtain rfl := Option.some.inj hc
      exact .inr (by rw [goto_pc_self]; exact .parsed outcome keys hpc hkeys)
    | failed c' outcome err hpc hkeys =>
      obtain rfl := Option.some.inj hc
      rw [refreshReturned_eq, goto_pc_self]
      exact .inr (advance_error w _ err)
    | install c' keys hpc =>
      obtain rfl := Option.some.inj hc
      refine .inr ?_
      rw [refreshReturned_eq, goto_pc_self]
      rcases hcall : calls c' with look | _
      · exact .install keys hpc
      · exact .refreshed _ _ hcall
    | again c' look hcall hpc =>
      obtain rfl := Option.some.inj hc
      refine .inr ?_
      rw [lookAgain_eq, answered, goto_pc_self]
      exact .answered _ look _ hcall fun _ h => ⟨rfl, .inr hpc, secondLook_eq_ok.1 h⟩
  · exact .inl (h.pc_of_ne hc)

theorem Advance.of_returned {answer : JwksAnswer B T}
    (h : Advance cache boot calls w c e (.returned answer)) {look : JwksLookup B}
    (hcall : calls c = .lookup look) :
    ∃ resolved, answer = look.answer boot w.now resolved ∧ ∀ cached, resolved = .ok cached →
      e = .step c
        ∧ (w.pc c = .started ∧ isFresh w.now w.state.fetchedAt cache.ttl = true
          ∨ w.pc c = .looking)
        ∧ ∃ want, look.want = .ok want ∧ w.state.keys.lookup want = some cached := by
  cases h with
  | answered e look' resolved hcall' hresolved =>
    obtain rfl := JwksCall.lookup.inj (hcall.symm.trans hcall')
    exact ⟨resolved, rfl, hresolved⟩
  | refreshed e result hcall' => cases hcall.symm.trans hcall'

theorem Move.stage_le (h : Move cache boot calls w e w') (c : ℕ) :
    stage (w.pc c) ≤ stage (w'.pc c) := by
  rcases h.advance c with hpc | h
  · rw [hpc]
  · generalize w'.pc c = pc at h
    cases h with
    | request hmay => exact le_trans hmay.stage_le (by simp [stage])
    | answered e look resolved hcall hresolved => exact stage_le_six _
    | refreshed e result hcall => exact stage_le_six _
    | _ => simp_all [stage]

end Changes

end TokenKit
