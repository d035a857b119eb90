import TokenKit.Proofs.Lookups

/-!
# Why a look-up answers what it does

`Resolves` lists the sections that end a look-up, with what each resolves: a fresh hit, no fetch
for a static set or without a URL, a fetch that failed, or a second look. A cache over a URL looks a
second time only when a document is installed. So a look-up answers what a direct search of the
document installed at that instant gives, or the failure of its own fetch
(`lookup_answers_from_document`).
-/

namespace TokenKit

open StepMachine JwksWorld

variable {B : Backend} {T : Type}

/-- A search of a document itself. -/
def searchDocument (set : List (Jwk B)) (look : JwksLookup B) :
    Except JwtError (CachedKey B) := do
  let want ← look.want
  match lastEntry set want with
  | some cached => return cached
  | none => throw (.jwks s!"unknown key id `{want}` after JWKS refresh")

theorem secondLook_of_buildKeyMap {set : List (Jwk B)}
    {keys : AList fun _ : String => CachedKey B} (hset : buildKeyMap B set = .ok keys)
    (look : JwksLookup B) : secondLook keys look = searchDocument set look := by
  unfold secondLook searchDocument
  rcases look.want with e | want
  · rfl
  · have hlookup : keys.lookup want = lastEntry set want := lookup_buildKeyMap hset want
    rcases hentry : lastEntry set want with _ | cached
    all_goals simp [bind, Except.bind, hlookup, hentry]

/-- What a look-up resolves in the step that ends it, and why. -/
inductive Resolves (cache : JwksCache B) (w : JwksWorld B T) (c : ℕ) (look : JwksLookup B) :
    JwksEvent B → Except JwtError (CachedKey B) → Prop where
  | noHeader (e : JwtError) (hpc : w.pc c = .started) (hwant : look.want = .error e) :
    Resolves cache w c look (.step c) (.error e)
  | hit (want : String) (cached : CachedKey B) (hpc : w.pc c = .started)
    (hwant : look.want = .ok want) (hhit : w.freshHit cache want = some cached) :
    Resolves cache w c look (.step c) (.ok cached)
  | static (want : String) (hpc : w.pc c = .started) (hwant : look.want = .ok want)
    (hmiss : w.freshHit cache want = none) (hstatic : cache.staticKeys = true) :
    Resolves cache w c look (.step c)
      (.error (.jwks s!"unknown key id `{want}` in static key set"))
  | noUrl (hpc : w.pc c = .checking) (hurl : cache.url.isEmpty = true) :
    Resolves cache w c look (.step c)
      (.error (.jwks "no JWKS URL configured (static key set)"))
  | failed (outcome : FetchOutcome B) (e : JwtError) (hpc : w.pc c = .fetching)
    (hkeys : keysOfResponse B cache.url outcome = .error e) :
    Resolves cache w c look (.respond c outcome) (.error e)
  | again (hpc : w.pc c = .looking) :
    Resolves cache w c look (.step c) (secondLook w.state.keys look)

section Steps

variable [DeserializeOwned T] {cache : JwksCache B} {boot : ℕ} {calls : ℕ → JwksCall B}
  {w : JwksWorld B T} {e : JwksEvent B} {c : ℕ} {look : JwksLookup B} {answer : JwksAnswer B T}

theorem resolves_of_resolveKey {want : String} (hpc : w.pc c = .started)
    (hwant : look.want = .ok want)
    (h : (w.resolveKey cache boot c look want).pc c = .returned answer) :
    ∃ resolved, Resolves cache w c look (.step c) resolved
      ∧ answer = look.answer boot w.now resolved := by
  unfold resolveKey at h
  split at h
  · next cached hhit =>
    rw [answered, goto_pc_self] at h
    exact ⟨_, .hit want cached hpc hwant hhit, (JwksPc.returned.inj h).symm⟩
  · next hmiss =>
    split_ifs at h with hstatic
    · rw [answered, goto_pc_self] at h
      exact ⟨_, .static want hpc hwant hmiss hstatic, (JwksPc.returned.inj h).symm⟩
    · rw [goto_pc_self] at h
      cases h

theorem resolves_of_callSection (hcall : calls c = .lookup look)
    (hnot : ∀ answer, w.pc c ≠ .returned answer)
    (h : (w.callSection cache boot c (calls c)).pc c = .returned answer) :
    ∃ resolved, Resolves cache w c look (.step c) resolved
      ∧ answer = look.answer boot w.now resolved := by
  rw [hcall] at h
  unfold callSection at h
  rcases hpc : w.pc c with _ | _ | _ | _ | keys | _ | other <;> simp only [hpc] at h
  case started =>
    simp only [start] at h
    rcases hwant : look.want with err | want <;> simp only [hwant] at h
    · rw [answered, goto_pc_self] at h
      exact ⟨_, .noHeader err hpc hwant, (JwksPc.returned.inj h).symm⟩
    · exact resolves_of_resolveKey hpc hwant h
  case waiting =>
    split_ifs at h
    · rw [goto_pc_self] at h
      cases h
    · rw [hpc] at h
      cases h
  case checking =>
    split_ifs at h
    · rw [refreshReturned_eq, goto_pc_self] at h
      cases h
    · unfold refresh at h
      split_ifs at h with hurl
      · rw [refreshReturned_eq, goto_pc_self] at h
        exact ⟨_, .noUrl hpc hurl, (JwksPc.returned.inj h).symm⟩
      · rw [goto_pc_self] at h
        cases h
  case installing =>
    rw [refreshReturned_eq, goto_pc_self] at h
    cases h
  case looking =>
    rw [lookAgain_eq, answered, goto_pc_self] at h
    exact ⟨_, .again hpc, (JwksPc.returned.inj h).symm⟩
  case fetching => cases h
  case returned => exact absurd hpc (hnot other)

/-- The step in which a look-up returns resolves what it answers. -/
theorem resolves_of_returned (hcall : calls c = .lookup look)
    (hnot : ∀ answer, w.pc c ≠ .returned answer)
    (h : (jwksStep cache boot calls w e).pc c = .returned answer) :
    ∃ resolved, Resolves cache w c look e resolved
      ∧ answer = look.answer boot w.now resolved := by
  have hmove : Move cache boot calls w e (jwksStep cache boot calls w e) := move_jwksStep w e
  by_cases hc : e.caller = some c
  · rcases e with c' | ⟨c', outcome⟩ | d
    · obtain rfl := Option.some.inj hc
      exact resolves_of_callSection hcall hnot h
    · obtain rfl := Option.some.inj hc
      simp only [jwksStep, JwksWorld.respond] at h
      by_cases hpc : w.pc c' = .fetching
      · rw [hpc, hcall] at h
        simp only [] at h
        rcases hkeys : keysOfResponse B cache.url outcome with err | keys <;>
          simp only [hkeys] at h
        · rw [refreshReturned_eq, goto_pc_self] at h
          exact ⟨_, .failed outcome err hpc hkeys, (JwksPc.returned.inj h).symm⟩
        · rw [goto_pc_self] at h
          cases h
      · rcases hw : w.pc c' with _ | _ | _ | _ | keys | _ | other <;> simp only [hw] at h
        case fetching => exact absurd hw hpc
        all_goals exact absurd (hw.trans h) (hnot answer)
    · cases hc
  · rw [hmove.pc_of_ne hc] at h
    exact absurd h (hnot answer)

/-- A call that has returned stays where it is. -/
theorem returned_jwksStep (w : JwksWorld B T) (e : JwksEvent B)
    (hpc : w.pc c = .returned answer) :
    (jwksStep cache boot calls w e).pc c = .returned answer := by
  have hmove : Move cache boot calls w e (jwksStep cache boot calls w e) := move_jwksStep w e
  by_cases hc : e.caller = some c
  · rcases e with c' | ⟨c', outcome⟩ | d
    · obtain rfl := Option.some.inj hc
      simp [jwksStep, callSection, hpc]
    · obtain rfl := Option.some.inj hc
      simp [jwksStep, JwksWorld.respond, hpc]
    · cases hc
  · rw [hmove.pc_of_ne hc, hpc]

end Steps

section Runs

variable [DeserializeOwned T] {cache : JwksCache B} {boot : ℕ} {calls : ℕ → JwksCall B}
  {now : ℕ} {es : List (JwksEvent B)} {c : ℕ} {look : JwksLookup B} {answer : JwksAnswer B T}

/-- A look-up that returns along a stretch of a run answers what it resolved in one step of it. -/
theorem exists_resolves {before : List (JwksEvent B)} (hcall : calls c = .lookup look)
    (hstart : ∀ answer, (jwksRun (T := T) cache boot calls now before).pc c ≠ .returned answer)
    (hret : (jwksRun cache boot calls now (before ++ es)).pc c = .returned answer) :
    ∃ es₁ e es₂ resolved, es = es₁ ++ e :: es₂
      ∧ Resolves cache (jwksRun (T := T) cache boot calls now (before ++ es₁)) c look e resolved
      ∧ answer = look.answer boot
        (jwksRun (T := T) cache boot calls now (before ++ es₁)).now resolved := by
  rw [jwksRun_append] at hret
  obtain ⟨es₁, e, es₂, rfl, hbefore, hafter⟩ := exists_step_of_run (jwksStep cache boot calls)
    (P := fun w => w.pc c = .returned answer) es (hstart answer) hret
  rw [← jwksRun_append] at hbefore hafter
  have hnot : ∀ other, (jwksRun (T := T) cache boot calls now (before ++ es₁)).pc c
      ≠ .returned other := by
    intro other hpc
    have hstays : (jwksStep cache boot calls
        (jwksRun cache boot calls now (before ++ es₁)) e).pc c = .returned other :=
      returned_jwksStep _ e hpc
    obtain rfl := JwksPc.returned.inj (hstays.symm.trans hafter)
    exact hbefore hpc
  obtain ⟨resolved, hresolves, hanswer⟩ := resolves_of_returned hcall hnot hafter
  exact ⟨es₁, e, es₂, resolved, rfl, hresolves, hanswer⟩

theorem fetchedAt_of_looking (hpc : (jwksRun (T := T) cache boot calls now es).pc c = .looking) :
    ∃ t, (jwksRun (T := T) cache boot calls now es).state.fetchedAt = some t := by
  obtain ⟨es₁, es₂, rfl, -, t, hfetched, -⟩ := exists_recent hpc
  rcases state_eq_or_installed (T := T) es₁ es₂ with hsame | ⟨i, -, hstate⟩
  · exact ⟨t, by rw [hsame, hfetched]⟩
  · exact ⟨i.time, by rw [hstate]; rfl⟩

end Runs

/-- A look-up of a cache over a URL answers, at an instant of the call, one of three things: that
the token has no readable header, the failure of its own fetch, or what a search of the document
installed at that instant gives. -/
theorem lookup_answers_from_document [DeserializeOwned T] (url : String)
    (hurl : url.isEmpty = false) (ttl interval boot : ℕ) (calls : ℕ → JwksCall B) (now : ℕ)
    (es : List (JwksEvent B)) (c : ℕ) (look : JwksLookup B) (answer : JwksAnswer B T)
    (hcall : calls c = .lookup look)
    (hret : (jwksRun (urlCache url ttl interval) boot calls now es).pc c = .returned answer) :
    ∃ es₁ e es₂ w, es = es₁ ++ e :: es₂ ∧ e.caller = some c
      ∧ w = jwksRun (T := T) (urlCache url ttl interval) boot calls now es₁
      ∧ ((∃ err, look.want = .error err ∧ answer = look.answer boot w.now (.error err))
        ∨ (∃ outcome err, e = .respond c outcome ∧ w.pc c = .fetching
          ∧ keysOfResponse B url outcome = .error err
          ∧ answer = look.answer boot w.now (.error err))
        ∨ ∃ set, DocumentAt (urlCache url ttl interval) boot calls now es₁ set w
          ∧ answer = look.answer boot w.now (searchDocument set look)) := by
  have hstart : ∀ answer,
      (jwksRun (T := T) (urlCache url ttl interval) boot calls now []).pc c ≠ .returned answer := by
    rintro answer ⟨⟩
  obtain ⟨es₁, e, es₂, resolved, rfl, hresolves, hanswer⟩ := exists_resolves hcall hstart hret
  rw [List.nil_append] at hresolves hanswer
  refine ⟨es₁, e, es₂, _, rfl, ?_, rfl, ?_⟩
  · cases hresolves <;> rfl
  · have hdocument : ∀ set, DocumentAt (urlCache url ttl interval) boot calls now es₁ set
        (jwksRun (T := T) (urlCache url ttl interval) boot calls now es₁) →
        secondLook (jwksRun (T := T) (urlCache url ttl interval) boot calls now es₁).state.keys look
          = searchDocument set look := by
      rintro set ⟨i, -, hset, hstate⟩
      rw [hstate]
      exact secondLook_of_buildKeyMap hset.2 look
    cases hresolves with
    | noHeader err hpc hwant => exact .inl ⟨err, hwant, hanswer⟩
    | hit want cached hpc hwant hhit =>
      have hlookup := (freshHit_eq_some.1 hhit).2
      obtain ⟨set, hset⟩ := documentAt_of_lookup hlookup
      refine .inr (.inr ⟨set, hset, ?_⟩)
      rw [hanswer, ← hdocument set hset, secondLook_eq_ok.2 ⟨want, hwant, hlookup⟩]
    | static want hpc hwant hmiss hstatic => cases hstatic
    | noUrl hpc hempty =>
      have hempty : url.isEmpty = true := hempty
      rw [hurl] at hempty
      cases hempty
    | failed outcome err hpc herr =>
      exact .inr (.inl ⟨outcome, err, rfl, hpc, herr, hanswer⟩)
    | again hpc =>
      obtain ⟨t, hfetched⟩ := fetchedAt_of_looking hpc
      obtain ⟨set, hset⟩ := documentAt_of_fetchedAt hfetched
      exact .inr (.inr ⟨set, hset, by rw [hanswer, hdocument set hset]⟩)

def lookForOther : JwksLookup transparentBackend := .decodingKey (some "other")

def unknownOther : JwksAnswer transparentBackend StandardClaims :=
  .key (.error (.jwks "unknown key id `other` after JWKS refresh"))

theorem lookup_answers_from_document_unknown :
    ∃ es₁ e es₂ w, fetchOnce = es₁ ++ e :: es₂ ∧ e.caller = some 0
      ∧ w = jwksRun (T := StandardClaims) (issuerCache DEFAULT_TTL 0) 0
        (fun _ => .lookup lookForOther) 0 es₁
      ∧ ((∃ err, lookForOther.want = .error err
          ∧ unknownOther = lookForOther.answer 0 w.now (.error err))
        ∨ (∃ outcome err, e = .respond 0 outcome ∧ w.pc 0 = .fetching
          ∧ keysOfResponse transparentBackend
            "https://issuer.example.com/.well-known/jwks.json" outcome = .error err
          ∧ unknownOther = lookForOther.answer 0 w.now (.error err))
        ∨ ∃ set, DocumentAt (issuerCache DEFAULT_TTL 0) 0 (fun _ => .lookup lookForOther) 0 es₁
            set w
          ∧ unknownOther = lookForOther.answer 0 w.now (searchDocument set lookForOther)) :=
  lookup_answers_from_document _ rfl DEFAULT_TTL 0 0 (fun _ => .lookup lookForOther) 0 fetchOnce 0
    lookForOther unknownOther rfl rfl

end TokenKit
