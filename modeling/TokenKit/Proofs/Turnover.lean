import TokenKit.Proofs.JwksAnswers
import TokenKit.Proofs.SingleFlight

/-!
# How soon a change of keys is seen

Once the endpoint serves only documents with some property, whatever a cache installs has it, except
for a document that was waiting to be installed by then (`InstallsOnly`). A look-up that starts
later than the time to live after that, or than the least interval, reads from what was installed
since (`keys_of_fresh`, `keys_of_looking`). So a key that is withdrawn is not served any longer than
that (`withdrawn_key_rejected`), and a key that is published is found by then, unless the look-up's
own fetch fails (`published_key_found`).
-/

namespace TokenKit

open StepMachine JwksWorld

variable {B : Backend} {T : Type} {Q : (AList fun _ : String => CachedKey B) → Prop}

/-- The key maps that are waiting to be installed have the property. -/
def InstallsOnly (Q : (AList fun _ : String => CachedKey B) → Prop) (w : JwksWorld B T) : Prop :=
  ∀ c keys, w.pc c = .installing keys → Q keys

/-- The documents that the endpoint answers have key maps with the property. -/
def ServesOnly (Q : (AList fun _ : String => CachedKey B) → Prop) (es : List (JwksEvent B)) :
    Prop :=
  ∀ c set keys, .respond c (.document set) ∈ es → buildKeyMap B set = .ok keys → Q keys

theorem ServesOnly.of_append {es es' : List (JwksEvent B)} (h : ServesOnly Q (es ++ es')) :
    ServesOnly Q es ∧ ServesOnly Q es' :=
  ⟨fun c set keys hmem => h c set keys (List.mem_append_left _ hmem),
    fun c set keys hmem => h c set keys (List.mem_append_right _ hmem)⟩

section Runs

variable [DeserializeOwned T] {cache : JwksCache B} {boot : ℕ} {calls : ℕ → JwksCall B}

theorem installsOnly_step {w : JwksWorld B T} {e : JwksEvent B} (h : InstallsOnly Q w)
    (hserves : ServesOnly Q [e]) : InstallsOnly Q (jwksStep cache boot calls w e) := by
  intro c keys hpc
  have hmove : Move cache boot calls w e (jwksStep cache boot calls w e) := move_jwksStep w e
  rcases hmove.advance c with hsame | hadv
  · exact h c keys (hsame ▸ hpc)
  · rw [hpc] at hadv
    cases hadv with
    | parsed outcome keys hfetching hkeys =>
      obtain ⟨set, rfl, hset⟩ := keysOfResponse_eq_ok.1 hkeys
      exact hserves c set keys (List.mem_singleton_self _) hset

theorem installsOnly_run : ∀ {w : JwksWorld B T} (es : List (JwksEvent B)), InstallsOnly Q w →
    ServesOnly Q es → InstallsOnly Q (run (jwksStep cache boot calls) w es)
  | _, [], h, _ => h
  | _, e :: es, h, hserves => by
    have hsplit : ServesOnly Q ([e] ++ es) := hserves
    exact installsOnly_run es (installsOnly_step h hsplit.of_append.1) hsplit.of_append.2

/-- What is installed from then on has the property. -/
theorem keys_of_history {w : JwksWorld B T} {es : List (JwksEvent B)} (h : InstallsOnly Q w)
    (hserves : ServesOnly Q es) :
    ∀ i ∈ history (taken (jwksStep cache boot calls) w es), Q i.keys := by
  intro i hi
  obtain ⟨es₁, es₂, rfl, hpc, -⟩ := mem_history.1 hi
  exact installsOnly_run es₁ h hserves.of_append.1 i.call i.keys hpc

variable {now : ℕ} {before es es' : List (JwksEvent B)}

/-- Keys with the property give way to such keys only. -/
theorem keys_persist (hpending : InstallsOnly Q (jwksRun (T := T) cache boot calls now before))
    (hserves : ServesOnly Q (es ++ es'))
    (h : Q (jwksRun (T := T) cache boot calls now (before ++ es)).state.keys) :
    Q (jwksRun (T := T) cache boot calls now (before ++ es ++ es')).state.keys := by
  have hlater : InstallsOnly Q (jwksRun (T := T) cache boot calls now (before ++ es)) := by
    rw [jwksRun_append]
    exact installsOnly_run es hpending hserves.of_append.1
  rcases state_eq_or_installed (T := T) (before ++ es) es' with hsame | ⟨i, hi, hstate⟩
  · rw [hsame]
    exact h
  · rw [hstate]
    exact keys_of_history hlater hserves.of_append.2 i hi

/-- What was fetched later has the property. -/
theorem keys_of_fetchedAt (hnone : cache.state.fetchedAt = none)
    (hpending : InstallsOnly Q (jwksRun (T := T) cache boot calls now before))
    (hserves : ServesOnly Q es) {t : ℕ}
    (hfetched : (jwksRun (T := T) cache boot calls now (before ++ es)).state.fetchedAt = some t)
    (hlater : (jwksRun (T := T) cache boot calls now before).now < t) :
    Q (jwksRun (T := T) cache boot calls now (before ++ es)).state.keys := by
  rcases state_eq_or_installed (T := T) before es with hsame | ⟨i, hi, hstate⟩
  · rw [hsame] at hfetched
    have := fetchedAt_le_now before hnone t hfetched
    omega
  · rw [hstate]
    exact keys_of_history hpending hserves i hi

theorem now_le_jwksRun (w : JwksWorld B T) (es : List (JwksEvent B)) :
    w.now ≤ (run (jwksStep cache boot calls) w es).now :=
  run_inv (jwksStep cache boot calls) (P := fun w' : JwksWorld B T => w.now ≤ w'.now)
    (fun w' e h => le_trans h (move_jwksStep w' e : Move cache boot calls _ _ _).now_le) es le_rfl

theorem keys_of_fresh (hnone : cache.state.fetchedAt = none)
    (hpending : InstallsOnly Q (jwksRun (T := T) cache boot calls now before))
    (hserves : ServesOnly Q (es ++ es'))
    (hlate : (jwksRun (T := T) cache boot calls now before).now + cache.ttl
      < (jwksRun (T := T) cache boot calls now (before ++ es)).now)
    (hfresh : isFresh (jwksRun (T := T) cache boot calls now (before ++ es ++ es')).now
      (jwksRun (T := T) cache boot calls now (before ++ es ++ es')).state.fetchedAt cache.ttl
      = true) :
    Q (jwksRun (T := T) cache boot calls now (before ++ es ++ es')).state.keys := by
  obtain ⟨t, hfetched, hage⟩ := lt_of_isFresh hfresh
  have hle : (jwksRun (T := T) cache boot calls now (before ++ es)).now
      ≤ (jwksRun (T := T) cache boot calls now (before ++ es ++ es')).now := by
    rw [jwksRun_append (before ++ es)]
    exact now_le_jwksRun _ es'
  rw [List.append_assoc] at hfetched hage hle ⊢
  exact keys_of_fetchedAt hnone hpending hserves hfetched (by omega)

/-- A call that starts late looks again at what was installed since. -/
theorem keys_of_looking (hnone : cache.state.fetchedAt = none)
    (hpending : InstallsOnly Q (jwksRun (T := T) cache boot calls now before))
    (hserves : ServesOnly Q (es ++ es')) {c : ℕ}
    (hstart : (jwksRun (T := T) cache boot calls now (before ++ es)).pc c = .started)
    (hlate : (jwksRun (T := T) cache boot calls now before).now + cache.minRefreshInterval
      < (jwksRun (T := T) cache boot calls now (before ++ es)).now)
    (hpc : (jwksRun (T := T) cache boot calls now (before ++ es ++ es')).pc c = .looking) :
    Q (jwksRun (T := T) cache boot calls now (before ++ es ++ es')).state.keys := by
  rw [jwksRun_append (before ++ es)] at hpc
  obtain ⟨es₁, e, es₂, rfl, hbefore, hafter⟩ := exists_step_of_run (jwksStep cache boot calls)
    (P := fun w => w.pc c = .looking) es' (by rw [hstart]; rintro ⟨⟩) hpc
  rw [← jwksRun_append] at hbefore hafter
  have hadv := ((move_jwksStep (jwksRun (T := T) cache boot calls now (before ++ es ++ es₁)) e :
    Move cache boot calls _ e _).advance c).resolve_left fun h => hbefore (h.symm.trans hafter)
  rw [hafter] at hadv
  have hsplit : before ++ es ++ (es₁ ++ e :: es₂) = before ++ (es ++ es₁) ++ e :: es₂ := by simp
  rw [hsplit]
  have hserves' : ServesOnly Q ((es ++ es₁) ++ e :: es₂) := by
    rw [List.append_assoc]
    exact hserves
  cases hadv with
  | skip hchecking hfresh =>
    -- the document that is recent was installed since
    obtain ⟨t, hfetched, hage⟩ := lt_of_isFresh hfresh
    have hle : (jwksRun (T := T) cache boot calls now (before ++ es)).now
        ≤ (jwksRun (T := T) cache boot calls now (before ++ es ++ es₁)).now := by
      rw [jwksRun_append (before ++ es)]
      exact now_le_jwksRun _ es₁
    rw [List.append_assoc] at hfetched hage hle
    exact keys_persist hpending hserves' (keys_of_fetchedAt hnone hpending
      hserves'.of_append.1 hfetched (by omega))
  | install keys hinstalling =>
    -- the call has installed one itself
    rw [List.append_assoc] at hinstalling
    have hinstalls : InstallsOnly Q
        (jwksRun (T := T) cache boot calls now (before ++ (es ++ es₁))) := by
      rw [jwksRun_append]
      exact installsOnly_run _ hpending hserves'.of_append.1
    have hstate : (jwksRun (T := T) cache boot calls now
        (before ++ (es ++ es₁ ++ [.step c]))).state.keys = keys := by
      rw [← List.append_assoc, jwksRun_concat, state_jwksStep]
      simp [installOf, hinstalling, cacheOf, Install.cached]
    have hsplit' : before ++ (es ++ es₁) ++ .step c :: es₂
        = before ++ (es ++ es₁ ++ [.step c]) ++ es₂ := by simp
    rw [hsplit']
    refine keys_persist hpending ?_ (hstate ▸ hinstalls c keys hinstalling)
    simpa using hserves'

end Runs

theorem answer_error [DeserializeOwned T] (boot : ℕ) (look : JwksLookup B) (t : ℕ)
    (err : JwtError) : look.answer boot t (.error err) = (.key (.error err) : JwksAnswer B T)
      ∨ look.answer boot t (.error err) = (.claims (.error err) : JwksAnswer B T) := by
  cases look with
  | decodingKey kid => exact .inl rfl
  | decode token validation => exact .inr rfl

/-- From the moment on from which no document that is answered or waits to be installed has a usable
key under an id, the look-ups of that id that start later than the time to live and the least
interval fail, whatever else goes on. -/
theorem withdrawn_key_rejected [DeserializeOwned T] (url : String) (ttl interval boot : ℕ)
    (calls : ℕ → JwksCall B) (now : ℕ) (before between during : List (JwksEvent B)) (c : ℕ)
    (look : JwksLookup B) (want : String) (hcall : calls c = .lookup look)
    (hwant : look.want = .ok want)
    (hpending : ∀ c keys, (jwksRun (T := T) (urlCache url ttl interval) boot calls now before).pc c
      = .installing keys → keys.lookup want = none)
    (hwithdrawn : ∀ c set, .respond c (.document set) ∈ between ++ during →
      lastEntry set want = none)
    (hstart : (jwksRun (T := T) (urlCache url ttl interval) boot calls now
      (before ++ between)).pc c = .started)
    (hlate : (jwksRun (T := T) (urlCache url ttl interval) boot calls now before).now
        + max ttl interval
      < (jwksRun (T := T) (urlCache url ttl interval) boot calls now (before ++ between)).now)
    (answer : JwksAnswer B T)
    (hret : (jwksRun (urlCache url ttl interval) boot calls now (before ++ between ++ during)).pc c
      = .returned answer) :
    ∃ err, answer = .key (.error err) ∨ answer = .claims (.error err) := by
  have hserves : ServesOnly (fun keys => keys.lookup want = none) (between ++ during) := by
    intro c set keys hmem hset
    rw [lookup_buildKeyMap hset]
    exact hwithdrawn c set hmem
  obtain ⟨es₁, e, es₂, resolved, rfl, hresolves, hanswer⟩ :=
    exists_resolves hcall (fun answer h => by rw [hstart] at h; cases h) hret
  have hserves₁ : ServesOnly (fun keys => keys.lookup want = none) (between ++ es₁) := by
    rw [← List.append_assoc] at hserves
    exact hserves.of_append.1
  -- whatever the look-up reads, it does not find the key there
  have herror : ∃ err, resolved = .error err := by
    cases hresolves with
    | hit want' cached hpc hwant' hhit =>
      obtain rfl := Except.ok.inj (hwant.symm.trans hwant')
      obtain ⟨hfresh, hlookup⟩ := freshHit_eq_some.1 hhit
      have hkeys := keys_of_fresh rfl hpending hserves₁
        (lt_of_le_of_lt (Nat.add_le_add_left (le_max_left ttl interval) _) hlate) hfresh
      rw [hlookup] at hkeys
      cases hkeys
    | again hpc =>
      have hkeys := keys_of_looking rfl hpending hserves₁ hstart
        (lt_of_le_of_lt (Nat.add_le_add_left (le_max_right ttl interval) _) hlate) hpc
      unfold secondLook
      simp only [hwant, bind, Except.bind, hkeys]
      exact ⟨_, rfl⟩
    | _ => exact ⟨_, rfl⟩
  obtain ⟨err, rfl⟩ := herror
  refine ⟨err, ?_⟩
  rw [hanswer]
  exact answer_error boot look _ err

/-- From the moment on from which every document that is answered or waits to be installed has a
usable key under an id, the look-ups of that id that start later than the least interval find a key,
unless their own fetch fails; and those that start later than the time to live as well find one of
these keys. -/
theorem published_key_found [DeserializeOwned T] (url : String) (hurl : url.isEmpty = false)
    (ttl interval boot : ℕ) (calls : ℕ → JwksCall B) (now : ℕ)
    (before between during : List (JwksEvent B)) (c : ℕ) (look : JwksLookup B) (want : String)
    (P : CachedKey B → Prop) (hcall : calls c = .lookup look) (hwant : look.want = .ok want)
    (hpending : ∀ c keys, (jwksRun (T := T) (urlCache url ttl interval) boot calls now before).pc c
      = .installing keys → ∃ cached, keys.lookup want = some cached ∧ P cached)
    (hpublished : ∀ c set, .respond c (.document set) ∈ between ++ during →
      ∃ cached, lastEntry set want = some cached ∧ P cached)
    (hstart : (jwksRun (T := T) (urlCache url ttl interval) boot calls now
      (before ++ between)).pc c = .started)
    (hlate : (jwksRun (T := T) (urlCache url ttl interval) boot calls now before).now + interval
      < (jwksRun (T := T) (urlCache url ttl interval) boot calls now (before ++ between)).now)
    (answer : JwksAnswer B T)
    (hret : (jwksRun (urlCache url ttl interval) boot calls now (before ++ between ++ during)).pc c
      = .returned answer) :
    (∃ es₁ es₂ cached, during = es₁ ++ es₂
        ∧ answer = look.answer boot (jwksRun (T := T) (urlCache url ttl interval) boot calls now
          (before ++ between ++ es₁)).now (.ok cached)
        ∧ ((jwksRun (T := T) (urlCache url ttl interval) boot calls now before).now + ttl
          < (jwksRun (T := T) (urlCache url ttl interval) boot calls now (before ++ between)).now →
            P cached))
      ∨ ∃ outcome err, .respond c outcome ∈ during ∧ keysOfResponse B url outcome = .error err
        ∧ (answer = .key (.error err) ∨ answer = .claims (.error err)) := by
  have hserves : ServesOnly (fun keys => ∃ cached, keys.lookup want = some cached ∧ P cached)
      (between ++ during) := by
    intro c set keys hmem hset
    rw [lookup_buildKeyMap hset]
    exact hpublished c set hmem
  obtain ⟨es₁, e, es₂, resolved, rfl, hresolves, hanswer⟩ :=
    exists_resolves hcall (fun answer h => by rw [hstart] at h; cases h) hret
  have hserves₁ : ServesOnly (fun keys => ∃ cached, keys.lookup want = some cached ∧ P cached)
      (between ++ es₁) := by
    rw [← List.append_assoc] at hserves
    exact hserves.of_append.1
  cases hresolves with
  | noHeader err hpc hwant' => cases hwant.symm.trans hwant'
  | static want' hpc hwant' hmiss hstatic => cases hstatic
  | noUrl hpc hempty =>
    have hempty : url.isEmpty = true := hempty
    rw [hurl] at hempty
    cases hempty
  | hit want' cached hpc hwant' hhit =>
    obtain rfl := Except.ok.inj (hwant.symm.trans hwant')
    obtain ⟨hfresh, hlookup⟩ := freshHit_eq_some.1 hhit
    refine .inl ⟨es₁, _, cached, rfl, hanswer, fun hlater => ?_⟩
    obtain ⟨found, hfound, hP⟩ := keys_of_fresh rfl hpending hserves₁ hlater hfresh
    obtain rfl := Option.some.inj (hlookup.symm.trans hfound)
    exact hP
  | failed outcome err hpc hkeys =>
    refine .inr ⟨outcome, err, by simp, hkeys, ?_⟩
    rw [hanswer]
    exact answer_error boot look _ err
  | again hpc =>
    obtain ⟨found, hfound, hP⟩ := keys_of_looking rfl hpending hserves₁ hstart hlate hpc
    rw [secondLook_eq_ok.2 ⟨want, hwant, hfound⟩] at hanswer
    exact .inl ⟨es₁, _, found, rfl, hanswer, fun _ => hP⟩

def otherSet : List (Jwk transparentBackend) := [⟨some "j", some .RS256, .der [2]⟩]

/-- The call fetches the document, installs it and looks again. -/
def fetchBy (c : ℕ) (set : List (Jwk transparentBackend)) : List (JwksEvent transparentBackend) :=
  [.step c, .step c, .step c, .respond c (.document set), .step c, .step c]

def unknownKid : JwksAnswer transparentBackend StandardClaims :=
  .key (.error (.jwks "unknown key id `k` after JWKS refresh"))

/-- The first call finds the key, which is gone when the second one comes. -/
theorem withdrawn_key_rejected_once :
    ((jwksRun (T := StandardClaims) (issuerCache (10 ^ 9) (10 * 10 ^ 9)) 0 kidLookup 0
        (fetchBy 0 rsaSet)).state.keys.lookup "k").isSome
      ∧ ∃ err, unknownKid = .key (.error err) ∨ unknownKid = .claims (.error err) := by
  refine ⟨rfl, withdrawn_key_rejected "https://issuer.example.com/.well-known/jwks.json" (10 ^ 9)
    (10 * 10 ^ 9) 0 kidLookup 0 (fetchBy 0 rsaSet) [.tick (11 * 10 ^ 9)] (fetchBy 1 otherSet) 1
    (.decodingKey (some "k")) "k" rfl rfl ?_ ?_ rfl (by decide) unknownKid rfl⟩
  · rintro (_ | c) keys ⟨⟩
  · simp [fetchBy, otherSet, lastEntry, Jwk.entryFor]

def foundKid : JwksAnswer transparentBackend StandardClaims := .key (.ok (.der [1]))

/-- The first call does not find the key, which is there when the second one comes. -/
theorem published_key_found_once :
    (∃ es₁ es₂ cached, fetchBy 1 rsaSet = es₁ ++ es₂
        ∧ foundKid = (JwksLookup.decodingKey (some "k")).answer 0
          (jwksRun (T := StandardClaims) (issuerCache (10 ^ 9) (10 * 10 ^ 9)) 0 kidLookup 0
            (fetchBy 0 otherSet ++ [.tick (11 * 10 ^ 9)] ++ es₁)).now (.ok cached)
        ∧ ((jwksRun (T := StandardClaims) (issuerCache (10 ^ 9) (10 * 10 ^ 9)) 0 kidLookup 0
            (fetchBy 0 otherSet)).now + 10 ^ 9
          < (jwksRun (T := StandardClaims) (issuerCache (10 ^ 9) (10 * 10 ^ 9)) 0 kidLookup 0
            (fetchBy 0 otherSet ++ [.tick (11 * 10 ^ 9)])).now → cached.key = .der [1]))
      ∨ ∃ outcome err, .respond 1 outcome ∈ fetchBy 1 rsaSet
        ∧ keysOfResponse transparentBackend "https://issuer.example.com/.well-known/jwks.json"
          outcome = .error err
        ∧ (foundKid = .key (.error err) ∨ foundKid = .claims (.error err)) := by
  refine published_key_found "https://issuer.example.com/.well-known/jwks.json" rfl (10 ^ 9)
    (10 * 10 ^ 9) 0 kidLookup 0 (fetchBy 0 otherSet) [.tick (11 * 10 ^ 9)] (fetchBy 1 rsaSet) 1
    (.decodingKey (some "k")) "k" (fun cached => cached.key = .der [1]) rfl rfl
    (by rintro (_ | c) keys ⟨⟩) (fun c set hmem => ?_) rfl (by decide) foundKid rfl
  obtain ⟨rfl, rfl⟩ : c = 1 ∧ set = rsaSet := by simpa [fetchBy] using hmem
  exact ⟨⟨.der [1], some .RS256⟩, rfl, rfl⟩

end TokenKit
