import TokenKit.Proofs.JwksSteps

/-!
# Refresh is all or nothing

A cache over a URL holds what it was built with until the first installation, and from then on what
was installed last (`state_run`). A call installs the keys of the document that answered its own
request (`installedFrom_of_mem`), once, and after it no other stage of the refresh can fail; so a
refresh that fails writes nothing.
-/

namespace TokenKit

open StepMachine JwksWorld

/-! ## Documents -/

section Documents

variable {B : Backend}

theorem keysOfResponse_eq_ok {url : String} {outcome : FetchOutcome B}
    {keys : AList fun _ : String => CachedKey B} :
    keysOfResponse B url outcome = .ok keys
      ↔ ∃ set, outcome = .document set ∧ buildKeyMap B set = .ok keys := by
  rcases outcome with text | text | text | set <;> simp [keysOfResponse]

theorem buildKeyMap_eq_ok {set : List (Jwk B)} {keys : AList fun _ : String => CachedKey B} :
    buildKeyMap B set = .ok keys ↔ set.foldl (addJwk B) ∅ = keys ∧ keys.keys ≠ [] := by
  unfold buildKeyMap
  simp only [List.isEmpty_iff]
  split_ifs with h
  · simp only [false_iff, not_and, not_not]
    rintro rfl
    exact h
  · simp only [Except.ok.injEq]
    exact ⟨fun hk => ⟨hk, hk ▸ h⟩, fun hk => hk.1⟩

/-- The JWK that an entry of a key map was made from. -/
structure Jwk.IsEntry (jwk : Jwk B) (kid : String) (cached : CachedKey B) : Prop where
  key : B.decodingFromJwk jwk.parameters = .ok cached.key
  alg : jwk.keyAlgorithm = cached.alg
  kid : jwk.keyId.getD "" = kid

/-- The entry that the JWK is made into under a key id. -/
def Jwk.entryFor (kid : String) (jwk : Jwk B) : Option (CachedKey B) :=
  if jwk.keyId.getD "" = kid then
    (B.decodingFromJwk jwk.parameters).toOption.map fun key => ⟨key, jwk.keyAlgorithm⟩
  else none

/-- The last entry under a key id among the JWKs. -/
def lastEntry (set : List (Jwk B)) (kid : String) : Option (CachedKey B) :=
  (set.filterMap (Jwk.entryFor kid)).getLast?

theorem Jwk.entryFor_eq_some {jwk : Jwk B} {kid : String} {cached : CachedKey B} :
    jwk.entryFor kid = some cached ↔ jwk.IsEntry kid cached := by
  unfold Jwk.entryFor
  refine ⟨?_, ?_⟩
  · intro h
    split_ifs at h with hkid
    rcases hkey : B.decodingFromJwk jwk.parameters with e | key <;> rw [hkey] at h
    · cases h
    · cases h
      exact ⟨hkey, rfl, hkid⟩
  · rintro ⟨hkey, halg, hkid⟩
    rw [if_pos hkid, hkey, halg]
    rfl

theorem lookup_addJwk (kid : String) (keys : AList fun _ : String => CachedKey B) (jwk : Jwk B) :
    (addJwk B keys jwk).lookup kid = (jwk.entryFor kid).or (keys.lookup kid) := by
  unfold addJwk Jwk.entryFor
  rcases B.decodingFromJwk jwk.parameters with e | key
  · split_ifs <;> rfl
  · by_cases hk : jwk.keyId.getD "" = kid
    · rw [if_pos hk, hk]
      exact AList.lookup_insert _
    · rw [if_neg hk]
      exact AList.lookup_insert_ne (Ne.symm hk)

/-- A document's key map holds the last entry under each key id. -/
theorem lookup_buildKeyMap {set : List (Jwk B)} {keys : AList fun _ : String => CachedKey B}
    (hset : buildKeyMap B set = .ok keys) (kid : String) :
    keys.lookup kid = lastEntry set kid := by
  obtain ⟨rfl, -⟩ := buildKeyMap_eq_ok.1 hset
  have h := List.read_foldl (lookup_addJwk (B := B) kid) set ∅
  rw [h, AList.lookup_empty, Option.or_none]
  rfl

/-- Every entry of a document's key map was made from one of its JWKs. -/
theorem exists_isEntry {set : List (Jwk B)} {keys : AList fun _ : String => CachedKey B}
    {kid : String} {cached : CachedKey B} (hset : buildKeyMap B set = .ok keys)
    (h : keys.lookup kid = some cached) : ∃ jwk ∈ set, jwk.IsEntry kid cached := by
  rw [lookup_buildKeyMap hset] at h
  obtain ⟨jwk, hmem, hentry⟩ := List.mem_filterMap.1 (List.mem_of_getLast? h)
  exact ⟨jwk, hmem, Jwk.entryFor_eq_some.1 hentry⟩

theorem exists_usable {set : List (Jwk B)} {keys : AList fun _ : String => CachedKey B}
    (hset : buildKeyMap B set = .ok keys) :
    ∃ jwk ∈ set, ∃ key, B.decodingFromJwk jwk.parameters = .ok key := by
  obtain ⟨kid, hkid⟩ := List.exists_mem_of_ne_nil _ (buildKeyMap_eq_ok.1 hset).2
  obtain ⟨cached, hlookup⟩ := Option.isSome_iff_exists.1 (AList.lookup_isSome.2 hkid)
  obtain ⟨jwk, hmem, hentry⟩ := exists_isEntry hset hlookup
  exact ⟨jwk, hmem, cached.key, hentry.key⟩

end Documents

/-! ## Runs -/

section Histories

variable {B : Backend} {T : Type}

theorem history_cons (x : JwksWorld B T × JwksEvent B)
    (steps : List (JwksWorld B T × JwksEvent B)) :
    history (x :: steps) = (installOf x).toList ++ history steps := by
  unfold history
  rw [List.filterMap_cons]
  rcases installOf x with _ | i <;> rfl

theorem history_append (steps steps' : List (JwksWorld B T × JwksEvent B)) :
    history (steps ++ steps') = history steps ++ history steps' := List.filterMap_append

theorem cacheOf_append (initial : CachedKeys B) (installs installs' : List (Install B)) :
    cacheOf initial (installs ++ installs') = cacheOf (cacheOf initial installs) installs' := by
  unfold cacheOf
  rw [List.getLast?_append]
  rcases installs'.getLast? with _ | i <;> rfl

theorem installOf_eq_some {x : JwksWorld B T × JwksEvent B} {i : Install B} :
    installOf x = some i
      ↔ x.2 = .step i.call ∧ x.1.pc i.call = .installing i.keys ∧ i.time = x.1.now := by
  obtain ⟨w, e⟩ := x
  rcases e with c | ⟨c, outcome⟩ | d
  · simp only [installOf]
    rcases hpc : w.pc c with _ | _ | _ | _ | keys | _ | answer
    case installing =>
      simp only [Option.some.injEq, JwksEvent.step.injEq]
      refine ⟨?_, ?_⟩
      · rintro rfl
        exact ⟨rfl, hpc, rfl⟩
      · rintro ⟨rfl, hpc', htime⟩
        rw [hpc] at hpc'
        obtain rfl := JwksPc.installing.inj hpc'
        exact congrArg (Install.mk i.call i.keys) htime.symm
    all_goals
      simp only [reduceCtorEq, JwksEvent.step.injEq, false_iff]
      rintro ⟨rfl, hpc', -⟩
      rw [hpc] at hpc'
      cases hpc'
  · simp [installOf]
  · simp [installOf]

end Histories

section Runs

variable {B : Backend} {T : Type} [DeserializeOwned T] {cache : JwksCache B} {boot : ℕ}
  {calls : ℕ → JwksCall B}

theorem state_jwksStep (w : JwksWorld B T) (e : JwksEvent B) :
    (jwksStep cache boot calls w e).state = cacheOf w.state (installOf (w, e)).toList := by
  rw [(move_jwksStep w e).state]
  rcases installOf (w, e) with _ | i <;> rfl

/-- The cache holds what was installed last. -/
theorem state_run : ∀ (w : JwksWorld B T) (es : List (JwksEvent B)),
    (run (jwksStep cache boot calls) w es).state
      = cacheOf w.state (history (taken (jwksStep cache boot calls) w es))
  | _, [] => rfl
  | w, e :: es => by
    rw [run_cons, state_run, taken, history_cons, cacheOf_append, state_jwksStep]

theorem stage_run_le (w : JwksWorld B T) (es : List (JwksEvent B)) (c : ℕ) :
    stage (w.pc c) ≤ stage ((run (jwksStep cache boot calls) w es).pc c) :=
  run_inv _ (P := fun w' : JwksWorld B T => stage (w.pc c) ≤ stage (w'.pc c))
    (fun w' e h => le_trans h ((move_jwksStep w' e).stage_le c)) es le_rfl

variable {now : ℕ} {es : List (JwksEvent B)}

theorem jwksRun_append (es es' : List (JwksEvent B)) :
    jwksRun (T := T) cache boot calls now (es ++ es')
      = run (jwksStep cache boot calls) (jwksRun cache boot calls now es) es' :=
  run_append _ _ es es'

theorem jwksRun_concat (es : List (JwksEvent B)) (e : JwksEvent B) :
    jwksRun (T := T) cache boot calls now (es ++ [e])
      = jwksStep cache boot calls (jwksRun cache boot calls now es) e :=
  run_concat _ _ es e

/-- Wherever a call has come, a step of the run took it there. -/
theorem exists_advance {c : ℕ} {pc : JwksPc B T} (hpc : pc ≠ .started)
    (h : (jwksRun cache boot calls now es).pc c = pc) :
    ∃ es₁ e es₂, es = es₁ ++ e :: es₂ ∧ (jwksRun cache boot calls now (es₁ ++ [e])).pc c = pc
      ∧ Advance cache boot calls (jwksRun cache boot calls now es₁) c e pc := by
  obtain ⟨es₁, e, es₂, rfl, hbefore, hafter⟩ := exists_step_of_run (jwksStep cache boot calls)
    (P := fun w => w.pc c = pc) es hpc.symm h
  rw [← jwksRun] at hbefore hafter
  refine ⟨es₁, e, es₂, rfl, by rw [jwksRun_concat]; exact hafter, ?_⟩
  have hadv := (move_jwksStep (jwksRun (T := T) cache boot calls now es₁) e :
    Move cache boot calls _ e _).advance c
  rw [hafter] at hadv
  exact hadv.resolve_left fun h => hbefore h.symm

theorem document_of_installing {c : ℕ} {keys : AList fun _ : String => CachedKey B}
    (h : (jwksRun (T := T) cache boot calls now es).pc c = .installing keys) :
    ∃ set, .respond c (.document set) ∈ es ∧ buildKeyMap B set = .ok keys := by
  obtain ⟨es₁, e, es₂, rfl, -, hadv⟩ := exists_advance (by simp) h
  cases hadv with
  | parsed outcome keys hpc hkeys =>
    obtain ⟨set, rfl, hset⟩ := keysOfResponse_eq_ok.1 hkeys
    exact ⟨set, by simp, hset⟩

theorem mem_history {w : JwksWorld B T} {i : Install B} :
    i ∈ history (taken (jwksStep cache boot calls) w es) ↔ ∃ es₁ es₂,
      es = es₁ ++ .step i.call :: es₂
        ∧ (run (jwksStep cache boot calls) w es₁).pc i.call = .installing i.keys
        ∧ i.time = (run (jwksStep cache boot calls) w es₁).now := by
  unfold history
  simp only [List.mem_filterMap, mem_taken, installOf_eq_some]
  refine ⟨?_, ?_⟩
  · rintro ⟨⟨w', e⟩, ⟨es₁, es₂, rfl, rfl⟩, rfl, hpc, htime⟩
    exact ⟨es₁, es₂, rfl, hpc, htime⟩
  · rintro ⟨es₁, es₂, rfl, hpc, htime⟩
    exact ⟨⟨_, .step i.call⟩, ⟨es₁, es₂, rfl, rfl⟩, rfl, hpc, htime⟩

/-- What a call installs is the key map of the document it was answered. -/
theorem installedFrom_of_mem {i : Install B}
    (hi : i ∈ history (jwksSteps (T := T) cache boot calls now es)) :
    ∃ set, InstalledFrom es i set := by
  obtain ⟨es₁, es₂, rfl, hpc, -⟩ := mem_history.1 hi
  obtain ⟨set, hmem, hset⟩ := document_of_installing hpc
  exact ⟨set, List.mem_append_left _ hmem, hset⟩

theorem state_jwksRun (es₁ es₂ : List (JwksEvent B)) :
    (jwksRun (T := T) cache boot calls now (es₁ ++ es₂)).state
      = cacheOf (jwksRun (T := T) cache boot calls now es₁).state
          (history (taken (jwksStep cache boot calls)
            (jwksRun (T := T) cache boot calls now es₁) es₂)) := by
  rw [jwksRun_append, state_run]

theorem cacheOf_eq (initial : CachedKeys B) (installs : List (Install B)) :
    cacheOf initial installs = initial
      ∨ ∃ i ∈ installs.getLast?, cacheOf initial installs = i.cached := by
  unfold cacheOf
  rcases installs.getLast? with _ | i
  · exact .inl rfl
  · exact .inr ⟨i, rfl, rfl⟩

theorem state_of_getLast? {i : Install B}
    (hi : i ∈ (history (jwksSteps (T := T) cache boot calls now es)).getLast?) :
    (jwksRun (T := T) cache boot calls now es).state = i.cached := by
  have hstate : (jwksRun (T := T) cache boot calls now es).state
      = cacheOf cache.state (history (jwksSteps (T := T) cache boot calls now es)) :=
    state_run (freshCache cache now) es
  rw [hstate, cacheOf, Option.mem_def.1 hi]
  rfl

theorem initial_or_documentAt (es : List (JwksEvent B)) :
    (jwksRun (T := T) cache boot calls now es).state = cache.state
      ∨ ∃ set, DocumentAt cache boot calls now es set
        (jwksRun (T := T) cache boot calls now es) := by
  have hstate : (jwksRun (T := T) cache boot calls now es).state
      = cacheOf cache.state (history (jwksSteps (T := T) cache boot calls now es)) :=
    state_run (freshCache cache now) es
  rcases cacheOf_eq cache.state (history (jwksSteps (T := T) cache boot calls now es)) with
    h | ⟨i, hi, h⟩
  · exact .inl (hstate.trans h)
  · obtain ⟨set, hset⟩ := installedFrom_of_mem (T := T) (List.mem_of_getLast? hi)
    exact .inr ⟨set, i, hi, hset, hstate.trans h⟩

/-- Along a stretch of a run the cache stays as it is or holds what was installed in it. -/
theorem state_eq_or_installed (es₁ es₂ : List (JwksEvent B)) :
    (jwksRun (T := T) cache boot calls now (es₁ ++ es₂)).state
        = (jwksRun (T := T) cache boot calls now es₁).state
      ∨ ∃ i ∈ history (taken (jwksStep cache boot calls)
          (jwksRun (T := T) cache boot calls now es₁) es₂),
        (jwksRun (T := T) cache boot calls now (es₁ ++ es₂)).state = i.cached := by
  rw [state_jwksRun]
  rcases cacheOf_eq (jwksRun (T := T) cache boot calls now es₁).state
    (history (taken (jwksStep cache boot calls) (jwksRun (T := T) cache boot calls now es₁) es₂))
    with h | ⟨i, hi, h⟩
  · exact .inl h
  · exact .inr ⟨i, List.mem_of_getLast? hi, h⟩

theorem keys_ne_empty_of_mem {i : Install B}
    (hi : i ∈ history (jwksSteps (T := T) cache boot calls now es)) : i.keys ≠ ∅ := by
  obtain ⟨set, -, hset⟩ := installedFrom_of_mem (T := T) hi
  intro h
  exact (buildKeyMap_eq_ok.1 hset).2 (by rw [h]; rfl)

/-- A call that fetched in vain never comes to install. -/
theorem state_of_failed {x y : JwksWorld B T × JwksEvent B} {c : ℕ} {outcome : FetchOutcome B}
    {err : JwtError} (hx : x ∈ jwksSteps cache boot calls now es)
    (hy : y ∈ jwksSteps cache boot calls now es) (hxe : x.2 = .respond c outcome)
    (hpc : x.1.pc c = .fetching) (herr : keysOfResponse B cache.url outcome = .error err)
    (hyc : y.2.caller = some c) :
    (jwksStep cache boot calls y.1 y.2).state = y.1.state := by
  rw [state_jwksStep]
  rcases hinst : installOf (y.1, y.2) with _ | i
  · rfl
  obtain ⟨hye, hinstalling, -⟩ := installOf_eq_some.1 hinst
  obtain rfl : i.call = c := by
    rw [hye] at hyc
    exact Option.some.inj hyc
  have hbefore : stage (x.1.pc i.call) = 3 := by rw [hpc]; rfl
  have hinstall : stage (y.1.pc i.call) = 4 := by rw [hinstalling]; rfl
  have hafter : 5 ≤ stage ((jwksStep cache boot calls x.1 x.2).pc i.call) := by
    rw [hxe]
    simp only [jwksStep, JwksWorld.respond, hpc, herr, refreshReturned_eq, goto_pc_self]
    exact stage_pcAfterRefresh _ _ _ _
  rcases taken_trichotomy _ hx hy with rfl | ⟨es', h⟩ | ⟨es', h⟩
  · omega
  · have hle : stage ((jwksStep cache boot calls x.1 x.2).pc i.call)
        ≤ stage ((run (jwksStep cache boot calls) _ es').pc i.call) := stage_run_le _ es' i.call
    rw [← h] at hle
    omega
  · have hle : stage ((jwksStep cache boot calls y.1 y.2).pc i.call)
        ≤ stage ((run (jwksStep cache boot calls) _ es').pc i.call) := stage_run_le _ es' i.call
    have hstep := (move_jwksStep y.1 y.2 : Move cache boot calls _ _ _).stage_le i.call
    rw [← h] at hle
    omega

end Runs

/-- The state of a cache over a URL is the one it was built with, or the key map of one document
with a usable key and the instant it was installed; no step of a call whose fetch fails changes it,
and its keys are never empty again. -/
theorem refresh_all_or_nothing {B : Backend} {T : Type} [DeserializeOwned T] (url : String)
    (ttl interval boot : ℕ) (calls : ℕ → JwksCall B) (now : ℕ) (es : List (JwksEvent B)) :
    ((jwksRun (T := T) (urlCache url ttl interval) boot calls now es).state = ⟨∅, none⟩
        ∨ ∃ set, DocumentAt (urlCache url ttl interval) boot calls now es set
            (jwksRun (T := T) (urlCache url ttl interval) boot calls now es)
          ∧ ∃ jwk ∈ set, ∃ key, B.decodingFromJwk jwk.parameters = .ok key)
      ∧ (∀ x ∈ jwksSteps (T := T) (urlCache url ttl interval) boot calls now es,
          ∀ c outcome err, x.2 = .respond c outcome → x.1.pc c = .fetching →
            keysOfResponse B url outcome = .error err →
          ∀ y ∈ jwksSteps (T := T) (urlCache url ttl interval) boot calls now es,
            y.2.caller = some c →
              (jwksStep (urlCache url ttl interval) boot calls y.1 y.2).state = y.1.state)
      ∧ ∀ es₁ es₂, es = es₁ ++ es₂ →
          (jwksRun (T := T) (urlCache url ttl interval) boot calls now es₁).state.keys ≠ ∅ →
            (jwksRun (T := T) (urlCache url ttl interval) boot calls now es).state.keys ≠ ∅ := by
  refine ⟨?_, ?_, ?_⟩
  · rcases initial_or_documentAt (T := T) es with h | ⟨set, i, hi, hset, hstate⟩
    · exact .inl h
    · exact .inr ⟨set, ⟨i, hi, hset, hstate⟩, exists_usable hset.2⟩
  · intro x hx c outcome err hxe hpc herr y hy hyc
    exact state_of_failed hx hy hxe hpc herr hyc
  · rintro es₁ es₂ rfl hne
    rcases state_eq_or_installed (T := T) es₁ es₂ with h | ⟨i, hi, h⟩
    · rwa [h]
    · rw [h]
      have hmem : i ∈ history (jwksSteps (T := T) (urlCache url ttl interval) boot calls now
          (es₁ ++ es₂)) := by
        rw [jwksSteps, taken_append, history_append]
        exact List.mem_append_right _ hi
      exact keys_ne_empty_of_mem hmem

end TokenKit
