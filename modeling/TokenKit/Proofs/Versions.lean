import TokenKit.Proofs.SingleFlight
import Mathlib.Data.List.Induction

/-!
# Versions of the document

A forced refresh does not take the refresh lock, so a response may be installed after one that was
produced later, and a key that the later document took away is served again
(`older_version_resurrects`). The cache holds the newest version that was installed, at every
instant, when the installations come in the order of their versions; if different versions have
different keys, only then (`newest_version_iff`). The automatic path fetches under the lock, one
call after the other, so as long as the endpoint does not go back it installs in that order
(`lookups_inVersionOrder`).
-/

namespace TokenKit

open StepMachine JwksWorld

section

variable {B : Backend} (docs : ℕ → List (Jwk B)) (served : ℕ → ℕ)

/-- The endpoint serves the versions `docs`, and a call it answers with a document gets the version
`served` says. -/
def ServesVersions (es : List (JwksEvent B)) : Prop :=
  ∀ c set, .respond c (.document set) ∈ es → set = docs (served c)

/-- No call installs an older version than another one did before it. -/
def InVersionOrder (installs : List (Install B)) : Prop :=
  installs.Pairwise fun i j => served i.call ≤ served j.call

/-- Every key id finds in the map what it finds in the key map of the version. -/
def KeysOfVersion (v : ℕ) (keys : AList fun _ : String => CachedKey B) : Prop :=
  ∃ keys', buildKeyMap B (docs v) = .ok keys' ∧ ∀ kid, keys.lookup kid = keys'.lookup kid

/-- The keys are those of a version that was installed and is no older than any other. -/
def HoldsNewest {T : Type} (installs : List (Install B)) (w : JwksWorld B T) : Prop :=
  ∀ i ∈ installs, ∃ j ∈ installs, served i.call ≤ served j.call
    ∧ KeysOfVersion docs (served j.call) w.state.keys

/-- Different versions have different keys. -/
def DifferInKeys : Prop :=
  ∀ v v' keys, KeysOfVersion docs v keys → KeysOfVersion docs v' keys → v = v'

variable {docs served}

theorem ServesVersions.of_append {es es' : List (JwksEvent B)}
    (h : ServesVersions docs served (es ++ es')) : ServesVersions docs served es :=
  fun c set hmem => h c set (List.mem_append_left _ hmem)

end

section Runs

variable {B : Backend} {T : Type} [DeserializeOwned T] {cache : JwksCache B} {boot : ℕ}
  {calls : ℕ → JwksCall B} {now : ℕ} {docs : ℕ → List (Jwk B)} {served : ℕ → ℕ}
  {es : List (JwksEvent B)}

theorem ServesVersions.keys_of_mem (h : ServesVersions docs served es) {i : Install B}
    (hi : i ∈ history (jwksSteps (T := T) cache boot calls now es)) :
    KeysOfVersion docs (served i.call) i.keys := by
  obtain ⟨set, hmem, hset⟩ := installedFrom_of_mem hi
  rw [h i.call set hmem] at hset
  exact ⟨i.keys, hset, fun _ => rfl⟩

/-- In version order the last installation is of the newest version. -/
theorem InVersionOrder.holdsNewest (hserved : ServesVersions docs served es)
    (h : InVersionOrder served (history (jwksSteps (T := T) cache boot calls now es))) :
    HoldsNewest docs served (history (jwksSteps (T := T) cache boot calls now es))
      (jwksRun (T := T) cache boot calls now es) := by
  intro i hi
  rcases List.eq_nil_or_concat (history (jwksSteps (T := T) cache boot calls now es)) with
    hnil | ⟨installs, j, hinstalls⟩
  · rw [hnil] at hi
    cases hi
  · rw [List.concat_eq_append] at hinstalls
    have hj : j ∈ (history (jwksSteps (T := T) cache boot calls now es)).getLast? := by
      rw [hinstalls]
      simp
    have hkeys := hserved.keys_of_mem (List.mem_of_getLast? hj)
    refine ⟨j, List.mem_of_getLast? hj, ?_, by rw [state_of_getLast? hj]; exact hkeys⟩
    unfold InVersionOrder at h
    rw [hinstalls] at hi h
    rcases List.mem_append.1 hi with hi | hi
    · exact (List.pairwise_append.1 h).2.2 i hi j (List.mem_singleton_self _)
    · rw [List.mem_singleton.1 hi]

/-- Where versions differ in keys, an installation that leaves the newest version in place is of
that version. -/
theorem served_le_of_holdsNewest (hserved : ServesVersions docs served es)
    (hdiffer : DifferInKeys docs)
    (h : HoldsNewest docs served (history (jwksSteps (T := T) cache boot calls now es))
      (jwksRun (T := T) cache boot calls now es)) {i j : Install B}
    (hi : i ∈ history (jwksSteps (T := T) cache boot calls now es))
    (hj : j ∈ (history (jwksSteps (T := T) cache boot calls now es)).getLast?) :
    served i.call ≤ served j.call := by
  obtain ⟨k, -, hle, hkeys⟩ := h i hi
  rw [state_of_getLast? hj] at hkeys
  rwa [hdiffer _ _ _ hkeys (hserved.keys_of_mem (List.mem_of_getLast? hj))] at hle

theorem history_concat (es : List (JwksEvent B)) (e : JwksEvent B) :
    history (jwksSteps (T := T) cache boot calls now (es ++ [e]))
      = history (jwksSteps (T := T) cache boot calls now es)
        ++ (installOf (jwksRun (T := T) cache boot calls now es, e)).toList := by
  have hsteps : jwksSteps (T := T) cache boot calls now (es ++ [e])
      = jwksSteps cache boot calls now es ++ [(jwksRun cache boot calls now es, e)] :=
    taken_append _ _ es [e]
  rw [hsteps, history_append, history_cons]
  exact congrArg _ (List.append_nil _)

theorem inVersionOrder_of_holdsNewest (hdiffer : DifferInKeys docs)
    (hserved : ServesVersions docs served es)
    (hnewest : ∀ es₁ es₂, es = es₁ ++ es₂ →
      HoldsNewest docs served (history (jwksSteps (T := T) cache boot calls now es₁))
        (jwksRun (T := T) cache boot calls now es₁)) :
    InVersionOrder served (history (jwksSteps (T := T) cache boot calls now es)) := by
  induction es using List.reverseRecOn with
  | nil => exact List.Pairwise.nil
  | append_singleton es e ih =>
    have horder := ih hserved.of_append fun es₁ es₂ h =>
      hnewest es₁ (es₂ ++ [e]) (by rw [h, List.append_assoc])
    have hlast := hnewest (es ++ [e]) [] (List.append_nil _).symm
    have hconcat : history (jwksSteps (T := T) cache boot calls now (es ++ [e])) = _ :=
      history_concat es e
    rcases hinst : installOf (jwksRun (T := T) cache boot calls now es, e) with _ | j
    · rw [hinst, Option.toList_none, List.append_nil] at hconcat
      rwa [hconcat]
    · rw [hinst, Option.toList_some] at hconcat
      have hle : ∀ i ∈ history (jwksSteps (T := T) cache boot calls now es),
          served i.call ≤ served j.call := fun i hi =>
        served_le_of_holdsNewest hserved hdiffer hlast
          (by rw [hconcat]; exact List.mem_append_left _ hi) (by rw [hconcat]; simp)
      unfold InVersionOrder
      rw [hconcat, List.pairwise_append]
      exact ⟨horder, List.pairwise_singleton _ _, fun i hi j' hj' =>
        List.mem_singleton.1 hj' ▸ hle i hi⟩

/-! ## Look-ups only -/

/-- The endpoint does not go back: a request made after an installation is answered with a version
no older than it. -/
def EndpointAdvances (cache : JwksCache B) (boot : ℕ) (calls : ℕ → JwksCall B) (now : ℕ)
    (served : ℕ → ℕ) (es : List (JwksEvent B)) : Prop :=
  ∀ es₁ c es₂, es = es₁ ++ .step c :: es₂ →
    MayFetch cache calls (jwksRun (T := T) cache boot calls now es₁) c →
      ∀ i ∈ history (jwksSteps (T := T) cache boot calls now es₁), served i.call ≤ served c

theorem exists_request {c : ℕ} (h : InFlight (jwksRun (T := T) cache boot calls now es) c) :
    ∃ es₁ es₂, es = es₁ ++ .step c :: es₂
      ∧ MayFetch cache calls (jwksRun (T := T) cache boot calls now es₁) c
      ∧ (jwksRun (T := T) cache boot calls now (es₁ ++ [.step c])).pc c = .fetching := by
  have hfetching : ∀ {es}, (jwksRun (T := T) cache boot calls now es).pc c = .fetching →
      ∃ es₁ es₂, es = es₁ ++ .step c :: es₂
        ∧ MayFetch cache calls (jwksRun (T := T) cache boot calls now es₁) c
        ∧ (jwksRun (T := T) cache boot calls now (es₁ ++ [.step c])).pc c = .fetching := by
    intro es hpc
    obtain ⟨es₁, e, es₂, rfl, hafter, hadv⟩ := exists_advance (by simp) hpc
    cases hadv with
    | request hmay => exact ⟨es₁, es₂, rfl, hmay, hafter⟩
  rcases h with hpc | ⟨keys, hpc⟩
  · exact hfetching hpc
  · obtain ⟨es', e, es'', rfl, -, hadv⟩ := exists_advance (by simp) hpc
    cases hadv with
    | parsed outcome keys hbefore hkeys =>
      obtain ⟨es₁, es₂, rfl, hmay, hafter⟩ := hfetching hbefore
      exact ⟨es₁, es₂ ++ .respond c outcome :: es'', by simp, hmay, hafter⟩

/-- While a look-up is in flight nobody installs, so what was installed by then was installed before
its request. -/
theorem served_le_of_inFlight (hlookups : ∀ c, ∃ look, calls c = .lookup look)
    (hadvances : EndpointAdvances (T := T) cache boot calls now served es) {c : ℕ}
    (hflight : InFlight (jwksRun (T := T) cache boot calls now es) c) {i : Install B}
    (hi : i ∈ history (jwksSteps (T := T) cache boot calls now es)) :
    served i.call ≤ served c := by
  obtain ⟨es₁, es₂, rfl, hmay, hfetching⟩ := exists_request hflight
  obtain ⟨x, hx, hxi⟩ := List.mem_filterMap.1 hi
  obtain ⟨hstep, hinstalling, htime⟩ := installOf_eq_some.1 hxi
  have hone : ∀ es, OneHolder (jwksRun (T := T) cache boot calls now es) :=
    oneHolder_jwksRun hlookups
  rcases (mem_taken_append_cons _).1 hx with hx | rfl | hx
  · exact hadvances es₁ c es₂ rfl hmay i (List.mem_filterMap.2 ⟨x, hx, hxi⟩)
  · obtain rfl := JwksEvent.step.inj hstep
    cases (hmay.checking hlookups).1.symm.trans hinstalling
  · rw [← jwksRun, ← jwksRun_concat] at hx
    rw [List.append_cons, jwksRun_append] at hflight
    obtain ⟨hall, -⟩ := fetches_run_of_inFlight hlookups (hone _) (.inl hfetching) hflight
    obtain ⟨es₃, es₄, rfl, hx1⟩ := (mem_taken _).1 hx
    have honex : OneHolder x.1 := hx1 ▸ oneHolder_run hlookups (hone _) es₃
    have hinstall : InFlight x.1 i.call := .inr ⟨_, hinstalling⟩
    obtain rfl : i.call = c := honex.eq hinstall.holding (hall x hx).holding
    exact le_rfl

theorem lookups_inVersionOrder (hlookups : ∀ c, ∃ look, calls c = .lookup look)
    (hadvances : EndpointAdvances (T := T) cache boot calls now served es) :
    InVersionOrder served (history (jwksSteps (T := T) cache boot calls now es)) := by
  induction es using List.reverseRecOn with
  | nil => exact List.Pairwise.nil
  | append_singleton es e ih =>
    have hbefore : EndpointAdvances (T := T) cache boot calls now served es :=
      fun es₁ c es₂ h => hadvances es₁ c (es₂ ++ [e]) (by rw [h]; simp)
    have hconcat : history (jwksSteps (T := T) cache boot calls now (es ++ [e])) = _ :=
      history_concat es e
    rcases hinst : installOf (jwksRun (T := T) cache boot calls now es, e) with _ | j
    · rw [hinst, Option.toList_none, List.append_nil] at hconcat
      rw [hconcat]
      exact ih hbefore
    · rw [hinst, Option.toList_some] at hconcat
      obtain ⟨-, hpc, -⟩ := installOf_eq_some.1 hinst
      unfold InVersionOrder
      rw [hconcat, List.pairwise_append]
      exact ⟨ih hbefore, List.pairwise_singleton _ _, fun i hi j' hj' =>
        List.mem_singleton.1 hj' ▸ served_le_of_inFlight hlookups hbefore (.inr ⟨_, hpc⟩) hi⟩

end Runs

/-- The cache holds the newest installed version at every instant when the installations come in the
order of their versions and, where versions differ in keys, only then. -/
theorem newest_version_iff {B : Backend} {T : Type} [DeserializeOwned T] (url : String)
    (ttl interval boot : ℕ) (calls : ℕ → JwksCall B) (now : ℕ) (docs : ℕ → List (Jwk B))
    (served : ℕ → ℕ) (es : List (JwksEvent B)) (hserved : ServesVersions docs served es) :
    (InVersionOrder served
          (history (jwksSteps (T := T) (urlCache url ttl interval) boot calls now es)) →
        ∀ es₁ es₂, es = es₁ ++ es₂ → HoldsNewest docs served
          (history (jwksSteps (T := T) (urlCache url ttl interval) boot calls now es₁))
          (jwksRun (T := T) (urlCache url ttl interval) boot calls now es₁))
      ∧ (DifferInKeys docs →
        (∀ es₁ es₂, es = es₁ ++ es₂ → HoldsNewest docs served
          (history (jwksSteps (T := T) (urlCache url ttl interval) boot calls now es₁))
          (jwksRun (T := T) (urlCache url ttl interval) boot calls now es₁)) →
        InVersionOrder served
          (history (jwksSteps (T := T) (urlCache url ttl interval) boot calls now es))) := by
  constructor
  · rintro horder es₁ es₂ rfl
    refine InVersionOrder.holdsNewest hserved.of_append ?_
    unfold InVersionOrder at horder ⊢
    rw [jwksSteps, taken_append, history_append] at horder
    exact (List.pairwise_append.1 horder).1
  · exact fun hdiffer hnewest => inVersionOrder_of_holdsNewest hdiffer hserved hnewest

/-- Version 1 of the document no longer has the key `k` of version 0. -/
def rotatedDocs : ℕ → List (Jwk transparentBackend)
  | 0 => rsaSet
  | _ => [⟨some "k2", some .RS256, .der [2]⟩]

def forced (_ : ℕ) : JwksCall transparentBackend := .refresh

/-- Two forced refreshes are under way; the one that was answered last installs first. -/
def overtaken : List (JwksEvent transparentBackend) :=
  [.step 0, .step 1, .respond 0 (.document rsaSet), .respond 1 (.document (rotatedDocs 1)), .step 1,
    .step 0]

theorem overtaken_servesVersions : ServesVersions rotatedDocs id overtaken := by
  intro c set h
  simp only [overtaken, List.mem_cons, List.not_mem_nil, reduceCtorEq, JwksEvent.respond.injEq,
    FetchOutcome.document.injEq, false_or, or_false] at h
  rcases h with ⟨rfl, rfl⟩ | ⟨rfl, rfl⟩
  · rfl
  · rfl

theorem newest_version_iff_overtaken :
    (InVersionOrder id (history (jwksSteps (T := StandardClaims)
            (issuerCache DEFAULT_TTL DEFAULT_MIN_REFRESH_INTERVAL) 0 forced 0 overtaken)) →
        ∀ es₁ es₂, overtaken = es₁ ++ es₂ → HoldsNewest rotatedDocs id
          (history (jwksSteps (T := StandardClaims)
            (issuerCache DEFAULT_TTL DEFAULT_MIN_REFRESH_INTERVAL) 0 forced 0 es₁))
          (jwksRun (T := StandardClaims)
            (issuerCache DEFAULT_TTL DEFAULT_MIN_REFRESH_INTERVAL) 0 forced 0 es₁))
      ∧ (DifferInKeys rotatedDocs →
        (∀ es₁ es₂, overtaken = es₁ ++ es₂ → HoldsNewest rotatedDocs id
          (history (jwksSteps (T := StandardClaims)
            (issuerCache DEFAULT_TTL DEFAULT_MIN_REFRESH_INTERVAL) 0 forced 0 es₁))
          (jwksRun (T := StandardClaims)
            (issuerCache DEFAULT_TTL DEFAULT_MIN_REFRESH_INTERVAL) 0 forced 0 es₁)) →
        InVersionOrder id (history (jwksSteps (T := StandardClaims)
            (issuerCache DEFAULT_TTL DEFAULT_MIN_REFRESH_INTERVAL) 0 forced 0 overtaken))) :=
  newest_version_iff _ DEFAULT_TTL DEFAULT_MIN_REFRESH_INTERVAL 0 forced 0 rotatedDocs id overtaken
    overtaken_servesVersions

/-- Both versions are installed and the older one stays, with the key the newer one took away. -/
theorem older_version_resurrects :
    ServesVersions rotatedDocs id overtaken
      ∧ (history (jwksSteps (T := StandardClaims)
          (issuerCache DEFAULT_TTL DEFAULT_MIN_REFRESH_INTERVAL) 0 forced 0
          overtaken)).map Install.call = [1, 0]
      ∧ ((jwksRun (T := StandardClaims)
          (issuerCache DEFAULT_TTL DEFAULT_MIN_REFRESH_INTERVAL) 0 forced 0
          overtaken).state.keys.lookup "k").isSome
      ∧ ¬ HoldsNewest rotatedDocs id
        (history (jwksSteps (T := StandardClaims)
          (issuerCache DEFAULT_TTL DEFAULT_MIN_REFRESH_INTERVAL) 0 forced 0 overtaken))
        (jwksRun (T := StandardClaims)
          (issuerCache DEFAULT_TTL DEFAULT_MIN_REFRESH_INTERVAL) 0 forced 0 overtaken) := by
  have hcalls : (history (jwksSteps (T := StandardClaims)
      (issuerCache DEFAULT_TTL DEFAULT_MIN_REFRESH_INTERVAL) 0 forced 0
      overtaken)).map Install.call = [1, 0] := rfl
  have hkept : ((jwksRun (T := StandardClaims)
      (issuerCache DEFAULT_TTL DEFAULT_MIN_REFRESH_INTERVAL) 0 forced 0
      overtaken).state.keys.lookup "k").isSome := rfl
  have hremoved : ∃ keys, buildKeyMap transparentBackend (rotatedDocs 1) = .ok keys
      ∧ keys.lookup "k" = none := ⟨_, rfl, rfl⟩
  refine ⟨overtaken_servesVersions, hcalls, hkept, fun h => ?_⟩
  obtain ⟨newer, hnewer, hcall⟩ : ∃ i ∈ history (jwksSteps (T := StandardClaims)
      (issuerCache DEFAULT_TTL DEFAULT_MIN_REFRESH_INTERVAL) 0 forced 0 overtaken), i.call = 1 :=
    List.mem_map.1 (by rw [hcalls]; simp)
  obtain ⟨j, hj, hle, keys', hkeys, hsame⟩ := h newer hnewer
  have hjcall : j.call ∈ [1, 0] := hcalls ▸ List.mem_map_of_mem hj
  obtain ⟨keys, hset, hlookup⟩ := hremoved
  have hj1 : j.call = 1 := by
    simp only [List.mem_cons, List.not_mem_nil, or_false] at hjcall
    simp only [id_eq, hcall] at hle
    omega
  rw [hj1, id_eq, hset] at hkeys
  obtain rfl := Except.ok.inj hkeys
  rw [hsame "k", hlookup] at hkept
  cases hkept

end TokenKit
