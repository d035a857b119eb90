import TokenKit.Jwks
import TokenKit.TransparentBackend
import TokenKit.Lib.StepMachine

/-!
# A static key set

The keys of a static set never change, no call on it makes a request, and every call returns in its
first section (`Static`). A look-up is answered from the map as long as the set is younger than the
time to live, which a static set has too, though nothing refreshes it; from then on every key id is
unknown (`static_keys_iff`).
-/

namespace TokenKit

open StepMachine JwksWorld

variable {B : Backend}

def staticCache (keys : AList fun _ : String => B.DecodingKey) (builtAt ttl interval : ℕ) :
    JwksCache B :=
  ((JwksCache.fromStaticKeys keys builtAt).withTtl ttl).withMinRefreshInterval interval

/-- The keys are those the cache was built with, no request was made, and every call is at its
start or has returned. -/
structure Static {T : Type} (keys : AList fun _ : String => B.DecodingKey) (builtAt : ℕ)
    (w : JwksWorld B T) : Prop where
  state : w.state = ⟨keys.mapValues fun key => ⟨key, none⟩, some builtAt⟩
  fetches : w.fetches = []
  pc : ∀ c, w.pc c = .started ∨ ∃ answer, w.pc c = .returned answer

section

variable {T : Type} {keys : AList fun _ : String => B.DecodingKey} {builtAt : ℕ}
  {w : JwksWorld B T}

theorem static_freshCache (keys : AList fun _ : String => B.DecodingKey)
    (builtAt ttl interval : ℕ) :
    Static keys builtAt
      (freshCache (staticCache keys builtAt ttl interval) builtAt : JwksWorld B T) :=
  ⟨rfl, rfl, fun _ => .inl rfl⟩

theorem Static.goto_returned (h : Static keys builtAt w) (c : ℕ) (answer : JwksAnswer B T) :
    Static keys builtAt (w.goto c (.returned answer)) where
  state := h.state
  fetches := h.fetches
  pc c' := by
    unfold goto
    by_cases hc : c' = c
    · subst hc
      exact .inr ⟨answer, Function.update_self _ _ _⟩
    · simp only [Function.update_of_ne hc]
      exact h.pc c'

theorem Static.freshHit (h : Static keys builtAt w) (ttl interval : ℕ) (want : String) :
    w.freshHit (staticCache keys builtAt ttl interval) want
      = if w.now - builtAt < ttl then (keys.lookup want).map fun key => ⟨key, none⟩ else none := by
  unfold JwksWorld.freshHit isFresh
  rw [h.state, AList.lookup_mapValues]
  simp only [Option.any_some, decide_eq_true_eq]
  rfl

end

section

variable {T : Type} [DeserializeOwned T] {keys : AList fun _ : String => B.DecodingKey}
  {builtAt ttl interval boot : ℕ} {w : JwksWorld B T}

def resolvedStatic (cache : JwksCache B) (w : JwksWorld B T) (want : String) :
    Except JwtError (CachedKey B) :=
  match w.freshHit cache want with
  | some cached => .ok cached
  | none => .error (.jwks s!"unknown key id `{want}` in static key set")

theorem resolveKey_static (cache : JwksCache B) (hstatic : cache.staticKeys = true) (c : ℕ)
    (look : JwksLookup B) (want : String) : w.resolveKey cache boot c look want
      = w.answered boot c look (resolvedStatic cache w want) := by
  unfold resolveKey resolvedStatic
  rcases w.freshHit cache want with _ | cached
  · exact if_pos hstatic
  · rfl

theorem start_static (w : JwksWorld B T) (boot : ℕ) (cache : JwksCache B)
    (hstatic : cache.staticKeys = true) (hurl : cache.url = "") (c : ℕ) (call : JwksCall B) :
    ∃ answer, w.start cache boot c call = w.goto c (.returned answer) := by
  rcases call with look | _
  · simp only [start]
    rcases look.want with e | want
    · exact ⟨_, rfl⟩
    · exact ⟨_, resolveKey_static cache hstatic c look want⟩
  · simp only [start, refresh]
    rw [if_pos (by rw [hurl]; rfl)]
    exact ⟨_, rfl⟩

theorem static_jwksStep (calls : ℕ → JwksCall B) (e : JwksEvent B) (h : Static keys builtAt w) :
    Static keys builtAt (jwksStep (staticCache keys builtAt ttl interval) boot calls w e) := by
  rcases e with c | ⟨c, outcome⟩ | d
  · unfold jwksStep callSection
    rcases h.pc c with hpc | ⟨answer, hpc⟩ <;> simp only [hpc]
    · obtain ⟨answer, hstart⟩ :=
        start_static w boot (staticCache keys builtAt ttl interval) rfl rfl c (calls c)
      rw [hstart]
      exact h.goto_returned c answer
    · exact h
  · unfold jwksStep JwksWorld.respond
    rcases h.pc c with hpc | ⟨answer, hpc⟩ <;> simp only [hpc]
    · exact h
    · exact h
  · exact ⟨h.state, h.fetches, h.pc⟩

end

/-- The answer the map gives: its key for `kid`, or an error when it has none. -/
def AnswersAs {T : Type} (keys : AList fun _ : String => B.DecodingKey) (kid : String)
    (answer : JwksAnswer B T) : Prop :=
  match keys.lookup kid with
  | some key => answer = .key (.ok key)
  | none => ∃ e, answer = .key (.error e)

/-- On a static set no call ever makes a request, and a look-up answers as the map does exactly when
the map has no such key or the set is younger than the time to live. -/
theorem static_keys_iff {T : Type} [DeserializeOwned T]
    (keys : AList fun _ : String => B.DecodingKey) (builtAt ttl interval boot : ℕ)
    (calls : ℕ → JwksCall B) (es : List (JwksEvent B)) :
    (∀ w ∈ visited (jwksStep (staticCache keys builtAt ttl interval) boot calls)
        (freshCache (staticCache keys builtAt ttl interval) builtAt : JwksWorld B T) es,
        w.fetches = [])
      ∧ ∀ x ∈ taken (jwksStep (staticCache keys builtAt ttl interval) boot calls)
          (freshCache (staticCache keys builtAt ttl interval) builtAt : JwksWorld B T) es,
        ∀ c kid, x.2 = .step c → calls c = .lookup (.decodingKey (some kid)) →
          x.1.pc c = .started →
          ∃ answer, (jwksStep (staticCache keys builtAt ttl interval) boot calls x.1 x.2).pc c
              = .returned answer
            ∧ (AnswersAs keys kid answer
              ↔ keys.lookup kid = none ∨ x.1.now - builtAt < ttl) := by
  set cache := staticCache keys builtAt ttl interval with hcache
  have hinv : ∀ es, Static keys builtAt
      (run (jwksStep cache boot calls) (freshCache cache builtAt : JwksWorld B T) es) :=
    fun es => run_inv (jwksStep cache boot calls) (P := Static keys builtAt)
      (fun _ e h => static_jwksStep calls e h) es (static_freshCache keys builtAt ttl interval)
  constructor
  · intro w hw
    obtain ⟨es₁, -, -, rfl⟩ := (mem_visited _).1 hw
    exact (hinv es₁).fetches
  · intro x hx c kid hstep hcall hpc
    obtain ⟨es₁, -, -, hx⟩ := (mem_taken _).1 hx
    have h : Static keys builtAt x.1 := hx ▸ hinv es₁
    refine ⟨(JwksLookup.decodingKey (some kid)).answer boot x.1.now (resolvedStatic cache x.1 kid),
      ?_, ?_⟩
    · have hret : jwksStep cache boot calls x.1 x.2
          = x.1.answered boot c (.decodingKey (some kid)) (resolvedStatic cache x.1 kid) := by
        rw [hstep]
        simp only [jwksStep, callSection, hpc, hcall]
        exact resolveKey_static cache rfl c _ kid
      rw [hret]
      exact Function.update_self _ _ _
    · unfold resolvedStatic AnswersAs
      rw [h.freshHit ttl interval kid]
      rcases keys.lookup kid with _ | key
      · simp [JwksLookup.answer, Except.map]
      · by_cases hage : x.1.now - builtAt < ttl <;> simp [hage, JwksLookup.answer, Except.map]

def onlyKey : AList fun _ : String => transparentBackend.DecodingKey :=
  AList.singleton "only-key" (.secret "static-secret")

/-- Ten minutes after it was built, a static set with every setting at its default does not know its
own key. -/
theorem static_key_expires :
    ∃ answer : JwksAnswer transparentBackend StandardClaims,
      (run (jwksStep (JwksCache.fromStaticKeys onlyKey 0) 0
          fun _ => .lookup (.decodingKey (some "only-key")))
        (freshCache (JwksCache.fromStaticKeys onlyKey 0) 0)
        [.tick (600 * 10 ^ 9), .step 0]).pc 0 = .returned answer
      ∧ ¬ AnswersAs onlyKey "only-key" answer := by
  refine ⟨.key (.error (.jwks "unknown key id `only-key` in static key set")), rfl, ?_⟩
  have hkey : onlyKey.lookup "only-key" = some (.secret "static-secret") := rfl
  unfold AnswersAs
  rw [hkey]
  rintro ⟨⟩

end TokenKit
