import TokenKit.Proofs.Lookups

/-!
# Which published keys can be used

A key map has one place for each key id and one for the keys without one, so of the usable JWKs that
share a place it keeps the last. A token of a published key is accepted exactly when the last usable
JWK in that place has no other algorithm and verifies it as well, in particular when it is the key's
own (`published_key_accepts_iff`).
-/

namespace TokenKit

open StepMachine JwksWorld

variable {B : Backend}

theorem lastEntry_append (front rest : List (Jwk B)) (kid : String) :
    lastEntry (front ++ rest) kid = (lastEntry rest kid).or (lastEntry front kid) := by
  unfold lastEntry
  rw [List.filterMap_append, List.getLast?_append]

theorem lastEntry_cons {jwk : Jwk B} {kid : String} {cached : CachedKey B}
    (h : jwk.IsEntry kid cached) (rest : List (Jwk B)) :
    lastEntry (jwk :: rest) kid = some ((lastEntry rest kid).getD cached) := by
  unfold lastEntry
  rw [List.filterMap_cons_some (Jwk.entryFor_eq_some.2 h), List.getLast?_cons]

section

variable {T : Type} [DeserializeOwned T] {calls : ℕ → JwksCall B} {w : JwksWorld B T} {c : ℕ}

/-- A look-up that finds its key in a fresh cache returns in its first section. -/
theorem jwksStep_of_hit (cache : JwksCache B) (boot : ℕ) {look : JwksLookup B} {want : String}
    {cached : CachedKey B} (hcall : calls c = .lookup look) (hpc : w.pc c = .started)
    (hwant : look.want = .ok want) (hfresh : isFresh w.now w.state.fetchedAt cache.ttl = true)
    (hlookup : w.state.keys.lookup want = some cached) :
    (jwksStep cache boot calls w (.step c)).pc c
      = .returned (look.answer boot w.now (.ok cached)) := by
  have hhit : w.freshHit cache want = some cached := freshHit_eq_some.2 ⟨hfresh, hlookup⟩
  simp only [jwksStep, callSection, hpc, hcall, start, hwant, resolveKey, hhit]
  exact Function.update_self _ _ _

theorem decodeWith_of_header {token : B.Token} {header : Header} {validation : Validation}
    {secs : ℤ} (hheader : B.decodeHeader token = .ok header) (cached : CachedKey B) (claims : T) :
    JwksLookup.decodeWith token validation secs cached = .ok claims
      ↔ (cached.alg = none ∨ cached.alg = some (KeyAlgorithm.ofAlgorithm header.alg))
        ∧ B.decode token cached.key validation secs = .ok claims := by
  simp only [decodeWith_eq_ok, hheader, Except.ok.injEq, exists_eq_left']

/-- A token of one key is read with another one, if that took its place. -/
theorem decodeWith_getD {token : B.Token} {header : Header} {validation : Validation} {secs : ℤ}
    (hheader : B.decodeHeader token = .ok header) {own : CachedKey B} {claims : T}
    (hown : JwksLookup.decodeWith token validation secs own = .ok claims)
    (later : Option (CachedKey B)) :
    (later = none → JwksLookup.decodeWith token validation secs (later.getD own) = .ok claims)
      ∧ ((∃ found : T, JwksLookup.decodeWith token validation secs (later.getD own) = .ok found)
        ↔ ∀ cached ∈ later,
          (cached.alg = none ∨ cached.alg = some (KeyAlgorithm.ofAlgorithm header.alg))
            ∧ ∃ found : T, B.decode token cached.key validation secs = .ok found) := by
  rcases later with _ | cached
  · refine ⟨fun _ => hown, iff_of_true ⟨claims, hown⟩ ?_⟩
    rintro cached ⟨⟩
  · refine ⟨fun h => (by cases h), ?_⟩
    simp only [Option.getD_some, decodeWith_of_header hheader, exists_and_left, Option.mem_def,
      Option.some.injEq, forall_eq']

end

/-- Once a document is installed and fresh, a decode of a token of one of its usable JWKs returns at
once. It accepts the token when no later JWK takes the place, and otherwise exactly when the last
that does has no other algorithm and verifies it too. -/
theorem published_key_accepts_iff {T : Type} [DeserializeOwned T] (url : String)
    (ttl interval boot : ℕ) (calls : ℕ → JwksCall B) (now : ℕ) (es : List (JwksEvent B)) (c : ℕ)
    (token : B.Token) (validation : Validation) (front rest : List (Jwk B)) (jwk : Jwk B)
    (key : B.DecodingKey) (header : Header) (claims : T)
    (hcall : calls c = .lookup (.decode token validation))
    (hpc : (jwksRun (T := T) (urlCache url ttl interval) boot calls now es).pc c = .started)
    (hdoc : DocumentAt (T := T) (urlCache url ttl interval) boot calls now es
      (front ++ jwk :: rest) (jwksRun (urlCache url ttl interval) boot calls now es))
    (hfresh : isFresh (jwksRun (T := T) (urlCache url ttl interval) boot calls now es).now
      (jwksRun (T := T) (urlCache url ttl interval) boot calls now es).state.fetchedAt ttl = true)
    (hkey : B.decodingFromJwk jwk.parameters = .ok key)
    (hheader : B.decodeHeader token = .ok header) (hkid : header.kid = jwk.keyId)
    (halg : jwk.keyAlgorithm = none
      ∨ jwk.keyAlgorithm = some (KeyAlgorithm.ofAlgorithm header.alg))
    (hdecode : B.decode token key validation ((boot + (jwksRun (T := T) (urlCache url ttl interval)
      boot calls now es).now) / 10 ^ 9 : ℕ) = .ok claims) :
    ∃ result : Except JwtError T,
      (jwksRun (urlCache url ttl interval) boot calls now (es ++ [.step c])).pc c
        = .returned (.claims result)
      ∧ (lastEntry rest (jwk.keyId.getD "") = none → result = .ok claims)
      ∧ ((∃ found, result = .ok found) ↔ ∀ cached ∈ lastEntry rest (jwk.keyId.getD ""),
        (cached.alg = none ∨ cached.alg = some (KeyAlgorithm.ofAlgorithm header.alg))
          ∧ ∃ found : T, B.decode token cached.key validation ((boot + (jwksRun (T := T)
            (urlCache url ttl interval) boot calls now es).now) / 10 ^ 9 : ℕ) = .ok found) := by
  obtain ⟨i, -, ⟨-, hset⟩, hstate⟩ := hdoc
  have hentry : jwk.IsEntry (jwk.keyId.getD "") ⟨key, jwk.keyAlgorithm⟩ := ⟨hkey, rfl, rfl⟩
  have hlookup : (jwksRun (T := T) (urlCache url ttl interval) boot calls now es).state.keys.lookup
      (jwk.keyId.getD "")
        = some ((lastEntry rest (jwk.keyId.getD "")).getD ⟨key, jwk.keyAlgorithm⟩) := by
    have hkeys : i.cached.keys.lookup (jwk.keyId.getD "") = _ := lookup_buildKeyMap hset _
    rw [hstate, hkeys, lastEntry_append, lastEntry_cons hentry, Option.some_or]
  have hwant : (JwksLookup.decode token validation : JwksLookup B).want
      = .ok (jwk.keyId.getD "") := by
    simp only [JwksLookup.want, hheader, hkid]
  have hstep := jwksStep_of_hit (urlCache url ttl interval) boot hcall hpc hwant hfresh hlookup
  rw [← jwksRun_concat] at hstep
  exact ⟨_, hstep, decodeWith_getD hheader ((decodeWith_of_header hheader _ _).2 ⟨halg, hdecode⟩) _⟩

/-- The events that install a document. -/
def installed (set : List (Jwk transparentBackend)) : List (JwksEvent transparentBackend) :=
  [.step 0, .step 0, .step 0, .respond 0 (.document set), .step 0]

def unnamedJwk (key : TransparentKey) : Jwk transparentBackend := ⟨none, none, key⟩

def unnamedToken : transparentBackend.Token :=
  ⟨⟨.RS256, none⟩, .obj [("exp", .int 4600)], .der [1]⟩

def unnamedDecode (_ : ℕ) : JwksCall transparentBackend :=
  .lookup (.decode unnamedToken (Validation.new .RS256))

theorem published_key_accepts_first : ∃ result : Except JwtError Json,
    (jwksRun (issuerCache DEFAULT_TTL 0) (1000 * 10 ^ 9) unnamedDecode 0
        (installed (unnamedJwk (.der [1]) :: rsaSet) ++ [.step 1])).pc 1
      = .returned (.claims result)
    ∧ (lastEntry rsaSet "" = none → result = .ok (.obj [("exp", .int 4600)]))
    ∧ ((∃ found, result = .ok found) ↔ ∀ cached ∈ lastEntry rsaSet "",
      (cached.alg = none ∨ cached.alg = some .RS256)
        ∧ ∃ found : Json, transparentBackend.decode unnamedToken cached.key (Validation.new .RS256)
          ((1000 * 10 ^ 9 + (jwksRun (T := Json) (issuerCache DEFAULT_TTL 0) (1000 * 10 ^ 9)
            unnamedDecode 0 (installed (unnamedJwk (.der [1]) :: rsaSet))).now) / 10 ^ 9 : ℕ)
            = .ok found) :=
  published_key_accepts_iff _ DEFAULT_TTL 0 (1000 * 10 ^ 9) unnamedDecode 0
    (installed (unnamedJwk (.der [1]) :: rsaSet)) 1 unnamedToken (Validation.new .RS256) [] rsaSet
    (unnamedJwk (.der [1])) (.der [1]) _ _ rfl rfl ⟨⟨0, _, 0⟩, rfl, ⟨by simp [installed], rfl⟩, rfl⟩
    rfl rfl rfl rfl (.inl rfl) rfl

/-- The document is installed and fresh, and its first key is overwritten. -/
theorem first_unnamed_key_overwritten :
    DocumentAt (T := Json) (issuerCache DEFAULT_TTL 0) (1000 * 10 ^ 9) unnamedDecode 0
        (installed [unnamedJwk (.der [1]), unnamedJwk (.der [2])])
        [unnamedJwk (.der [1]), unnamedJwk (.der [2])]
        (jwksRun (issuerCache DEFAULT_TTL 0) (1000 * 10 ^ 9) unnamedDecode 0
          (installed [unnamedJwk (.der [1]), unnamedJwk (.der [2])]))
      ∧ isFresh 0 (jwksRun (T := Json) (issuerCache DEFAULT_TTL 0) (1000 * 10 ^ 9) unnamedDecode 0
          (installed [unnamedJwk (.der [1]), unnamedJwk (.der [2])])).state.fetchedAt DEFAULT_TTL
        = true
      ∧ transparentBackend.decode unnamedToken (.der [1]) (Validation.new .RS256) 1000
        = .ok (Json.obj [("exp", .int 4600)])
      ∧ (jwksRun (T := Json) (issuerCache DEFAULT_TTL 0) (1000 * 10 ^ 9) unnamedDecode 0
          (installed [unnamedJwk (.der [1]), unnamedJwk (.der [2])] ++ [.step 1])).pc 1
        = .returned (.claims (.error (.decodingFailed "InvalidSignature"))) :=
  ⟨⟨⟨0, _, 0⟩, rfl, ⟨by simp [installed], rfl⟩, rfl⟩, rfl, rfl, rfl⟩

end TokenKit
