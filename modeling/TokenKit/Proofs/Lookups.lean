import TokenKit.Lib.Results
import TokenKit.Proofs.Installed
import TokenKit.TransparentBackend

/-!
# What a look-up answers

A look-up that succeeds read its key from the cache in one section (`exists_read`), so key and
algorithm are of one JWK of the document installed then. It read in its first section, from a
document younger than the time to live, or when it looked again: after it had found a document
younger than the least interval, or had installed one itself. What happened since can only have put
a later document in place.
-/

namespace TokenKit

open StepMachine JwksWorld

variable {B : Backend} {T : Type}

theorem underWay_of_read {w : JwksWorld B T} {next : List (JwksEvent B)} {c : ℕ} {P : Prop}
    (hnext : next.head? = some (.step c)) (hpc : w.pc c = .started ∧ P ∨ w.pc c = .looking) :
    UnderWay w c next := by
  unfold UnderWay
  rcases hpc with ⟨hpc, -⟩ | hpc <;> rw [hpc]
  · exact hnext
  · trivial

variable [DeserializeOwned T]

theorem decodeWith_eq_ok {token : B.Token} {validation : Validation} {secs : ℤ}
    {cached : CachedKey B} {claims : T} :
    JwksLookup.decodeWith token validation secs cached = .ok claims
      ↔ ∃ header, B.decodeHeader token = .ok header
        ∧ (cached.alg = none ∨ cached.alg = some (KeyAlgorithm.ofAlgorithm header.alg))
        ∧ B.decode token cached.key validation secs = .ok claims := by
  unfold JwksLookup.decodeWith
  simp only [Except.ok_of_bind, Except.ok_of_mapError]
  refine exists_congr fun header => and_congr_right fun _ => ?_
  rcases cached.alg with _ | alg
  · simp [Except.ok_of_mapError]
  · by_cases halg : alg = KeyAlgorithm.ofAlgorithm header.alg
    · simp [halg, Except.ok_of_mapError]
    · simp [halg, Except.ok_of_bind, throw, throwThe, MonadExceptOf.throw]

section Reads

variable {cache : JwksCache B} {boot : ℕ} {calls : ℕ → JwksCall B} {now : ℕ}
  {es : List (JwksEvent B)} {c : ℕ}

/-- A look-up that has returned answered what it resolved in its last section; a key it resolved, it
read from the cache there. -/
theorem exists_read {look : JwksLookup B} {answer : JwksAnswer B T}
    (hcall : calls c = .lookup look)
    (hret : (jwksRun cache boot calls now es).pc c = .returned answer) :
    ∃ es₁ es₂ resolved, es = es₁ ++ es₂
      ∧ answer = look.answer boot (jwksRun (T := T) cache boot calls now es₁).now resolved
      ∧ ∀ cached, resolved = .ok cached → es₂.head? = some (.step c)
        ∧ ((jwksRun (T := T) cache boot calls now es₁).pc c = .started
            ∧ isFresh (jwksRun (T := T) cache boot calls now es₁).now
              (jwksRun (T := T) cache boot calls now es₁).state.fetchedAt cache.ttl = true
          ∨ (jwksRun (T := T) cache boot calls now es₁).pc c = .looking)
        ∧ ∃ want, look.want = .ok want
          ∧ (jwksRun (T := T) cache boot calls now es₁).state.keys.lookup want
            = some cached := by
  obtain ⟨es₁, e, es₂, rfl, -, hadv⟩ := exists_advance (by simp) hret
  obtain ⟨resolved, hanswer, hresolved⟩ := hadv.of_returned hcall
  refine ⟨es₁, e :: es₂, resolved, rfl, hanswer, fun cached h => ?_⟩
  obtain ⟨rfl, hpc, hwant⟩ := hresolved cached h
  exact ⟨rfl, hpc, hwant⟩

theorem documentAt_of_lookup {url : String} {ttl interval : ℕ} {want : String}
    {cached : CachedKey B}
    (h : (jwksRun (T := T) (urlCache url ttl interval) boot calls now es).state.keys.lookup want
      = some cached) :
    ∃ set, DocumentAt (T := T) (urlCache url ttl interval) boot calls now es set
      (jwksRun (urlCache url ttl interval) boot calls now es) := by
  refine (initial_or_documentAt es).resolve_left fun hinitial => ?_
  rw [hinitial] at h
  cases h

theorem documentAt_of_fetchedAt {url : String} {ttl interval t : ℕ}
    (h : (jwksRun (T := T) (urlCache url ttl interval) boot calls now es).state.fetchedAt
      = some t) :
    ∃ set, DocumentAt (T := T) (urlCache url ttl interval) boot calls now es set
      (jwksRun (urlCache url ttl interval) boot calls now es) := by
  refine (initial_or_documentAt es).resolve_left fun hinitial => ?_
  rw [hinitial] at h
  cases h

/-- A look-up that looks again came from a cache younger than the least interval, which it found or
installed, earlier in the call. -/
theorem exists_recent (hpc : (jwksRun (T := T) cache boot calls now es).pc c = .looking) :
    ∃ es₁ es₂, es = es₁ ++ es₂
      ∧ (∀ es₃, UnderWay (jwksRun (T := T) cache boot calls now es₁) c (es₂ ++ es₃))
      ∧ ∃ t, (jwksRun (T := T) cache boot calls now es₁).state.fetchedAt = some t
        ∧ (jwksRun (T := T) cache boot calls now es₁).now ≤ t + cache.minRefreshInterval := by
  obtain ⟨es₁, e, es₂, rfl, hafter, hadv⟩ := exists_advance (by simp) hpc
  cases hadv with
  | skip hchecking hfresh =>
    obtain ⟨t, hfetched, hage⟩ := lt_of_isFresh hfresh
    refine ⟨es₁, .step c :: es₂, rfl, fun es₃ => ?_, t, hfetched, by omega⟩
    unfold UnderWay
    rw [hchecking]
    trivial
  | install keys hinstalling =>
    have hstate : (jwksRun (T := T) cache boot calls now (es₁ ++ [.step c])).state
        = ⟨keys, some (jwksRun (T := T) cache boot calls now es₁).now⟩ := by
      rw [jwksRun_concat, state_jwksStep]
      simp [installOf, hinstalling, cacheOf, Install.cached]
    have hnow : (jwksRun (T := T) cache boot calls now (es₁ ++ [.step c])).now
        = (jwksRun (T := T) cache boot calls now es₁).now := by
      rw [jwksRun_concat]
      exact (move_jwksStep _ _ : Move cache boot calls _ (.step c) _).now_step
    refine ⟨es₁ ++ [.step c], es₂, by simp, fun es₃ => ?_, _, by rw [hstate], by
      rw [hnow]; omega⟩
    unfold UnderWay
    rw [hafter]
    trivial

end Reads

/-- A decode that succeeds verified the token under the key of one JWK, of a document that was
installed at an instant during the call, with the key id of the token and no other algorithm than
the token's. -/
theorem decode_sound (url : String) (ttl interval boot : ℕ) (calls : ℕ → JwksCall B) (now : ℕ)
    (es : List (JwksEvent B)) (c : ℕ) (token : B.Token) (validation : Validation) (claims : T)
    (hcall : calls c = .lookup (.decode token validation))
    (hret : (jwksRun (urlCache url ttl interval) boot calls now es).pc c
      = .returned (.claims (.ok claims))) :
    ∃ es₁ es₂ set, es = es₁ ++ es₂
      ∧ UnderWay (jwksRun (T := T) (urlCache url ttl interval) boot calls now es₁) c es₂
      ∧ DocumentAt (urlCache url ttl interval) boot calls now es₁ set
          (jwksRun (T := T) (urlCache url ttl interval) boot calls now es₁)
      ∧ ∃ jwk ∈ set, ∃ key header, B.decodingFromJwk jwk.parameters = .ok key
        ∧ B.decodeHeader token = .ok header
        ∧ jwk.keyId.getD "" = header.kid.getD ""
        ∧ (jwk.keyAlgorithm = none
          ∨ jwk.keyAlgorithm = some (KeyAlgorithm.ofAlgorithm header.alg))
        ∧ B.decode token key validation ((boot + (jwksRun (T := T) (urlCache url ttl interval)
            boot calls now es₁).now) / 10 ^ 9 : ℕ) = .ok claims := by
  obtain ⟨es₁, es₂, resolved, hes, hanswer, hread⟩ := exists_read hcall hret
  obtain ⟨cached, hresolved, hdecode⟩ := Except.ok_of_bind.1 (JwksAnswer.claims.inj hanswer).symm
  obtain ⟨hnext, hpc, want, hwant, hlookup⟩ := hread cached hresolved
  obtain ⟨header, hheader, halg, hverified⟩ := decodeWith_eq_ok.1 hdecode
  obtain ⟨set, i, hi, hset, hstate⟩ := documentAt_of_lookup hlookup
  have hkeys : i.keys.lookup want = some cached := by
    rw [hstate] at hlookup
    exact hlookup
  obtain ⟨jwk, hmem, hentry⟩ := exists_isEntry hset.2 hkeys
  have hkid : want = header.kid.getD "" := by
    simp only [JwksLookup.want, hheader] at hwant
    exact (Except.ok.inj hwant).symm
  refine ⟨es₁, es₂, set, hes, underWay_of_read hnext hpc, ⟨i, hi, hset, hstate⟩, jwk, hmem,
    cached.key, header, hentry.key, hheader, hentry.kid.trans hkid, ?_, hverified⟩
  rw [hentry.alg]
  exact halg

def issuerCache (ttl interval : ℕ) : JwksCache transparentBackend :=
  urlCache "https://issuer.example.com/.well-known/jwks.json" ttl interval

def rsaSet : List (Jwk transparentBackend) := [⟨some "k", some .RS256, .der [1]⟩]

/-- The first look-up on a cache waits, takes the lock, fetches, installs and looks again. -/
def fetchOnce : List (JwksEvent transparentBackend) :=
  [.step 0, .step 0, .step 0, .respond 0 (.document rsaSet), .step 0, .step 0]

def rsaToken : transparentBackend.Token :=
  ⟨⟨.RS256, some "k"⟩, .obj [("sub", .str "u"), ("exp", .int 4600)], .der [1]⟩

def rsaDecode (_ : ℕ) : JwksCall transparentBackend :=
  .lookup (.decode rsaToken (Validation.new .RS256))

theorem decode_sound_fetched : ∃ (claims : StandardClaims) (es₁ es₂ : _) (set : _),
    fetchOnce = es₁ ++ es₂
      ∧ UnderWay (jwksRun (T := StandardClaims) (issuerCache DEFAULT_TTL 0) (1000 * 10 ^ 9)
          rsaDecode 0 es₁) 0 es₂
      ∧ DocumentAt (issuerCache DEFAULT_TTL 0) (1000 * 10 ^ 9) rsaDecode 0 es₁ set
          (jwksRun (T := StandardClaims) (issuerCache DEFAULT_TTL 0) (1000 * 10 ^ 9) rsaDecode 0
            es₁)
      ∧ ∃ jwk ∈ set, ∃ key header, transparentBackend.decodingFromJwk jwk.parameters = .ok key
        ∧ transparentBackend.decodeHeader rsaToken = .ok header
        ∧ jwk.keyId.getD "" = header.kid.getD ""
        ∧ (jwk.keyAlgorithm = none
          ∨ jwk.keyAlgorithm = some (KeyAlgorithm.ofAlgorithm header.alg))
        ∧ transparentBackend.decode rsaToken key (Validation.new .RS256)
          ((1000 * 10 ^ 9 + (jwksRun (T := StandardClaims) (issuerCache DEFAULT_TTL 0)
            (1000 * 10 ^ 9) rsaDecode 0 es₁).now) / 10 ^ 9 : ℕ) = .ok claims :=
  ⟨_, decode_sound _ DEFAULT_TTL 0 (1000 * 10 ^ 9) rsaDecode 0 fetchOnce 0 rsaToken
    (Validation.new .RS256) _ rfl rfl⟩

/-- A look-up that succeeds answers the entry of a document that was installed, at an instant during
the call, not longer than the time to live or the least interval before, or of one installed later
during the call. -/
theorem served_key_bounded (url : String) (ttl interval boot : ℕ) (calls : ℕ → JwksCall B)
    (now : ℕ) (es : List (JwksEvent B)) (c : ℕ) (kid : Option String) (key : B.DecodingKey)
    (hcall : calls c = .lookup (.decodingKey kid))
    (hret : (jwksRun (T := T) (urlCache url ttl interval) boot calls now es).pc c
      = .returned (.key (.ok key))) :
    ∃ es₁ es₂ es₃, es = es₁ ++ es₂ ++ es₃
      ∧ UnderWay (jwksRun (T := T) (urlCache url ttl interval) boot calls now es₁) c (es₂ ++ es₃)
      ∧ UnderWay (jwksRun (T := T) (urlCache url ttl interval) boot calls now (es₁ ++ es₂)) c es₃
      ∧ (∃ set t, DocumentAt (urlCache url ttl interval) boot calls now es₁ set
            (jwksRun (T := T) (urlCache url ttl interval) boot calls now es₁)
          ∧ (jwksRun (T := T) (urlCache url ttl interval) boot calls now es₁).state.fetchedAt
            = some t
          ∧ (jwksRun (T := T) (urlCache url ttl interval) boot calls now es₁).now
            ≤ t + max ttl interval)
      ∧ (∃ set cached, DocumentAt (urlCache url ttl interval) boot calls now (es₁ ++ es₂) set
            (jwksRun (T := T) (urlCache url ttl interval) boot calls now (es₁ ++ es₂))
          ∧ (jwksRun (T := T) (urlCache url ttl interval) boot calls now
            (es₁ ++ es₂)).state.keys.lookup (kid.getD "") = some cached ∧ cached.key = key)
      ∧ ((jwksRun (T := T) (urlCache url ttl interval) boot calls now (es₁ ++ es₂)).state
            = (jwksRun (T := T) (urlCache url ttl interval) boot calls now es₁).state
          ∨ ∃ i ∈ history (taken (jwksStep (urlCache url ttl interval) boot calls)
              (jwksRun (T := T) (urlCache url ttl interval) boot calls now es₁) es₂),
            (jwksRun (T := T) (urlCache url ttl interval) boot calls now (es₁ ++ es₂)).state
              = i.cached) := by
  obtain ⟨es', es₃, resolved, hes, hanswer, hread⟩ := exists_read hcall hret
  obtain ⟨cached, hresolved, hkey⟩ := Except.ok_of_map.1 (JwksAnswer.key.inj hanswer).symm
  obtain ⟨hnext, hpc, want, hwant, hlookup⟩ := hread cached hresolved
  obtain rfl := Except.ok.inj hwant
  obtain ⟨es₁, es₂, rfl, hunder, t, hfetched, hage⟩ : ∃ es₁ es₂, es' = es₁ ++ es₂
      ∧ UnderWay (jwksRun (T := T) (urlCache url ttl interval) boot calls now es₁) c (es₂ ++ es₃)
      ∧ ∃ t, (jwksRun (T := T) (urlCache url ttl interval) boot calls now es₁).state.fetchedAt
          = some t
        ∧ (jwksRun (T := T) (urlCache url ttl interval) boot calls now es₁).now
          ≤ t + max ttl interval := by
    rcases hpc with ⟨hpc, hfresh⟩ | hpc
    · obtain ⟨t, hfetched, hage⟩ := lt_of_isFresh hfresh
      have hage : _ - t < ttl := hage
      exact ⟨es', [], by simp, underWay_of_read hnext (.inl ⟨hpc, trivial⟩), t, hfetched,
        by omega⟩
    · obtain ⟨es₁, es₂, rfl, hunder, t, hfetched, hage⟩ := exists_recent hpc
      have hage : _ ≤ t + interval := hage
      exact ⟨es₁, es₂, rfl, hunder es₃, t, hfetched, by omega⟩
  obtain ⟨set, hdoc⟩ := documentAt_of_fetchedAt hfetched
  obtain ⟨set', hdoc'⟩ := documentAt_of_lookup hlookup
  refine ⟨es₁, es₂, es₃, hes, hunder, underWay_of_read hnext hpc, ⟨set, t, hdoc, hfetched, hage⟩,
    ⟨set', cached, hdoc', hlookup, hkey⟩, state_eq_or_installed es₁ es₂⟩

def kidLookup (_ : ℕ) : JwksCall transparentBackend := .lookup (.decodingKey (some "k"))

/-- Nine seconds after the fetch a second look-up finds the document too old, but not by so much
that it may fetch again. -/
def servedStale : List (JwksEvent transparentBackend) :=
  fetchOnce ++ [.tick (9 * 10 ^ 9), .step 1, .step 1, .step 1, .step 1]

theorem served_key_bounded_stale : ∃ es₁ es₂ es₃, servedStale = es₁ ++ es₂ ++ es₃
    ∧ UnderWay (jwksRun (T := StandardClaims) (issuerCache (10 ^ 9) (10 * 10 ^ 9)) 0 kidLookup 0
        es₁) 1 (es₂ ++ es₃)
    ∧ UnderWay (jwksRun (T := StandardClaims) (issuerCache (10 ^ 9) (10 * 10 ^ 9)) 0 kidLookup 0
        (es₁ ++ es₂)) 1 es₃
    ∧ (∃ set t, DocumentAt (issuerCache (10 ^ 9) (10 * 10 ^ 9)) 0 kidLookup 0 es₁ set
          (jwksRun (T := StandardClaims) (issuerCache (10 ^ 9) (10 * 10 ^ 9)) 0 kidLookup 0 es₁)
        ∧ (jwksRun (T := StandardClaims) (issuerCache (10 ^ 9) (10 * 10 ^ 9)) 0 kidLookup 0
          es₁).state.fetchedAt = some t
        ∧ (jwksRun (T := StandardClaims) (issuerCache (10 ^ 9) (10 * 10 ^ 9)) 0 kidLookup 0
          es₁).now ≤ t + max (10 ^ 9) (10 * 10 ^ 9))
    ∧ (∃ set cached, DocumentAt (issuerCache (10 ^ 9) (10 * 10 ^ 9)) 0 kidLookup 0 (es₁ ++ es₂) set
          (jwksRun (T := StandardClaims) (issuerCache (10 ^ 9) (10 * 10 ^ 9)) 0 kidLookup 0
            (es₁ ++ es₂))
        ∧ (jwksRun (T := StandardClaims) (issuerCache (10 ^ 9) (10 * 10 ^ 9)) 0 kidLookup 0
          (es₁ ++ es₂)).state.keys.lookup "k" = some cached ∧ cached.key = .der [1])
    ∧ ((jwksRun (T := StandardClaims) (issuerCache (10 ^ 9) (10 * 10 ^ 9)) 0 kidLookup 0
          (es₁ ++ es₂)).state
          = (jwksRun (T := StandardClaims) (issuerCache (10 ^ 9) (10 * 10 ^ 9)) 0 kidLookup 0
              es₁).state
        ∨ ∃ i ∈ history (taken (jwksStep (issuerCache (10 ^ 9) (10 * 10 ^ 9)) 0 kidLookup)
            (jwksRun (T := StandardClaims) (issuerCache (10 ^ 9) (10 * 10 ^ 9)) 0 kidLookup 0 es₁)
              es₂),
          (jwksRun (T := StandardClaims) (issuerCache (10 ^ 9) (10 * 10 ^ 9)) 0 kidLookup 0
            (es₁ ++ es₂)).state = i.cached) :=
  served_key_bounded _ (10 ^ 9) (10 * 10 ^ 9) 0 kidLookup 0 servedStale 1 (some "k") (.der [1]) rfl
    rfl

end TokenKit
