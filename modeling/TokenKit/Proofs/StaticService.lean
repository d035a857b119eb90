import TokenKit.Proofs.StaticKeys
import TokenKit.Proofs.Reading

/-!
# A static set and a service with rotation keys

The keys of a service can be served from a static set instead, each under its key id. Of a token
that names a key id, a `decode` on the set makes what the service makes of it, down to the error, as
long as the set is young enough to be read; and where the service knows no such key neither accepts
it (`static_set_reads_as_service`).
-/

namespace TokenKit

open StepMachine JwksWorld JwtService

variable {B : Backend} {T : Type} [DeserializeOwned T]

/-- The set has the keys of the service that have a key id, of two with one id the first. -/
def ServesKeys (candidates : List (Option String × B.DecodingKey))
    (keys : AList fun _ : String => B.DecodingKey) : Prop :=
  ∀ kid, keys.lookup kid
    = (candidates.find? fun candidate => candidate.1 = some kid).map Prod.snd

section Reading

variable {service : JwtService} {candidates : List (Option String × B.DecodingKey)}
  {keys : AList fun _ : String => B.DecodingKey} {token : B.Token} {validation : Validation}
  {kid : String} {secs : ℤ}

/-- A static key pins no algorithm. -/
theorem decodeWith_static {header : Header} (hheader : B.decodeHeader token = .ok header)
    (key : B.DecodingKey) :
    (JwksLookup.decodeWith token validation secs ⟨key, none⟩ : Except JwtError T)
      = (B.decode token key validation secs).mapError .decodingFailed := by
  unfold JwksLookup.decodeWith
  rw [hheader]
  rfl

/-- What the set resolves, read, is what the service reads. -/
theorem decodeWith_eq_service (hcandidates : service.decodingKeys B = .ok candidates)
    (hserves : ServesKeys candidates keys) {header : Header}
    (hheader : B.decodeHeader token = .ok header) (hkid : header.kid = some kid)
    {key : B.DecodingKey} (hkey : keys.lookup kid = some key) :
    (JwksLookup.decodeWith token service.config.buildValidation secs ⟨key, none⟩ :
        Except JwtError T) = service.decode B true token secs := by
  have hnamed : kidOf B token = some kid := (kidOf_of_header hheader).trans hkid
  rw [hserves, Option.map_eq_some_iff] at hkey
  obtain ⟨⟨id, found⟩, hfind, rfl⟩ := hkey
  obtain rfl : id = some kid := by simpa using List.find?_some hfind
  unfold JwtService.decode
  rw [decodeWith_static hheader, if_pos rfl, decodeWithRotation_of_kid hcandidates hnamed hfind]

theorem service_error_of_lookup (hcandidates : service.decodingKeys B = .ok candidates)
    (hserves : ServesKeys candidates keys) {header : Header}
    (hheader : B.decodeHeader token = .ok header) (hkid : header.kid = some kid)
    (hkey : keys.lookup kid = none) :
    (service.decode B true token secs : Except JwtError T)
      = .error (.decodingFailed s!"token references unknown key id `{kid}`") := by
  have hnamed : kidOf B token = some kid := (kidOf_of_header hheader).trans hkid
  rw [hserves, Option.map_eq_none_iff] at hkey
  unfold JwtService.decode
  rw [if_pos rfl, decodeWithRotation_of_unknown hcandidates hnamed hkey]

end Reading

theorem static_run {keys : AList fun _ : String => B.DecodingKey} {builtAt ttl interval boot : ℕ}
    {calls : ℕ → JwksCall B} (es : List (JwksEvent B)) :
    Static keys builtAt (run (jwksStep (staticCache keys builtAt ttl interval) boot calls)
      (freshCache (staticCache keys builtAt ttl interval) builtAt : JwksWorld B T) es) :=
  run_inv _ (P := Static keys builtAt) (fun _ e h => static_jwksStep calls e h) es
    (static_freshCache keys builtAt ttl interval)

/-- Whatever else was called on a static set of a service's keys, and as long as the set is younger
than its time to live, `decode` of a token that names a key id returns what the service returns if
the service has the key, and an error, as the service does, if it does not. -/
theorem static_set_reads_as_service (keys : AList fun _ : String => B.DecodingKey)
    (builtAt ttl interval boot : ℕ) (calls : ℕ → JwksCall B) (es : List (JwksEvent B))
    (service : JwtService) (candidates : List (Option String × B.DecodingKey))
    (hcandidates : service.decodingKeys B = .ok candidates)
    (hserves : ServesKeys candidates keys) (token : B.Token) (header : Header) (kid : String)
    (hheader : B.decodeHeader token = .ok header) (hkid : header.kid = some kid) :
    ∀ x ∈ taken (jwksStep (staticCache keys builtAt ttl interval) boot calls)
        (freshCache (staticCache keys builtAt ttl interval) builtAt : JwksWorld B T) es,
      ∀ c, x.2 = .step c →
        calls c = .lookup (.decode token service.config.buildValidation) → x.1.pc c = .started →
        x.1.now - builtAt < ttl →
        ∃ result, (jwksStep (staticCache keys builtAt ttl interval) boot calls x.1 x.2).pc c
            = .returned (.claims result)
          ∧ (keys.lookup kid ≠ none →
            result = service.decode B true token ((boot + x.1.now) / 10 ^ 9 : ℕ))
          ∧ ∀ claims, result = .ok claims
            ↔ service.decode B true token ((boot + x.1.now) / 10 ^ 9 : ℕ) = .ok claims := by
  intro x hx c hstep hcall hpc hyoung
  obtain ⟨es₁, -, -, hx⟩ := (mem_taken _).1 hx
  have h : Static keys builtAt x.1 := hx ▸ static_run es₁
  set cache := staticCache keys builtAt ttl interval with hcache
  have hwant : (JwksLookup.decode token service.config.buildValidation).want = .ok kid := by
    simp only [JwksLookup.want, hheader, hkid, Option.getD_some]
  have hret : jwksStep cache boot calls x.1 x.2
      = x.1.answered boot c (.decode token service.config.buildValidation)
        (resolvedStatic cache x.1 kid) := by
    rw [hstep]
    simp only [jwksStep, callSection, hpc, hcall, start, hwant]
    exact resolveKey_static cache rfl c _ kid
  have hfresh := h.freshHit ttl interval kid
  rw [← hcache, if_pos hyoung] at hfresh
  refine ⟨_, (congrArg (fun w : JwksWorld B T => w.pc c) hret).trans (Function.update_self _ _ _),
    ?_⟩
  rcases hkey : keys.lookup kid with _ | key
  · have hresolved : resolvedStatic cache x.1 kid
        = .error (.jwks s!"unknown key id `{kid}` in static key set") := by
      unfold resolvedStatic
      rw [hfresh, hkey]
      rfl
    rw [hresolved, service_error_of_lookup hcandidates hserves hheader hkid hkey]
    simp [Except.bind]
  · have hresolved : resolvedStatic cache x.1 kid = .ok ⟨key, none⟩ := by
      unfold resolvedStatic
      rw [hfresh, hkey]
      rfl
    have hsame : (JwksLookup.decodeWith token service.config.buildValidation
        ((boot + x.1.now) / 10 ^ 9 : ℕ) ⟨key, none⟩ : Except JwtError T)
          = service.decode B true token ((boot + x.1.now) / 10 ^ 9 : ℕ) :=
      decodeWith_eq_service hcandidates hserves hheader hkid hkey
    rw [hresolved]
    exact ⟨fun _ => hsame, fun claims => by rw [← hsame]; rfl⟩

/-- The service of the one key of `onlyKey`, and a token of its. -/
def onlyKeyService : JwtService :=
  .new { JwtConfig.default with secret := "static-secret", keyId := some "only-key" }

def onlyKeyToken : TransparentToken where
  header := { alg := .HS256, kid := some "only-key" }
  payload := .obj [("exp", .int 4600), ("iss", .str "issuer")]
  signer := .secret "static-secret"

theorem onlyKey_servesKeys :
    ServesKeys (B := transparentBackend) [(some "only-key", .secret "static-secret")] onlyKey := by
  intro kid
  by_cases hkid : kid = "only-key"
  · subst hkid
    rfl
  · have hnone : onlyKey.lookup kid = none := by
      rw [AList.lookup_eq_none]
      intro hmem
      exact hkid (List.mem_singleton.1 hmem)
    have hne : ¬ "only-key" = kid := fun h => hkid h.symm
    rw [hnone]
    simp [hne]

theorem static_set_reads_as_service_once :
    ∃ result, (jwksStep (staticCache onlyKey 0 DEFAULT_TTL DEFAULT_MIN_REFRESH_INTERVAL)
        (1000 * 10 ^ 9)
        (fun _ => .lookup (.decode onlyKeyToken onlyKeyService.config.buildValidation))
        (freshCache (staticCache onlyKey 0 DEFAULT_TTL DEFAULT_MIN_REFRESH_INTERVAL) 0 :
          JwksWorld transparentBackend StandardClaims) (.step 0)).pc 0 = .returned (.claims result)
      ∧ (onlyKey.lookup "only-key" ≠ none →
        result = onlyKeyService.decode transparentBackend true onlyKeyToken 1000)
      ∧ ∀ claims, result = .ok claims
        ↔ onlyKeyService.decode transparentBackend true onlyKeyToken 1000 = .ok claims :=
  static_set_reads_as_service onlyKey 0 DEFAULT_TTL DEFAULT_MIN_REFRESH_INTERVAL
    (1000 * 10 ^ 9) _ [.step 0]
    onlyKeyService _ rfl onlyKey_servesKeys onlyKeyToken _ "only-key" rfl rfl
    (freshCache (staticCache onlyKey 0 DEFAULT_TTL DEFAULT_MIN_REFRESH_INTERVAL) 0, .step 0)
    List.mem_cons_self 0 rfl rfl rfl (by decide)

end TokenKit
