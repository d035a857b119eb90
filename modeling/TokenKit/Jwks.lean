import TokenKit.Backend
import TokenKit.Error
import Mathlib.Logic.Function.Basic

/-!
# The JWKS cache

A cache holds the keys of the last document it installed, and when it did. Instants are readings of
the monotonic clock and durations spans of it, in nanoseconds; the system clock, which the backend
reads, is `boot` nanoseconds ahead of it.

Any number of calls are under way at once. A call runs in sections, each of which reads or writes
the cache under its lock and runs alone; between two sections of a call any others may run and time
may pass. A look-up that finds no fresh key takes the refresh lock, and holds it until its refresh
has returned; a forced refresh does not take it. `jwksStep` is one section of one call, the arrival
of a response, or time passing.
-/

namespace TokenKit

/-! ## Algorithms and keys -/

inductive KeyAlgorithm where
  | HS256 | HS384 | HS512 | ES256 | ES384 | RS256 | RS384 | RS512 | PS256 | PS384 | PS512 | EdDSA
  | RSA1_5 | RSA_OAEP | RSA_OAEP_256 | UNKNOWN_ALGORITHM
  deriving DecidableEq

namespace KeyAlgorithm

def ofAlgorithm : Algorithm → KeyAlgorithm
  | .HS256 => HS256
  | .HS384 => HS384
  | .HS512 => HS512
  | .ES256 => ES256
  | .ES384 => ES384
  | .RS256 => RS256
  | .RS384 => RS384
  | .RS512 => RS512
  | .PS256 => PS256
  | .PS384 => PS384
  | .PS512 => PS512
  | .EdDSA => EdDSA

/-- The name that `Debug` prints; an `Algorithm` prints as the key algorithm it is. -/
def debug : KeyAlgorithm → String
  | HS256 => "HS256"
  | HS384 => "HS384"
  | HS512 => "HS512"
  | ES256 => "ES256"
  | ES384 => "ES384"
  | RS256 => "RS256"
  | RS384 => "RS384"
  | RS512 => "RS512"
  | PS256 => "PS256"
  | PS384 => "PS384"
  | PS512 => "PS512"
  | EdDSA => "EdDSA"
  | RSA1_5 => "RSA1_5"
  | RSA_OAEP => "RSA_OAEP"
  | RSA_OAEP_256 => "RSA_OAEP_256"
  | UNKNOWN_ALGORITHM => "UNKNOWN_ALGORITHM"

end KeyAlgorithm

def DEFAULT_TTL : ℕ := 600 * 10 ^ 9

def DEFAULT_MIN_REFRESH_INTERVAL : ℕ := 10 * 10 ^ 9

def isFresh (now : ℕ) (fetchedAt : Option ℕ) (ttl : ℕ) : Bool :=
  fetchedAt.any fun fetched => now - fetched < ttl

variable (B : Backend)

/-- A key, and the algorithm its JWK named. -/
structure CachedKey where
  key : B.DecodingKey
  alg : Option KeyAlgorithm

structure CachedKeys where
  keys : AList fun _ : String => CachedKey B
  fetchedAt : Option ℕ

structure Jwk where
  keyId : Option String
  keyAlgorithm : Option KeyAlgorithm
  parameters : B.JwkParameters

/-! ## Documents -/

/-- The map so far, with a key of the document added under its id if the key can be converted. -/
def addJwk (keys : AList fun _ : String => CachedKey B) (jwk : Jwk B) :
    AList fun _ : String => CachedKey B :=
  match B.decodingFromJwk jwk.parameters with
  | .ok key => keys.insert (jwk.keyId.getD "") { key, alg := jwk.keyAlgorithm }
  | .error _ => keys

def buildKeyMap (set : List (Jwk B)) : Except JwtError (AList fun _ : String => CachedKey B) :=
  let keys := set.foldl (addJwk B) ∅
  if keys.keys.isEmpty then .error (.jwks "JWKS document contained no usable keys") else .ok keys

inductive FetchOutcome where
  | sendFailed (text : String)
  | errorStatus (text : String)
  | invalidDocument (text : String)
  | document (set : List (Jwk B))

/-- The part of `refresh` from the response to the key map. -/
def keysOfResponse (url : String) :
    FetchOutcome B → Except JwtError (AList fun _ : String => CachedKey B)
  | .sendFailed e => .error (.jwks s!"fetch failed for {url}: {e}")
  | .errorStatus e => .error (.jwks s!"JWKS endpoint returned an error: {e}")
  | .invalidDocument e => .error (.jwks s!"invalid JWKS document: {e}")
  | .document set => buildKeyMap B set

/-! ## The cache -/

/-- A cache as it is built: its settings, and the keys it starts with. -/
structure JwksCache where
  url : String
  ttl : ℕ
  minRefreshInterval : ℕ
  state : CachedKeys B
  staticKeys : Bool

namespace JwksCache

variable {B}

def new (url : String) : JwksCache B where
  url := url
  ttl := DEFAULT_TTL
  minRefreshInterval := DEFAULT_MIN_REFRESH_INTERVAL
  state := ⟨∅, none⟩
  staticKeys := false

def fromStaticKeys (keys : AList fun _ : String => B.DecodingKey) (now : ℕ) : JwksCache B where
  url := ""
  ttl := DEFAULT_TTL
  minRefreshInterval := DEFAULT_MIN_REFRESH_INTERVAL
  state := ⟨keys.mapValues fun key => ⟨key, none⟩, some now⟩
  staticKeys := true

def withTtl (cache : JwksCache B) (ttl : ℕ) : JwksCache B := { cache with ttl }

def withMinRefreshInterval (cache : JwksCache B) (interval : ℕ) : JwksCache B :=
  { cache with minRefreshInterval := interval }

end JwksCache

/-! ## Calls -/

inductive JwksLookup where
  | decodingKey (kid : Option String)
  | decode (token : B.Token) (validation : Validation)

inductive JwksCall where
  | lookup (look : JwksLookup B)
  | refresh

/-- What a call returns; `decode` returns claims of type `T`. -/
inductive JwksAnswer (T : Type) where
  | key (result : Except JwtError B.DecodingKey)
  | claims (result : Except JwtError T)
  | refreshed (result : Except JwtError Unit)

/-- Where a call is: before its first section, waiting for the refresh lock, before it asks under
that lock whether another call has refreshed, waiting for a response, before it installs the keys of
one, before its second look-up, or past its last section. -/
inductive JwksPc (T : Type) where
  | started
  | waiting
  | checking
  | fetching
  | installing (keys : AList fun _ : String => CachedKey B)
  | looking
  | returned (answer : JwksAnswer B T)

/-- The shared state: the keys, the holder of the refresh lock and the clock; where every call is;
and every request made, as who made it and when. -/
structure JwksWorld (T : Type) where
  state : CachedKeys B
  refreshLock : Option ℕ
  now : ℕ
  pc : ℕ → JwksPc B T
  fetches : List (ℕ × ℕ)

inductive JwksEvent where
  | step (c : ℕ)
  | respond (c : ℕ) (outcome : FetchOutcome B)
  | tick (d : ℕ)

/-! ## Sections -/

section Sections

variable {B} {T : Type} [DeserializeOwned T] (cache : JwksCache B) (boot : ℕ)

namespace JwksLookup

/-- The key id to look up: the one given, or the one the token's header names. -/
def want : JwksLookup B → Except JwtError String
  | .decodingKey kid => .ok (kid.getD "")
  | .decode token _ =>
    match B.decodeHeader token with
    | .ok header => .ok (header.kid.getD "")
    | .error e => .error (.decodingFailed e)

/-- The part of `decode` from the resolved key on: the pin, then the backend. -/
def decodeWith (token : B.Token) (validation : Validation) (secs : ℤ) (cached : CachedKey B) :
    Except JwtError T := do
  let header ← (B.decodeHeader token).mapError .decodingFailed
  let tokenAlg := KeyAlgorithm.ofAlgorithm header.alg
  match cached.alg with
  | some keyAlg =>
    if keyAlg ≠ tokenAlg then throw (.algorithmMismatch tokenAlg.debug keyAlg.debug)
  | none => pure ()
  (B.decode token cached.key validation secs).mapError .decodingFailed

def answer (look : JwksLookup B) (now : ℕ) (resolved : Except JwtError (CachedKey B)) :
    JwksAnswer B T :=
  match look with
  | .decodingKey _ => .key (resolved.map CachedKey.key)
  | .decode token validation =>
    .claims (resolved.bind (decodeWith token validation ((boot + now) / 10 ^ 9 : ℕ)))

end JwksLookup

namespace JwksWorld

def goto (w : JwksWorld B T) (c : ℕ) (pc : JwksPc B T) : JwksWorld B T :=
  { w with pc := Function.update w.pc c pc }

/-- A look-up returns, with what it makes of what it resolved. -/
def answered (w : JwksWorld B T) (c : ℕ) (look : JwksLookup B)
    (resolved : Except JwtError (CachedKey B)) : JwksWorld B T :=
  w.goto c (.returned (look.answer boot w.now resolved))

/-- `refresh` returns: a forced one to its caller, another one to its look-up, which lets go of the
refresh lock and looks up again unless the refresh failed. -/
def refreshReturned (w : JwksWorld B T) (c : ℕ) (call : JwksCall B)
    (result : Except JwtError Unit) : JwksWorld B T :=
  match call with
  | .refresh => w.goto c (.returned (.refreshed result))
  | .lookup look =>
    match result with
    | .ok () => { w with refreshLock := none }.goto c .looking
    | .error e => { w with refreshLock := none }.answered boot c look (.error e)

/-- `refresh` up to its request. -/
def refresh (w : JwksWorld B T) (c : ℕ) (call : JwksCall B) : JwksWorld B T :=
  if cache.url.isEmpty then
    w.refreshReturned boot c call (.error (.jwks "no JWKS URL configured (static key set)"))
  else { w with fetches := w.fetches ++ [(c, w.now)] }.goto c .fetching

def freshHit (w : JwksWorld B T) (want : String) : Option (CachedKey B) :=
  if isFresh w.now w.state.fetchedAt cache.ttl then w.state.keys.lookup want else none

/-- The first section of `resolve_key`: a fresh hit, or the end for a static set. -/
def resolveKey (w : JwksWorld B T) (c : ℕ) (look : JwksLookup B) (want : String) :
    JwksWorld B T :=
  match w.freshHit cache want with
  | some cached => w.answered boot c look (.ok cached)
  | none =>
    if cache.staticKeys then
      w.answered boot c look (.error (.jwks s!"unknown key id `{want}` in static key set"))
    else w.goto c .waiting

def lookAgain (w : JwksWorld B T) (c : ℕ) (look : JwksLookup B) : JwksWorld B T :=
  w.answered boot c look do
    let want ← look.want
    match w.state.keys.lookup want with
    | some cached => return cached
    | none => throw (.jwks s!"unknown key id `{want}` after JWKS refresh")

def start (w : JwksWorld B T) (c : ℕ) : JwksCall B → JwksWorld B T
  | .refresh => w.refresh cache boot c .refresh
  | .lookup look =>
    match look.want with
    | .ok want => w.resolveKey cache boot c look want
    | .error e => w.answered boot c look (.error e)

/-- The next section of a call. One that waits for a response or has returned does nothing, and a
forced refresh neither waits for the lock nor looks up. -/
def callSection (w : JwksWorld B T) (c : ℕ) (call : JwksCall B) : JwksWorld B T :=
  match w.pc c, call with
  | .started, call => w.start cache boot c call
  | .waiting, _ =>
    if w.refreshLock.isNone then { w with refreshLock := some c }.goto c .checking else w
  | .checking, call =>
    if isFresh w.now w.state.fetchedAt cache.minRefreshInterval then
      w.refreshReturned boot c call (.ok ())
    else w.refresh cache boot c call
  | .installing keys, call =>
    { w with state := ⟨keys, some w.now⟩ }.refreshReturned boot c call (.ok ())
  | .looking, .lookup look => w.lookAgain boot c look
  | _, _ => w

def respond (w : JwksWorld B T) (c : ℕ) (call : JwksCall B) (outcome : FetchOutcome B) :
    JwksWorld B T :=
  match w.pc c with
  | .fetching =>
    match keysOfResponse B cache.url outcome with
    | .ok keys => w.goto c (.installing keys)
    | .error e => w.refreshReturned boot c call (.error e)
  | _ => w

end JwksWorld

def jwksStep (calls : ℕ → JwksCall B) (w : JwksWorld B T) : JwksEvent B → JwksWorld B T
  | .step c => w.callSection cache boot c (calls c)
  | .respond c outcome => w.respond cache boot c (calls c) outcome
  | .tick d => { w with now := w.now + d }

def freshCache (now : ℕ) : JwksWorld B T where
  state := cache.state
  refreshLock := none
  now := now
  pc _ := .started
  fetches := []

end Sections

end TokenKit
