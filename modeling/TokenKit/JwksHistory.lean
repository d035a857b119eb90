import TokenKit.Jwks
import TokenKit.Lib.StepMachine

/-!
# What a cache is for

The abstract cache is the history of its installations: which call installed which keys, and when.
It holds what was installed last (`cacheOf`), and what is installed is the key map of a document
that answered the call's own request (`DocumentAt`).
-/

namespace TokenKit

open StepMachine

variable {B : Backend} {T : Type}

/-- A cache over a URL, with its settings. -/
def urlCache (url : String) (ttl interval : ℕ) : JwksCache B :=
  ((JwksCache.new url).withTtl ttl).withMinRefreshInterval interval

section Runs

variable [DeserializeOwned T] (cache : JwksCache B) (boot : ℕ) (calls : ℕ → JwksCall B) (now : ℕ)

/-- The world after the events, from a cache just built. -/
def jwksRun (es : List (JwksEvent B)) : JwksWorld B T :=
  run (jwksStep cache boot calls) (freshCache cache now) es

/-- The steps along the events, each with the world it finds. -/
def jwksSteps (es : List (JwksEvent B)) : List (JwksWorld B T × JwksEvent B) :=
  taken (jwksStep cache boot calls) (freshCache cache now) es

end Runs

/-! ## Installations -/

/-- A call installs keys at an instant. -/
structure Install (B : Backend) where
  call : ℕ
  keys : AList fun _ : String => CachedKey B
  time : ℕ

/-- What the cache holds from then on. -/
def Install.cached (i : Install B) : CachedKeys B := ⟨i.keys, some i.time⟩

def installOf (x : JwksWorld B T × JwksEvent B) : Option (Install B) :=
  match x.2 with
  | .step c =>
    match x.1.pc c with
    | .installing keys => some ⟨c, keys, x.1.now⟩
    | _ => none
  | _ => none

/-- The installations among the steps. -/
def history (steps : List (JwksWorld B T × JwksEvent B)) : List (Install B) :=
  steps.filterMap installOf

/-- What a cache that started with `initial` holds after the installations. -/
def cacheOf (initial : CachedKeys B) (installs : List (Install B)) : CachedKeys B :=
  (installs.getLast?.map Install.cached).getD initial

/-- The installation's keys are those of the document, which was the response to the call. -/
def InstalledFrom (es : List (JwksEvent B)) (i : Install B) (set : List (Jwk B)) : Prop :=
  .respond i.call (.document set) ∈ es ∧ buildKeyMap B set = .ok i.keys

/-- After the events the document is installed: the last installation was of it. -/
def DocumentAt [DeserializeOwned T] (cache : JwksCache B) (boot : ℕ) (calls : ℕ → JwksCall B)
    (now : ℕ) (es : List (JwksEvent B)) (set : List (Jwk B)) (w : JwksWorld B T) : Prop :=
  ∃ i ∈ (history (jwksSteps (T := T) cache boot calls now es)).getLast?,
    InstalledFrom es i set ∧ w.state = i.cached

/-! ## Calls -/

/-- The call that the event is about. -/
def JwksEvent.caller : JwksEvent B → Option ℕ
  | .step c => some c
  | .respond c _ => some c
  | .tick _ => none

/-- Call `c` is under way: it has made its first section or makes it next, and has not returned. -/
def UnderWay (w : JwksWorld B T) (c : ℕ) (next : List (JwksEvent B)) : Prop :=
  match w.pc c with
  | .started => next.head? = some (.step c)
  | .returned _ => False
  | _ => True

/-! ## Requests -/

def JwksCall.isLookup : JwksCall B → Bool
  | .lookup _ => true
  | .refresh => false

/-- How many requests look-ups have made. -/
def lookupRequests (calls : ℕ → JwksCall B) (w : JwksWorld B T) : ℕ :=
  w.fetches.countP fun fetch => (calls fetch.1).isLookup

/-- In this step the request of a look-up turns out to have failed. -/
def failsLookup (cache : JwksCache B) (calls : ℕ → JwksCall B)
    (x : JwksWorld B T × JwksEvent B) : Bool :=
  match x.2 with
  | .respond c outcome =>
    match x.1.pc c, calls c, keysOfResponse B cache.url outcome with
    | .fetching, .lookup _, .error _ => true
    | _, _, _ => false
  | _ => false

end TokenKit
