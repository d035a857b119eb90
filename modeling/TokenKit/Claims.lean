import TokenKit.Lib.AssocList
import Mathlib.Algebra.Ring.Int.Defs
import Mathlib.Algebra.Ring.Nat

/-!
# Claims

A token's payload is a JSON object. `StandardClaims` is the typed view of one: eight fields that are
left out when unset, and a map of all other members, written beside the fields. The writer does not
look whether the map repeats the name of a field. The reader gives a member that has a field's name
to the field, fails on a second one, and reads `exp` and `iat` from whole numbers of seconds only.

Instants of the wall clock are `DateTime`s, in nanoseconds since the epoch and within the range
`chrono` represents.
-/

namespace TokenKit

/-! ## JSON -/

/-- A JSON text. An object keeps its members as written, a repeated name included. -/
inductive Json where
  | null
  | bool (b : Bool)
  | int (n : ℤ)
  | frac (q : Rat)
  | str (s : String)
  | arr (elements : List Json)
  | obj (members : List (String × Json))

/-- A type `serde` writes; `none` where the writer fails. -/
class Serialize (T : Type) where
  serialize : T → Option Json

/-- A type `serde` reads; `none` where the reader fails. -/
class DeserializeOwned (T : Type) where
  deserialize : Json → Option T

export Serialize (serialize)
export DeserializeOwned (deserialize)

instance : DeserializeOwned Json where
  deserialize := some

/-- The type that reads anything, and keeps nothing of it. -/
inductive IgnoredAny where
  | ignored

instance : DeserializeOwned IgnoredAny where
  deserialize _ := some .ignored

/-! ## The wall clock -/

/-- The first instant of `chrono`'s range, in nanoseconds since the epoch. -/
def MIN_UTC : ℤ := -8334601228800 * 10 ^ 9

def MAX_UTC : ℤ := 8210266876799 * 10 ^ 9 + 999999999

structure DateTime where
  nanos : ℤ
  min_le : MIN_UTC ≤ nanos
  le_max : nanos ≤ MAX_UTC

/-- What `Utc::now` returns, which the system clock gives as a span since the epoch. -/
structure UtcNow extends DateTime where
  nonneg : 0 ≤ nanos

/-- The longest `Duration` in seconds: `i64::MAX / 1000`. -/
def MAX_DURATION_SECS : ℕ := 9223372036854775

/-- A span of nanoseconds; `none` where `Duration::seconds` panics. -/
def durationSeconds (secs : ℤ) : Option ℤ :=
  if secs.natAbs ≤ MAX_DURATION_SECS then some (secs * 10 ^ 9) else none

namespace DateTime

def ofNanos (nanos : ℤ) : Option DateTime :=
  if h : MIN_UTC ≤ nanos ∧ nanos ≤ MAX_UTC then some ⟨nanos, h.1, h.2⟩ else none

/-- The sum with a `Duration`; `none` where it panics. -/
def add (t : DateTime) (d : ℤ) : Option DateTime := ofNanos (t.nanos + d)

def timestamp (t : DateTime) : ℤ := t.nanos / 10 ^ 9

def ofTimestamp (secs : ℤ) : Option DateTime := ofNanos (secs * 10 ^ 9)

/-- The instant with its fraction of a second dropped. -/
def truncSecs (t : DateTime) : DateTime where
  nanos := t.timestamp * 10 ^ 9
  min_le := by
    have := t.min_le
    unfold MIN_UTC at this ⊢
    unfold timestamp
    omega
  le_max := by
    have := t.le_max
    unfold timestamp
    omega

end DateTime

/-! ## Standard claims -/

structure StandardClaims where
  sub : Option String
  iss : Option String
  aud : Option String
  exp : Option DateTime
  iat : Option DateTime
  jti : Option String
  role : Option String
  permissions : List String
  extra : AList fun _ : String => Json

def TYPED_FIELDS : List String := ["sub", "iss", "aud", "exp", "iat", "jti", "role", "permissions"]

namespace StandardClaims

def default : StandardClaims where
  sub := none
  iss := none
  aud := none
  exp := none
  iat := none
  jti := none
  role := none
  permissions := []
  extra := ∅

/-- The typed fields in the order of the struct, with what each is written as, if it is. -/
def fields (claims : StandardClaims) : List (String × Option Json) :=
  [("sub", claims.sub.map .str),
   ("iss", claims.iss.map .str),
   ("aud", claims.aud.map .str),
   ("exp", claims.exp.map fun t => .int t.timestamp),
   ("iat", claims.iat.map fun t => .int t.timestamp),
   ("jti", claims.jti.map .str),
   ("role", claims.role.map .str),
   ("permissions",
     if claims.permissions.isEmpty then none else some (.arr (claims.permissions.map .str)))]

def written (fields : List (String × Option Json)) : List (String × Json) :=
  fields.filterMap fun f => f.2.map fun v => (f.1, v)

/-- The members of the written object: the fields that are set, then the map. -/
def members (claims : StandardClaims) : List (String × Json) :=
  written claims.fields ++ claims.extra.entries.map fun e => (e.1, e.2)

instance : Serialize StandardClaims where
  serialize claims := some (.obj claims.members)

/-- The member that a typed field reads: `none` when it is missing, a failure when repeated. -/
def typedField (members : List (String × Json)) (name : String) : Option (Option Json) :=
  match members.filter fun m => m.1 = name with
  | [] => some none
  | [m] => some (some m.2)
  | _ => none

def readString : Option Json → Option (Option String)
  | none => some none
  | some .null => some none
  | some (.str s) => some (some s)
  | some _ => none

/-- `ts_seconds_option`. -/
def readTimestamp : Option Json → Option (Option DateTime)
  | none => some none
  | some .null => some none
  | some (.int secs) => (DateTime.ofTimestamp secs).map some
  | some _ => none

def stringOf : Json → Option String
  | .str s => some s
  | _ => none

def readStrings : Option Json → Option (List String)
  | none => some []
  | some (.arr elements) => elements.mapM stringOf
  | some _ => none

/-- The members no typed field takes, as a map; of a repeated name the last member counts. -/
def collectExtra : List (String × Json) → AList fun _ : String => Json
  | [] => ∅
  | m :: members =>
    let extra := collectExtra members
    if m.1 ∈ TYPED_FIELDS ∨ m.1 ∈ extra then extra else extra.insert m.1 m.2

instance : DeserializeOwned StandardClaims where
  deserialize
    | .obj members => do
      let sub ← readString (← typedField members "sub")
      let iss ← readString (← typedField members "iss")
      let aud ← readString (← typedField members "aud")
      let exp ← readTimestamp (← typedField members "exp")
      let iat ← readTimestamp (← typedField members "iat")
      let jti ← readString (← typedField members "jti")
      let role ← readString (← typedField members "role")
      let permissions ← readStrings (← typedField members "permissions")
      return { sub, iss, aud, exp, iat, jti, role, permissions, extra := collectExtra members }
    | _ => none

end StandardClaims

end TokenKit
