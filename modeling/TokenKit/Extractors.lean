import TokenKit.Lib.Fields

/-!
# Headers

`extractBearerToken` reads the token of an `Authorization` header. `buildAuthCookie` writes a
`Set-Cookie` header; `readCookie` says what a user agent takes such a header for: fields between
semicolons, the first of them the cookie's name and value, the others its attributes.
-/

namespace TokenKit

open Fields

/-- `char::is_whitespace`: the characters Unicode counts as white space. -/
def isWhitespace (c : Char) : Bool :=
  decide (0x9 ≤ c.toNat ∧ c.toNat ≤ 0xD ∨ 0x2000 ≤ c.toNat ∧ c.toNat ≤ 0x200A)
    || [0x20, 0x85, 0xA0, 0x1680, 0x2028, 0x2029, 0x202F, 0x205F, 0x3000].contains c.toNat

def extractBearerToken (authorization : String) : Option String :=
  ((authorization.toList.dropPrefix? "Bearer ".toList).map
    fun t => String.ofList (trim isWhitespace t)).filter fun t => !t.isEmpty

def buildAuthCookie (name value : String) (maxAgeSecs : ℤ) (secure : Bool) : String :=
  let cookie := s!"{name}={value}; Max-Age={maxAgeSecs}; Path=/; HttpOnly; SameSite=Strict"
  if secure then cookie ++ "; Secure" else cookie

/-! ## What a user agent reads -/

structure Cookie where
  name : String
  value : String
  attributes : List (String × String)
  deriving DecidableEq

def isBlank (c : Char) : Bool := c == ' ' || c == '\t'

def readField (field : List Char) : String × String :=
  (.ofList (trim isBlank (cut '=' field).1), .ofList (trim isBlank (cut '=' field).2))

/-- How a user agent parses a cookie header, as the standard for `Set-Cookie` has it: the header is
split at its semicolons, each field at its first equals sign, and blanks are trimmed. A header whose
first field names no cookie is ignored. A user agent also refuses control characters, cookies that
are too long and names with a reserved prefix, which are not modelled. -/
def readCookie (header : String) : Option Cookie :=
  match header.toList.splitOn ';' with
  | [] => none
  | pair :: attributes =>
    if '=' ∈ pair ∧ (readField pair).1 ≠ "" then
      some ⟨(readField pair).1, (readField pair).2, attributes.map readField⟩
    else none

/-- The attributes `build_auth_cookie` writes. -/
def authAttributes (maxAgeSecs : ℤ) (secure : Bool) : List (String × String) :=
  [("Max-Age", toString maxAgeSecs), ("Path", "/"), ("HttpOnly", ""), ("SameSite", "Strict")]
    ++ if secure then [("Secure", "")] else []

end TokenKit
