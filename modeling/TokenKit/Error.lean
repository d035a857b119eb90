import Mathlib.Init

/-!
# Errors

The errors of the token service and of the key cache. An error that passes on a message of the
backend, of the HTTP client or of the JSON reader carries that message's text.
-/

namespace TokenKit

inductive JwtError where
  | encodingFailed
  | decodingFailed (text : String)
  | expired
  | invalidSignature
  | revoked
  | invalidSecret (text : String)
  | keyLoading (text : String)
  | jwks (text : String)
  | algorithmMismatch (tokenAlg keyAlg : String)
  deriving DecidableEq

end TokenKit
