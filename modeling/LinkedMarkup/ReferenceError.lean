import LinkedMarkup.Numeral
import LinkedMarkup.Severity
import LinkedMarkup.Text
/-! What can go wrong while a reference is resolved. `key` is the key of the reference. -/
namespace LinkedMarkup

inductive ReferenceError where
  | notFound (key : String)
  | unsupportedProtocol (protocol key : String)
  /-- The keys of a chain of references that comes back to one of its own keys. -/
  | circular (cycle : List String)
  | timeout (key : String) (milliseconds : Nat)
  | http (key : String) (status : Nat)
  | transport (key detail : String)
  | io (key detail : String)
  | decode (key detail : String)
  | invalidUri (detail : String)
  | invalidTarget (key expected found : String)
  | depthExceeded (key : String) (limit : Nat)
  deriving DecidableEq, Repr

namespace ReferenceError

def message : ReferenceError → String
  | notFound key => "Reference not found: " ++ key
  | unsupportedProtocol protocol key =>
    "No protocol handler for '" ++ protocol ++ "' (in " ++ key ++ ")"
  | circular cycle => "Circular reference detected: " ++ Text.join " -> " cycle
  | timeout key milliseconds =>
    "Resolution of " ++ key ++ " timed out after " ++ Numeral.text milliseconds ++ "ms"
  | http key status => "HTTP error " ++ Numeral.text status ++ " while fetching " ++ key
  | transport key detail => "Transport error while fetching " ++ key ++ ": " ++ detail
  | io key detail => "IO error while reading " ++ key ++ ": " ++ detail
  | decode key detail => "Failed to decode content of " ++ key ++ ": " ++ detail
  | invalidUri detail => "Invalid URI: " ++ detail
  | invalidTarget key expected found => key ++ " resolved to " ++ found ++ ", expected " ++ expected
  | depthExceeded key limit =>
    "Resolution depth exceeded " ++ Numeral.text limit ++ " levels at " ++ key

/-- The failure belongs to the chain of references that led to the key, not to the key: another
chain may resolve the key, so such a failure is not remembered. -/
def isPathDependent : ReferenceError → Bool
  | circular _ => true
  | depthExceeded _ _ => true
  | _ => false

/-- Cycles and chains that are too deep always end processing. -/
def severity (error : ReferenceError) : Severity :=
  if error.isPathDependent then .fatal else .error

def code : ReferenceError → Code
  | notFound _ => .referenceNotFound
  | unsupportedProtocol _ _ => .unsupportedProtocol
  | circular _ => .circularReference
  | timeout _ _ => .timeout
  | http _ _ => .http
  | transport _ _ => .transport
  | io _ _ => .io
  | decode _ _ => .decode
  | invalidUri _ => .invalidUri
  | invalidTarget _ _ _ => .invalidTarget
  | depthExceeded _ _ => .depthExceeded

end ReferenceError
end LinkedMarkup
