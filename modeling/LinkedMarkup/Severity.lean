/-! How grave a diagnostic is, and the stable codes of all diagnostics. -/
namespace LinkedMarkup

inductive Severity where
  /-- Recorded; processing goes on. -/
  | warning
  /-- Ends processing of a strict document, is recorded for a loose one. -/
  | error
  /-- Always ends processing. -/
  | fatal
  deriving DecidableEq, Repr

def Severity.text : Severity → String
  | warning => "warning"
  | error => "error"
  | fatal => "fatal"

inductive Code where
  | syntaxError
  | validation
  | duplicateId
  | referenceNotFound
  | unsupportedProtocol
  | circularReference
  | timeout
  | http
  | transport
  | io
  | decode
  | invalidUri
  | invalidTarget
  | depthExceeded
  | inheritedChildrenDiscarded
  | unknownTag
  | visitor
  deriving DecidableEq, Repr

def Code.text : Code → String
  | syntaxError => "SYNTAX"
  | validation => "VALIDATION"
  | duplicateId => "DUPLICATE_ID"
  | referenceNotFound => "REFERENCE_NOT_FOUND"
  | unsupportedProtocol => "UNSUPPORTED_PROTOCOL"
  | circularReference => "CIRCULAR_REFERENCE"
  | timeout => "TIMEOUT"
  | http => "HTTP_ERROR"
  | transport => "TRANSPORT"
  | io => "IO"
  | decode => "DECODE"
  | invalidUri => "INVALID_URI"
  | invalidTarget => "INVALID_TARGET"
  | depthExceeded => "DEPTH_EXCEEDED"
  | inheritedChildrenDiscarded => "INHERITED_CHILDREN_DISCARDED"
  | unknownTag => "UNKNOWN_TAG"
  | visitor => "VISITOR"

def Code.all : List Code := [syntaxError, validation, duplicateId, referenceNotFound,
  unsupportedProtocol, circularReference, timeout, http, transport, io, decode, invalidUri,
  invalidTarget, depthExceeded, inheritedChildrenDiscarded, unknownTag, visitor]

/-- The code a text names, if it is one. -/
def Code.ofText? (text : String) : Option Code := all.find? (·.text == text)

end LinkedMarkup
