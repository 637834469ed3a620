import LinkedMarkup.ReferenceError
import LinkedMarkup.ValidationError
/-! Diagnostics: what a run reports about a document, with the error it carries, if any. -/
namespace LinkedMarkup

/-- The error that a diagnostic carries. -/
inductive Cause where
  | reference (error : ReferenceError)
  | validation (error : ValidationError)
  deriving Repr

structure Diagnostic where
  severity : Severity
  code : Code
  message : String
  position : Option Span := none
  file : Option String := none
  cause : Option Cause := none
  deriving Repr

namespace Diagnostic

/-- Unknown positions leave the diagnostic as it is. -/
def placedAt (diagnostic : Diagnostic) (position : Span) : Diagnostic :=
  if position.isUnknown then diagnostic else { diagnostic with position := some position }

/-- The same diagnostic as a warning. -/
def degraded (diagnostic : Diagnostic) : Diagnostic := { diagnostic with severity := .warning }

def ofReference (error : ReferenceError) : Diagnostic :=
  { severity := error.severity, code := error.code, message := error.message,
    cause := some (.reference error) }

def ofValidation (error : ValidationError) : Diagnostic :=
  let diagnostic : Diagnostic :=
    { severity := .error, code := error.code, message := error.message,
      cause := some (.validation error) }
  match error.position? with
  | some position => diagnostic.placedAt position
  | none => diagnostic

def warning (code : Code) (message : String) : Diagnostic :=
  { severity := .warning, code, message }

def text (diagnostic : Diagnostic) : String :=
  let place := match diagnostic.file, diagnostic.position with
    | some file, some position => " " ++ file ++ ":" ++ position.display
    | some file, none => " " ++ file
    | none, some position => " at " ++ position.display
    | none, none => ""
  diagnostic.severity.text ++ " [" ++ diagnostic.code.text ++ "]" ++ place ++ ": "
    ++ diagnostic.message

end Diagnostic
end LinkedMarkup
