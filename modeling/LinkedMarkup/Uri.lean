import LinkedMarkup.Text
/-! References `protocol:path` and their short form `#id`. The key of a reference is its canonical
text: references share a result exactly when their keys are equal. -/
namespace LinkedMarkup

/-- `protocol` is in lower case when made by `Uri.make` or `Uri.parse`. -/
structure Uri where
  protocol : String
  path : String
  deriving DecidableEq, Repr, Inhabited

/-- Why a text is no reference. Each cause keeps the trimmed text. -/
inductive UriError where
  | emptyFragment
  | noProtocol (text : String)
  | badProtocol (protocol text : String)
  | emptyPath (text : String)
  deriving DecidableEq, Repr

def UriError.message : UriError → String
  | emptyFragment => "Fragment reference cannot be empty"
  | noProtocol text => "Invalid reference: expected protocol:path or #id, got: " ++ text
  | badProtocol protocol text => "Invalid reference protocol '" ++ protocol ++ "' in: " ++ text
  | emptyPath text => "Invalid reference: path cannot be empty, got: " ++ text

namespace Uri

/-- The protocol of references into the document itself. -/
def idProtocol : String := "id"

def make (protocol path : String) : Uri := ⟨Text.asciiLower protocol, path⟩

/-- A letter, then letters, digits, plus signs, hyphens and full stops, all of ASCII. -/
def isScheme : List Char → Bool
  | [] => false
  | first :: rest =>
    first.isAlpha && rest.all fun c => c.isAlphanum || c == '+' || c == '-' || c == '.'

def parseTrimmed (text : List Char) : Except UriError Uri :=
  match text with
  | '#' :: [] => .error .emptyFragment
  | '#' :: id => .ok (make idProtocol (String.ofList id))
  | _ =>
    match Text.cutChars? ':' text with
    | none => .error (.noProtocol (String.ofList text))
    | some (protocol, path) =>
      if !isScheme protocol then
        .error (.badProtocol (String.ofList protocol) (String.ofList text))
      else if path.isEmpty then .error (.emptyPath (String.ofList text))
      else .ok (make (String.ofList protocol) (String.ofList path))

/-- Read a reference; white space around it does not count. -/
def parse (text : String) : Except UriError Uri := parseTrimmed (Text.trimChars text.toList)

def key (uri : Uri) : String := uri.protocol ++ ":" ++ uri.path

def isInternal (uri : Uri) : Bool := uri.protocol == idProtocol

end Uri
end LinkedMarkup
