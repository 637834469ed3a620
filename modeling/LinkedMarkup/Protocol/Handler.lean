import LinkedMarkup.ContentKind
import LinkedMarkup.IdIndex
import LinkedMarkup.Variables
/-! Protocol handlers: each answers for the references of some protocols. A handler only fetches;
what is found is kept and expanded by the resolver. -/
namespace LinkedMarkup

/-- What a handler may look at. -/
structure Request where
  uri : Uri
  ids : IdIndex := {}
  bindings : Variables := []
  /-- The directory that relative names of files refer to. -/
  directory : String := "."

/-- An answer comes after other tasks have had some turns, or never. -/
structure Answer where
  turns : Nat := 0
  outcome? : Option (Except ReferenceError Resolved)

namespace Answer

def found (value : Resolved) : Answer := { outcome? := some (.ok value) }

def failed (error : ReferenceError) : Answer := { outcome? := some (.error error) }

/-- What was looked up under the key of a reference, or that nothing was found. -/
def ofOption (uri : Uri) (value : Option Resolved) : Answer :=
  match value with
  | some value => found value
  | none => failed (.notFound uri.key)

end Answer

structure Handler where
  name : String
  /-- Handlers of higher priority are asked first. -/
  priority : Int := 0
  /-- The handler answers for this protocol, given in lower case. -/
  handles : String → Bool
  answer : Request → Answer

namespace Handler

/-- Elements of the document by their ids. -/
def byId : Handler where
  name := "id"
  handles protocol := protocol == Uri.idProtocol
  answer request := .ofOption request.uri ((request.ids.find? request.uri.path).map .element)

/-- Variables of the caller; the path may lead into their values. -/
def ofVariables : Handler where
  name := "var"
  handles protocol := protocol == "var"
  answer request := .ofOption request.uri ((request.bindings.at? request.uri.path).map .data)

/-- A fixed table of answers for some protocols, by the path of the reference. -/
def ofEntries (name : String) (protocols : List String) (priority : Int)
    (lookup? : Uri → Option Answer) : Handler where
  name := name
  priority := priority
  handles protocol := protocols.contains protocol
  answer request := (lookup? request.uri).getD (.failed (.notFound request.uri.key))

end Handler
end LinkedMarkup
