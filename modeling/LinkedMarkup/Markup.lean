import LinkedMarkup.Node
import LinkedMarkup.ReferenceError
import LinkedMarkup.Xml.Tree
/-! Reading markup: an XML tree becomes a document. Elements with the tag for references, in any
case, become references with all that stands below them; blank text, comments and instructions are
dropped. -/
namespace LinkedMarkup

/-- Why a text is no markup document. -/
inductive MarkupFault where
  | xml (error : Xml.Error)
  /-- A reference element of this tag names no target. -/
  | noTarget (tag : String)
  | target (error : UriError)
  /-- A text given by a caller. -/
  | other (message : String)
  deriving Repr

structure SyntaxError where
  fault : MarkupFault
  position : Option Span := none
  deriving Repr

namespace SyntaxError

def detail (error : SyntaxError) : String :=
  match error.fault with
  | .xml fault => fault.message
  | .noTarget tag => "<" ++ tag ++ "> requires an href attribute"
  | .target fault => (ReferenceError.invalidUri fault.message).message
  | .other message => message

def message (error : SyntaxError) : String :=
  let place := match error.position with
    | some position => " at " ++ position.display
    | none => ""
  "Syntax error" ++ place ++ ": " ++ error.detail

def ofXml (error : Xml.Error) : SyntaxError :=
  ⟨.xml error, some ⟨error.position, error.position⟩⟩

end SyntaxError

namespace Markup

/-- The tag of reference elements unless another one is chosen. -/
def referenceTag : String := "ref"

/-- The target of a reference element: its attribute `href`, else `uri`. Of attributes with one
local name the first counts here. -/
def target? (attributes : List Xml.Attribute) : Option String :=
  let first (name : String) : Option String :=
    (attributes.find? fun a => a.name == name).map (·.value)
  first "href" <|> first "uri"

def reference (tag : String) (attributes : List Xml.Attribute) (span : Span) :
    Except SyntaxError Reference :=
  match target? attributes with
  | none => .error ⟨.noTarget tag, some span⟩
  | some target =>
    match Uri.parse target with
    | .error fault => .error ⟨.target fault, some span⟩
    | .ok uri => .ok (.ofUri uri span)

/-- Of attributes with one local name the last counts. -/
def attributeTable (attributes : List Xml.Attribute) : Table Value :=
  Table.ofList (attributes.map fun a => (a.name, .text a.value))

def isReferenceTag (chosen tag : String) : Bool := Text.asciiLower tag == Text.asciiLower chosen

mutual
/-- The node for a part of the XML tree; none for blank text, comments and instructions. -/
def node (chosen : String) : Xml.Tree → Except SyntaxError (Option Node)
  | .element tag attributes children span =>
    if isReferenceTag chosen tag then
      (reference tag attributes span).map fun r => some (.reference r)
    else
      match nodes chosen children with
      | .error e => .error e
      | .ok children =>
        .ok (some (.element
          { tag, attributes := attributeTable attributes, children, position := span }))
  | .text text span =>
    .ok (if Text.isBlank text then none else some (.content { text, position := span }))
  | .comment => .ok none
  | .instruction => .ok none
def nodes (chosen : String) : List Xml.Tree → Except SyntaxError (List Node)
  | [] => .ok []
  | tree :: rest =>
    match node chosen tree with
    | .error e => .error e
    | .ok first =>
      match nodes chosen rest with
      | .error e => .error e
      | .ok others => .ok (first.toList ++ others)
end

/-- The whole text as a span. -/
def spanOf (text : String) : Span :=
  ⟨⟨1, 1, 0⟩, text.toList.foldl Xml.step ⟨1, 1, 0⟩⟩

/-- Read a document whose reference elements have the tag `chosen`. -/
def read (text : String) (chosen : String := referenceTag) : Except SyntaxError Document :=
  match Xml.read text with
  | .error e => .error (.ofXml e)
  | .ok trees =>
    match nodes chosen trees with
    | .error e => .error e
    | .ok children => .ok { children, position := spanOf text }

end Markup
end LinkedMarkup
