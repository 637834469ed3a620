import LinkedMarkup.Mode
import LinkedMarkup.Variables
/-! Selectors and what they match in a document, in document order. -/
namespace LinkedMarkup

inductive Selector where
  /-- The document itself. -/
  | root
  /-- The first element with this id. -/
  | id (id : String)
  /-- A variable of the caller. -/
  | named (path : String)
  /-- The first match. -/
  | first (selector : Selector)
  /-- Elements by the chain of tags from top level down to them. -/
  | path (segments : List String)
  /-- All elements with this tag. -/
  | tag (tag : String)
  /-- The values of an attribute of the matches. -/
  | attr (base : Selector) (name : String)
  deriving DecidableEq, Repr

/-- One match of a selector. -/
inductive Selected where
  | document (d : Document)
  | element (e : Element)
  | value (v : Value)

/-- What selectors and conversions may look at besides the document. -/
structure Surroundings where
  bindings : Variables := []
  mode : Mode := .loose
  /-- The output of an earlier transformation. -/
  previous : Option Value := none

namespace Selected

def toValue : Selected → Value
  | document d => d.toValue
  | element e => e.toValue
  | value v => v

def text : Selected → String
  | document d => d.text
  | element e => e.text
  | value v => v.toText

/-- The element of a match; a document stands for its first element. -/
def element? : Selected → Option Element
  | document d => d.root?
  | element e => some e
  | value _ => none

end Selected

namespace Selector

/-- There is at most one match. -/
def isSingle : Selector → Bool
  | root | id _ | named _ | first _ => true
  | path _ | tag _ => false
  | attr base _ => base.isSingle

/-- Tags are compared without regard to the case of ASCII letters. -/
def tagMatches (tag : String) (e : Element) : Bool := Text.asciiLower e.tag == Text.asciiLower tag

/-- Go down the path from elements that match its first segments. -/
def descend : List String → List Element → List Element
  | [], elements => elements
  | segment :: rest, elements =>
    descend rest ((elements.flatMap (·.elementChildren)).filter (tagMatches segment))

def select (d : Document) (around : Surroundings) : Selector → List Selected
  | .root => [.document d]
  | .id name => ((d.elements.find? (·.id? == some name)).map .element).toList
  | .named name => ((around.bindings.at? name).map .value).toList
  | .first selector => (select d around selector).take 1
  | .path [] => []
  | .path (segment :: rest) =>
    (descend rest ((d.children.filterMap Node.asElement?).filter (tagMatches segment))).map .element
  | .tag name => (d.elements.filter (tagMatches name)).map .element
  | .attr base name =>
    (select d around base).filterMap fun selected =>
      (selected.element?.bind (·.attributes.find? name)).map .value

end Selector
end LinkedMarkup
