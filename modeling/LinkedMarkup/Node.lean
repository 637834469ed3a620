import LinkedMarkup.Position
import LinkedMarkup.Uri
import LinkedMarkup.Value
/-! Documents: trees of elements, text and references. A reference that has been resolved holds
its value, which may be a tree itself. -/
namespace LinkedMarkup

structure Content where
  text : String
  position : Span := {}
  deriving Repr, Inhabited

mutual
/-- A node below the document. -/
inductive Node where
  | element (element : Element)
  | content (content : Content)
  | reference (reference : Reference)

/-- `metadata` is written by the passes over a document and never by the reader of markup. -/
structure Element where
  tag : String
  attributes : Table Value := []
  children : List Node := []
  metadata : Table Value := []
  position : Span := {}

/-- A pointer to content elsewhere. -/
structure Reference where
  protocol : String
  path : String
  resolved : Option Resolved := none
  position : Span := {}

/-- The value of a reference. -/
inductive Resolved where
  | element (element : Element)
  | document (document : Document)
  | data (value : Value)
  | text (text : String)

structure Document where
  children : List Node := []
  position : Span := {}
end

instance : Inhabited Element := ⟨{ tag := "" }⟩
instance : Inhabited Node := ⟨.content { text := "" }⟩
instance : Inhabited Document := ⟨{}⟩

/-- Child numbers that lead from the document to a node. -/
abbrev NodePath := List Nat

namespace Reference

/-- The protocol is kept as it is written. -/
def key (reference : Reference) : String := reference.protocol ++ ":" ++ reference.path

def uri (reference : Reference) : Uri := .make reference.protocol reference.path

def isResolved (reference : Reference) : Bool := reference.resolved.isSome

def ofUri (uri : Uri) (position : Span) : Reference :=
  { protocol := uri.protocol, path := uri.path, position }

/-- The first value given to a reference stays. -/
def resolveTo (reference : Reference) (value : Resolved) : Reference :=
  if reference.isResolved then reference else { reference with resolved := some value }

end Reference

namespace Node

def asElement? : Node → Option Element
  | element e => some e
  | _ => none

def asReference? : Node → Option Reference
  | reference r => some r
  | _ => none

def position : Node → Span
  | element e => e.position
  | content c => c.position
  | reference r => r.position

/-- The word for the kind of a node. -/
def kind : Node → String
  | element _ => "element"
  | content _ => "content"
  | reference _ => "reference"

end Node

namespace Element

/-- An attribute that holds text. -/
def attribute? (e : Element) (name : String) : Option String :=
  (e.attributes.find? name).bind Value.asText?

def id? (e : Element) : Option String := e.attribute? "id"

/-- The reference to the element that this one inherits from. -/
def extends? (e : Element) : Option String := e.attribute? "extends"

def elementChildren (e : Element) : List Element := e.children.filterMap Node.asElement?

end Element

namespace Resolved

/-- The word for the kind of a value. -/
def kind : Resolved → String
  | element _ => "element"
  | document _ => "document"
  | data _ => "data"
  | text _ => "text"

def asElement? : Resolved → Option Element
  | element e => some e
  | _ => none

end Resolved

mutual
/-- All text of a node in document order; a reference has the text of its value. -/
def Node.text : Node → String
  | .element e => e.text
  | .content c => c.text
  | .reference r => r.text
def Node.texts : List Node → String
  | [] => ""
  | node :: rest => node.text ++ Node.texts rest
def Element.text : Element → String
  | ⟨_, _, children, _, _⟩ => Node.texts children
def Reference.text : Reference → String
  | ⟨_, _, some value, _⟩ => value.toText
  | ⟨_, _, none, _⟩ => ""
def Resolved.toText : Resolved → String
  | .element e => e.text
  | .document d => d.text
  | .data value => value.toText
  | .text text => text
def Document.text : Document → String
  | ⟨children, _⟩ => Node.texts children
end

mutual
/-- The tree as a value. An unresolved reference is an object with its key. -/
def Node.toValue : Node → Value
  | .element e => e.toValue
  | .content c => .text c.text
  | .reference r => r.toValue
def Node.toValues : List Node → List Value
  | [] => []
  | node :: rest => node.toValue :: Node.toValues rest
def Element.toValue : Element → Value
  | ⟨tag, attributes, children, metadata, _⟩ =>
    .object ([("attributes", .object attributes), ("children", .array (Node.toValues children))]
      ++ (if metadata.isEmpty then [] else [("metadata", .object metadata)])
      ++ [("tag", .text tag)])
def Reference.toValue : Reference → Value
  | ⟨_, _, some value, _⟩ => value.toValue
  | ⟨protocol, path, none, _⟩ => .object [("ref", .text (protocol ++ ":" ++ path))]
def Resolved.toValue : Resolved → Value
  | .element e => e.toValue
  | .document d => d.toValue
  | .data value => value
  | .text text => .text text
def Document.toValue : Document → Value
  | ⟨children, _⟩ => .array (Node.toValues children)
end

mutual
/-- The elements of a node in document order, a parent before its children. Elements inside the
value of a reference do not belong to the tree. -/
def Node.elements : Node → List Element
  | .element e => e :: e.descendants
  | _ => []
def Node.allElements : List Node → List Element
  | [] => []
  | node :: rest => node.elements ++ Node.allElements rest
def Element.descendants : Element → List Element
  | ⟨_, _, children, _, _⟩ => Node.allElements children
end

/-- The node at a path below a list of siblings. -/
def Node.follow? : List Node → NodePath → Option Node
  | _, [] => none
  | nodes, index :: path =>
    match nodes[index]?, path with
    | some node, [] => some node
    | some (.element e), path => Node.follow? e.children path
    | _, _ => none

namespace Document

/-- The first element at top level. -/
def root? (d : Document) : Option Element := d.children.findSome? Node.asElement?

def elements (d : Document) : List Element := Node.allElements d.children

def nodeAt? (d : Document) (path : NodePath) : Option Node := Node.follow? d.children path

def elementAt? (d : Document) (path : NodePath) : Option Element :=
  (d.nodeAt? path).bind Node.asElement?

end Document
end LinkedMarkup
