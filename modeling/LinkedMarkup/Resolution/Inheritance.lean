import LinkedMarkup.Diagnostic
import LinkedMarkup.Node
import LinkedMarkup.Tag.Registry
/-! Inheritance between elements. An element takes the attributes that it lacks from its ancestor,
and the children of the ancestor come before its own if its content model accepts them. -/
namespace LinkedMarkup.Inheritance

/-- Attributes that belong to one element only. -/
def isOwn (name : String) : Bool := name == "id" || name == "extends"

/-- The attributes of an element with those that it takes from an ancestor. -/
def attributes (own ancestor : Table Value) : Table Value :=
  (ancestor.filter fun (name, _) => !isOwn name).foldl
    (fun table (name, value) => table.insertNew name value) (own.erase "extends")

/-- The metadata of an element: whom it extends by its own words, and from whom it has inherited. -/
def metadata (e ancestor : Element) : Table Value :=
  let noted := match e.attributes.find? "extends" with
    | some source => e.metadata.insert "extends" source
    | none => e.metadata
  noted.insert "inherited_from" (.text (ancestor.id?.getD ancestor.tag))

/-- The children that an element inherits. -/
def children (model : ContentModel) (ancestor : Element) : List Node :=
  if model.acceptsInheritedChildren then ancestor.children else []

/-- Children that the content model does not accept are lost with a warning. -/
def discarded? (model : ContentModel) (e ancestor : Element) : Option String :=
  if model.acceptsInheritedChildren || ancestor.children.isEmpty then none
  else some ("<" ++ e.tag ++ "> at " ++ e.position.display ++ ": content model " ++ model.text
    ++ " does not accept " ++ Numeral.text ancestor.children.length
    ++ " children inherited from <" ++ ancestor.tag ++ ">")

/-- The element merged with its ancestor, but without any children. -/
def head (e ancestor : Element) : Element :=
  { e with
    attributes := attributes e.attributes ancestor.attributes
    children := []
    metadata := metadata e ancestor }

/-- The element merged with its ancestor. -/
def merge (tags : TagRegistry) (e ancestor : Element) : Element :=
  { head e ancestor with children := children (tags.model e.tag) ancestor ++ e.children }

end LinkedMarkup.Inheritance
