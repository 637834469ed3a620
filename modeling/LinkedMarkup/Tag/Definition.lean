import LinkedMarkup.ContentModel
import LinkedMarkup.Node
import LinkedMarkup.Unicode.LowerCase
/-! What a tag definition says about the elements of its tag. Empty lists of allowed attributes or
children admit everything. -/
namespace LinkedMarkup

structure TagDefinition where
  name : String := ""
  model : ContentModel := .mixed
  allowedAttributes : List String := []
  requiredAttributes : List String := []
  allowedChildren : List String := []
  forbiddenChildren : List String := []
  /-- A rule of the caller's own: the message if an element breaks it. -/
  violation? : Option (Element → Option String) := none

namespace TagDefinition

/-- The definition with the names of tags in lower case. -/
def normalized (definition : TagDefinition) : TagDefinition :=
  { definition with
    name := Unicode.lowerCase definition.name
    allowedChildren := definition.allowedChildren.map Unicode.lowerCase
    forbiddenChildren := definition.forbiddenChildren.map Unicode.lowerCase }

def allowsAttribute (definition : TagDefinition) (name : String) : Bool :=
  definition.allowedAttributes.isEmpty || definition.allowedAttributes.contains name
    || definition.requiredAttributes.contains name

end TagDefinition
end LinkedMarkup
