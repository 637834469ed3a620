/-! What an element of a tag may hold. -/
namespace LinkedMarkup

inductive ContentModel where
  | mixed
  | contentOnly
  | childrenOnly
  | empty
  deriving DecidableEq, Repr, Inhabited

namespace ContentModel

def text : ContentModel → String
  | mixed => "MIXED"
  | contentOnly => "CONTENT_ONLY"
  | childrenOnly => "CHILDREN_ONLY"
  | empty => "EMPTY"

def ofText? (text : String) : Option ContentModel :=
  [mixed, contentOnly, childrenOnly, empty].find? (·.text == text)

def allowsContent : ContentModel → Bool
  | mixed | contentOnly => true
  | _ => false

def allowsElements : ContentModel → Bool
  | mixed | childrenOnly => true
  | _ => false

/-- Children of an ancestor may be merged into an element of this model. -/
def acceptsInheritedChildren : ContentModel → Bool
  | mixed | childrenOnly => true
  | _ => false

end ContentModel
end LinkedMarkup
