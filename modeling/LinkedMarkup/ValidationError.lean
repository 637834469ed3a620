import LinkedMarkup.ContentModel
import LinkedMarkup.Position
import LinkedMarkup.Severity
import LinkedMarkup.Table
import LinkedMarkup.Text
/-! Violations of the rules that tag definitions state, and of the rule that ids are unique. -/
namespace LinkedMarkup

/-- What is wrong with one element. -/
inductive ElementFault where
  | disallowedAttribute (name : String)
  | missingAttribute (name : String)
  | contentModel (model : ContentModel) (found : String)
  | forbiddenChild (tag : String)
  | disallowedChild (tag : String)
  | custom (message : String)
  deriving DecidableEq, Repr

def ElementFault.message : ElementFault → String
  | disallowedAttribute name => "attribute '" ++ name ++ "' is not allowed"
  | missingAttribute name => "missing required attribute '" ++ name ++ "'"
  | contentModel model found =>
    "content model " ++ model.text ++ " does not allow " ++ found
  | forbiddenChild tag => "child <" ++ tag ++ "> is forbidden"
  | disallowedChild tag => "child <" ++ tag ++ "> is not in the allowed children"
  | custom message => message

inductive ValidationError where
  | element (tag : String) (position : Span) (fault : ElementFault)
  /-- Every repeated id with the positions of all its carriers in document order. -/
  | duplicateIds (duplicates : Table (List Span))
  deriving Repr

namespace ValidationError

def message : ValidationError → String
  | element tag position fault => "<" ++ tag ++ "> at " ++ position.display ++ ": " ++ fault.message
  | duplicateIds duplicates =>
    "Duplicate ids: " ++ Text.join "; " (duplicates.map fun (id, positions) =>
      "'" ++ id ++ "' at " ++ Text.join ", " (positions.map Span.display))

/-- The position of the element, or of the first carrier of a repeated id. -/
def position? : ValidationError → Option Span
  | element _ position _ => some position
  | duplicateIds duplicates => (duplicates.flatMap (·.2)).head?

def code : ValidationError → Code
  | element _ _ _ => .validation
  | duplicateIds _ => .duplicateId

end ValidationError
end LinkedMarkup
