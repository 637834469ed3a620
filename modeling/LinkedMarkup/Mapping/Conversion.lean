import LinkedMarkup.Mapping.Error
import LinkedMarkup.Mapping.Selector
/-! Conversions of selected parts of a document into values. -/
namespace LinkedMarkup

inductive Conversion where
  /-- The value of the match; for an element its tag, attributes and children. -/
  | identity
  | text
  /-- The text without the white space around it. -/
  | trim
  /-- The attributes of an element. -/
  | attributes
  /-- The tag of an element. -/
  | tag
  /-- An integer, else a finite float. -/
  | number
  /-- A truth value. -/
  | boolean
  /-- A conversion of the caller's own. -/
  | custom (convert : Value → Surroundings → Except MappingError Value)

namespace Conversion

def name : Conversion → String
  | identity => "identity"
  | text => "text"
  | trim => "trim"
  | attributes => "attributes"
  | tag => "tag"
  | number => "number"
  | boolean => "boolean"
  | custom _ => "custom"

/-- The conversion with a name; case and white space around it do not count. -/
def ofName (name : String) : Except MappingError Conversion :=
  match Text.asciiLower (Text.trim name) with
  | "identity" | "" => .ok identity
  | "text" => .ok text
  | "trim" => .ok trim
  | "attributes" => .ok attributes
  | "tag" => .ok tag
  | "number" => .ok number
  | "boolean" | "bool" => .ok boolean
  | _ => .error (.unknownTransform name)

/-- Long texts are cut in messages. -/
def excerpt (text : String) : String :=
  if text.length > 40 then String.ofList (text.toList.take 40) ++ "..." else text

def failure (selected : Selected) (expected : String) : MappingError :=
  .conversion (excerpt selected.text) expected

def number? (text : String) : Option Value :=
  let cs := Text.trimChars text.toList
  match Numeral.signed? cs with
  | some n => some (.int n)
  | none => ((Binary64.ofChars? cs).filter Binary64.isFinite).map .float

def boolean? (text : String) : Option Bool :=
  let word := Text.asciiLower (Text.trim text)
  if ["true", "yes", "1", "on"].contains word then some true
  else if ["false", "no", "0", "off", ""].contains word then some false
  else none

def apply (conversion : Conversion) (selected : Selected) (around : Surroundings) :
    Except MappingError Value :=
  match conversion, selected with
  | identity, _ => .ok selected.toValue
  | text, _ => .ok (.text selected.text)
  | trim, _ => .ok (.text (Text.trim selected.text))
  | attributes, .element e => .ok (.object e.attributes)
  | attributes, .value (.object entries) => .ok (.object entries)
  | attributes, _ => .error (failure selected "attributes")
  | tag, .element e => .ok (.text e.tag)
  | tag, _ => .error (failure selected "tag name")
  | number, .value (.int n) => .ok (.int n)
  | number, .value (.float x) => .ok (.float x)
  | number, _ =>
    match number? selected.text with
    | some value => .ok value
    | none => .error (failure selected "number")
  | boolean, .value (.bool b) => .ok (.bool b)
  | boolean, _ =>
    match boolean? selected.text with
    | some b => .ok (.bool b)
    | none => .error (failure selected "boolean")
  | custom convert, _ => convert selected.toValue around

end Conversion
end LinkedMarkup
