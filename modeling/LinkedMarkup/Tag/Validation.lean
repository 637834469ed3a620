import LinkedMarkup.Tag.Registry
import LinkedMarkup.ValidationError
/-! Validation of a document against tag definitions. Every violation is collected, element by
element in document order; within an element attributes come before structure. -/
namespace LinkedMarkup

structure ValidationResult where
  errors : List ValidationError := []
  /-- One text for each element without a definition. -/
  warnings : List String := []

namespace ValidationResult

def isValid (result : ValidationResult) : Bool := result.errors.isEmpty

def append (first second : ValidationResult) : ValidationResult :=
  ⟨first.errors ++ second.errors, first.warnings ++ second.warnings⟩

end ValidationResult

namespace Validation

/-- Attributes that the definition does not allow, in the order of their names. -/
def disallowedAttributes (definition : TagDefinition) (e : Element) : List ElementFault :=
  (e.attributes.keys.filter fun name => !definition.allowsAttribute name).map .disallowedAttribute

/-- Required attributes that the element lacks, in the order of the definition. -/
def missingAttributes (definition : TagDefinition) (e : Element) : List ElementFault :=
  (definition.requiredAttributes.filter fun name => !e.attributes.contains name).map
    .missingAttribute

def attributeFaults (definition : TagDefinition) (e : Element) : List ElementFault :=
  disallowedAttributes definition e ++ missingAttributes definition e

def hasElements (e : Element) : Bool := !e.elementChildren.isEmpty

/-- Blank text between tags is no content. -/
def hasContent (e : Element) : Bool :=
  e.children.any fun
    | .content c => !Text.isBlank c.text
    | _ => false

def hasReferences (e : Element) : Bool := e.children.any (·.asReference?.isSome)

/-- Kinds of children that the content model rules out. References may stand for either kind, so
only the empty model rules them out. -/
def modelFaults (definition : TagDefinition) (e : Element) : List ElementFault :=
  let model := definition.model
  (if hasElements e && !model.allowsElements then [.contentModel model "element children"] else [])
    ++ (if hasContent e && !model.allowsContent then [.contentModel model "text content"] else [])
    ++ (if hasReferences e && model == .empty then [.contentModel model "references"] else [])

/-- What is wrong with a child of this tag, if anything. -/
def childFault? (definition : TagDefinition) (tag : String) : Option ElementFault :=
  let name := Unicode.lowerCase tag
  if definition.forbiddenChildren.contains name then some (.forbiddenChild tag)
  else if !definition.allowedChildren.isEmpty && !definition.allowedChildren.contains name then
    some (.disallowedChild tag)
  else none

/-- A fault of a child stands at the child. -/
def childErrors (definition : TagDefinition) (e : Element) : List ValidationError :=
  e.elementChildren.filterMap fun child =>
    (childFault? definition child.tag).map (.element e.tag child.position ·)

def customFaults (definition : TagDefinition) (e : Element) : List ElementFault :=
  match definition.violation? with
  | some violation? => ((violation? e).map .custom).toList
  | none => []

def located (e : Element) (faults : List ElementFault) : List ValidationError :=
  faults.map (.element e.tag e.position ·)

def attributeErrors (definition : TagDefinition) (e : Element) : List ValidationError :=
  located e (attributeFaults definition e)

def structureErrors (definition : TagDefinition) (e : Element) : List ValidationError :=
  located e (modelFaults definition e) ++ childErrors definition e
    ++ located e (customFaults definition e)

def unknownTag (e : Element) : String :=
  "<" ++ e.tag ++ "> at " ++ e.position.display ++ ": no tag definition registered"

/-- Which of the two groups of checks run. -/
structure Checks where
  attributes : Bool
  structural : Bool

def Checks.all : Checks := ⟨true, true⟩

def element (registry : TagRegistry) (checks : Checks) (e : Element) : ValidationResult :=
  match registry.find? e.tag with
  | none => ⟨[], if checks.structural then [unknownTag e] else []⟩
  | some definition =>
    ⟨(if checks.attributes then attributeErrors definition e else [])
      ++ (if checks.structural then structureErrors definition e else []), []⟩

def document (registry : TagRegistry) (checks : Checks) (d : Document) : ValidationResult :=
  d.elements.foldl (fun result e => result.append (element registry checks e)) {}

/-- The positions of the carriers of each id, in document order. -/
def carriers (d : Document) : Table (List Span) :=
  d.elements.foldl (fun table e =>
    match e.id? with
    | some id => table.insert id ((table.find? id).getD [] ++ [e.position])
    | none => table) []

/-- The ids that more than one element carries. -/
def duplicateIds? (d : Document) : Option ValidationError :=
  let duplicates := (carriers d).filter fun (_, positions) => positions.length > 1
  if duplicates.isEmpty then none else some (.duplicateIds duplicates)

end Validation
end LinkedMarkup
