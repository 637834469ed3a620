import LinkedMarkup.Tag.Registry
import LinkedMarkup.Yaml.Record
/-! Tag definitions in YAML: a list under `tags`. -/
namespace LinkedMarkup.TagRegistry
open Yaml

def definition? (tree : Tree) : Option TagDefinition := do
  let fields ← Record.fields? ["name", "content_model", "allowed_attributes",
    "required_attributes", "allowed_children", "forbidden_children"] false tree
  let texts (name : String) := Record.field? fields name [] Record.texts?
  return {
    name := ← Record.field? fields "name" "" Tree.text?
    model := ← Record.field? fields "content_model" .mixed fun tree =>
      (Record.word? tree).bind ContentModel.ofText?
    allowedAttributes := ← texts "allowed_attributes"
    requiredAttributes := ← texts "required_attributes"
    allowedChildren := ← texts "allowed_children"
    forbiddenChildren := ← texts "forbidden_children" }

/-- The definitions of a text, if it reads. -/
def definitions? (text : String) : Option (List TagDefinition) := do
  let fields ← Record.fields? ["tags"] false (← Tree.ofText? text)
  Record.field? fields "tags" [] fun tree => tree.items?.bind (·.mapM definition?)

/-- Why the definitions of a text cannot be registered. -/
inductive ReadingError where
  | yaml
  | duplicate (error : DuplicateTag)
  deriving DecidableEq, Repr

/-- Register the definitions of a text, and tell how many there are. -/
def load (registry : TagRegistry) (text : String) : TagRegistry × Except ReadingError Nat :=
  match definitions? text with
  | none => (registry, .error .yaml)
  | some definitions =>
    match registry.registerAll definitions with
    | (next, none) => (next, .ok definitions.length)
    | (next, some error) => (next, .error (.duplicate error))

end LinkedMarkup.TagRegistry
