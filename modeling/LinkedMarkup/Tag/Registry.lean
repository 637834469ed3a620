import LinkedMarkup.Tag.Definition
/-! The registry of tag definitions. Names do not depend on case; a strict registry takes each name
once, any other keeps the latest definition. -/
namespace LinkedMarkup

structure TagRegistry where
  definitions : Table TagDefinition := []
  strict : Bool := false

/-- The tag, in lower case, is registered already. -/
structure DuplicateTag where
  name : String
  deriving DecidableEq, Repr

def DuplicateTag.message (error : DuplicateTag) : String :=
  "Tag <" ++ error.name ++ "> is already registered"

namespace TagRegistry

def find? (registry : TagRegistry) (name : String) : Option TagDefinition :=
  registry.definitions.find? (Unicode.lowerCase name)

def has (registry : TagRegistry) (name : String) : Bool := (registry.find? name).isSome

def register (registry : TagRegistry) (definition : TagDefinition) :
    Except DuplicateTag TagRegistry :=
  let normal := definition.normalized
  if registry.strict && registry.definitions.contains normal.name then .error ⟨normal.name⟩
  else .ok { registry with definitions := registry.definitions.insert normal.name normal }

/-- Register definitions in order up to the first that fails; those before it stay. -/
def registerAll (registry : TagRegistry) : List TagDefinition → TagRegistry × Option DuplicateTag
  | [] => (registry, none)
  | definition :: rest =>
    match registry.register definition with
    | .ok next => next.registerAll rest
    | .error e => (registry, some e)

def erase (registry : TagRegistry) (name : String) : TagRegistry :=
  { registry with definitions := registry.definitions.erase (Unicode.lowerCase name) }

def clear (registry : TagRegistry) : TagRegistry := { registry with definitions := [] }

/-- Registered names in ascending order. -/
def names (registry : TagRegistry) : List String := registry.definitions.keys

def size (registry : TagRegistry) : Nat := registry.definitions.length

/-- The content model of a tag; without a definition it is mixed. -/
def model (registry : TagRegistry) (tag : String) : ContentModel :=
  match registry.find? tag with
  | some definition => definition.model
  | none => .mixed

end TagRegistry
end LinkedMarkup
