import LinkedMarkup.Yaml.Scalar
/-! Records in YAML: a mapping with the names of fields, each at most once, or a sequence of the
fields in their order. -/
namespace LinkedMarkup.Yaml.Record

abbrev Fields := List (String × Tree)

/-- The fields of a record with the given names. `exact` refuses other names, which are passed
over otherwise. -/
def fields? (names : List String) (exact : Bool) (tree : Tree) : Option Fields :=
  match tree with
  | .sequence items _ => if items.length ≤ names.length then some (names.zip items) else none
  | _ => do
    let given ← tree.fields?
    let known := given.filter fun (name, _) => names.contains name
    let repeated := names.any fun name => (known.filter (·.1 == name)).length > 1
    if repeated || (exact && known.length < given.length) then none
    else return known

/-- A field that may be left out, read by `read?`. -/
def field? {α : Type} (fields : Fields) (name : String) (default : α) (read? : Tree → Option α) :
    Option α :=
  match fields.lookup name with
  | none => some default
  | some tree => read? tree

def texts? (tree : Tree) : Option (List String) := tree.items?.bind (·.mapM Tree.text?)

/-- One of several words. A tag of the application may name it before an empty node. -/
def word? (tree : Tree) : Option String :=
  match tree with
  | .scalar text style (some tag) =>
    if isLocal tag then
      if style == .plain && (text.isEmpty || isNull text) then
        some (String.ofList (tag.toList.drop 1))
      else none
    else some text
  | .scalar text _ none => some text
  | _ => none

end LinkedMarkup.Yaml.Record
