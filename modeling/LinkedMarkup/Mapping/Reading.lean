import LinkedMarkup.Mapping.Rule
import LinkedMarkup.Yaml.Record
/-! Mapping rules in YAML: a list under `rules`. -/
namespace LinkedMarkup.MappingRule
open Yaml

/-- Why a text holds no rules. -/
inductive ReadingError where
  | yaml
  | mapping (error : MappingError)

/-- The texts and values of one rule. -/
structure Entry where
  select : String
  target : String
  transform : Option String
  default? : Option Value
  collect : Bool

/-- A field that is absent or null, or is read by `read?`. -/
def optional? {α : Type} (read? : Tree → Option α) (tree : Tree) : Option (Option α) :=
  if tree.isAbsent then some none else (read? tree).map some

def entry? (tree : Tree) : Option Entry := do
  let fields ← Record.fields? ["select", "target", "transform", "default", "collect"] true tree
  return {
    select := ← (fields.lookup "select").bind Tree.text?
    target := ← (fields.lookup "target").bind Tree.text?
    transform := ← Record.field? fields "transform" none (optional? Tree.text?)
    default? := ← Record.field? fields "default" none (optional? (Tree.value? Tree.nestingLimit))
    collect := ← Record.field? fields "collect" false Tree.flag? }

def entries? (text : String) : Option (List Entry) := do
  let fields ← Record.fields? ["rules"] false (← Tree.ofText? text)
  (← (← fields.lookup "rules").items?).mapM entry?

def ofEntry (entry : Entry) : Except MappingError MappingRule :=
  match make entry.select entry.target with
  | .error e => .error e
  | .ok rule =>
    match entry.transform.mapM Conversion.ofName with
    | .error e => .error e
    | .ok conversion =>
      .ok { rule with conversion := conversion.getD .identity, default? := entry.default?,
                      collect := entry.collect }

/-- The rules of a text. The text is read as a whole before its first rule. -/
def read (text : String) : Except ReadingError (List MappingRule) :=
  match entries? text with
  | none => .error .yaml
  | some entries => (entries.mapM ofEntry).mapError .mapping

end LinkedMarkup.MappingRule
