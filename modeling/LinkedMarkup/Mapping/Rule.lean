import LinkedMarkup.Mapping.Conversion
import LinkedMarkup.Mapping.Selector.Text
import LinkedMarkup.Mapping.Target
/-! Mapping rules, and the output value that an ordered list of rules makes from a document. -/
namespace LinkedMarkup

structure MappingRule where
  selector : Selector
  target : TargetPath
  conversion : Conversion := .identity
  /-- Written when nothing matches or a conversion fails. -/
  default? : Option Value := none
  /-- An array is written for any number of matches. -/
  collect : Bool := false

/-- What a run of the rules leaves behind. -/
structure MappingResult where
  value : Value
  errors : List MappingError := []
  warnings : List String := []

namespace MappingRule

/-- A rule from its texts; of two that do not read the selector is named. -/
def make (selector target : String) : Except MappingError MappingRule :=
  match Selector.parse selector with
  | .error e => .error e
  | .ok selector =>
    match TargetPath.parse target with
    | .error e => .error e
    | .ok target => .ok { selector, target }

/-- What a rule writes, if anything. -/
inductive Outcome where
  | written (value : Value)
  /-- Nothing matches and there is no default. -/
  | unmatched
  /-- A match could not be converted. -/
  | failed (cause : MappingError)

/-- One match is written as it is and several as an array. -/
def combine (collect : Bool) (values : List Value) : Value :=
  match collect, values with
  | false, [value] => value
  | _, values => .array values

def outcome (rule : MappingRule) (d : Document) (around : Surroundings) : Outcome :=
  match rule.selector.select d around with
  | [] =>
    match rule.default?, rule.collect with
    | some value, _ => .written value
    | none, true => .written (.array [])
    | none, false => .unmatched
  | first :: rest =>
    match (first :: rest).mapM (rule.conversion.apply · around) with
    | .ok values => .written (combine rule.collect values)
    | .error cause => .failed cause

/-- The output with `value` at the target; a target too far out for an array is not written. -/
def write (rule : MappingRule) (output value : Value) : Value :=
  (rule.target.assign? output value).getD output

/-- Apply the rule with the number `index`. -/
def run (rule : MappingRule) (index : Nat) (d : Document) (around : Surroundings)
    (result : MappingResult) : MappingResult :=
  match rule.outcome d around with
  | .written value => { result with value := rule.write result.value value }
  | .unmatched =>
    { result with warnings := result.warnings ++ ["rule " ++ Numeral.text index ++ " ("
        ++ rule.selector.display ++ ") matched nothing"] }
  | .failed cause =>
    { result with
      value := (rule.default?.map (rule.write result.value)).getD result.value
      errors := result.errors ++ [.rule index rule.selector.display cause] }

/-- Apply rules in order, the first one with the number `index`. -/
def runAll (d : Document) (around : Surroundings) :
    Nat → List MappingRule → MappingResult → MappingResult
  | _, [], result => result
  | index, rule :: rest, result =>
    runAll d around (index + 1) rest (rule.run index d around result)

end MappingRule

/-- Make an output value by rules in order. It begins with the output of an earlier mapping, or
with an empty object. -/
def mapDocument (rules : List MappingRule) (d : Document) (around : Surroundings) :
    MappingResult :=
  MappingRule.runAll d around 0 rules { value := around.previous.getD (.object []) }

end LinkedMarkup
