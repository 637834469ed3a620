import LinkedMarkup.Variables
/-! Variables given as `NAME=VALUE`. The first equals sign ends the name. Of several variables of
one name the last counts. -/
namespace LinkedMarkup.CommandLine

/-- The value that a text stands for: a truth value, an integer, a number or the text itself. -/
def typedValue (text : String) : Value :=
  if text == "true" then .bool true
  else if text == "false" then .bool false
  else match Numeral.signed? text.toList with
    | some n => .int n
    | none =>
      match Binary64.ofChars? text.toList with
      | some x => .float x
      | none => .text text

/-- A variable has a name that is not blank. -/
def readVariable? (argument : String) : Option (String × Value) :=
  match Text.cut? '=' argument with
  | none => none
  | some (name, text) =>
    if (Text.trim name).isEmpty then none else some (Text.trim name, typedValue text)

/-- The variables of all arguments, or the first argument that is no variable. -/
def readVariables : List String → Variables → Except String Variables
  | [], bindings => .ok bindings
  | argument :: rest, bindings =>
    match readVariable? argument with
    | some (name, value) => readVariables rest (bindings.insert name value)
    | none => .error argument

end LinkedMarkup.CommandLine
