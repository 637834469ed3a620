import LinkedMarkup.Text
/-! The words of a command line: options in a long form and perhaps a short one, some of which take
a value, and operands. A value is looked at when the next argument begins, so of two mistakes the
one that is met first while reading counts. -/
namespace LinkedMarkup.CommandLine

/-- Why words are no command, or what they ask for instead of one. -/
inductive UsageError where
  | helpAsked
  | versionAsked
  | noCommand
  | unknownCommand
  | unknownArgument
  | missingArgument
  | missingValue
  | unneededValue
  | invalidValue
  | repeatedArgument
  deriving DecidableEq, Repr

inductive Use where
  | flag
  /-- The argument takes a value, which may be at fault. -/
  | value (fault? : String → Option UsageError)
  /-- The argument asks for something else than the command. -/
  | stop (reason : UsageError)

structure Parameter where
  name : String
  short : Option Char := none
  use : Use := .flag
  repeatable : Bool := false

/-- The arguments of a command. -/
structure Grammar where
  options : List Parameter := []
  operands : List Parameter := []
  /-- What is wrong with a word that has no place. -/
  surplus : UsageError := .unknownArgument

/-- Arguments by name in the order of the words. A flag has an empty value. -/
abbrev Arguments := List (String × String)

namespace Arguments

def has (arguments : Arguments) (name : String) : Bool := arguments.any (·.1 == name)

def value? (arguments : Arguments) (name : String) : Option String := arguments.lookup name

def values (arguments : Arguments) (name : String) : List String :=
  (arguments.filter (·.1 == name)).map (·.2)

end Arguments

/-- The arguments that were read so far. -/
structure Reading where
  arguments : Arguments := []
  /-- The latest argument: its value has not been looked at, or is still to come. -/
  pending : Option (Parameter × Option String) := none
  /-- Operands that are still to come. -/
  operands : List Parameter

namespace Reading

def add (reading : Reading) (parameter : Parameter) (value : String) :
    Except UsageError Reading :=
  if !parameter.repeatable && reading.arguments.has parameter.name then .error .repeatedArgument
  else .ok { reading with arguments := reading.arguments ++ [(parameter.name, value)] }

/-- Take an argument with the value it was given. -/
def accept (reading : Reading) (parameter : Parameter) (value : Option String) :
    Except UsageError Reading :=
  match parameter.use, value with
  | .stop reason, _ => .error reason
  | .flag, _ => reading.add parameter ""
  | .value _, none => .error .missingValue
  | .value fault?, some value =>
    match reading.add parameter value, fault? value with
    | .error e, _ | .ok _, some e => .error e
    | .ok next, none => .ok next

/-- Look at the value of the latest argument. -/
def settle (reading : Reading) : Except UsageError Reading :=
  match reading.pending with
  | none => .ok reading
  | some (parameter, value) => { reading with pending := none }.accept parameter value

/-- An option begins, with its value if that is part of the same word. -/
def option (reading : Reading) (parameter : Parameter) (value : Option String) :
    Except UsageError Reading :=
  match parameter.use, value with
  | .value _, none => reading.settle.map fun next => { next with pending := some (parameter, none) }
  | .value _, some _ | _, none => reading.settle.bind (·.accept parameter value)
  | _, some _ => .error .unneededValue

/-- A word of its own is the next operand. -/
def operand (reading : Reading) (surplus : UsageError) (word : String) :
    Except UsageError Reading :=
  match reading.operands with
  | [] => .error surplus
  | parameter :: rest =>
    reading.settle.map fun next =>
      { next with pending := some (parameter, some word), operands := rest }

end Reading

namespace Grammar

/-- An option in its long form, perhaps with a value behind an equals sign. -/
def long (grammar : Grammar) (reading : Reading) (text : String) : Except UsageError Reading :=
  let (name, value) := match Text.cut? '=' text with
    | some (name, value) => (name, some value)
    | none => (text, none)
  match grammar.options.find? (·.name == name) with
  | none => .error .unknownArgument
  | some parameter => reading.option parameter value

/-- Options in their short form. The rest of the word behind one that takes a value is its value,
without an equals sign in front. -/
def short (grammar : Grammar) : List Char → Reading → Except UsageError Reading
  | [], reading => .ok reading
  | c :: rest, reading =>
    match grammar.options.find? (·.short == some c) with
    | none => .error .unknownArgument
    | some parameter =>
      match parameter.use, rest with
      | .value _, [] => reading.option parameter none
      | .value _, '=' :: value => reading.option parameter (some (String.ofList value))
      | .value _, value => reading.option parameter (some (String.ofList value))
      | _, rest => (reading.option parameter none).bind (short grammar rest)

/-- A word that may be an option, a value or an operand. -/
def word (grammar : Grammar) (reading : Reading) (text : String) : Except UsageError Reading :=
  match text.toList, reading.pending with
  | '-' :: '-' :: name, _ => grammar.long reading (String.ofList name)
  | '-' :: c :: cs, _ => grammar.short (c :: cs) reading
  | _, some (parameter, none) => .ok { reading with pending := some (parameter, some text) }
  | _, _ => reading.operand grammar.surplus text

/-- Read words up to the end; behind two hyphens all words are operands. -/
def readWords (grammar : Grammar) : (operandsOnly : Bool) → List String → Reading →
    Except UsageError Reading
  | _, [], reading => reading.settle
  | true, text :: rest, reading =>
    (reading.operand grammar.surplus text).bind (grammar.readWords true rest)
  | false, text :: rest, reading =>
    if text == "--" then grammar.readWords true rest reading
    else (grammar.word reading text).bind (grammar.readWords false rest)

/-- The arguments that words give. -/
def read (grammar : Grammar) (words : List String) : Except UsageError Arguments :=
  match grammar.readWords false words { operands := grammar.operands } with
  | .error e => .error e
  | .ok reading =>
    if reading.operands.isEmpty then .ok reading.arguments else .error .missingArgument

end Grammar
end LinkedMarkup.CommandLine
