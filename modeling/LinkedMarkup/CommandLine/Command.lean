import LinkedMarkup.CommandLine.Grammar
import LinkedMarkup.Numeral
/-! The commands: check a document, compile it, and list the formats of the output. -/
namespace LinkedMarkup.CommandLine

/-- What the commands that work on a document have in common. -/
structure BuildOptions where
  /-- A file of tag definitions. -/
  tags : Option String := none
  strictTags : Bool := false
  insecure : Bool := false
  /-- Seconds for one reference. -/
  timeout : Option Nat := none
  deriving DecidableEq, Repr

structure OutputOptions where
  /-- A file of mapping rules. -/
  rules : Option String := none
  format : Option String := none
  /-- Variables as `NAME=VALUE`. -/
  bindings : List String := []
  /-- The file to write. -/
  output : Option String := none
  compact : Bool := false
  sequential : Bool := false
  deriving DecidableEq, Repr

inductive Command where
  | validate (file : String) (build : BuildOptions)
  | compile (file : String) (build : BuildOptions) (output : OutputOptions)
  | formats
  deriving DecidableEq, Repr

namespace Command

/-- Any text is good. -/
def free : Use := .value fun _ => none

/-- The name of a file is not empty. -/
def fileName : Use := .value fun text => if text.isEmpty then some .missingValue else none

def count : Use := .value fun text =>
  if (Numeral.index? text).isNone then some .invalidValue else none

def help : Parameter := { name := "help", short := some 'h', use := .stop .helpAsked }

def version : Parameter := { name := "version", short := some 'V', use := .stop .versionAsked }

def file : Parameter := { name := "file", use := fileName }

def buildParameters : List Parameter := [
  { name := "tags", short := some 't', use := fileName }, { name := "strict-tags" },
  { name := "insecure" }, { name := "timeout", use := count }, help]

def outputParameters : List Parameter := [
  { name := "rules", short := some 'r', use := fileName },
  { name := "format", short := some 'f', use := free },
  { name := "var", use := free, repeatable := true },
  { name := "output", short := some 'o', use := fileName }, { name := "compact" },
  { name := "sequential" }]

def validateGrammar : Grammar := { options := buildParameters, operands := [file] }

def compileGrammar : Grammar :=
  { options := outputParameters ++ buildParameters, operands := [file] }

def formatsGrammar : Grammar := { options := [help] }

/-- What may stand in the place of a command. -/
def topGrammar : Grammar := { options := [help, version], surplus := .unknownCommand }

def buildOptions (arguments : Arguments) : BuildOptions where
  tags := arguments.value? "tags"
  strictTags := arguments.has "strict-tags"
  insecure := arguments.has "insecure"
  timeout := (arguments.value? "timeout").bind Numeral.index?

def outputOptions (arguments : Arguments) : OutputOptions where
  rules := arguments.value? "rules"
  format := arguments.value? "format"
  bindings := arguments.values "var"
  output := arguments.value? "output"
  compact := arguments.has "compact"
  sequential := arguments.has "sequential"

def fileOf (arguments : Arguments) : String := (arguments.value? "file").getD ""

def names : List String := ["validate", "compile", "formats", "help"]

/-- The words behind `help` name at most one command. -/
def helpFor : List String → UsageError
  | [] => .helpAsked
  | [name] => if names.contains name then .helpAsked else .unknownCommand
  | _ => .unknownCommand

/-- The command that words give. -/
def parse : List String → Except UsageError Command
  | [] | ["--"] => .error .noCommand
  | "validate" :: rest => (validateGrammar.read rest).map fun arguments =>
    .validate (fileOf arguments) (buildOptions arguments)
  | "compile" :: rest => (compileGrammar.read rest).map fun arguments =>
    .compile (fileOf arguments) (buildOptions arguments) (outputOptions arguments)
  | "formats" :: rest => (formatsGrammar.read rest).map fun _ => .formats
  | "help" :: rest => .error (helpFor rest)
  | "--" :: word :: _ =>
    .error (if names.contains word then .unknownArgument else .unknownCommand)
  | word :: _ => (topGrammar.read [word]).bind fun _ => .error .noCommand

end Command
end LinkedMarkup.CommandLine
