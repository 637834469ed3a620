import LinkedMarkup.Numeral
import LinkedMarkup.Text
import LinkedMarkup.Unicode.LowerCase
/-! The settings of a compilation, and how environment variables give them. A variable that is not
set or does not read leaves the default. Durations are milliseconds. -/
namespace LinkedMarkup

structure Settings where
  /-- A tag may be defined once only. -/
  strictTags : Bool := false
  /-- For one reference, waiting for another task included. -/
  resolveTimeout : Nat := 30000
  /-- For one request over the network. -/
  httpTimeout : Nat := 30000
  insecureTls : Bool := false
  /-- References may lead on to references this far. -/
  maxDepth : Nat := 32
  /-- Bytes of a file or of a reply. -/
  maxResponseSize : Nat := 10485760
  /-- Sibling references are resolved side by side. -/
  concurrent : Bool := true
  defaultFormat : String := "json"
  /-- An unknown format has no adapter. -/
  strictFormats : Bool := false
  deriving DecidableEq, Repr, Inhabited

namespace Settings

def withDefaultFormat (settings : Settings) (format : String) : Settings :=
  { settings with defaultFormat := Unicode.lowerCase format }

/-- Everything but `false`, `0` and blank text turns a flag on. -/
def flag (text : String) : Bool :=
  let word := Text.asciiLower (Text.trim text)
  word != "false" && word != "0" && !word.isEmpty

def count? (text : String) : Option Nat := Numeral.index? (Text.trim text)

/-- The name of an environment variable for a setting. -/
def variableName (name : String) : String := "MARKWEAVE_" ++ name

/-- The environment variables that settings are read from. -/
def variableNames : List String :=
  ["STRICT_TAGS", "RESOLVE_TIMEOUT_SECS", "HTTP_TIMEOUT_SECS", "INSECURE_TLS",
    "MAX_RESOLUTION_DEPTH", "MAX_RESPONSE_SIZE", "CONCURRENT_REFERENCES", "DEFAULT_FORMAT",
    "STRICT_FORMATS"].map variableName

/-- Settings from environment variables. -/
def ofEnvironment (lookup : String → Option String) : Settings :=
  let defaults : Settings := {}
  let flagOr (name : String) (default : Bool) : Bool :=
    ((lookup (variableName name)).map flag).getD default
  let countOr (name : String) (default : Nat) : Nat :=
    ((lookup (variableName name)).bind count?).getD default
  let secondsOr (name : String) (default : Nat) : Nat :=
    (((lookup (variableName name)).bind count?).map (1000 * ·)).getD default
  let format := ((lookup (variableName "DEFAULT_FORMAT")).map fun text =>
    Unicode.lowerCase (Text.trim text)).filter (!·.isEmpty)
  { strictTags := flagOr "STRICT_TAGS" defaults.strictTags
    resolveTimeout := secondsOr "RESOLVE_TIMEOUT_SECS" defaults.resolveTimeout
    httpTimeout := secondsOr "HTTP_TIMEOUT_SECS" defaults.httpTimeout
    insecureTls := flagOr "INSECURE_TLS" defaults.insecureTls
    maxDepth := countOr "MAX_RESOLUTION_DEPTH" defaults.maxDepth
    maxResponseSize := countOr "MAX_RESPONSE_SIZE" defaults.maxResponseSize
    concurrent := flagOr "CONCURRENT_REFERENCES" defaults.concurrent
    defaultFormat := format.getD defaults.defaultFormat
    strictFormats := flagOr "STRICT_FORMATS" defaults.strictFormats }

end Settings
end LinkedMarkup
