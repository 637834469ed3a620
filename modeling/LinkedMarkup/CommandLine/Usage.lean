import LinkedMarkup.CommandLine.Command
/-! The texts that are shown instead of running a command. -/
namespace LinkedMarkup.CommandLine

def helpText : String := Text.join "\n" [
  "Compile markup documents into structured output.",
  "",
  "Commands:",
  "  validate FILE   check a document against the tag definitions",
  "  compile FILE    resolve, transform and render a document",
  "  formats         list the available output formats",
  "",
  "Options of validate and compile:",
  "  -t, --tags FILE      tag definitions (YAML)",
  "  --strict-tags        reject duplicate tag definitions",
  "  --insecure           accept invalid TLS certificates for remote references",
  "  --timeout SECONDS    timeout per reference resolution",
  "",
  "Options of compile:",
  "  -r, --rules FILE     mapping rules (YAML); without rules the processed tree is rendered",
  "  -f, --format FORMAT  output format (default: json)",
  "  --var NAME=VALUE     variable for references and selectors",
  "  -o, --output FILE    write the output to a file instead of stdout",
  "  --compact            compact output instead of pretty-printed",
  "  --sequential         resolve sibling references one after another"]

def versionText : String := "markweave 0.1.0"

/-- Help and the version are answers; everything else is a mistake. -/
def UsageError.isAnswer : UsageError → Bool
  | helpAsked | versionAsked => true
  | _ => false

def UsageError.text : UsageError → String
  | helpAsked | noCommand => helpText
  | versionAsked => versionText
  | unknownCommand => "error: unrecognized subcommand"
  | unknownArgument => "error: unexpected argument found"
  | missingArgument => "error: the required argument FILE was not provided"
  | missingValue => "error: a value is required"
  | unneededValue => "error: unexpected value"
  | invalidValue => "error: invalid value"
  | repeatedArgument => "error: the argument cannot be used multiple times"

end LinkedMarkup.CommandLine
