import LinkedMarkup.CommandLine.Command
import LinkedMarkup.CommandLine.Variable
import LinkedMarkup.Compiler
import LinkedMarkup.Mapping.Reading
import LinkedMarkup.Tag.Reading
/-! What the commands do: a command is run against files, environment variables and a network, and
gives a report of what is to be printed and written. -/
namespace LinkedMarkup.CommandLine

/-- What a command may look at. -/
structure Environment where
  /-- Environment variables by name. -/
  valueOf : String → Option String
  files : Files
  network : Web.Network

/-- Why a command fails. -/
inductive Failure where
  | unreadable (file : String)
  | unwritable (file : String)
  | tags (error : TagRegistry.ReadingError)
  | rules (error : MappingRule.ReadingError)
  | malformedVariable (argument : String)
  | compile (error : CompileError)
  | invalid (count : Nat) (file : String)
  | aborted (file reason : String)

def Failure.message : Failure → String
  | unreadable file | compile (.unreadable file) => "IO error: cannot read " ++ file
  | unwritable file => "IO error: cannot write " ++ file
  | tags .yaml | rules .yaml => "YAML error"
  | tags (.duplicate error) => error.message
  | rules (.mapping error) => error.message
  | malformedVariable argument =>
    "Invalid variable '" ++ argument ++ "'. Expected NAME=VALUE (e.g., user=Ada)"
  | compile (.markup error) => error.message
  | compile (.adapter error) => error.message
  | invalid count file => Numeral.text count ++ " validation error(s) in " ++ file
  | aborted file reason => "Compilation of " ++ file ++ " aborted: " ++ reason

/-- What a command prints and writes. -/
structure Report where
  output : String := ""
  messages : String := ""
  failure : Option Failure := none
  /-- A file to be written, with its content. -/
  save : Option (String × String) := none
  /-- The files that were looked for. -/
  lookups : List String := []

namespace Report

def ofLines (lines : List String) : String := String.join (lines.map (· ++ "\n"))

def failed (failure : Failure) : Report := { failure := some failure }

/-- A file was looked for. -/
def lookup (report : Report) (file : String) : Report :=
  { report with lookups := file :: report.lookups }

/-- The report once it is known whether the file could be written. -/
def saved (report : Report) (written : Bool) : Report :=
  match report.save with
  | none => report
  | some (file, _) =>
    if written then { report with messages := report.messages ++ ofLines ["Saved to: " ++ file] }
    else { report with failure := some (.unwritable file) }

end Report

/-- Read a file and go on with its text. -/
def withText (environment : Environment) (file : String) (next : String → Report) : Report :=
  Report.lookup (match environment.files.read file with
    | .error _ => .failed (.unreadable file)
    | .ok text => next text) file

/-- Settings from the environment and the options. Only the option makes tags strict. -/
def settings (environment : Environment) (options : BuildOptions) (concurrent : Bool) : Settings :=
  let given := Settings.ofEnvironment environment.valueOf
  { given with
    concurrent
    strictTags := options.strictTags
    insecureTls := options.insecure || given.insecureTls
    resolveTimeout := (options.timeout.map (1000 * ·)).getD given.resolveTimeout }

/-- Build a compiler and go on with it. -/
def withCompiler (environment : Environment) (options : BuildOptions) (concurrent : Bool)
    (next : Compiler → Report) : Report :=
  let settings := settings environment options concurrent
  let compiler := Compiler.standard settings environment.files environment.network
  match options.tags with
  | none => next compiler
  | some file => withText environment file fun text =>
    match compiler.tags.load text with
    | (tags, .ok _) => next { compiler with tags }
    | (_, .error e) => .failed (.tags e)

def validateDocument (compiler : Compiler) (file : String) (source : String) : Report :=
  match compiler.parse source with
  | .error e => .failed (.compile (.markup e))
  | .ok d =>
    let result := compiler.validate d
    let messages := Report.ofLines (result.warnings.map ("warning: " ++ ·)
      ++ result.errors.map ("error: " ++ ·.message))
    if result.isValid then { messages, output := Report.ofLines ["Valid: " ++ file] }
    else { messages, failure := some (.invalid result.errors.length file) }

/-- Errors and fatal errors are told apart from warnings. -/
def diagnosticLine (diagnostic : Diagnostic) : String :=
  (match diagnostic.severity with
    | .warning => "warning: "
    | .error | .fatal => "error: ") ++ diagnostic.text

/-- Why the processing stopped. -/
def haltText : Visitor.Halt → String
  | .stopped diagnostic => diagnostic.text
  | .tooDeep => "the document is nested too deeply"

/-- The files that references asked for. -/
def referencedFiles (session : Session) : List String :=
  (session.shared.asked.filter (·.protocol == "file")).map fun uri =>
    Handler.fileName (Resolver.request session uri)

def compilationReport (compilation : Compilation) (file : String) (target : Option String) :
    Report :=
  let messages := Report.ofLines (compilation.diagnostics.map diagnosticLine
    ++ compilation.mappingErrors.map ("transform: " ++ ·.message))
  let lookups := referencedFiles compilation.processed.session
  match compilation.processed.halt with
  | some halt => { messages, lookups, failure := some (.aborted file (haltText halt)) }
  | none =>
    let output := Report.ofLines [compilation.rendered.getD ""]
    match target with
    | none => { messages, lookups, output }
    | some target => { messages, lookups, save := some (target, output) }

/-- Compile a file with options that are read. -/
def compileFile (environment : Environment) (compiler : Compiler) (options : CompileOptions)
    (file : String) (target : Option String) : Report :=
  Report.lookup (match compiler.compileFile options environment.files file with
    | .error e => .failed (.compile e)
    | .ok compilation => compilationReport compilation file target) file

/-- Read the variables and the rules, in this order, and go on with them. -/
def withOptions (environment : Environment) (options : OutputOptions)
    (next : CompileOptions → Report) : Report :=
  match readVariables options.bindings [] with
  | .error argument => .failed (.malformedVariable argument)
  | .ok bindings =>
    let given : CompileOptions := { bindings, format := options.format, pretty := !options.compact }
    match options.rules with
    | none => next given
    | some file => withText environment file fun text =>
      match MappingRule.read text with
      | .error e => .failed (.rules e)
      | .ok rules => next { given with rules := some rules }

/-- List the formats; the default one is marked. -/
def formatsReport (environment : Environment) : Report :=
  let settings := Settings.ofEnvironment environment.valueOf
  let compiler := Compiler.standard settings environment.files environment.network
  { output := Report.ofLines (compiler.adapters.formats.map fun format =>
      if Text.asciiLower format == Text.asciiLower settings.defaultFormat then
        format ++ " (default)"
      else format) }

def Command.run (environment : Environment) : Command → Report
  | .formats => formatsReport environment
  | .validate file build => withCompiler environment build true fun compiler =>
    withText environment file (validateDocument compiler file)
  | .compile file build output => withCompiler environment build (!output.sequential)
    fun compiler => withOptions environment output fun options =>
      compileFile environment compiler options file output.output

end LinkedMarkup.CommandLine
