import LinkedMarkup.Mapping.Rule
import LinkedMarkup.Markup
import LinkedMarkup.Output.Registry
import LinkedMarkup.Pipeline
/-! The compilation of a document: it is processed, mapping rules make the output value, and an
adapter renders it. What is wrong with the content of a document belongs to the result; a document
that cannot be read and a format without an adapter are errors. -/
namespace LinkedMarkup

structure CompileOptions where
  bindings : Variables := []
  /-- Without rules the processed document is the output. -/
  rules : Option (List MappingRule) := none
  /-- The default format of the settings unless given. -/
  format : Option String := none
  /-- The file that diagnostics name and that relative references start from. -/
  file : Option String := none
  pretty : Bool := true

inductive CompileError where
  | markup (error : SyntaxError)
  | adapter (error : AdapterNotFound)
  | unreadable (file : String)
  deriving Repr

/-- What a compilation leaves behind. Without an output the processing stopped. -/
structure Compilation where
  processed : Processed
  format : String
  output : Value := .null
  rendered : Option String := none
  mappingErrors : List MappingError := []

namespace Compilation

def diagnostics (compilation : Compilation) : List Diagnostic := compilation.processed.diagnostics

/-- The whole document was processed and all rules applied; warnings do not count. -/
def isSuccess (compilation : Compilation) : Bool :=
  compilation.processed.isComplete && compilation.mappingErrors.isEmpty

def warnings (compilation : Compilation) : List Diagnostic :=
  compilation.diagnostics.filter (·.severity == .warning)

end Compilation

structure Compiler where
  settings : Settings := {}
  tags : TagRegistry := {}
  protocols : Protocols := {}
  adapters : AdapterRegistry := {}
  /-- Elements of this name are references. -/
  referenceTag : String := Markup.referenceTag

namespace Compiler

/-- All handlers and adapters that there are, and no tags. -/
def standard (settings : Settings) (files : Files) (network : Web.Network) : Compiler where
  settings := settings
  tags := { strict := settings.strictTags }
  protocols := .standard settings files network
  adapters := { AdapterRegistry.standard.withDefault (some settings.defaultFormat) with
    strict := settings.strictFormats }

def parse (compiler : Compiler) (source : String) : Except SyntaxError Document :=
  Markup.read source compiler.referenceTag

/-- Check a document that is not processed. Repeated ids come behind all other errors. -/
def validate (compiler : Compiler) (d : Document) : ValidationResult :=
  let result := Validation.document compiler.tags .all d
  { result with errors := result.errors ++ (Validation.duplicateIds? d).toList }

def pipeline (compiler : Compiler) : Pipeline :=
  .standard compiler.settings compiler.protocols compiler.tags

def process (compiler : Compiler) (options : CompileOptions) (d : Document) : Processed :=
  let context := { Context.ofDocument d with bindings := options.bindings, file := options.file }
  compiler.pipeline.process { context } d

/-- The output value of a processed document. -/
def map (options : CompileOptions) (processed : Processed) : MappingResult :=
  match options.rules with
  | none => { value := processed.document.toValue }
  | some rules =>
    let context := processed.session.context
    mapDocument rules processed.document { bindings := context.bindings, mode := context.mode }

/-- Compile a document. The format is looked up before anything is processed. -/
def compileDocument (compiler : Compiler) (options : CompileOptions) (d : Document) :
    Except CompileError Compilation :=
  let format := options.format.getD compiler.settings.defaultFormat
  match compiler.adapters.find? format with
  | none => .error (.adapter ⟨format⟩)
  | some adapter =>
    let processed := compiler.process options d
    if processed.isComplete then
      let mapped := map options processed
      .ok { processed, format
            output := mapped.value
            rendered := some (adapter.render { pretty := options.pretty } mapped.value)
            mappingErrors := mapped.errors }
    else .ok { processed, format }

/-- Compile markup. -/
def compile (compiler : Compiler) (options : CompileOptions) (source : String) :
    Except CompileError Compilation :=
  match compiler.parse source with
  | .error e => .error (.markup e)
  | .ok d => compiler.compileDocument options d

/-- Compile a file. Unless the options name another one, it is the file of the document. -/
def compileFile (compiler : Compiler) (options : CompileOptions) (files : Files) (file : String) :
    Except CompileError Compilation :=
  match files.read file with
  | .error _ => .error (.unreadable file)
  | .ok source => compiler.compile { options with file := some (options.file.getD file) } source

end Compiler
end LinkedMarkup
