import LinkedMarkup.Visitor.References
import LinkedMarkup.Visitor.Standard
/-! The processing of a document: its structure is validated, then visitors pass over it in order
until one of them stops. -/
namespace LinkedMarkup

structure Pipeline where
  tags : TagRegistry := {}
  visitors : List Visitor := []
  /-- The levels of a document to which each visitor may go down. -/
  levels : Nat := Visitor.defaultLevels

/-- A processed document. It is there as far as it was processed when the processing stopped. -/
structure Processed where
  document : Document
  session : Session
  halt : Option Visitor.Halt := none

namespace Processed

def isComplete (processed : Processed) : Bool := processed.halt.isNone

def diagnostics (processed : Processed) : List Diagnostic := processed.session.context.diagnostics

/-- The diagnostic that ended the processing. -/
def aborted? (processed : Processed) : Option Diagnostic :=
  match processed.halt with
  | some (.stopped diagnostic) => some diagnostic
  | _ => none

end Processed

namespace Pipeline

def resolver (settings : Settings) (protocols : Protocols) (tags : TagRegistry) : Resolver :=
  { protocols, tags, timeout := settings.resolveTimeout, maxDepth := settings.maxDepth }

/-- The passes in their usual order, with a way to resolve siblings. -/
def usual (resolver : Resolver) (siblings : Visitor.Siblings) (tags : TagRegistry)
    (levels : Nat := Visitor.defaultLevels) : Pipeline :=
  { tags, levels, visitors := [.idIndex, .inheritance resolver, .referencesBy siblings, .metadata,
      .normalization, .attributeValidation tags] }

def standard (settings : Settings) (protocols : Protocols) (tags : TagRegistry) : Pipeline :=
  let resolver := resolver settings protocols tags
  usual resolver (Visitor.siblings resolver settings.concurrent) tags

/-- The same visitors, which go down to another number of levels. -/
def downTo (pipeline : Pipeline) (levels : Nat) : Pipeline := { pipeline with levels }

/-- Insert a visitor before the one at `index`, or at the end. -/
def insert (pipeline : Pipeline) (index : Nat) (visitor : Visitor) : Pipeline :=
  { pipeline with
    visitors := pipeline.visitors.take index ++ visitor :: pipeline.visitors.drop index }

def push (pipeline : Pipeline) (visitor : Visitor) : Pipeline :=
  { pipeline with visitors := pipeline.visitors ++ [visitor] }

def has (pipeline : Pipeline) (name : String) : Bool := pipeline.visitors.any (·.name == name)

def replaceFirst (name : String) (visitor : Visitor) : List Visitor → List Visitor
  | [] => []
  | first :: rest =>
    if first.name == name then visitor :: rest else first :: replaceFirst name visitor rest

/-- Replace the first visitor of a name. -/
def replace (pipeline : Pipeline) (name : String) (visitor : Visitor) : Pipeline :=
  { pipeline with visitors := replaceFirst name visitor pipeline.visitors }

def erase (pipeline : Pipeline) (name : String) : Pipeline :=
  { pipeline with visitors := pipeline.visitors.filter (·.name != name) }

/-- What the validation of a document reports before any pass: unknown tags, violations of the
structure, and repeated ids. Attributes are left to the pass behind inheritance. -/
def findings (tags : TagRegistry) (d : Document) : List Diagnostic :=
  let result := Validation.document tags ⟨false, true⟩ d
  result.warnings.map (.warning .unknownTag)
    ++ (result.errors ++ (Validation.duplicateIds? d).toList).map .ofValidation

/-- Let visitors pass over a document in order. -/
def pass (levels : Nat) : List Visitor → Session → Document → Processed
  | [], session, d => ⟨d, session, none⟩
  | visitor :: rest, session, d =>
    let walked := visitor.walk [] session d levels
    match walked.halt with
    | some halt => ⟨walked.part, walked.session, some halt⟩
    | none => pass levels rest walked.session walked.part

def process (pipeline : Pipeline) (session : Session) (d : Document) : Processed :=
  let (context, stop) := session.context.reportAll (findings pipeline.tags d)
  let session := { session with context }
  match stop with
  | some diagnostic => ⟨d, session, some (.stopped diagnostic)⟩
  | none => pass pipeline.levels pipeline.visitors session d

end Pipeline
end LinkedMarkup
