import LinkedMarkup.Diagnostic
import LinkedMarkup.FilePath
import LinkedMarkup.IdIndex
import LinkedMarkup.Mode
import LinkedMarkup.Variables
/-! The context of one task that works on a document: what it may look up, the references that it
is resolving, and the diagnostics it has recorded. -/
namespace LinkedMarkup

structure Context where
  /-- The number of the task; a document is worked on by task 0 and the tasks it forks. -/
  task : Nat := 0
  ids : IdIndex := {}
  bindings : Variables := []
  mode : Mode := .loose
  /-- The file that the document comes from. -/
  file : Option String := none
  diagnostics : List Diagnostic := []
  /-- Keys of the references that are being resolved, the outermost first. -/
  resolving : List String := []
  /-- What visitors put down for the caller. -/
  notes : List Value := []

namespace Context

def ofDocument (d : Document) : Context := { mode := .ofDocument d }

/-- The directory that relative names of files refer to. -/
def directory (context : Context) : String :=
  (context.file.bind FilePath.parent?).getD "."

/-- A diagnostic names the file unless it names one already. -/
def located (context : Context) (diagnostic : Diagnostic) : Diagnostic :=
  match diagnostic.file with
  | none => { diagnostic with file := context.file }
  | some _ => diagnostic

def record (context : Context) (diagnostic : Diagnostic) : Context :=
  { context with diagnostics := context.diagnostics ++ [diagnostic] }

/-- A diagnostic of this severity ends the processing of the document. -/
def stopsAt (context : Context) : Severity → Bool
  | .fatal => true
  | .error => context.mode == .strict
  | .warning => false

/-- Record a diagnostic as a warning, or return it if it ends the processing. -/
def report (context : Context) (diagnostic : Diagnostic) : Except Diagnostic Context :=
  let located := context.located diagnostic
  if context.stopsAt located.severity then .error located
  else .ok (context.record located.degraded)

/-- Report diagnostics in order up to the first that ends the processing. -/
def reportAll (context : Context) : List Diagnostic → Context × Option Diagnostic
  | [] => (context, none)
  | diagnostic :: rest =>
    match context.report diagnostic with
    | .ok next => next.reportAll rest
    | .error stop => (context, some stop)

def warn (context : Context) (code : Code) (message : String) : Context :=
  context.record (context.located (.warning code message))

/-- The reference with this key is now being resolved. -/
def enter (context : Context) (key : String) : Context :=
  { context with resolving := context.resolving ++ [key] }

/-- The part of a chain before the last occurrence of the key; the whole chain without one. -/
def beforeLast (key : String) (chain : List String) : List String :=
  match (chain.reverse.dropWhile (· != key)) with
  | [] => chain
  | _ :: outer => outer.reverse

/-- The reference with this key, and all that were entered after it, are no longer resolved. -/
def leave (context : Context) (key : String) : Context :=
  { context with resolving := beforeLast key context.resolving }

/-- The chain that leads from a key that is being resolved back to that key. -/
def cycle? (context : Context) (key : String) : Option (List String) :=
  match context.resolving.dropWhile (· != key) with
  | [] => none
  | chain => some (chain ++ [key])

/-- The context of a task that works beside this one. -/
def fork (context : Context) (task : Nat) : Context := { context with task, diagnostics := [] }

/-- Take over what a forked task has recorded. -/
def absorb (context fork : Context) : Context :=
  { context with diagnostics := context.diagnostics ++ fork.diagnostics }

end Context
end LinkedMarkup
