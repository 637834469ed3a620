import LinkedMarkup.Resolution.Pool
import LinkedMarkup.Visitor.Walk
/-! The passes that resolve: elements inherit from their ancestors, and references get their values.
The references among the children of a node are resolved when the node is visited, side by side or
one after another, and may then give place to what they stand for. -/
namespace LinkedMarkup.Visitor

/-- Merge the ancestors of elements. An element whose ancestor fails stays as it is. -/
def inheritance (resolver : Resolver) : Visitor where
  name := "inheritance"
  element _ session e :=
    match (resolver.inherit e).run.alone session with
    | (.ok merged, session) => .keep merged session
    | (.error error, session) =>
      ⟨e, session, .error ((Diagnostic.ofReference error).placedAt e.position)⟩

def unresolved? : Node → Option Reference
  | .reference r => if r.isResolved then none else some r
  | _ => none

/-- Put results in the places of the unresolved references; a reference that failed stays. -/
def fill : List Node → List (Except ReferenceError Reference) → List Node
  | [], _ => []
  | node :: rest, results =>
    match unresolved? node, results with
    | some _, .ok r :: results => .reference r :: fill rest results
    | some _, .error _ :: results => node :: fill rest results
    | _, _ => node :: fill rest results

/-- The failures among results, each at its reference. -/
def failures (references : List Reference) (results : List (Except ReferenceError Reference)) :
    List Diagnostic :=
  (references.zip results).filterMap fun (r, result) =>
    match result with
    | .ok _ => none
    | .error error => some ((Diagnostic.ofReference error).placedAt r.position)

/-- A way to resolve the references among siblings. -/
abbrev Siblings := List Reference → Session → List (Except ReferenceError Reference) × Session

/-- Side by side, or one after another. -/
def siblings (resolver : Resolver) (concurrent : Bool) : Siblings :=
  if concurrent then resolver.resolveAll else resolver.resolveInTurn

/-- Resolve the references among siblings and report those that fail. -/
def resolveChildren (siblings : Siblings) (session : Session) (nodes : List Node) :
    Visited (List Node) Unit :=
  let references := nodes.filterMap unresolved?
  let (results, session) := siblings references session
  let (context, stop) := session.context.reportAll (failures references results)
  ⟨fill nodes results, { session with context }, match stop with
    | none => .ok ()
    | some diagnostic => .error diagnostic⟩

/-- The nodes that take the place of a resolved reference. -/
def substitution? (r : Reference) : Option (List Node) :=
  r.resolved.map fun
    | .element e => [.element e]
    | .document d => d.children
    | value => [.content { text := value.toText, position := r.position }]

/-- Resolve all references, siblings in the given way, and replace them by what they stand for if
asked to. -/
def referencesBy (siblings : Siblings) (substitute : Bool := false) : Visitor where
  name := "references"
  document _ session d :=
    let visited := resolveChildren siblings session d.children
    ⟨{ d with children := visited.part }, visited.session, visited.outcome⟩
  element _ session e :=
    let visited := resolveChildren siblings session e.children
    ⟨{ e with children := visited.part }, visited.session, visited.outcome.map fun _ => .keep⟩
  reference _ session r :=
    match substitute, substitution? r with
    | true, some nodes => ⟨r, session, .ok (.replace nodes)⟩
    | _, _ => .keep r session

def references (resolver : Resolver) (concurrent : Bool := true) (substitute : Bool := false) :
    Visitor :=
  referencesBy (siblings resolver concurrent) substitute

end LinkedMarkup.Visitor
