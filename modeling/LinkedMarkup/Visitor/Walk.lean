import LinkedMarkup.Resolution.State
/-! Walks over a document. A visitor is offered each node in document order, an element before its
children, and may change the node, replace it or fail. -/
namespace LinkedMarkup

/-- An element above the node that is visited. -/
structure Frame where
  tag : String
  id : Option String
  path : NodePath
  deriving DecidableEq, Repr

def Frame.ofElement (e : Element) (path : NodePath) : Frame := ⟨e.tag, e.id?, path⟩

/-- Where the visited node stands. -/
structure Place where
  /-- The elements above the node, the outermost first. -/
  parents : List Frame := []
  /-- The path of the node in the document as it is now. -/
  path : NodePath := []
  deriving DecidableEq, Repr

/-- What becomes of a visited node. -/
inductive Action where
  | keep
  /-- Other nodes take its place; they are not visited. -/
  | replace (nodes : List Node)

/-- The node and the session after a visit. A visit that fails may have changed both. -/
structure Visited (Part Outcome : Type) where
  part : Part
  session : Session
  outcome : Except Diagnostic Outcome

namespace Visited

def keep {Part : Type} (part : Part) (session : Session) : Visited Part Action :=
  ⟨part, session, .ok .keep⟩

end Visited

/-- One pass over a document. -/
structure Visitor where
  name : String
  /-- The nodes below the document are visited. -/
  descends : Bool := true
  document : Place → Session → Document → Visited Document Unit :=
    fun _ session d => ⟨d, session, .ok ()⟩
  element : Place → Session → Element → Visited Element Action :=
    fun _ session e => .keep e session
  content : Place → Session → Content → Visited Content Action :=
    fun _ session c => .keep c session
  reference : Place → Session → Reference → Visited Reference Action :=
    fun _ session r => .keep r session

namespace Visitor

/-- Why a walk ended early. -/
inductive Halt where
  | stopped (diagnostic : Diagnostic)
  /-- The walk had fewer levels to go down than the document came to have. -/
  | tooDeep

/-- The part of a document that was walked over. -/
structure Walked (Part : Type) where
  part : Part
  session : Session
  halt : Option Halt := none

/-- A failure that the mode of the document passes over is recorded; any other ends the walk. -/
def settle (failure : Diagnostic) (session : Session) : Session × Option Halt :=
  match session.context.report failure with
  | .ok context => ({ session with context }, none)
  | .error stop => (session, some (.stopped stop))

/-- A failure without a position stands at the node. -/
def placed (failure : Diagnostic) (position : Span) : Diagnostic :=
  match failure.position with
  | none => failure.placedAt position
  | some _ => failure

/-- Visit a node. -/
def offer (visitor : Visitor) (place : Place) (session : Session) : Node → Visited Node Action
  | .element e =>
    let visited := visitor.element place session e
    ⟨.element visited.part, visited.session, visited.outcome⟩
  | .content c =>
    let visited := visitor.content place session c
    ⟨.content visited.part, visited.session, visited.outcome⟩
  | .reference r =>
    let visited := visitor.reference place session r
    ⟨.reference visited.part, visited.session, visited.outcome⟩

/-- What is left to do with a visited node: a node whose visit failed is kept. -/
def decide (position : Span) (visited : Visited Node Action) : Session × Except Halt Action :=
  match visited.outcome with
  | .ok action => (visited.session, .ok action)
  | .error failure =>
    match settle (placed failure position) visited.session with
    | (session, none) => (session, .ok .keep)
    | (session, some halt) => (session, .error halt)

/-- How the children of an element are walked over. -/
abbrev Descent := List Frame → NodePath → Session → List Node → Walked (List Node)

/-- Walk over the children of a kept node. -/
def below (descend : Descent) (place : Place) (session : Session) : Node → Walked Node
  | .element e =>
    let walked := descend (place.parents ++ [.ofElement e place.path]) place.path session e.children
    ⟨.element { e with children := walked.part }, walked.session, walked.halt⟩
  | node => ⟨node, session, none⟩

/-- Walk over siblings below `path`, the first of which stands at `index`. -/
def walkSiblings (visitor : Visitor) (descend : Descent) (parents : List Frame) (path : NodePath) :
    Nat → Session → List Node → Walked (List Node)
  | _, session, [] => ⟨[], session, none⟩
  | index, session, node :: rest =>
    let place : Place := ⟨parents, path ++ [index]⟩
    let visited := visitor.offer place session node
    match decide node.position visited with
    | (session, .error halt) => ⟨visited.part :: rest, session, some halt⟩
    | (session, .ok (.replace nodes)) =>
      let walked := walkSiblings visitor descend parents path (index + nodes.length) session rest
      { walked with part := nodes ++ walked.part }
    | (session, .ok .keep) =>
      let first := below descend place session visited.part
      match first.halt with
      | some halt => ⟨first.part :: rest, first.session, some halt⟩
      | none =>
        let walked := walkSiblings visitor descend parents path (index + 1) first.session rest
        { walked with part := first.part :: walked.part }

/-- Walk over siblings and what is below them, down to a number of levels. -/
def walkNodes (visitor : Visitor) : Nat → Descent
  | 0 => fun _ _ session nodes =>
    ⟨nodes, session, if nodes.isEmpty then none else some .tooDeep⟩
  | levels + 1 => fun parents path session nodes =>
    walkSiblings visitor (walkNodes visitor levels) parents path 0 session nodes

/-- The levels that a walk may go down if no other number is given. -/
def defaultLevels : Nat := 1000000

/-- Walk over a document below the given elements. -/
def walk (visitor : Visitor) (parents : List Frame) (session : Session) (d : Document)
    (levels : Nat := defaultLevels) : Walked Document :=
  let visited := visitor.document ⟨parents, []⟩ session d
  let (session, halt) := match visited.outcome with
    | .ok () => (visited.session, none)
    | .error failure => settle (failure.placedAt visited.part.position) visited.session
  if halt.isSome || !visitor.descends then ⟨visited.part, session, halt⟩
  else
    let walked := walkNodes visitor levels parents [] session visited.part.children
    ⟨{ visited.part with children := walked.part }, walked.session, walked.halt⟩

end Visitor
end LinkedMarkup
