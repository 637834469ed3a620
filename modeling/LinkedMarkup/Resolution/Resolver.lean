import LinkedMarkup.Protocol.Registry
import LinkedMarkup.Resolution.Inheritance
import LinkedMarkup.Resolution.Program
import LinkedMarkup.Resolution.State
/-! The resolver turns references and ancestors into values. A key is fetched by one task at a time,
and its value or failure is shared. A fetched tree is expanded while its key is being resolved: its
elements inherit and its references are resolved in turn, so a chain that comes back to one of its
own keys is found before any handler is asked again. -/
namespace LinkedMarkup

structure Resolver where
  protocols : Protocols := {}
  tags : TagRegistry := {}
  /-- Milliseconds for an answer, and for waiting until another task has resolved a key. -/
  timeout : Nat := 30000
  /-- The greatest number of references on the way to another one. -/
  maxDepth : Nat := 32
  /-- How deep the expansion of inherited children may nest in one place. -/
  nesting : Nat := 1000

/-- A resolution that may fail. -/
abbrev Resolving (α : Type) := ExceptT ReferenceError (Program Session) α

namespace Resolving

def update (change : Session → Session) : Resolving Unit :=
  ExceptT.mk (.change change (.done (.ok ())))

/-- Record a failure inside a tree, or fail with it if it ends the processing of the document. -/
def tolerate (error : ReferenceError) (position : Span) : Resolving Unit :=
  ExceptT.mk <| .read fun session =>
    match session.context.report ((Diagnostic.ofReference error).placedAt position) with
    | .ok context => .change (fun session => { session with context }) (.done (.ok ()))
    | .error _ => .done (.error error)

def warn (code : Code) (message : String) : Resolving Unit :=
  update (Session.onContext (·.warn code message))

end Resolving

/-- What a task gets that asks for a key. -/
inductive Acquired where
  /-- Another task has resolved the key. -/
  | value (value : Resolved)
  /-- The task has to resolve the key and to release it. -/
  | owned

/-- The lock of a key is there after a wait: look again whether it is still needed. -/
def recheck (key : String) : Resolving Acquired :=
  ExceptT.mk <| .read fun session =>
    match session.shared.results.find? key, session.shared.failures.find? key with
    | some value, _ => .change (Session.onShared (·.release key)) (.done (.ok (.value value)))
    | none, some error => .change (Session.onShared (·.release key)) (.done (.error error))
    | none, none => .done (.ok .owned)

/-- Ask for a key. A wait that could never end is a circular reference. -/
def acquire (timeout : Nat) (key : String) : Resolving Acquired :=
  ExceptT.mk <| .read fun session =>
    let task := session.context.task
    match session.shared.results.find? key, session.shared.failures.find? key with
    | some value, _ => .done (.ok (.value value))
    | none, some error => .done (.error error)
    | none, none =>
      if session.shared.isFree key then
        .change (Session.onShared (·.take task key)) (.done (.ok .owned))
      else if session.shared.wouldCycle task key then
        .done (.error (.circular (session.context.resolving ++ [key])))
      else
        .change (Session.onShared (·.enqueue task key)) <|
          .await (fun session => session.shared.isHolder task key) timeout
            (.change (Session.onShared (·.receive task key)) (recheck key))
            (.change (Session.onShared (·.giveUp task key)) (.done (.error (.timeout key timeout))))

namespace Resolver

def request (session : Session) (uri : Uri) : Request where
  uri := uri
  ids := session.context.ids
  bindings := session.context.bindings
  directory := session.context.directory

/-- Wait for the answer of a handler. -/
def ask (resolver : Resolver) (handler : Handler) (uri : Uri) : Resolving Resolved :=
  ExceptT.mk <| .read fun session =>
    let late : Except ReferenceError Resolved := .error (.timeout uri.key resolver.timeout)
    let answer := handler.answer (request session uri)
    match answer.outcome? with
    | none => .pauses (.elapse resolver.timeout (.done late)) answer.turns
    | some outcome =>
      if resolver.timeout == 0 && answer.turns > 0 then .pause (.done late)
      else .pauses (.done outcome) answer.turns

/-- The element that a target means. A document stands for its first element. -/
def ancestorOf (uri : Uri) : Resolved → Except ReferenceError Element
  | .element e => .ok e
  | .document d =>
    match d.root? with
    | some e => .ok e
    | none => .error (.invalidTarget uri.key "element" "document")
  | value => .error (.invalidTarget uri.key "element" value.kind)

/-- Resolve the target of an element that extends another one. -/
def ancestor (resolve : Uri → Resolving Resolved) (target : String) : Resolving Element :=
  match Uri.parse target with
  | .error fault => throw (.invalidUri fault.message)
  | .ok uri => do
    let value ← resolve uri
    ExceptT.mk (.done (ancestorOf uri value))

/-- Warn of children that an element does not accept from its ancestor. -/
def warnDiscarded (resolver : Resolver) (e ancestor : Element) : Resolving Unit :=
  match Inheritance.discarded? (resolver.tags.model e.tag) e ancestor with
  | some message => Resolving.warn .inheritedChildrenDiscarded message
  | none => pure ()

/-- How the parts of a tree are expanded. -/
structure Expansion where
  reference : Reference → Resolving Reference
  /-- The element without children of its own, and the expanded children that it inherits. -/
  inherit : Element → Resolving (Element × List Node)

namespace Expansion

mutual
def node (expansion : Expansion) : Node → Resolving Node
  | .element e => Node.element <$> element expansion e
  | .reference r => Node.reference <$> expansion.reference r
  | .content c => pure (.content c)
/-- Expand nodes in document order. -/
def nodes (expansion : Expansion) : List Node → Resolving (List Node)
  | [] => pure []
  | first :: rest => do
    let first ← node expansion first
    let rest ← nodes expansion rest
    return first :: rest
def element (expansion : Expansion) : Element → Resolving Element
  | ⟨tag, attributes, children, metadata, position⟩ => do
    let (head, inherited) ← expansion.inherit ⟨tag, attributes, children, metadata, position⟩
    let own ← nodes expansion children
    return { head with children := inherited ++ own }
end

end Expansion

def resolveReference (resolve : Uri → Resolving Resolved) (r : Reference) : Resolving Reference :=
  if r.isResolved then pure r
  else do
    let value ← resolve r.uri
    return r.resolveTo value

/-- A reference inside a tree; one that fails stays as it is. -/
def expandReference (resolve : Uri → Resolving Resolved) (r : Reference) : Resolving Reference :=
  tryCatch (resolveReference resolve r) fun error => do
    Resolving.tolerate error r.position
    return r

/-- The merged head of an element inside a tree, and its inherited children expanded by `again`. An
element whose ancestor fails stays as it is. -/
def expandHead (resolver : Resolver) (resolve : Uri → Resolving Resolved)
    (again : List Node → Resolving (List Node)) (e : Element) : Resolving (Element × List Node) :=
  match e.extends? with
  | none => pure ({ e with children := [] }, [])
  | some target => do
    let found ← tryCatch (some <$> ancestor resolve target) fun error => do
      Resolving.tolerate error e.position
      return none
    match found with
    | none => return ({ e with children := [] }, [])
    | some a =>
      resolver.warnDiscarded e a
      let inherited ← again (Inheritance.children (resolver.tags.model e.tag) a)
      return (Inheritance.head e a, inherited)

/-- Leave inherited children as they are and say so. -/
def cutOff (nodes : List Node) : Resolving (List Node) := do
  if !nodes.isEmpty then
    Resolving.update (Session.onShared fun shared => { shared with cutOff := true })
  return nodes

/-- The expansion of trees; inherited children are expanded again up to a number of levels. -/
def expansion (resolver : Resolver) (resolve : Uri → Resolving Resolved) : Nat → Expansion
  | 0 => ⟨expandReference resolve, expandHead resolver resolve cutOff⟩
  | levels + 1 =>
    ⟨expandReference resolve, expandHead resolver resolve (expansion resolver resolve levels).nodes⟩

/-- Expand a fetched value. -/
def expand (resolver : Resolver) (resolve : Uri → Resolving Resolved) (value : Resolved) :
    Resolving Resolved :=
  let expansion := expansion resolver resolve resolver.nesting
  match value with
  | .element e => Resolved.element <$> expansion.element e
  | .document d => do
    let children ← expansion.nodes d.children
    return .document { d with children }
  | value => pure value

/-- Ask the handler for a reference and expand what it finds. -/
def fetch (resolver : Resolver) (resolve : Uri → Resolving Resolved) (uri : Uri) :
    Resolving Resolved :=
  match resolver.protocols.find? uri.protocol with
  | none => throw (.unsupportedProtocol uri.protocol uri.key)
  | some handler => do
    Resolving.update fun session => session.note (.asked session.context.task uri)
    let value ← resolver.ask handler uri
    expand resolver resolve value

/-- The end of the resolution of a reference whose key the task owns. -/
def conclude (uri : Uri) (outcome : Except ReferenceError Resolved) (session : Session) :
    Session :=
  let noted := session.shared.note (.ended session.context.task uri outcome)
  { shared := (noted.keep uri.key outcome).release uri.key
    context := session.context.leave uri.key }

/-- Fetch a reference whose key the task owns. -/
def fetchOwned (uri : Uri) (fetch : Resolving Resolved) : Resolving Resolved :=
  ExceptT.mk <| .change (Session.onContext (·.enter uri.key)) <|
    fetch.run.bind fun outcome => .change (conclude uri outcome) (.done outcome)

/-- Resolve a reference from its known value or by `fetch?`, which is there if references may lead
on from here. -/
def resolveBy (resolver : Resolver) (uri : Uri) (fetch? : Option (Resolving Resolved)) :
    Resolving Resolved :=
  ExceptT.mk <| .read fun session =>
    match session.shared.results.find? uri.key, session.context.cycle? uri.key, fetch? with
    | some value, _, _ => .done (.ok value)
    | none, some cycle, _ => .done (.error (.circular cycle))
    | none, none, none => .done (.error (.depthExceeded uri.key resolver.maxDepth))
    | none, none, some fetch => do
      match ← (acquire resolver.timeout uri.key).run with
      | .error error => return .error error
      | .ok (.value value) => return .ok value
      | .ok .owned => fetchOwned uri fetch

/-- Resolve a reference when `room` more references may be on the way. -/
def resolveWithin (resolver : Resolver) : Nat → Uri → Resolving Resolved
  | 0, uri => resolver.resolveBy uri none
  | room + 1, uri =>
    resolver.resolveBy uri (some (fetch resolver (resolveWithin resolver room) uri))

/-- Resolve a reference in the context of the task. -/
def resolve (resolver : Resolver) (uri : Uri) : Resolving Resolved :=
  ExceptT.mk <| .read fun session =>
    (resolveWithin resolver (resolver.maxDepth - session.context.resolving.length) uri).run

/-- Resolve a reference given as text. -/
def resolveText (resolver : Resolver) (text : String) : Resolving Resolved :=
  match Uri.parse text with
  | .error fault => throw (.invalidUri fault.message)
  | .ok uri => resolver.resolve uri

/-- Merge an ancestor into an element. -/
def mergeAncestor (resolver : Resolver) (e ancestor : Element) : Resolving Element := do
  resolver.warnDiscarded e ancestor
  return Inheritance.merge resolver.tags e ancestor

/-- Merge the ancestor that an element extends into it; an element that extends none stays. -/
def inherit (resolver : Resolver) (e : Element) : Resolving Element :=
  match e.extends? with
  | none => pure e
  | some target => do
    let found ← ancestor resolver.resolve target
    resolver.mergeAncestor e found

/-- Expand nodes in the context of the task. -/
def expandNodes (resolver : Resolver) (nodes : List Node) : Resolving (List Node) :=
  (resolver.expansion resolver.resolve resolver.nesting).nodes nodes

end Resolver
end LinkedMarkup
