import LinkedMarkup.Proofs.Resolution.Customs
import LinkedMarkup.Proofs.Visitor.Walks
/-! The hooks that a walk calls, in their order. A walk is a chain of calls, each in the session that the
call before has left when its failure was reported: what one call does to a session is carried along
the chain, the first failure that stops is that of the last call, and nothing else ends a chain early
if the walk has enough levels. -/
namespace LinkedMarkup

/-- The same diagnostic, perhaps at another place. -/
def Diagnostic.Restates (stop failure : Diagnostic) : Prop :=
  stop = { failure with position := stop.position, file := stop.file }

theorem Diagnostic.Restates.severity {stop failure : Diagnostic} (same : stop.Restates failure) :
    stop.severity = failure.severity := by
  rw [same]

namespace Visitor

abbrev visit (visitor : Visitor) (place : Place) (session : Session) (node : Node) :
    Session × Except Halt Action :=
  decide node.position (visitor.offer place session node)

section
variable {visitor : Visitor} {descend : Descent} {parents : List Frame} {path : NodePath}
  {index : Nat} {session : Session} {nodes : List Node}

theorem walkSiblings_of_error {node : Node} {later : Session} {halt : Halt}
    (decided : visitor.visit ⟨parents, path ++ [index]⟩ session node = (later, .error halt)) :
    walkSiblings visitor descend parents path index session (node :: nodes) =
      ⟨(visitor.offer ⟨parents, path ++ [index]⟩ session node).part :: nodes, later, some halt⟩ := by
  rw [visit] at decided
  simp only [walkSiblings, decided]

theorem walkSiblings_of_replace {node : Node} {later : Session} {parts : List Node}
    (decided : visitor.visit ⟨parents, path ++ [index]⟩ session node = (later, .ok (.replace parts))) :
    walkSiblings visitor descend parents path index session (node :: nodes) =
      let walked := walkSiblings visitor descend parents path (index + parts.length) later nodes
      { walked with part := parts ++ walked.part } := by
  rw [visit] at decided
  simp only [walkSiblings, decided]

theorem walkSiblings_of_keep {node : Node} {later : Session}
    (decided : visitor.visit ⟨parents, path ++ [index]⟩ session node = (later, .ok .keep)) :
    walkSiblings visitor descend parents path index session (node :: nodes) =
      let place : Place := ⟨parents, path ++ [index]⟩
      let first := below descend place later (visitor.offer place session node).part
      match first.halt with
      | some halt => ⟨first.part :: nodes, first.session, some halt⟩
      | none =>
        let walked := walkSiblings visitor descend parents path (index + 1) first.session nodes
        { walked with part := first.part :: walked.part } := by
  rw [visit] at decided
  cases halted : (below descend ⟨parents, path ++ [index]⟩ later
    (visitor.offer ⟨parents, path ++ [index]⟩ session node).part).halt with
  | none | some halt => simp only [walkSiblings, decided, halted]

theorem below_leaf {node : Node} (leaf : node.asElement? = none) (place : Place) :
    below descend place session node = ⟨node, session, none⟩ := by
  cases node with
  | element e => cases leaf
  | content | reference => rfl

theorem walkSiblings_of_leaf {node : Node} {later : Session}
    (decided : visitor.visit ⟨parents, path ++ [index]⟩ session node = (later, .ok .keep))
    (leaf : (visitor.offer ⟨parents, path ++ [index]⟩ session node).part.asElement? = none) :
    walkSiblings visitor descend parents path index session (node :: nodes) =
      let walked := walkSiblings visitor descend parents path (index + 1) later nodes
      { walked with part := (visitor.offer ⟨parents, path ++ [index]⟩ session node).part :: walked.part } := by
  rw [walkSiblings_of_keep decided]
  simp only [below_leaf leaf]

/-- The visit of a document as a whole. -/
def opening (visitor : Visitor) (parents : List Frame) (session : Session) (d : Document) :
    Walked Document :=
  let visited := visitor.document ⟨parents, []⟩ session d
  match visited.outcome with
  | .ok () => ⟨visited.part, visited.session, none⟩
  | .error failure =>
    let (session, halt) := settle (failure.placedAt visited.part.position) visited.session
    ⟨visited.part, session, halt⟩

/-- A walk goes on below the document if the visit of the whole does not end it. -/
theorem walk_eq_opening (d : Document) (levels : Nat) : visitor.walk parents session d levels =
    let first := opening visitor parents session d
    if first.halt.isSome || !visitor.descends then first
    else
      let walked := walkNodes visitor levels parents [] first.session first.part.children
      ⟨{ first.part with children := walked.part }, walked.session, walked.halt⟩ := by
  rw [walk, opening]
  cases (visitor.document ⟨parents, []⟩ session d).outcome with
  | ok | error => rfl

/-- The walk over the nodes of a document that is not changed as a whole. -/
theorem walk_nodes (whole : visitor.document = fun _ session d => ⟨d, session, .ok ()⟩)
    (descends : visitor.descends = true) (session : Session) (d : Document) (levels : Nat) :
    visitor.walk parents session d levels =
      ⟨{ d with children := (walkNodes visitor levels parents [] session d.children).part },
        (walkNodes visitor levels parents [] session d.children).session,
        (walkNodes visitor levels parents [] session d.children).halt⟩ := by
  rw [walk, whole]
  simp only [descends, Option.isSome_none, Bool.not_true, Bool.or_self, Bool.false_eq_true, if_false]

end

theorem settle_of_stopsAt {failure : Diagnostic} {session : Session}
    (stops : session.context.stopsAt failure.severity = true) :
    settle failure session = (session, some (.stopped (session.context.located failure))) := by
  simp [settle, Context.report, Context.severity_located, stops]

theorem settle_of_not_stopsAt {failure : Diagnostic} {session : Session}
    (goesOn : session.context.stopsAt failure.severity = false) :
    settle failure session =
      ({ session with context := session.context.record (session.context.located failure).degraded }, none) := by
  simp [settle, Context.report, Context.severity_located, goesOn]

theorem restates_placed (context : Context) (failure : Diagnostic) (position : Span) :
    (context.located (placed failure position)).Restates failure := by
  obtain ⟨file, same⟩ := context.located_eq (placed failure position)
  rw [same]
  unfold placed Diagnostic.placedAt
  split
  · split <;> rfl
  · rfl

theorem restates_placedAt (context : Context) (failure : Diagnostic) (position : Span) :
    (context.located (failure.placedAt position)).Restates failure := by
  obtain ⟨file, same⟩ := context.located_eq (failure.placedAt position)
  rw [same]
  unfold Diagnostic.placedAt
  split <;> rfl

/-! ### Calls -/

def failure? {α : Type} : Except Diagnostic α → Option Diagnostic
  | .ok _ => none
  | .error failure => some failure

/-- What a hook is called for. -/
inductive Subject where
  | document (d : Document)
  | node (node : Node)

/-- The nodes whose references a pass resolves when its hook is called. -/
def Subject.children : Subject → List Node
  | .document d => d.children
  | .node (.element e) => e.children
  | .node _ => []

/-- The call of a hook. -/
structure Call where
  visitor : Visitor
  place : Place
  session : Session
  subject : Subject

namespace Call

def after (call : Call) : Session :=
  match call.subject with
  | .document d => (call.visitor.document call.place call.session d).session
  | .node node => (call.visitor.offer call.place call.session node).session

def failure? (call : Call) : Option Diagnostic :=
  match call.subject with
  | .document d => Visitor.failure? (call.visitor.document call.place call.session d).outcome
  | .node node => Visitor.failure? (call.visitor.offer call.place call.session node).outcome

/-- A call that fails in such a way that the processing has to end. -/
def Stops (call : Call) (failure : Diagnostic) : Prop :=
  call.failure? = some failure ∧ call.after.context.stopsAt failure.severity = true

end Call

abbrev Calling := List Frame → NodePath → Session → List Node → List Call

def callsBelow (calling : Calling) (place : Place) (session : Session) : Node → List Call
  | .element e =>
    calling (place.parents ++ [.ofElement e place.path]) place.path session e.children
  | _ => []

/-- The calls of a walk over siblings, which is `walkSiblings`. -/
def callsSiblings (visitor : Visitor) (descend : Descent) (calling : Calling) (parents : List Frame)
    (path : NodePath) : Nat → Session → List Node → List Call
  | _, _, [] => []
  | index, session, node :: rest =>
    let place : Place := ⟨parents, path ++ [index]⟩
    let visited := visitor.offer place session node
    ⟨visitor, place, session, .node node⟩ ::
      match decide node.position visited with
      | (_, .error _) => []
      | (session, .ok (.replace nodes)) =>
        callsSiblings visitor descend calling parents path (index + nodes.length) session rest
      | (session, .ok .keep) =>
        let first := below descend place session visited.part
        callsBelow calling place session visited.part ++
          match first.halt with
          | some _ => []
          | none => callsSiblings visitor descend calling parents path (index + 1) first.session rest

section
variable {visitor : Visitor} {descend : Descent} {calling : Calling} {parents : List Frame}
  {path : NodePath} {index : Nat} {session later : Session} {node : Node} {rest : List Node}

theorem callsBelow_leaf (leaf : node.asElement? = none) (place : Place) :
    callsBelow calling place session node = [] := by
  cases node with
  | element e => cases leaf
  | content | reference => rfl

theorem callsSiblings_of_error {halt : Halt}
    (decided : visitor.visit ⟨parents, path ++ [index]⟩ session node = (later, .error halt)) :
    callsSiblings visitor descend calling parents path index session (node :: rest) =
      [⟨visitor, ⟨parents, path ++ [index]⟩, session, .node node⟩] := by
  rw [visit] at decided
  simp only [callsSiblings, decided]

theorem callsSiblings_of_replace {parts : List Node}
    (decided : visitor.visit ⟨parents, path ++ [index]⟩ session node = (later, .ok (.replace parts))) :
    callsSiblings visitor descend calling parents path index session (node :: rest) =
      ⟨visitor, ⟨parents, path ++ [index]⟩, session, .node node⟩ ::
        callsSiblings visitor descend calling parents path (index + parts.length) later rest := by
  rw [visit] at decided
  simp only [callsSiblings, decided]

theorem callsSiblings_of_keep
    (decided : visitor.visit ⟨parents, path ++ [index]⟩ session node = (later, .ok .keep)) :
    callsSiblings visitor descend calling parents path index session (node :: rest) =
      let place : Place := ⟨parents, path ++ [index]⟩
      let part := (visitor.offer place session node).part
      ⟨visitor, place, session, .node node⟩ :: (callsBelow calling place later part ++
        match (below descend place later part).halt with
        | some _ => []
        | none => callsSiblings visitor descend calling parents path (index + 1)
            (below descend place later part).session rest) := by
  rw [visit] at decided
  simp only [callsSiblings, decided]

theorem callsSiblings_of_leaf
    (decided : visitor.visit ⟨parents, path ++ [index]⟩ session node = (later, .ok .keep))
    (leaf : (visitor.offer ⟨parents, path ++ [index]⟩ session node).part.asElement? = none) :
    callsSiblings visitor descend calling parents path index session (node :: rest) =
      ⟨visitor, ⟨parents, path ++ [index]⟩, session, .node node⟩ ::
        callsSiblings visitor descend calling parents path (index + 1) later rest := by
  rw [callsSiblings_of_keep decided]
  simp only [below_leaf leaf, callsBelow_leaf leaf, List.nil_append]

end

def callsNodes (visitor : Visitor) : Nat → Calling
  | 0 => fun _ _ _ _ => []
  | levels + 1 => fun parents path session nodes =>
    callsSiblings visitor (walkNodes visitor levels) (callsNodes visitor levels) parents path 0 session
      nodes

def calls (visitor : Visitor) (parents : List Frame) (session : Session) (d : Document)
    (levels : Nat) : List Call :=
  let visited := visitor.document ⟨parents, []⟩ session d
  let (later, halt) := match visited.outcome with
    | .ok () => (visited.session, none)
    | .error failure => settle (failure.placedAt visited.part.position) visited.session
  ⟨visitor, ⟨parents, []⟩, session, .document d⟩ ::
    if halt.isSome || !visitor.descends then []
    else callsNodes visitor levels parents [] later visited.part.children

theorem calls_eq_opening (visitor : Visitor) (parents : List Frame) (session : Session) (d : Document)
    (levels : Nat) : visitor.calls parents session d levels =
      let first := visitor.opening parents session d
      ⟨visitor, ⟨parents, []⟩, session, .document d⟩ ::
        if first.halt.isSome || !visitor.descends then []
        else callsNodes visitor levels parents [] first.session first.part.children := by
  rw [calls, opening]
  cases (visitor.document ⟨parents, []⟩ session d).outcome with
  | ok | error => rfl

/-! ### Reports -/

namespace Call

/-- A failure of the call as it is reported. -/
def told (call : Call) (failure : Diagnostic) : Diagnostic :=
  match call.subject with
  | .document d => failure.placedAt (call.visitor.document call.place call.session d).part.position
  | .node node => placed failure node.position

theorem told_restates (call : Call) (failure : Diagnostic) (context : Context) :
    (context.located (call.told failure)).Restates failure := by
  rw [told]
  cases call.subject with
  | document d => exact restates_placedAt _ _ _
  | node node => exact restates_placed _ _ _

theorem severity_told (call : Call) (failure : Diagnostic) :
    (call.told failure).severity = failure.severity := by
  rw [told]
  cases call.subject with
  | document d => exact failure.severity_placedAt _
  | node node => exact severity_placed _ _

/-- The session behind a call when its failure has been reported, and how this ends the walk. -/
def reported (call : Call) : Session × Option Halt :=
  match call.failure? with
  | none => (call.after, none)
  | some failure => settle (call.told failure) call.after

section
variable {call : Call} {failure : Diagnostic} {later : Session} {halt : Halt}

theorem reported_of_stops (stops : call.Stops failure) :
    call.reported = (call.after, some (.stopped (call.after.context.located (call.told failure)))) := by
  rw [reported, stops.1]
  exact settle_of_stopsAt (by rw [call.severity_told]; exact stops.2)

theorem reported_of_not_stops (failed : call.failure? = some failure) (goesOn : ¬ call.Stops failure) :
    call.reported = (call.after.onContext fun context =>
      context.record (context.located (call.told failure)).degraded, none) := by
  have mild : call.after.context.stopsAt failure.severity = false :=
    Bool.eq_false_iff.mpr fun stops => goesOn ⟨failed, stops⟩
  rw [reported, failed]
  exact settle_of_not_stopsAt (by rwa [call.severity_told])

/-- A call behind which the walk goes on has not stopped it. -/
theorem not_stops (goesOn : call.reported = (later, none)) : ¬ call.Stops failure := by
  intro stops
  rw [reported_of_stops stops] at goesOn
  cases goesOn

/-- A call that ends the walk has stopped it, and the walk ends with the failure of the call. -/
theorem stops_of_halt (ends : call.reported = (later, some halt)) :
    ∃ failure stop, call.Stops failure ∧ halt = .stopped stop ∧ stop.Restates failure := by
  cases failed : call.failure? with
  | none =>
    rw [reported, failed] at ends
    cases ends
  | some failure =>
    by_cases stops : call.Stops failure
    · rw [reported_of_stops stops] at ends
      cases ends
      exact ⟨failure, _, stops, rfl, call.told_restates failure _⟩
    · rw [reported_of_not_stops failed stops] at ends
      cases ends

end

/-- The visitor is offered a node. -/
def Offers (visitor : Visitor) (call : Call) : Prop :=
  call.visitor = visitor ∧ ∃ node, call.subject = .node node

end Call

theorem reported_offer (visitor : Visitor) (place : Place) (session : Session) (node : Node) :
    Call.reported ⟨visitor, place, session, .node node⟩ =
      match visitor.visit place session node with
      | (later, .ok _) => (later, none)
      | (later, .error halt) => (later, some halt) := by
  have failed : Call.failure? ⟨visitor, place, session, .node node⟩ =
    failure? (visitor.offer place session node).outcome := rfl
  rw [Call.reported, failed, visit, Visitor.decide]
  cases (visitor.offer place session node).outcome with
  | ok action => rfl
  | error failure =>
    dsimp only [failure?, Call.told, Call.after]
    rcases settle (placed failure node.position) (visitor.offer place session node).session with
      ⟨later, _ | halt⟩ <;> rfl

theorem reported_opening (visitor : Visitor) (parents : List Frame) (session : Session) (d : Document) :
    Call.reported ⟨visitor, ⟨parents, []⟩, session, .document d⟩ =
      ((visitor.opening parents session d).session, (visitor.opening parents session d).halt) := by
  have failed : Call.failure? ⟨visitor, ⟨parents, []⟩, session, .document d⟩ =
    failure? (visitor.document ⟨parents, []⟩ session d).outcome := rfl
  rw [Call.reported, failed, opening]
  cases (visitor.document ⟨parents, []⟩ session d).outcome with
  | ok | error => rfl

/-! ### Chains of calls -/

/-- The calls of hooks between two sessions and how they end: each is made in the session that the one
before has left. -/
inductive Chain (made : Call → Prop) : Session → List Call → Session → Option Halt → Prop where
  | done (session : Session) : Chain made session [] session none
  | tooDeep (session : Session) : Chain made session [] session (some .tooDeep)
  | stop {call : Call} {ends : Session} {halt : Halt} (own : made call)
      (stops : call.reported = (ends, some halt)) :
      Chain made call.session [call] ends (some halt)
  | cons {call : Call} {next ends : Session} {calls : List Call} {halt : Option Halt}
      (own : made call) (goesOn : call.reported = (next, none))
      (others : Chain made next calls ends halt) :
      Chain made call.session (call :: calls) ends halt

/-- The session behind a call with the calls that follow it in a walk. -/
def following (after : List Call) (ends : Session) : Session :=
  match after with
  | [] => ends
  | next :: _ => next.session

namespace Chain
variable {made : Call → Prop} {begins middle ends : Session} {calls more : List Call}
  {halt : Option Halt}

theorem mono {wider : Call → Prop} (chain : Chain made begins calls ends halt)
    (widens : ∀ call, made call → wider call) : Chain wider begins calls ends halt := by
  induction chain with
  | done session => exact .done session
  | tooDeep session => exact .tooDeep session
  | stop own stops => exact .stop (widens _ own) stops
  | cons own goesOn _ ih => exact .cons (widens _ own) goesOn ih

theorem append (first : Chain made begins calls middle none) (second : Chain made middle more ends halt) :
    Chain made begins (calls ++ more) ends halt := by
  generalize same : (none : Option Halt) = goesOn at first
  induction first with
  | done => exact second
  | tooDeep | stop => cases same
  | cons own reported _ ih => exact .cons own reported (ih second same)

theorem made_of_mem (chain : Chain made begins calls ends halt) : ∀ call ∈ calls, made call := by
  induction chain with
  | done | tooDeep => simp
  | stop own => simpa using own
  | cons own _ _ ih => exact List.forall_mem_cons.mpr ⟨own, ih⟩

theorem begins_eq (chain : Chain made begins calls ends halt) : following calls ends = begins := by
  cases chain <;> rfl

/-- The report of a call is what the walk goes on with, or its end. -/
theorem reported {before after : List Call} {call : Call}
    (chain : Chain made begins (before ++ call :: after) ends halt) :
    call.reported = (following after ends, none) ∨ after = [] ∧ ∃ last, halt = some last ∧
      call.reported = (ends, some last) := by
  induction before generalizing begins with
  | nil =>
    cases chain with
    | stop _ stops => exact .inr ⟨rfl, _, rfl, stops⟩
    | cons _ goesOn others =>
      rw [others.begins_eq]
      exact .inl goesOn
  | cons first before ih =>
    rw [List.cons_append] at chain
    generalize rest : before ++ call :: after = calls at chain
    cases chain with
    | stop => simp at rest
    | cons _ _ others =>
      rw [← rest] at others
      exact ih others

/-- With enough levels a chain ends early only with the failure of a call that stops. -/
theorem ended {last : Halt} (chain : Chain made begins calls ends (some last)) (enough : last ≠ .tooDeep) :
    ∃ call ∈ calls, ∃ failure stop, call.Stops failure ∧ last = .stopped stop ∧ stop.Restates failure := by
  generalize same : some last = halt at chain
  induction chain with
  | done => cases same
  | tooDeep =>
    cases same
    exact absurd rfl enough
  | stop _ stops =>
    cases same
    exact ⟨_, List.mem_singleton.mpr rfl, Call.stops_of_halt stops⟩
  | cons _ _ _ ih =>
    obtain ⟨call, member, stopped⟩ := ih same
    exact ⟨call, List.mem_cons_of_mem _ member, stopped⟩

/-- The call that stops is the last one, and the chain ends with its failure. -/
theorem last_of_stops {before after : List Call} {call : Call} {failure : Diagnostic}
    (chain : Chain made begins (before ++ call :: after) ends halt) (stops : call.Stops failure) :
    after = [] ∧ halt = some (.stopped (call.after.context.located (call.told failure))) := by
  have reported := Call.reported_of_stops stops
  rcases chain.reported with goesOn | ⟨last, halt, halted, told⟩
  · exact absurd stops (Call.not_stops goesOn)
  · rw [halted, (Prod.mk.inj (reported.symm.trans told)).2]
    exact ⟨last, rfl⟩

/-- What calls and their reports retain holds at every call and at the end. -/
theorem retains {holds : Session → Prop}
    (retained : ∀ call, made call → holds call.session → holds call.reported.1)
    (chain : Chain made begins calls ends halt) (here : holds begins) :
    holds ends ∧ ∀ call ∈ calls, holds call.session := by
  induction chain with
  | done | tooDeep => exact ⟨here, by simp⟩
  | @stop call _ _ own stops =>
    have later := retained call own here
    rw [stops] at later
    exact ⟨later, by simpa using here⟩
  | @cons call _ _ _ _ own goesOn _ ih =>
    have later := retained call own here
    rw [goesOn] at later
    obtain ⟨last, inside⟩ := ih later
    exact ⟨last, List.forall_mem_cons.mpr ⟨here, inside⟩⟩

/-- What holds of sessions before and behind each hook and each report holds along the chain. -/
theorem along {rel : Session → Session → Prop} (refl : ∀ session, rel session session)
    (trans : ∀ {first second third}, rel first second → rel second third → rel first third)
    (reports : ∀ failure session, rel session (settle failure session).1)
    (hooks : ∀ call, made call → rel call.session call.after)
    (chain : Chain made begins calls ends halt) :
    rel begins ends ∧ ∀ call ∈ calls, rel begins call.session ∧ rel call.after ends := by
  have behind {call : Call} {last : Session} {halt : Option Halt} (told : call.reported = (last, halt)) :
      rel call.after last := by
    rw [Call.reported] at told
    split at told
    · cases told
      exact refl _
    · next failure _ =>
      have settled := reports (call.told failure) call.after
      rwa [told] at settled
  induction chain with
  | done | tooDeep => exact ⟨refl _, by simp⟩
  | stop own stops =>
    have told := behind stops
    exact ⟨trans (hooks _ own) told, by simpa using ⟨refl _, told⟩⟩
  | cons own goesOn others ih =>
    obtain ⟨rest, inside⟩ := ih
    have told := behind goesOn
    have here := trans (hooks _ own) told
    refine ⟨trans here rest, List.forall_mem_cons.mpr ⟨⟨refl _, trans told rest⟩, fun call member => ?_⟩⟩
    obtain ⟨before, after⟩ := inside call member
    exact ⟨trans here before, after⟩

end Chain

/-! ### Walks as chains -/

section
variable {visitor : Visitor} {descend : Descent} {calling : Calling}

private def Chaining (visitor : Visitor) (descend : Descent) (calling : Calling) : Prop :=
  ∀ parents path session nodes,
    Chain (Call.Offers visitor) session (calling parents path session nodes)
      (descend parents path session nodes).session (descend parents path session nodes).halt

private theorem chain_below (chaining : Chaining visitor descend calling) (place : Place)
    (session : Session) (node : Node) :
    Chain (Call.Offers visitor) session (callsBelow calling place session node)
      (below descend place session node).session (below descend place session node).halt := by
  cases node with
  | element e => exact chaining _ _ session e.children
  | content | reference => exact .done session

private theorem chain_siblings (chaining : Chaining visitor descend calling)
    (parents : List Frame) (path : NodePath) (index : Nat) (session : Session) (nodes : List Node) :
    Chain (Call.Offers visitor) session
      (callsSiblings visitor descend calling parents path index session nodes)
      (walkSiblings visitor descend parents path index session nodes).session
      (walkSiblings visitor descend parents path index session nodes).halt := by
  induction nodes generalizing index session with
  | nil => exact .done session
  | cons node rest ih =>
    have own : Call.Offers visitor ⟨visitor, ⟨parents, path ++ [index]⟩, session, .node node⟩ :=
      ⟨rfl, node, rfl⟩
    have reported := reported_offer visitor ⟨parents, path ++ [index]⟩ session node
    rcases decided : visitor.visit ⟨parents, path ++ [index]⟩ session node with ⟨later, halt | action⟩
    · rw [decided] at reported
      rw [callsSiblings_of_error decided, walkSiblings_of_error decided]
      exact .stop own reported
    · rw [decided] at reported
      cases action with
      | replace parts =>
        rw [callsSiblings_of_replace decided, walkSiblings_of_replace decided]
        exact .cons own reported (ih _ _)
      | keep =>
        rw [callsSiblings_of_keep decided, walkSiblings_of_keep decided]
        have inside := chain_below chaining ⟨parents, path ++ [index]⟩ later
          (visitor.offer ⟨parents, path ++ [index]⟩ session node).part
        dsimp only
        refine .cons own reported ?_
        cases ended : (below descend ⟨parents, path ++ [index]⟩ later
          (visitor.offer ⟨parents, path ++ [index]⟩ session node).part).halt with
        | some halt =>
          rw [ended] at inside
          simpa using inside
        | none =>
          rw [ended] at inside
          exact inside.append (ih _ _)

end

variable (visitor : Visitor) (levels : Nat) (parents : List Frame) (path : NodePath) (session : Session)

theorem chain_of_walkNodes (nodes : List Node) :
    Chain (Call.Offers visitor) session (callsNodes visitor levels parents path session nodes)
      (walkNodes visitor levels parents path session nodes).session
      (walkNodes visitor levels parents path session nodes).halt := by
  induction levels generalizing parents path session nodes with
  | zero =>
    rw [walkNodes, callsNodes]
    cases nodes with
    | nil => exact .done session
    | cons => exact .tooDeep session
  | succ levels ih => exact chain_siblings ih parents path 0 session nodes

theorem chain_of_walkSiblings (index : Nat) (nodes : List Node) :
    Chain (Call.Offers visitor) session
      (callsSiblings visitor (walkNodes visitor levels) (callsNodes visitor levels) parents path index
        session nodes)
      (walkSiblings visitor (walkNodes visitor levels) parents path index session nodes).session
      (walkSiblings visitor (walkNodes visitor levels) parents path index session nodes).halt :=
  chain_siblings (chain_of_walkNodes visitor levels) parents path index session nodes

/-- The calls of a walk are a chain, whatever the hooks do. -/
theorem chain_of_walk (d : Document) :
    Chain (·.visitor = visitor) session (visitor.calls parents session d levels)
      (visitor.walk parents session d levels).session (visitor.walk parents session d levels).halt := by
  have opened := reported_opening visitor parents session d
  rw [calls_eq_opening, walk_eq_opening]
  dsimp only
  generalize visitor.opening parents session d = first at opened ⊢
  cases halted : first.halt with
  | some halt =>
    rw [halted] at opened
    simp only [Option.isSome_some, Bool.true_or, if_true, halted]
    exact .stop (show visitor = visitor from rfl) opened
  | none =>
    rw [halted] at opened
    simp only [Option.isSome_none, Bool.false_or]
    cases visitor.descends with
    | false =>
      simp only [Bool.not_false, if_true, halted]
      exact .cons (show visitor = visitor from rfl) opened (.done first.session)
    | true =>
      have below := chain_of_walkNodes visitor levels parents [] first.session first.part.children
      exact .cons (show visitor = visitor from rfl) opened (below.mono fun _ own => own.1)

end Visitor
end LinkedMarkup
