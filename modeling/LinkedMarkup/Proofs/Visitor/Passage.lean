import LinkedMarkup.Proofs.Resolution.Care
import LinkedMarkup.Proofs.Visitor.Hooks

namespace LinkedMarkup.Visitor

/-- What visits make of an element, before its children are visited, and of any other node. -/
structure Manner where
  element : Element → Element → Prop
  leaf : Node → List Node → Prop

/-- Nodes and what a walk makes of them. -/
inductive Manner.Passes (manner : Manner) : List Node → List Node → Prop where
  | nil : Passes manner [] []
  | element {e visited : Element} {own rest rest' : List Node} (here : manner.element e visited)
    (below : Passes manner visited.children own) (others : Passes manner rest rest') :
    Passes manner (.element e :: rest) (.element { visited with children := own } :: rest')
  | leaf {node : Node} {parts rest rest' : List Node} (here : manner.leaf node parts)
    (others : Passes manner rest rest') : Passes manner (node :: rest) (parts ++ rest')

theorem keep_of_decide {position : Span} {visited : Visited Node Action} {later : Session}
    {action : Action} (decided : Visitor.decide position visited = (later, .ok action))
    (keeps : ∀ other, visited.outcome = .ok other → other = .keep) : action = .keep := by
  rw [Visitor.decide] at decided
  split at decided
  · rename_i other outcome
    cases decided
    exact keeps _ outcome
  · split at decided
    · cases decided
      rfl
    · cases decided

/-- The visitor only adds to sessions. -/
def Adding (visitor : Visitor) : Prop :=
  ∀ place (session : Session) node, session.Adds (visitor.visit place session node).1

/-- What the visit of one node comes to. -/
inductive Manner.Makes (manner : Manner) (known : Uri → Prop) :
    Node → Node → Action → Prop where
  | element {e visited : Element} (here : manner.element e visited)
    (leads : ∀ uri ∈ Node.opensOf visited.children, known uri) :
    Makes manner known (.element e) (.element visited) .keep
  | leaf {node part : Node} (here : manner.leaf node [part]) (bare : part.asElement? = none) :
    Makes manner known node part .keep
  | replaced {node part : Node} {parts : List Node} (here : manner.leaf node parts) :
    Makes manner known node part (.replace parts)

/-- In a quiet session the visitor makes of known nodes what the manner tells, and leaves the session
quiet, unless it is lost. -/
structure Minds (visitor : Visitor) (known : Uri → Prop) (quiet lost : Session → Prop)
    (manner : Manner) : Prop where
  adds : visitor.Adding
  lasting : ∀ {before after : Session}, before.Adds after → lost before → lost after
  visit : ∀ place {session later node action}, quiet session → (∀ uri ∈ node.opens, known uri) →
    visitor.visit place session node = (later, .ok action) → ¬ lost later →
      quiet later ∧ manner.Makes known node (visitor.offer place session node).part action

/-- What holds of a session before a visit holds behind it. -/
def Retains (visitor : Visitor) (holds : Session → Prop) : Prop :=
  ∀ place {session} node, holds session → holds (visitor.visit place session node).1

section
variable {visitor : Visitor} {holds : Session → Prop} {parents : List Frame} {path : NodePath}
  {index : Nat} {session : Session} {nodes : List Node}

theorem Adding.retains (adds : visitor.Adding) : visitor.Retains session.Adds :=
  fun place _ node before => before.trans (adds place _ node)

theorem Retains.reported (retains : visitor.Retains holds) (call : Call) (offers : call.Offers visitor)
    (begins : holds call.session) : holds call.reported.1 := by
  obtain ⟨_, place, session, subject⟩ := call
  obtain ⟨rfl, node, rfl⟩ := offers
  have later := retains place node begins
  rw [reported_offer]
  split
  all_goals
    rename_i decided
    rwa [decided] at later

/-- A walk retains what its visits do. -/
theorem walkNodes_retains (retains : visitor.Retains holds) (levels : Nat) (begins : holds session) :
    holds (walkNodes visitor levels parents path session nodes).session :=
  ((chain_of_walkNodes visitor levels parents path session nodes).retains retains.reported begins).1

private theorem walkSiblings_retains (retains : visitor.Retains holds) (levels : Nat)
    (begins : holds session) :
    holds (walkSiblings visitor (walkNodes visitor levels) parents path index session nodes).session :=
  ((chain_of_walkSiblings visitor levels parents path session index nodes).retains retains.reported
    begins).1

theorem below_retains (retains : visitor.Retains holds) (levels : Nat) (place : Place)
    (node : Node) (begins : holds session) :
    holds (below (walkNodes visitor levels) place session node).session := by
  cases node with
  | element e => exact walkNodes_retains retains levels begins
  | content | reference => exact begins

theorem walkNodes_adds (adds : visitor.Adding) (levels : Nat) :
    session.Adds (walkNodes visitor levels parents path session nodes).session :=
  walkNodes_retains adds.retains levels (.refl _)

end

variable {visitor : Visitor} {known : Uri → Prop} {quiet lost : Session → Prop} {manner : Manner}

/-- A walk that comes to its end makes of the nodes what its manner tells. -/
structure Walked.Passed (quiet lost : Session → Prop) (manner : Manner) (nodes : List Node)
    (walked : Walked (List Node)) : Prop where
  passed : walked.halt = none → ¬ lost walked.session →
    quiet walked.session ∧ manner.Passes nodes walked.part

namespace Minds
variable {parents : List Frame} {path : NodePath} {index : Nat} {session : Session} {nodes : List Node}

private theorem walkSiblings_passed (minds : visitor.Minds known quiet lost manner) {levels : Nat}
    (descends : ∀ parents path {session nodes}, quiet session →
      (∀ uri ∈ Node.opensOf nodes, known uri) →
        (walkNodes visitor levels parents path session nodes).Passed quiet lost manner nodes)
    (begins : quiet session) (member : ∀ uri ∈ Node.opensOf nodes, known uri) :
    (walkSiblings visitor (walkNodes visitor levels) parents path index session nodes).Passed quiet lost
      manner nodes := by
  refine ⟨?_⟩
  induction nodes generalizing index session with
  | nil => exact fun _ _ => ⟨begins, .nil⟩
  | cons node rest ih =>
    rw [Node.opensOf, List.forall_mem_append] at member
    let place : Place := ⟨parents, path ++ [index]⟩
    have others {later : Session} {index : Nat} : later.Adds (walkSiblings visitor
        (walkNodes visitor levels) parents path index later rest).session :=
      walkSiblings_retains minds.adds.retains levels (.refl _)
    rcases decided : visitor.visit place session node with ⟨later, halt | action⟩
    · rw [walkSiblings_of_error decided]
      exact fun halted => by cases halted
    have here := minds.visit place begins member.1 decided
    cases action with
    | replace parts =>
      rw [walkSiblings_of_replace decided]
      intro ended found
      obtain ⟨goesOn, makes⟩ := here fun lost => found (minds.lasting others lost)
      obtain ⟨last, passes⟩ := ih goesOn member.2 ended found
      cases makes with
      | replaced here => exact ⟨last, .leaf here passes⟩
    | keep =>
      rw [walkSiblings_of_keep decided]
      have inside := below_retains minds.adds.retains levels place
        (visitor.offer place session node).part (.refl later)
      dsimp only
      split
      · exact fun halted => by cases halted
      · rename_i whole
        intro ended found
        have there : ¬ lost (below (walkNodes visitor levels) place later
            (visitor.offer place session node).part).session :=
          fun lost => found (minds.lasting others lost)
        obtain ⟨goesOn, makes⟩ := here fun lost => there (minds.lasting inside lost)
        have passed : quiet (below (walkNodes visitor levels) place later
              (visitor.offer place session node).part).session ∧
            ∀ {rest rest'}, manner.Passes rest rest' → manner.Passes (node :: rest)
              ((below (walkNodes visitor levels) place later
                (visitor.offer place session node).part).part :: rest') := by
          cases part : (visitor.offer place session node).part with
          | element visited =>
            rw [part] at makes whole there
            cases makes with
            | element here leads =>
              obtain ⟨last, passes⟩ := (descends _ _ goesOn leads).passed whole there
              exact ⟨last, fun others => .element here passes others⟩
            | leaf _ bare => cases bare
          | content | reference =>
            rw [part] at makes
            cases makes with
            | leaf here _ => exact ⟨goesOn, fun others => .leaf here others⟩
        obtain ⟨last, passes⟩ := ih passed.1 member.2 ended found
        exact ⟨last, passed.2 passes⟩

/-- A walk that comes to its end makes of the nodes what its visits make of each. -/
theorem walkNodes_passed (minds : visitor.Minds known quiet lost manner) (levels : Nat)
    (begins : quiet session) (member : ∀ uri ∈ Node.opensOf nodes, known uri) :
    (walkNodes visitor levels parents path session nodes).Passed quiet lost manner nodes := by
  induction levels generalizing parents path session nodes with
  | zero =>
    refine ⟨fun ended _ => ⟨begins, ?_⟩⟩
    cases nodes with
    | nil => exact .nil
    | cons node rest => cases ended
  | succ levels ih =>
    exact minds.walkSiblings_passed (fun _ _ {_ _} goesOn leads => ih goesOn leads) begins member

end Minds
end LinkedMarkup.Visitor
