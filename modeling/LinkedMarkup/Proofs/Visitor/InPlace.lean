import LinkedMarkup.Proofs.Tree.Paths
import LinkedMarkup.Proofs.Visitor.Hooks
/-! The walk over a document that is changed in place. The visited node, the siblings that are still to
come and the elements above are all found in the one document by their paths, and the ancestors are a
stack on which an element is pushed before its children are visited and popped behind them. This walk
comes to the same as the walk that takes the tree apart, and it shows what the document is like at every
call of a hook. -/
namespace LinkedMarkup

/-- Change the siblings below a path. -/
def Node.alterAt (change : List Node → List Node) (nodes : List Node) (path : NodePath) : List Node :=
  match siblingsAt? nodes path with
  | some siblings => putAt (change siblings) nodes path
  | none => nodes

theorem Node.alterAt_of_found {nodes siblings : List Node} {path : NodePath}
    (found : siblingsAt? nodes path = some siblings) (change : List Node → List Node) :
    alterAt change nodes path = putAt (change siblings) nodes path := by
  rw [alterAt, found]

namespace Visitor

/-- The call of a hook, and the children of the document at that time. -/
structure Sighting where
  nodes : List Node
  call : Call

/-- The call is for the node that stands at its path, and its ancestors are the elements above that path,
behind those that the walk began with. -/
def Sighting.Faithful (base : List Frame) (sighting : Sighting) : Prop :=
  ∃ node, sighting.call.subject = .node node ∧
    Node.follow? sighting.nodes sighting.call.place.path = some node ∧
    sighting.call.place.parents = base ++ Node.framesAbove sighting.nodes sighting.call.place.path

structure Live where
  /-- The children of the document. -/
  nodes : List Node
  /-- The stack of the elements that the walk is inside of, the outermost first. -/
  parents : List Frame
  session : Session
  sightings : List Sighting := []

/-- How the siblings below a path are walked over in place. -/
abbrev LiveDescent := NodePath → Live → Live × Option Halt

namespace Live

/-- The node at `index` below a path is visited and left in its place. -/
def see (live : Live) (visitor : Visitor) (path : NodePath) (index : Nat) (node : Node) : Live :=
  let place : Place := ⟨live.parents, path ++ [index]⟩
  let part := (visitor.offer place live.session node).part
  { live with
    nodes := Node.alterAt (·.set index part) live.nodes path
    session := (visitor.visit place live.session node).1
    sightings := live.sightings ++ [⟨live.nodes, ⟨visitor, place, live.session, .node node⟩⟩] }

/-- Other nodes take the place of the one at `index` below a path. -/
def splice (live : Live) (path : NodePath) (index : Nat) (parts : List Node) : Live :=
  let change (siblings : List Node) : List Node :=
    siblings.take index ++ parts ++ siblings.drop (index + 1)
  { live with nodes := Node.alterAt change live.nodes path }

/-- Walk over what is below a node; an element is on the stack meanwhile. -/
def within (live : Live) (descend : LiveDescent) (path : NodePath) : Node → Live × Option Halt
  | .element e =>
    let (live, halt) := descend path { live with parents := live.parents ++ [.ofElement e path] }
    ({ live with parents := live.parents.dropLast }, halt)
  | _ => (live, none)

end Live

/-- Walk along the siblings below a path from the one at `index`, for at most as many turns as there are
siblings left. -/
def along (visitor : Visitor) (descend : LiveDescent) (path : NodePath) : Nat → Nat → Live → Live × Option Halt
  | 0, _, live => (live, none)
  | turns + 1, index, live =>
    match Node.follow? live.nodes (path ++ [index]) with
    | none => (live, none)
    | some node =>
      let place : Place := ⟨live.parents, path ++ [index]⟩
      let part := (visitor.offer place live.session node).part
      let seen := live.see visitor path index node
      match (visitor.visit place live.session node).2 with
      | .error halt => (seen, some halt)
      | .ok (.replace parts) =>
        along visitor descend path turns (index + parts.length) (seen.splice path index parts)
      | .ok .keep =>
        match seen.within descend (path ++ [index]) part with
        | (live, some halt) => (live, some halt)
        | (live, none) => along visitor descend path turns (index + 1) live

/-- Walk over the siblings below a path and what is below them, down to a number of levels. -/
def descendInPlace (visitor : Visitor) : Nat → LiveDescent
  | 0 => fun path live =>
    (live, if ((Node.siblingsAt? live.nodes path).getD []).isEmpty then none else some .tooDeep)
  | levels + 1 => fun path live =>
    along visitor (descendInPlace visitor levels) path ((Node.siblingsAt? live.nodes path).getD []).length 0 live

def walkInPlace (visitor : Visitor) (parents : List Frame) (session : Session) (d : Document)
    (levels : Nat) : Live × Option Halt :=
  let first := visitor.opening parents session d
  let live : Live := ⟨first.part.children, parents, first.session, []⟩
  if first.halt.isSome || !visitor.descends then (live, first.halt)
  else descendInPlace visitor levels [] live

/-- One document becomes another one by a stretch of a walk: the siblings below a path have changed, the
stack is as it was, and calls have been made, all of them faithful. -/
structure Live.Becomes (base : List Frame) (path : NodePath) (first : Live) (siblings : List Node)
    (session : Session) (calls : List Call) (last : Live) : Prop where
  nodes : last.nodes = Node.putAt siblings first.nodes path
  parents : last.parents = first.parents
  session : last.session = session
  seen : ∃ seen, last.sightings = first.sightings ++ seen ∧ seen.map (·.call) = calls ∧
    ∀ sighting ∈ seen, sighting.Faithful base

namespace Live.Becomes
variable {base : List Frame} {path : NodePath} {first mid last : Live}
  {siblings before after : List Node} {session later : Session} {calls more : List Call}

theorem refl (found : Node.siblingsAt? first.nodes path = some siblings) :
    Becomes base path first siblings first.session [] first :=
  ⟨(Node.putAt_same found).symm, rfl, rfl, [], by simp⟩

theorem trans (found : Node.siblingsAt? first.nodes path = some siblings)
    (one : Becomes base path first before session calls mid)
    (two : Becomes base path mid after later more last) :
    Becomes base path first after later (calls ++ more) last := by
  obtain ⟨seen, grown, told, faithful⟩ := one.seen
  obtain ⟨others, grown', told', faithful'⟩ := two.seen
  refine ⟨?_, two.parents.trans one.parents, two.session, seen ++ others, ?_, ?_, ?_⟩
  · rw [two.nodes, one.nodes, Node.putAt_putAt found]
  · rw [grown', grown, List.append_assoc]
  · rw [List.map_append, told, told']
  · exact List.forall_mem_append.mpr ⟨faithful, faithful'⟩

theorem found (becomes : Becomes base path first after session calls last)
    (found : Node.siblingsAt? first.nodes path = some siblings) :
    Node.siblingsAt? last.nodes path = some after := by
  rw [becomes.nodes]
  exact Node.siblingsAt?_putAt found after

theorem framesTo (becomes : Becomes base path first after session calls last)
    (found : Node.siblingsAt? first.nodes path = some siblings) :
    Node.framesTo last.nodes path = Node.framesTo first.nodes path := by
  rw [becomes.nodes]
  exact Node.framesTo_putAt found after

end Live.Becomes

section
variable {visitor : Visitor} {base : List Frame} {path : NodePath} {live : Live}
  {done rest : List Node} {node part : Node}

private theorem follow?_next (found : Node.siblingsAt? live.nodes path = some (done ++ node :: rest)) :
    Node.follow? live.nodes (path ++ [done.length]) = some node := by
  rw [Node.follow?_below found]
  simp

private theorem see_becomes (found : Node.siblingsAt? live.nodes path = some (done ++ node :: rest))
    (above : live.parents = base ++ Node.framesTo live.nodes path) :
    let place : Place := ⟨live.parents, path ++ [done.length]⟩
    live.Becomes base path (done ++ (visitor.offer place live.session node).part :: rest)
      (visitor.visit place live.session node).1 [⟨visitor, place, live.session, .node node⟩]
      (live.see visitor path done.length node) := by
  intro place
  refine ⟨?_, rfl, rfl, [⟨live.nodes, ⟨visitor, place, live.session, .node node⟩⟩], rfl, rfl, ?_⟩
  · simp only [Live.see, Node.alterAt_of_found found]
    congr 1
    simp [place]
  · intro sighting member
    cases List.mem_singleton.mp member
    refine ⟨node, rfl, follow?_next found, ?_⟩
    rw [Node.framesAbove_below]
    exact above

private theorem splice_becomes (found : Node.siblingsAt? live.nodes path = some (done ++ part :: rest))
    (parts : List Node) : live.Becomes base path (done ++ parts ++ rest) live.session []
      (live.splice path done.length parts) := by
  refine ⟨?_, rfl, rfl, [], by simp [Live.splice]⟩
  simp only [Live.splice, Node.alterAt_of_found found]
  congr 1
  simp

private def Mirrors (base : List Frame) (inPlace : LiveDescent) (descend : Descent) (calling : Calling) :
    Prop :=
  ∀ {path live siblings}, Node.siblingsAt? live.nodes path = some siblings →
    live.parents = base ++ Node.framesTo live.nodes path →
      let walked := descend live.parents path live.session siblings
      live.Becomes base path walked.part walked.session
        (calling live.parents path live.session siblings) (inPlace path live).1 ∧
      (inPlace path live).2 = walked.halt

variable {inPlace : LiveDescent} {descend : Descent} {calling : Calling}

private theorem within_becomes (mirrors : Mirrors base inPlace descend calling)
    (found : Node.siblingsAt? live.nodes path = some (done ++ part :: rest))
    (above : live.parents = base ++ Node.framesTo live.nodes path) :
    let place : Place := ⟨live.parents, path ++ [done.length]⟩
    let first := below descend place live.session part
    live.Becomes base path (done ++ first.part :: rest) first.session
        (callsBelow calling place live.session part) (live.within inPlace place.path part).1 ∧
      (live.within inPlace place.path part).2 = first.halt := by
  intro place first
  cases part with
  | content | reference => exact ⟨.refl found, rfl⟩
  | element e =>
    have here : (done ++ Node.element e :: rest)[done.length]? = some (.element e) := by simp
    let inner : Live := { live with parents := live.parents ++ [.ofElement e place.path] }
    have deeper : inner.parents = base ++ Node.framesTo inner.nodes place.path := by
      rw [Node.framesTo_below (follow?_next found), ← List.append_assoc, ← above]
    have inside : Node.siblingsAt? inner.nodes place.path = some e.children :=
      Node.siblingsAt?_below found here
    obtain ⟨becomes, halted⟩ := mirrors inside deeper
    refine ⟨⟨?_, ?_, becomes.session, becomes.seen⟩, halted⟩
    · refine becomes.nodes.trans ?_
      rw [Node.putAt_below found here]
      congr 1
      simp [first, below, inner, place]
    · have popped : (inPlace place.path inner).1.parents.dropLast = live.parents := by
        rw [becomes.parents]
        exact List.dropLast_concat
      exact popped

private theorem along_next (found : Node.siblingsAt? live.nodes path = some (done ++ node :: rest))
    (inPlace : LiveDescent) (turns : Nat) :
    let place : Place := ⟨live.parents, path ++ [done.length]⟩
    let part := (visitor.offer place live.session node).part
    let seen := live.see visitor path done.length node
    along visitor inPlace path (turns + 1) done.length live =
      match (visitor.visit place live.session node).2 with
      | .error halt => (seen, some halt)
      | .ok (.replace parts) => along visitor inPlace path turns (done.length + parts.length)
          (seen.splice path done.length parts)
      | .ok .keep =>
        match seen.within inPlace place.path part with
        | (live, some halt) => (live, some halt)
        | (live, none) => along visitor inPlace path turns (done.length + 1) live := by
  simp only [along, follow?_next found]

/-- Along siblings, the walk in place comes to the same as the walk that takes them apart. -/
private theorem along_becomes (mirrors : Mirrors base inPlace descend calling) {parents : List Frame}
    {session : Session} {index : Nat}
    (found : Node.siblingsAt? live.nodes path = some (done ++ rest)) (stands : done.length = index)
    (stack : live.parents = parents) (now : live.session = session)
    (above : parents = base ++ Node.framesTo live.nodes path) :
    let walked := walkSiblings visitor descend parents path index session rest
    let ended := along visitor inPlace path rest.length index live
    live.Becomes base path (done ++ walked.part) walked.session
        (callsSiblings visitor descend calling parents path index session rest) ended.1 ∧
      ended.2 = walked.halt := by
  induction rest generalizing live done session index with
  | nil =>
    cases now
    exact ⟨.refl found, rfl⟩
  | cons node rest ih =>
    cases stands
    cases stack
    cases now
    intro walked ended
    let place : Place := ⟨live.parents, path ++ [done.length]⟩
    let part := (visitor.offer place live.session node).part
    let seen := live.see visitor path done.length node
    have sees : live.Becomes base path (done ++ part :: rest) (visitor.visit place live.session node).1
        [⟨visitor, place, live.session, .node node⟩] seen := see_becomes found above
    have found' := sees.found found
    have above' : seen.parents = base ++ Node.framesTo seen.nodes path := by
      rw [sees.framesTo found]
      exact above
    have turned : ended = _ := along_next found inPlace rest.length
    rcases decided : visitor.visit place live.session node with ⟨later, halt | action⟩
    · have walks : walked = _ := walkSiblings_of_error decided
      rw [turned, walks, callsSiblings_of_error decided]
      rw [decided] at sees ⊢
      exact ⟨sees, rfl⟩
    have later' : seen.session = later := by rw [sees.session, decided]
    cases action with
    | replace parts =>
      have walks : walked = _ := walkSiblings_of_replace decided
      rw [turned, walks, callsSiblings_of_replace decided]
      rw [decided] at sees ⊢
      have splices := @splice_becomes base path seen done rest part found' parts
      obtain ⟨becomes, halted⟩ := ih (splices.found found') List.length_append splices.parents
        (splices.session.trans later') (by rw [splices.framesTo found', sees.framesTo found]; exact above)
      refine ⟨?_, halted⟩
      rw [List.append_assoc] at becomes
      exact sees.trans found (splices.trans found' becomes)
    | keep =>
      have walks : walked = _ := walkSiblings_of_keep decided
      rw [turned, walks, callsSiblings_of_keep decided]
      rw [decided] at sees ⊢
      obtain ⟨inside, halted⟩ := within_becomes mirrors found' above'
      have same : seen.parents = live.parents := rfl
      rw [later', same] at inside halted
      dsimp only
      generalize seen.within inPlace place.path part = ended at inside halted ⊢
      generalize below descend place later part = first at inside halted ⊢
      obtain ⟨deeper, halt⟩ := ended
      obtain ⟨head, last, halt⟩ := first
      cases halted
      cases halt with
      | some halt =>
        refine ⟨?_, rfl⟩
        rw [List.append_nil]
        exact sees.trans found inside
      | none =>
        have found'' : Node.siblingsAt? deeper.nodes path = some ((done ++ [head]) ++ rest) := by
          rw [List.append_assoc]
          exact inside.found found'
        obtain ⟨becomes, halted⟩ := ih found'' List.length_append inside.parents inside.session
          (by rw [inside.framesTo found', sees.framesTo found]; exact above)
        refine ⟨?_, halted⟩
        rw [List.append_assoc] at becomes
        exact sees.trans found (inside.trans found' becomes)

private theorem mirrors_walkNodes (visitor : Visitor) (base : List Frame) (levels : Nat) :
    Mirrors base (descendInPlace visitor levels) (walkNodes visitor levels)
      (callsNodes visitor levels) := by
  induction levels with
  | zero =>
    intro path live siblings found _
    refine ⟨.refl found, ?_⟩
    simp only [descendInPlace, walkNodes, found, Option.getD_some]
  | succ levels ih =>
    intro path live siblings found above
    have walks : descendInPlace visitor (levels + 1) path live =
        along visitor (descendInPlace visitor levels) path siblings.length 0 live := by
      simp only [descendInPlace, found, Option.getD_some]
    rw [walks]
    exact @along_becomes visitor base path live [] siblings _ _ _ ih _ _ 0 found rfl rfl rfl above

end

/-- The walk over a document in place comes to the same as the walk that takes the tree apart, and makes
the same calls, whether it ends early or not. The stack of elements is then what it was before, and every
call has been for the node at its path in the document as it was, with the elements above it. -/
theorem walkInPlace_mirrors (visitor : Visitor) (parents : List Frame) (session : Session) (d : Document)
    (levels : Nat) :
    let walked := visitor.walk parents session d levels
    let ended := visitor.walkInPlace parents session d levels
    let live := ended.1
    live.nodes = walked.part.children ∧ live.session = walked.session ∧ ended.2 = walked.halt ∧
      live.parents = parents ∧
      live.sightings.map (·.call) = (visitor.calls parents session d levels).tail ∧
      ∀ sighting ∈ live.sightings, sighting.Faithful parents := by
  rw [walk_eq_opening, calls_eq_opening, walkInPlace]
  dsimp only
  generalize visitor.opening parents session d = first
  by_cases ended : (first.halt.isSome || !visitor.descends) = true
  · simp [ended]
  · let live : Live := ⟨first.part.children, parents, first.session, []⟩
    have above : live.parents = parents ++ Node.framesTo live.nodes [] := (List.append_nil parents).symm
    obtain ⟨becomes, halted⟩ := @mirrors_walkNodes visitor parents levels [] live _ rfl above
    obtain ⟨seen, grown, told, faithful⟩ := becomes.seen
    rw [List.nil_append] at grown
    simp only [if_neg ended, List.tail_cons]
    refine ⟨becomes.nodes, becomes.session, halted, becomes.parents, ?_, ?_⟩
    · rw [grown, told]
    · rw [grown]
      exact faithful

end Visitor
end LinkedMarkup
