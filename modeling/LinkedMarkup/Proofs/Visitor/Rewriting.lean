import LinkedMarkup.Proofs.Visitor.InPlace
/-! What a walk does to a document, whatever its visitor does to single nodes. Nodes are offered in document
order, each once, an element before the children that its own visit has left; what takes the place of a
node is not offered, and neither is what was below that node. At every call the path and the elements
above are those of the node in the document as it is then, and they are those of the final document
too. -/
namespace LinkedMarkup.Visitor

/-- A rewriting of siblings that comes to its end, with the calls in their order: the siblings stand below
`above`, and the first of them at `index`. -/
inductive Rewrites (visitor : Visitor) :
    Place → Nat → Session → List Node → List Call → Session → List Node → Prop where
  | nil {above : Place} {index : Nat} {session : Session} :
    Rewrites visitor above index session [] [] session []
  /-- Other nodes take the place of a node. -/
  | replaced {above place : Place} {index : Nat} {session later last : Session} {node : Node}
    {parts rest after : List Node} {calls : List Call} (stands : place = ⟨above.parents, above.path ++ [index]⟩)
    (decided : visitor.visit place session node = (later, .ok (.replace parts)))
    (others : Rewrites visitor above (index + parts.length) later rest calls last after) :
    Rewrites visitor above index session (node :: rest) (⟨visitor, place, session, .node node⟩ :: calls) last
      (parts ++ after)
  /-- A node that is kept as its visit has left it, and is no element. -/
  | leaf {above place : Place} {index : Nat} {session later last : Session} {node : Node}
    {rest after : List Node} {calls : List Call} (stands : place = ⟨above.parents, above.path ++ [index]⟩)
    (decided : visitor.visit place session node = (later, .ok .keep))
    (bare : (visitor.offer place session node).part.asElement? = none)
    (others : Rewrites visitor above (index + 1) later rest calls last after) :
    Rewrites visitor above index session (node :: rest) (⟨visitor, place, session, .node node⟩ :: calls) last
      ((visitor.offer place session node).part :: after)
  /-- An element that is kept as its visit has left it, with its children rewritten in turn. -/
  | element {above place : Place} {index : Nat} {session later middle last : Session} {node : Node}
    {e : Element} {own rest after : List Node} {inner calls : List Call}
    (stands : place = ⟨above.parents, above.path ++ [index]⟩)
    (decided : visitor.visit place session node = (later, .ok .keep))
    (visited : (visitor.offer place session node).part = .element e)
    (below : Rewrites visitor ⟨above.parents ++ [.ofElement e place.path], place.path⟩ 0 later e.children inner
      middle own)
    (others : Rewrites visitor above (index + 1) middle rest calls last after) :
    Rewrites visitor above index session (node :: rest)
      (⟨visitor, place, session, .node node⟩ :: (inner ++ calls)) last
      (.element { e with children := own } :: after)

/-- The ancestors of a call are the elements above its path in the document, and a node that is kept stands
there, as its visit has left it but for its children. -/
structure Call.Stands (base : List Frame) (nodes : List Node) (call : Call) : Prop where
  parents : call.place.parents = base ++ Node.framesAbove nodes call.place.path
  kept : ∀ {node later}, call.subject = .node node →
    call.visitor.visit call.place call.session node = (later, .ok .keep) → ∃ own,
      Node.follow? nodes call.place.path =
        some ((call.visitor.offer call.place call.session node).part.withChildren own)

variable {visitor : Visitor}

private theorem rewrites_siblings {descend : Descent} {calling : Calling}
    (deeper : ∀ {parents path session nodes}, (descend parents path session nodes).halt = none →
      visitor.Rewrites ⟨parents, path⟩ 0 session nodes (calling parents path session nodes)
        (descend parents path session nodes).session (descend parents path session nodes).part)
    {parents : List Frame} {path : NodePath} {index : Nat} {session : Session} {nodes : List Node}
    (ended : (walkSiblings visitor descend parents path index session nodes).halt = none) :
    visitor.Rewrites ⟨parents, path⟩ index session nodes
      (callsSiblings visitor descend calling parents path index session nodes)
      (walkSiblings visitor descend parents path index session nodes).session
      (walkSiblings visitor descend parents path index session nodes).part := by
  induction nodes generalizing index session with
  | nil => exact .nil
  | cons node rest ih =>
    rcases decided : visitor.visit ⟨parents, path ++ [index]⟩ session node with ⟨later, halt | action⟩
    · rw [walkSiblings_of_error decided] at ended
      cases ended
    cases action with
    | replace parts =>
      rw [walkSiblings_of_replace decided] at ended ⊢
      rw [callsSiblings_of_replace decided]
      exact .replaced rfl decided (ih ended)
    | keep =>
      cases found : (visitor.offer ⟨parents, path ++ [index]⟩ session node).part.asElement? with
      | none =>
        rw [walkSiblings_of_leaf decided found] at ended ⊢
        rw [callsSiblings_of_leaf decided found]
        exact .leaf rfl decided found (ih ended)
      | some e =>
        have visited := Node.of_asElement? found
        rw [walkSiblings_of_keep decided] at ended ⊢
        rw [callsSiblings_of_keep decided]
        simp only [visited, below, callsBelow] at ended ⊢
        generalize inside : descend (parents ++ [.ofElement e (path ++ [index])]) (path ++ [index]) later
          e.children = walked at ended ⊢
        cases whole : walked.halt with
        | some halt =>
          rw [whole] at ended
          cases ended
        | none =>
          rw [whole] at ended
          have below := deeper (inside ▸ whole)
          rw [inside] at below
          exact .element rfl decided visited below (ih ended)

/-- A walk over nodes that comes to its end is a rewriting. -/
theorem rewrites_nodes (levels : Nat) {parents : List Frame} {path : NodePath} {session : Session}
    {nodes : List Node} (ended : (walkNodes visitor levels parents path session nodes).halt = none) :
    visitor.Rewrites ⟨parents, path⟩ 0 session nodes (callsNodes visitor levels parents path session nodes)
      (walkNodes visitor levels parents path session nodes).session
      (walkNodes visitor levels parents path session nodes).part := by
  induction levels generalizing parents path session nodes with
  | zero =>
    cases nodes with
    | nil => exact .nil
    | cons node rest => cases ended
  | succ levels ih => exact rewrites_siblings ih ended

section
variable {base : List Frame} {above : Place} {whole siblings : List Node} {index : Nat} {session : Session}
  {node : Node}

private theorem stands_among (found : Node.siblingsAt? whole above.path = some siblings)
    (stack : above.parents = base ++ Node.framesTo whole above.path)
    (kept : ∀ later, visitor.visit ⟨above.parents, above.path ++ [index]⟩ session node = (later, .ok .keep) →
      ∃ own, siblings[index]? = some
        ((visitor.offer ⟨above.parents, above.path ++ [index]⟩ session node).part.withChildren own)) :
    Call.Stands base whole ⟨visitor, ⟨above.parents, above.path ++ [index]⟩, session, .node node⟩ := by
  constructor
  · rw [Node.framesAbove_below]
    exact stack
  · intro _ later same decided
    cases same
    rw [Node.follow?_below found]
    exact kept later decided

private theorem Rewrites.stands {last : Session} {nodes after done : List Node} {calls : List Call}
    (rewrites : visitor.Rewrites above index session nodes calls last after)
    (found : Node.siblingsAt? whole above.path = some (done ++ after)) (first : done.length = index)
    (stack : above.parents = base ++ Node.framesTo whole above.path) :
    ∀ call ∈ calls, call.Stands base whole := by
  induction rewrites generalizing done with
  | nil => exact fun _ member => by cases member
  | replaced stands decided others ih =>
    cases first
    cases stands
    have further := found
    rw [← List.append_assoc] at further
    refine List.forall_mem_cons.mpr ⟨stands_among found stack fun later kept => ?_,
      ih further List.length_append stack⟩
    cases decided.symm.trans kept
  | leaf stands decided bare others ih =>
    cases first
    cases stands
    have further := found
    rw [List.append_cons] at further
    refine List.forall_mem_cons.mpr ⟨stands_among found stack fun later kept => ⟨[], ?_⟩,
      ih further List.length_append stack⟩
    rw [Node.withChildren_leaf bare]
    simp
  | @element above _ _ _ _ _ _ _ e own _ after _ _ stands decided visited below others ihBelow ih =>
    cases first
    cases stands
    let kept : Element := { e with children := own }
    have further := found
    rw [List.append_cons] at further
    have among : (done ++ Node.element kept :: after)[done.length]? = some (.element kept) := by simp
    have here : Node.follow? whole (above.path ++ [done.length]) = some (.element kept) :=
      (Node.follow?_below found _).trans among
    have inside : Node.siblingsAt? whole (above.path ++ [done.length]) = some ([] ++ own) :=
      Node.siblingsAt?_below found among
    refine List.forall_mem_cons.mpr ⟨stands_among found stack fun later _ => ⟨own, ?_⟩,
      List.forall_mem_append.mpr ⟨ihBelow inside rfl ?_, ih further List.length_append stack⟩⟩
    · rw [visited]
      exact among
    · rw [Node.framesTo_below here, ← List.append_assoc, ← stack]
      rfl

end

/-- A walk is a faithful rewriting of a document, whatever the hooks of the visitor make of the nodes that
they are given. Walked over in place, the document becomes what the walk makes of it, the stack of elements
is in the end what it was before, and each call is for the node at its path in the document as it is then,
with the elements above that node. A walk that comes to its end has rewritten the children that the visit
of the document has left, and the calls stand in its final document where they have been made. -/
theorem walk_faithful (visitor : Visitor) (descends : visitor.descends = true) (parents : List Frame)
    (session : Session) (d : Document) (levels : Nat) :
    let first := visitor.opening parents session d
    let walked := visitor.walk parents session d levels
    let ended := visitor.walkInPlace parents session d levels
    let live := ended.1
    (live.nodes = walked.part.children ∧ live.session = walked.session ∧ ended.2 = walked.halt) ∧
      live.parents = parents ∧
      (∀ sighting ∈ live.sightings, sighting.Faithful parents) ∧
      (walked.halt = none →
        visitor.Rewrites ⟨parents, []⟩ 0 first.session first.part.children
            (live.sightings.map (·.call)) walked.session walked.part.children ∧
          ∀ sighting ∈ live.sightings, sighting.call.Stands parents walked.part.children) := by
  intro first walked ended live
  obtain ⟨nodes, last, halted, stack, told, faithful⟩ :=
    walkInPlace_mirrors visitor parents session d levels
  refine ⟨⟨nodes, last, halted⟩, stack, faithful, fun complete => ?_⟩
  have walks : walked = _ := walk_eq_opening d levels
  rw [calls_eq_opening, List.tail_cons] at told
  cases opened : first.halt with
  | some halt =>
    simp only [opened, first, Option.isSome_some, Bool.true_or, if_true] at walks
    rw [walks, opened] at complete
    cases complete
  | none =>
    simp only [opened, first, descends, Option.isSome_none, Bool.not_true, Bool.or_self,
      Bool.false_eq_true, if_false] at walks told
    rw [walks] at complete
    have rewrites := rewrites_nodes levels complete
    have found : Node.siblingsAt? walked.part.children [] = some ([] ++ walked.part.children) := rfl
    rw [told]
    rw [walks] at found ⊢
    refine ⟨rewrites, fun sighting member => ?_⟩
    refine rewrites.stands found rfl (List.append_nil parents).symm sighting.call ?_
    rw [← told]
    exact List.mem_map.mpr ⟨sighting, member, rfl⟩

/-- Drops empty elements and puts two texts in the place of a reference. -/
def pruning : Visitor where
  name := "pruning"
  element _ session e := ⟨e, session, .ok (if e.children.isEmpty then .replace [] else .keep)⟩
  reference _ session r :=
    let text : Node := .content { text := r.path }
    ⟨r, session, .ok (.replace [text, text])⟩

/-- An empty element, a text and a reference in an element, and behind it an element that is empty and one
that is not. -/
def grove : Document :=
  let reference : Node := .reference { protocol := "s", path := "r" }
  let tree (tag : String) (children : List Node) : Node := .element { tag, children }
  let text (text : String) : Node := .content { text }
  { children := [tree "a" [tree "b" [], text "c", reference], tree "d" [], tree "e" [text "f"]] }

/-- The text moves up when the empty element is dropped, and so does the last element. -/
theorem walk_faithful_grove :
    let walked := pruning.walk [] {} grove 2
    let sightings := (pruning.walkInPlace [] {} grove 2).1.sightings
    sightings.map (·.call.place.path) = [[0], [0, 0], [0, 0], [0, 1], [1], [1], [1, 0]] ∧
      ∀ sighting ∈ sightings, sighting.call.Stands [] walked.part.children := by
  intro walked sightings
  have complete : walked.halt = none := Option.isNone_iff_eq_none.mp (by decide +kernel)
  obtain ⟨_, _, _, rewritten⟩ := walk_faithful pruning rfl [] {} grove 2
  exact ⟨by decide +kernel, (rewritten complete).2⟩

end LinkedMarkup.Visitor
