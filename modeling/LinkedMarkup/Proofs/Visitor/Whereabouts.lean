import LinkedMarkup.Proofs.Visitor.Frames
import LinkedMarkup.Proofs.Visitor.Reported
import LinkedMarkup.Proofs.Visitor.Rewriting
import LinkedMarkup.Proofs.Visitor.Wording
/-! The metadata that tell where elements stand. They are exact when they are written. The pass over texts
comes later and drops those whose normal form is empty, so elements may move up and lose children; their
depth and their parents stay. -/
namespace LinkedMarkup

/-- The metadata of an element tell how deep it stands and what its parent is. -/
structure Element.TellsParent (place : Place) (e : Element) : Prop where
  depth : e.metadata.find? "depth" = some (.ofNat place.parents.length)
  parent : e.metadata.find? "parent" =
    some ((place.parents.getLast?.map fun frame => Value.text frame.tag).getD .null)

/-- They tell as well at which path it stands, and how many children it has. -/
structure Element.TellsPlace (place : Place) (e : Element) : Prop extends e.TellsParent place where
  path : e.metadata.find? "path" = some (.array (place.path.map .ofNat))
  children : e.metadata.find? "child_count" = some (.ofNat e.children.length)

/-- Only the tags of the parents count. -/
theorem Element.TellsParent.congr {place other : Place} {e : Element} (tells : e.TellsParent place)
    (same : other.parents.map Frame.tag = place.parents.map Frame.tag) : e.TellsParent other := by
  have count : other.parents.length = place.parents.length := by
    simpa using congrArg List.length same
  have last (place : Place) : (place.parents.getLast?.map fun frame => Value.text frame.tag) =
      (place.parents.map Frame.tag).getLast?.map Value.text := by
    rw [List.getLast?_map, Option.map_map]
    rfl
  refine ⟨count ▸ tells.depth, ?_⟩
  rw [tells.parent, last, last, same]

/-- The place of an element with as many other children is told as well. -/
theorem Element.TellsPlace.withChildren {place : Place} {e : Element} (tells : e.TellsPlace place)
    {own : List Node} (count : own.length = e.children.length) :
    Element.TellsPlace place { e with children := own } where
  depth := tells.depth
  parent := tells.parent
  path := tells.path
  children := count ▸ tells.children

mutual
/-- Something holds of all elements of a node, each at its place, if the node stands at `place`. -/
def Node.HoldsAt (holds : Place → Element → Prop) (place : Place) : Node → Prop
  | .element e => e.HoldsAt holds place
  | .content _ => True
  | .reference _ => True
/-- The same of siblings below `above`, the first of which stands at an index. -/
def Node.AllHoldAt (holds : Place → Element → Prop) (above : Place) : Nat → List Node → Prop
  | _, [] => True
  | index, node :: rest =>
    node.HoldsAt holds ⟨above.parents, above.path ++ [index]⟩ ∧ Node.AllHoldAt holds above (index + 1) rest
def Element.HoldsAt (holds : Place → Element → Prop) (place : Place) : Element → Prop
  | ⟨tag, attributes, children, metadata, position⟩ =>
    holds place ⟨tag, attributes, children, metadata, position⟩ ∧
      Node.AllHoldAt holds ⟨place.parents ++
        [.ofElement ⟨tag, attributes, children, metadata, position⟩ place.path], place.path⟩ 0 children
end

mutual
private theorem Node.HoldsAt.mono {strong weak : Place → Element → Prop} {place : Place}
    (weaker : ∀ {place e}, strong place e → weak place e) :
    ∀ {node : Node}, node.HoldsAt strong place → node.HoldsAt weak place
  | .element e, holds => by
    rw [Node.HoldsAt] at holds ⊢
    exact Element.HoldsAt.mono weaker holds
  | .content _, _ => by rw [Node.HoldsAt]; trivial
  | .reference _, _ => by rw [Node.HoldsAt]; trivial
theorem Node.AllHoldAt.mono {strong weak : Place → Element → Prop} {above : Place} {index : Nat}
    (weaker : ∀ {place e}, strong place e → weak place e) :
    ∀ {nodes : List Node}, Node.AllHoldAt strong above index nodes → Node.AllHoldAt weak above index nodes
  | [], _ => by rw [Node.AllHoldAt]; trivial
  | _ :: _, all => by
    rw [Node.AllHoldAt] at all ⊢
    exact ⟨Node.HoldsAt.mono weaker all.1, Node.AllHoldAt.mono weaker all.2⟩
private theorem Element.HoldsAt.mono {strong weak : Place → Element → Prop} {place : Place}
    (weaker : ∀ {place e}, strong place e → weak place e) :
    ∀ {e : Element}, e.HoldsAt strong place → e.HoldsAt weak place
  | ⟨_, _, _, _, _⟩, holds => by
    rw [Element.HoldsAt] at holds ⊢
    exact ⟨weaker holds.1, Node.AllHoldAt.mono weaker holds.2⟩
end

section
variable {holds : Place → Element → Prop} {above place : Place} {index : Nat} {nodes : List Node}

theorem Element.holdsAt_iff (e : Element) : e.HoldsAt holds place ↔ holds place e ∧
    Node.AllHoldAt holds ⟨place.parents ++ [.ofElement e place.path], place.path⟩ 0 e.children := by
  cases e
  rw [Element.HoldsAt]

namespace Node

theorem allHoldAt_leaf {node : Node} (leaf : node.asElement? = none) (rest : List Node) :
    AllHoldAt holds above index (node :: rest) ↔ AllHoldAt holds above (index + 1) rest := by
  cases node with
  | element e => cases leaf
  | content | reference => simp [AllHoldAt, HoldsAt]

theorem allHoldAt_element (e : Element) (rest : List Node) :
    AllHoldAt holds above index (.element e :: rest) ↔
      (holds ⟨above.parents, above.path ++ [index]⟩ e ∧
        AllHoldAt holds ⟨above.parents ++ [.ofElement e (above.path ++ [index])], above.path ++ [index]⟩ 0
          e.children) ∧
      AllHoldAt holds above (index + 1) rest := by
  rw [AllHoldAt, HoldsAt, Element.holdsAt_iff]

theorem allHoldAt_leaves {leaves : List Node} (bare : ∀ leaf ∈ leaves, leaf.asElement? = none)
    (rest : List Node) : AllHoldAt holds above index (leaves ++ rest) ↔
      AllHoldAt holds above (index + leaves.length) rest := by
  induction leaves generalizing index with
  | nil => rfl
  | cons leaf leaves ih =>
    obtain ⟨first, others⟩ := List.forall_mem_cons.mp bare
    rw [List.cons_append, allHoldAt_leaf first, ih others, List.length_cons, Nat.add_assoc,
      Nat.add_comm 1]

theorem AllHoldAt.getElem? (all : AllHoldAt holds above index nodes) {i : Nat} {node : Node}
    (here : nodes[i]? = some node) :
    node.HoldsAt holds ⟨above.parents, above.path ++ [index + i]⟩ := by
  induction nodes generalizing index i with
  | nil => cases here
  | cons first rest ih =>
    rw [AllHoldAt] at all
    cases i with
    | zero =>
      cases here
      exact all.1
    | succ i =>
      have there := ih all.2 here
      rwa [Nat.add_assoc, Nat.add_comm 1 i] at there

/-- What holds of all elements at their places holds of the element at a path, with the elements above that
path as its parents. -/
theorem AllHoldAt.follow? {whole : List Node} (all : AllHoldAt holds above 0 nodes)
    (found : siblingsAt? whole above.path = some nodes) (stack : above.parents = framesTo whole above.path)
    {path : NodePath} {e : Element} (here : Node.follow? nodes path = some (.element e)) :
    holds ⟨framesAbove whole (above.path ++ path), above.path ++ path⟩ e := by
  induction path generalizing above nodes with
  | nil => cases here
  | cons index path ih =>
    have stands (outer : Element) (there : nodes[index]? = some (.element outer)) :=
      (Element.holdsAt_iff outer).mp (all.getElem? there)
    rw [Nat.zero_add] at stands
    rcases follow?_cons_eq_some here with ⟨rfl, there⟩ | ⟨outer, there, below⟩
    · rw [framesAbove_below, ← stack]
      exact (stands e there).1
    · have stack' : above.parents ++ [.ofElement outer (above.path ++ [index])] =
          framesTo whole (above.path ++ [index]) := by
        rw [framesTo_below ((follow?_below found index).trans there), stack]
      have inside := ih (stands outer there).2 (siblingsAt?_below found there) stack' below
      rwa [List.append_assoc] at inside

end Node
end

namespace Visitor

theorem tellsPlace_structural (place : Place) (e : Element) :
    Element.TellsPlace place { e with metadata := structural place e } := by
  refine ⟨⟨?_, ?_⟩, ?_, ?_⟩
  all_goals
    simp only [structural]
    cases place.parents.getLast? with
    | none => simp [Table.find?_insert]
    | some frame => rcases frame with ⟨tag, none | id, path⟩ <;> simp [Table.find?_insert]

/-- The pass over metadata writes them exactly, keeps all nodes and changes no text. -/
theorem tells_of_metadata {above : Place} {index : Nat} {session last : Session}
    {nodes after : List Node} {calls : List Call}
    (rewrites : metadata.Rewrites above index session nodes calls last after) :
    Node.AllHoldAt Element.TellsPlace above index after ∧ after.length = nodes.length ∧
      Node.allWording after = Node.allWording nodes := by
  induction rewrites with
  | nil => exact ⟨trivial, rfl, rfl⟩
  | @replaced _ _ _ _ _ _ node _ _ _ _ _ decided _ _ => cases node <;> cases decided
  | @leaf _ _ _ _ _ _ node _ _ _ _ _ bare _ ih =>
    obtain ⟨holds, count, same⟩ := ih
    cases node with
    | element e => cases bare
    | content | reference =>
      refine ⟨(Node.allHoldAt_leaf rfl _).mpr holds, congrArg (· + 1) count, ?_⟩
      exact congrArg (Node.wording _ ++ ·) same
  | @element above place index _ _ _ _ node e own _ _ _ _ stands _ visited _ _ below others =>
    obtain ⟨inner, count, same⟩ := below
    obtain ⟨holds, length, others⟩ := others
    cases node with
    | content | reference => cases visited
    | element before =>
      cases visited
      cases stands
      have tells := tellsPlace_structural ⟨above.parents, above.path ++ [index]⟩ before
      refine ⟨(Node.allHoldAt_element _ _).mpr ⟨⟨tells.withChildren count, inner⟩, holds⟩,
        congrArg (· + 1) length, ?_⟩
      rw [Node.allWording_element, Node.allWording_element, others]
      exact congrArg (· ++ _) same

/-- What the pass over texts makes of one: its normal form, or nothing if that is empty. -/
def polished (c : Content) : List Node :=
  let text := Normalization.normalize c.text
  if text.isEmpty then [] else [.content { c with text }]

def polishing : Manner where
  element e visited := visited = e
  leaf node parts := (∃ c, node = .content c ∧ parts = polished c) ∨
    ∃ r, node = .reference r ∧ parts = [node]

theorem polished_leaves (c : Content) : ∀ leaf ∈ polished c, leaf.asElement? = none := by
  intro leaf member
  simp only [polished] at member
  split at member
  · cases member
  · cases List.mem_singleton.mp member
    rfl

theorem leaves_of_polishing {node : Node} {parts : List Node} (leaf : polishing.leaf node parts) :
    node.asElement? = none ∧ ∀ part ∈ parts, part.asElement? = none := by
  rcases leaf with ⟨c, rfl, rfl⟩ | ⟨r, rfl, rfl⟩
  · exact ⟨rfl, polished_leaves c⟩
  · exact ⟨rfl, fun _ member => by cases List.mem_singleton.mp member; rfl⟩

theorem normalization_polishes (session : Session) (d : Document) (levels : Nat)
    (ended : (normalization.walk [] session d levels).halt = none) :
    polishing.Passes d.children (normalization.walk [] session d levels).part.children := by
  have minds : normalization.Minds (fun _ => True) (fun _ => True) (fun _ => False) polishing := by
    refine ⟨normalization_adding, fun _ => id, fun place session later node action _ _ decided _ =>
      ⟨trivial, ?_⟩⟩
    cases node with
    | element e => cases decided; exact .element rfl fun _ _ => trivial
    | reference r => cases decided; exact .leaf (.inr ⟨r, rfl, rfl⟩) rfl
    | content c =>
      simp only [visit, offer, normalization] at decided ⊢
      split at decided
      · rename_i empty
        cases decided
        exact .replaced (.inl ⟨c, rfl, by simp [polished, empty]⟩)
      · rename_i filled
        cases decided
        rw [if_neg filled]
        exact .leaf (.inl ⟨c, rfl, by simp [polished, filled, Visited.keep]⟩) rfl
  rw [walk_nodes rfl rfl] at ended ⊢
  exact ((minds.walkNodes_passed levels trivial fun _ _ => trivial).passed ended id).2

section
variable {nodes after : List Node} {above : Place} {index : Nat}

/-- Elements keep their parents when texts are dropped, wherever they move. -/
theorem tellsParent_of_polishing (passes : polishing.Passes nodes after)
    (all : Node.AllHoldAt Element.TellsParent above index nodes) {place : Place} {start : Nat}
    (same : place.parents.map Frame.tag = above.parents.map Frame.tag) :
    Node.AllHoldAt Element.TellsParent place start after := by
  induction passes generalizing above place index start with
  | nil => trivial
  | @element e visited own _ _ here _ _ below others =>
    cases here
    rw [Node.allHoldAt_element] at all ⊢
    obtain ⟨⟨tells, inner⟩, rest⟩ := all
    have deeper : (place.parents ++ [Frame.ofElement { e with children := own } (place.path ++ [start])]).map
        Frame.tag = (above.parents ++ [Frame.ofElement e (above.path ++ [index])]).map Frame.tag := by
      rw [List.map_append, List.map_append, same]
      rfl
    have stays : Element.TellsParent ⟨place.parents, place.path ++ [start]⟩ { e with children := own } :=
      Element.TellsParent.congr ⟨tells.depth, tells.parent⟩ same
    exact ⟨⟨stays, below inner deeper⟩, others rest same⟩
  | leaf here _ others =>
    obtain ⟨bare, leaves⟩ := leaves_of_polishing here
    rw [Node.allHoldAt_leaf bare] at all
    rw [Node.allHoldAt_leaves leaves]
    exact others all same

/-- Where no text is dropped, elements stay where they are and keep their children. -/
theorem tellsPlace_of_polishing (passes : polishing.Passes nodes after)
    (filled : ∀ c ∈ Node.allWording nodes, Normalization.normalize c.text ≠ "")
    (all : Node.AllHoldAt Element.TellsPlace above index nodes) :
    Node.AllHoldAt Element.TellsPlace above index after ∧ after.length = nodes.length := by
  induction passes generalizing above index with
  | nil => exact ⟨trivial, rfl⟩
  | @element e visited own _ _ here _ _ below others =>
    cases here
    rw [Node.allHoldAt_element] at all ⊢
    obtain ⟨⟨tells, inner⟩, rest⟩ := all
    rw [Node.allWording_element, List.forall_mem_append] at filled
    obtain ⟨inner, count⟩ := below filled.1 inner
    obtain ⟨rest, length⟩ := others filled.2 rest
    exact ⟨⟨⟨tells.withChildren count, inner⟩, rest⟩, congrArg (· + 1) length⟩
  | @leaf node parts rest rest' here _ others =>
    obtain ⟨bare, leaves⟩ := leaves_of_polishing here
    rw [Node.allHoldAt_leaf bare] at all
    rw [Node.allWording, List.forall_mem_append] at filled
    obtain ⟨holds, length⟩ := others filled.2 all
    have single : parts.length = 1 := by
      rcases here with ⟨c, rfl, rfl⟩ | ⟨r, rfl, rfl⟩
      · have full := filled.1 c (by simp [Node.wording])
        simp [polished, full]
      · rfl
    rw [Node.allHoldAt_leaves leaves, List.length_append, single, length, List.length_cons,
      Nat.add_comm 1]
    exact ⟨holds, rfl⟩

end

end Visitor

/-- All elements of a document tell something of the place where they stand. -/
def Document.Tells (tells : Place → Element → Prop) (d : Document) : Prop :=
  ∀ path e, d.elementAt? path = some e → tells ⟨Node.framesAbove d.children path, path⟩ e

theorem Document.tells_of_all {tells : Place → Element → Prop} {d : Document}
    (all : Node.AllHoldAt tells ⟨[], []⟩ 0 d.children) : d.Tells tells := by
  intro path e found
  obtain ⟨node, here, element⟩ := Option.bind_eq_some_iff.mp found
  rw [Node.of_asElement? element] at here
  exact all.follow? rfl rfl here

/-- The text has a normal form that is not empty. -/
def Content.IsFilled (c : Content) : Prop := Normalization.normalize c.text ≠ ""

instance (c : Content) : Decidable c.IsFilled := inferInstanceAs (Decidable (_ ≠ _))

namespace Pipeline
variable {resolver : Resolver} {session : Session} {d : Document} {tags : TagRegistry} {levels : Nat}

private theorem pass_writes
    (complete : (pass levels [.metadata, .normalization, .attributeValidation tags] session d).halt = none) :
    let final := (pass levels [.metadata, .normalization, .attributeValidation tags] session d).document
    ∃ written : Document, Node.AllHoldAt Element.TellsPlace ⟨[], []⟩ 0 written.children ∧
      Node.allWording written.children = Node.allWording d.children ∧
      Visitor.polishing.Passes written.children final.children := by
  obtain ⟨wrote, same⟩ := complete_cons complete
  rw [same] at complete ⊢
  obtain ⟨polished, same⟩ := complete_cons complete
  rw [same] at complete ⊢
  obtain ⟨checked, same⟩ := complete_cons complete
  rw [same]
  let written := (Visitor.metadata.walk [] session d levels).part
  refine ⟨written, ?_⟩
  have polishes := Visitor.normalization_polishes _ written levels polished
  have rewrites : Node.AllHoldAt Element.TellsPlace ⟨[], []⟩ 0 written.children ∧
      written.children.length = d.children.length ∧
      Node.allWording written.children = Node.allWording d.children := by
    have walked : Visitor.metadata.walk [] session d levels = _ :=
      Visitor.walk_nodes rfl rfl session d levels
    rw [walked] at wrote
    simp only [written, walked]
    exact Visitor.tells_of_metadata (Visitor.rewrites_nodes levels wrote)
  refine ⟨rewrites.1, rewrites.2.2, ?_⟩
  rw [pass, Visitor.walk_attributeValidation checked]
  exact polishes

/-- What the metadata of a processed document tell. Every element of it tells how deep it stands and what
its parent is. Paths and numbers of children are those of a document from which the processed one comes by
polishing texts, so they are exact where every text of the document, of the answers of handlers and of
earlier values is filled. This is so for all ways to resolve siblings. -/
theorem metadata_of_complete (session : Session) (d : Document) {siblings : Visitor.Siblings}
    (schedules : resolver.Schedules siblings) (tags : TagRegistry)
    (complete : ((usual resolver siblings tags levels).process session d).isComplete = true) :
    let final := ((usual resolver siblings tags levels).process session d).document
    final.Tells Element.TellsParent ∧
      (∃ written : Document, written.Tells Element.TellsPlace ∧
        Visitor.polishing.Passes written.children final.children) ∧
      ((∀ c ∈ Node.allWording d.children, c.IsFilled) →
        (∀ {uri answer value}, resolver.answer? (indexed session d).context uri = some answer →
          answer.outcome? = some (.ok value) → ∀ c ∈ value.wording, c.IsFilled) →
        (∀ {key value}, session.shared.results.find? key = some value →
          ∀ c ∈ value.wording, c.IsFilled) →
        final.Tells Element.TellsPlace) := by
  obtain ⟨like, _⟩ := session.context.reportAll_adds (findings tags d)
  let first : Session :=
    indexed { session with context := (session.context.reportAll (findings tags d)).1 } d
  have processed : (usual resolver siblings tags levels).process session d =
      pass levels [.inheritance resolver, .referencesBy siblings, .metadata, .normalization,
        .attributeValidation tags] first d := process_of_complete complete
  rw [Processed.isComplete, processed, Option.isNone_iff_eq_none] at complete
  rw [processed]
  obtain ⟨ended, same⟩ := complete_cons complete
  rw [same] at complete ⊢
  obtain ⟨stopped, same⟩ := complete_cons complete
  rw [same] at complete ⊢
  obtain ⟨written, tells, wording, polishes⟩ := pass_writes complete
  refine ⟨Document.tells_of_all ?_, ⟨written, Document.tells_of_all tells, polishes⟩,
    fun filled answers before => Document.tells_of_all ?_⟩
  · exact Visitor.tellsParent_of_polishing polishes (tells.mono fun tells => tells.toTellsParent) rfl
  · have fellow : (indexed session d).context.Fellow first.context :=
      ⟨rfl, like.fellow.bindings, like.fellow.mode, like.fellow.file⟩
    have all := Care.wording.walks schedules fellow filled answers before ended stopped
    rw [← wording] at all
    exact (Visitor.tellsPlace_of_polishing polishes all tells).1

/-- A text, and an element that extends one with a text. -/
def worded : Document :=
  { children := [.content { text := "text" },
      .element { tag := "a", attributes := [("extends", .text "s:r")] }] }

def lexicon : Resolver :=
  .constant (.found (.element { tag := "b", children := [.content { text := "words" }] }))

theorem metadata_of_complete_worded :
    ((usual lexicon (Visitor.siblings lexicon true) {}).process {} worded).document.Tells
      Element.TellsPlace := by
  have filled : ∀ c ∈ Node.allWording worded.children, c.IsFilled := by
    simp only [worded, Node.allWording, Node.wording, Element.wording]
    decide +kernel
  refine (metadata_of_complete {} worded (Resolver.schedules_siblings lexicon true) {}
    (by decide +kernel)).2.2 filled (fun answers found => ?_) (fun found => by cases found)
  cases answers
  cases found
  simp only [Resolved.wording, Node.allWording, Node.wording, Element.wording]
  decide +kernel

/-- A line without words stands before an element. -/
def spaced : Document :=
  { children := [.element { tag := "r", children := [.content { text := "\n " }, .element { tag := "a" }] }] }

/-- The line is dropped after its neighbour has been told that it is the second child. -/
theorem metadata_misplaces_spaced :
    ((usual {} (Visitor.siblings {} true) {}).process {} spaced).isComplete = true ∧
      ¬ ((usual {} (Visitor.siblings {} true) {}).process {} spaced).document.Tells
        Element.TellsPlace := by
  let final := ((usual {} (Visitor.siblings {} true) {}).process {} spaced).document
  let told (path : NodePath) : Option (List (Option Int64)) :=
    (final.elementAt? path).bind fun e =>
      ((e.metadata.find? "path").bind Value.asArray?).map (List.map Value.asInt?)
  have second : told [0, 0] = some [some 0, some 1] := by decide +kernel
  refine ⟨by decide +kernel, fun tells => ?_⟩
  obtain ⟨e, found, recorded⟩ := Option.bind_eq_some_iff.mp second
  rw [(tells _ e found).path] at recorded
  revert recorded
  decide +kernel

end Pipeline
end LinkedMarkup
