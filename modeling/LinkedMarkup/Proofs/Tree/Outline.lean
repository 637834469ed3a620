import LinkedMarkup.Proofs.Tree.Places
import LinkedMarkup.Xml.Tree
/-! Trees as lists. What a tree of markup or a document holds is listed part by part in document order, each
part with the tags of the elements around it. Each node of a document is listed, and the list determines
the document, even if every node in it stands alone, without what it holds. -/
namespace LinkedMarkup

mutual
/-- What a tree holds in document order, and the tags of the elements around each part of it, the innermost
first. -/
def Xml.Tree.parts (around : List String) : Xml.Tree → List (List String × Xml.Tree)
  | .element tag attributes children span =>
    (around, .element tag attributes children span) :: Xml.Tree.allParts (tag :: around) children
  | .text words span => [(around, .text words span)]
  | .comment => [(around, .comment)]
  | .instruction => [(around, .instruction)]
def Xml.Tree.allParts (around : List String) : List Xml.Tree → List (List String × Xml.Tree)
  | [] => []
  | tree :: rest => tree.parts around ++ Xml.Tree.allParts around rest
end

mutual
/-- What a node holds, in the same way. What stands in the value of a reference is no part of it. -/
def Node.parts (around : List String) : Node → List (List String × Node)
  | .element e => (around, .element e) :: e.innerParts around
  | .content c => [(around, .content c)]
  | .reference r => [(around, .reference r)]
def Node.allParts (around : List String) : List Node → List (List String × Node)
  | [] => []
  | node :: rest => node.parts around ++ Node.allParts around rest
def Element.innerParts (around : List String) : Element → List (List String × Node)
  | ⟨tag, _, children, _, _⟩ => Node.allParts (tag :: around) children
end

def Document.parts (d : Document) : List (List String × Node) := Node.allParts [] d.children

mutual
/-- The tags around a tree are around all its parts. -/
theorem Xml.Tree.suffix_of_mem_parts : ∀ (around : List String) (tree : Xml.Tree),
    ∀ part ∈ tree.parts around, around <:+ part.1
  | around, .element tag attributes children span, part, member => by
    rw [Xml.Tree.parts] at member
    rcases List.mem_cons.mp member with rfl | inside
    · exact List.suffix_refl _
    · exact (List.suffix_cons tag around).trans
        (Xml.Tree.suffix_of_mem_allParts (tag :: around) children part inside)
  | around, .text _ _, part, member
  | around, .comment, part, member
  | around, .instruction, part, member => by
    cases List.mem_singleton.mp member
    exact List.suffix_refl _
theorem Xml.Tree.suffix_of_mem_allParts : ∀ (around : List String) (trees : List Xml.Tree),
    ∀ part ∈ Xml.Tree.allParts around trees, around <:+ part.1
  | _, [], _, member => by cases member
  | around, tree :: rest, part, member => by
    rw [Xml.Tree.allParts] at member
    rcases List.mem_append.mp member with here | later
    · exact Xml.Tree.suffix_of_mem_parts around tree part here
    · exact Xml.Tree.suffix_of_mem_allParts around rest part later
end

theorem Element.innerParts_eq (around : List String) (e : Element) :
    e.innerParts around = Node.allParts (e.tag :: around) e.children := by
  cases e
  rfl

namespace Node
variable {around : List String} {nodes others : List Node} {node : Node} {path : NodePath}
  {beyond beyond' : List (List String × Node)}

theorem allParts_append (around : List String) (first second : List Node) :
    allParts around (first ++ second) = allParts around first ++ allParts around second := by
  induction first with
  | nil => rfl
  | cons node rest ih => rw [List.cons_append, allParts, allParts, ih, List.append_assoc]

theorem allParts_single (around : List String) (node : Node) : allParts around [node] = node.parts around :=
  List.append_nil _

theorem parts_subset (member : node ∈ nodes) (around : List String) :
    node.parts around ⊆ allParts around nodes := by
  induction nodes with
  | nil => cases member
  | cons first rest ih =>
    rw [allParts]
    rcases List.mem_cons.mp member with rfl | later
    · exact List.subset_append_left _ _
    · exact List.Subset.trans (ih later) (List.subset_append_right _ _)

/-- What a path leads to is a part. -/
theorem exists_mem_allParts (found : follow? nodes path = some node) (around : List String) :
    ∃ inner, (inner, node) ∈ allParts around nodes := by
  induction path generalizing nodes around with
  | nil => cases found
  | cons index path ih =>
    rcases follow?_cons_eq_some found with ⟨_, here⟩ | ⟨e, here, below⟩
    · refine ⟨around, parts_subset (List.mem_of_getElem? here) around ?_⟩
      cases node with
      | element | content | reference => exact List.mem_cons_self
    · obtain ⟨inner, member⟩ := ih below (e.tag :: around)
      rw [← Element.innerParts_eq] at member
      exact ⟨inner, parts_subset (List.mem_of_getElem? here) around (List.mem_cons_of_mem _ member)⟩

/-! ### Nodes alone -/

def alone : Node → Node
  | .element e => .element { e with children := [] }
  | .content c => .content c
  | .reference r => .reference r

/-- The parts of nodes, each alone. -/
def outline (around : List String) (nodes : List Node) : List (List String × Node) :=
  (allParts around nodes).map fun part => (part.1, part.2.alone)

theorem outline_element (around : List String) (e : Element) (rest : List Node) :
    outline around (.element e :: rest) = (around, .element { e with children := [] }) ::
      (outline (e.tag :: around) e.children ++ outline around rest) := by
  rw [outline, allParts, parts, Element.innerParts_eq, List.cons_append, List.map_cons, List.map_append]
  rfl

theorem outline_leaf (leaf : node.asElement? = none) (around : List String) (rest : List Node) :
    outline around (node :: rest) = (around, node) :: outline around rest := by
  cases node with
  | element => cases leaf
  | content | reference => rfl

theorem outline_cons (around : List String) (node : Node) (rest : List Node) :
    ∃ more, outline around (node :: rest) = (around, node.alone) :: more := by
  cases node with
  | element e => exact ⟨_, outline_element around e rest⟩
  | content | reference => exact ⟨_, outline_leaf rfl around rest⟩

/-- Behind the parts within some elements there is a part that is not within them, or none. -/
def Leaves (around : List String) (beyond : List (List String × Node)) : Prop :=
  ∀ part ∈ beyond.head?, part.1.length < around.length

theorem Leaves.inner (leaves : Leaves around beyond) (tag : String) (rest : List Node) :
    Leaves (tag :: around) (outline around rest ++ beyond) := by
  intro part first
  cases rest with
  | nil => exact Nat.lt_succ_of_lt (leaves part first)
  | cons node rest =>
    obtain ⟨more, same⟩ := outline_cons around node rest
    rw [same] at first
    cases first
    exact Nat.lt_succ_self _

theorem Leaves.not_outline_cons (leaves : Leaves around beyond) (node : Node) (rest : List Node) :
    beyond ≠ outline around (node :: rest) ++ beyond' := by
  obtain ⟨more, same⟩ := outline_cons around node rest
  rintro rfl
  rw [same] at leaves
  exact Nat.lt_irrefl _ (leaves _ rfl)

/-- An outline determines the nodes. What stands behind it is known by the tags around it. -/
theorem outline_append_inj (same : outline around nodes ++ beyond = outline around others ++ beyond')
    (leaves : Leaves around beyond) (leaves' : Leaves around beyond') : nodes = others ∧ beyond = beyond' := by
  induction nodes using forest_induction generalizing around others beyond beyond' with
  | nil =>
    cases others with
    | nil => exact ⟨rfl, same⟩
    | cons other rest' => exact absurd same (leaves.not_outline_cons other rest')
  | leaf node rest leaf behind =>
    cases others with
    | nil => exact absurd same.symm (leaves'.not_outline_cons node rest)
    | cons other rest' =>
      rw [outline_leaf leaf] at same
      cases other with
      | element e =>
        rw [outline_element] at same
        cases (Prod.mk.inj (List.cons.inj same).1).2
        cases leaf
      | content | reference =>
        rw [outline_leaf rfl] at same
        obtain ⟨head, tail⟩ := List.cons.inj same
        cases head
        obtain ⟨rfl, rfl⟩ := behind tail leaves leaves'
        exact ⟨rfl, rfl⟩
  | element e rest below behind =>
    cases others with
    | nil => exact absurd same.symm (leaves'.not_outline_cons (.element e) rest)
    | cons other rest' =>
      rw [outline_element] at same
      cases other with
      | element e' =>
        rw [outline_element, List.cons_append, List.cons_append, List.append_assoc, List.append_assoc] at same
        obtain ⟨head, tail⟩ := List.cons.inj same
        obtain ⟨tag, attributes, children, metadata, position⟩ := e
        obtain ⟨tag', attributes', children', metadata', position'⟩ := e'
        cases head
        obtain ⟨rfl, more⟩ := below tail (leaves.inner tag rest) (leaves'.inner tag rest')
        obtain ⟨rfl, rfl⟩ := behind more leaves leaves'
        exact ⟨rfl, rfl⟩
      | content | reference =>
        rw [outline_leaf rfl] at same
        cases (Prod.mk.inj (List.cons.inj same).1).2

theorem outline_inj (same : outline around nodes = outline around others) : nodes = others := by
  have none : Leaves around [] := fun part first => by cases first
  exact (outline_append_inj (congrArg (· ++ []) same) none none).1

end Node
end LinkedMarkup
