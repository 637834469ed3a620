import LinkedMarkup.Proofs.Tree.Paths

namespace LinkedMarkup

mutual
/-- An element and those below it with their places, if the element stands at `place`. -/
def Element.places (place : Place) : Element → List (Place × Element)
  | ⟨tag, attributes, children, metadata, position⟩ =>
    (place, ⟨tag, attributes, children, metadata, position⟩) :: Node.allPlaces ⟨place.parents ++
      [.ofElement ⟨tag, attributes, children, metadata, position⟩ place.path], place.path⟩ 0 children
def Node.places (place : Place) : Node → List (Place × Element)
  | .element e => e.places place
  | .content _ => []
  | .reference _ => []
/-- The same for siblings below `above`, the first of which stands at an index. -/
def Node.allPlaces (above : Place) : Nat → List Node → List (Place × Element)
  | _, [] => []
  | index, node :: rest =>
    node.places ⟨above.parents, above.path ++ [index]⟩ ++ Node.allPlaces above (index + 1) rest
end

def Document.places (d : Document) : List (Place × Element) := Node.allPlaces {} 0 d.children

/-- The place that the children of an element share with its other children. -/
def Place.within (place : Place) (e : Element) : Place :=
  ⟨place.parents ++ [.ofElement e place.path], place.path⟩

namespace Node

mutual
private theorem forest_element {motive : List Node → Prop} (nil : motive [])
    (leaf : ∀ node rest, node.asElement? = none → motive rest → motive (node :: rest))
    (element : ∀ e rest, motive e.children → motive rest → motive (.element e :: rest)) :
    ∀ e : Element, motive e.children
  | ⟨_, _, children, _, _⟩ => forest_induction nil leaf element children
private theorem forest_node {motive : List Node → Prop} (nil : motive [])
    (leaf : ∀ node rest, node.asElement? = none → motive rest → motive (node :: rest))
    (element : ∀ e rest, motive e.children → motive rest → motive (.element e :: rest)) :
    ∀ (node : Node) (rest : List Node), motive rest → motive (node :: rest)
  | .element e, rest, others => element e rest (forest_element nil leaf element e) others
  | .content c, rest, others => leaf (.content c) rest rfl others
  | .reference r, rest, others => leaf (.reference r) rest rfl others
/-- What holds of siblings if it holds of the children of each element and of the siblings behind each
node. -/
@[elab_as_elim]
theorem forest_induction {motive : List Node → Prop} (nil : motive [])
    (leaf : ∀ node rest, node.asElement? = none → motive rest → motive (node :: rest))
    (element : ∀ e rest, motive e.children → motive rest → motive (.element e :: rest)) :
    ∀ nodes, motive nodes
  | [] => nil
  | node :: rest => forest_node nil leaf element node rest (forest_induction nil leaf element rest)
end

variable {above place : Place} {index : Nat} {nodes : List Node} {e : Element}

@[simp] theorem allPlaces_nil : allPlaces above index [] = [] := by rw [allPlaces]

theorem allPlaces_leaf {node : Node} (leaf : node.asElement? = none) (rest : List Node) :
    allPlaces above index (node :: rest) = allPlaces above (index + 1) rest := by
  cases node with
  | element e => cases leaf
  | content | reference => rw [allPlaces, places, List.nil_append]

theorem allPlaces_element (e : Element) (rest : List Node) :
    allPlaces above index (.element e :: rest) =
      (⟨above.parents, above.path ++ [index]⟩, e) ::
        (allPlaces (Place.within ⟨above.parents, above.path ++ [index]⟩ e) 0 e.children ++
          allPlaces above (index + 1) rest) := by
  cases e
  rw [allPlaces, places, Element.places]
  rfl

theorem allElements_leaf {node : Node} (leaf : node.asElement? = none) (rest : List Node) :
    allElements (node :: rest) = allElements rest := by
  cases node with
  | element e => cases leaf
  | content | reference => rfl

theorem allElements_element (e : Element) (rest : List Node) :
    allElements (.element e :: rest) = e :: (allElements e.children ++ allElements rest) := by
  cases e
  rfl

theorem map_allPlaces (above : Place) (index : Nat) (nodes : List Node) :
    (allPlaces above index nodes).map Prod.snd = allElements nodes := by
  induction nodes using forest_induction generalizing above index with
  | nil => simp [allElements]
  | leaf node rest leaf others => rw [allPlaces_leaf leaf, allElements_leaf leaf, others]
  | element e rest below others =>
    rw [allPlaces_element, allElements_element, List.map_cons, List.map_append, below, others]

/-! ### Paths -/

/-- Places are found below `above`, from the index on. -/
theorem path_of_mem_allPlaces (member : (place, e) ∈ allPlaces above index nodes) :
    ∃ i rest, place.path = above.path ++ (index + i) :: rest := by
  induction nodes using forest_induction generalizing above index with
  | nil => simp at member
  | leaf node rest leaf others =>
    rw [allPlaces_leaf leaf] at member
    obtain ⟨i, more, path⟩ := others member
    exact ⟨i + 1, more, by rw [path, Nat.add_right_comm, Nat.add_assoc]⟩
  | element first rest below others =>
    rw [allPlaces_element, List.mem_cons, List.mem_append] at member
    rcases member with here | inside | behind
    · cases here
      exact ⟨0, [], rfl⟩
    · obtain ⟨i, more, path⟩ := below inside
      exact ⟨0, (0 + i) :: more, by rw [path, Place.within, List.append_assoc]; rfl⟩
    · obtain ⟨i, more, path⟩ := others behind
      exact ⟨i + 1, more, by rw [path, Nat.add_right_comm, Nat.add_assoc]⟩

/-- In document order the paths ascend: a parent stands before its children. -/
theorem allPlaces_ascending (above : Place) (index : Nat) (nodes : List Node) :
    (allPlaces above index nodes).Pairwise fun first second => first.1.path < second.1.path := by
  induction nodes using forest_induction generalizing above index with
  | nil => simp
  | leaf node rest leaf others => rw [allPlaces_leaf leaf]; exact others above (index + 1)
  | element e rest below others =>
    rw [allPlaces_element, List.pairwise_cons, List.pairwise_append]
    have later {second : Place × Element} (member : second ∈ allPlaces above (index + 1) rest)
        (inner : NodePath) : above.path ++ index :: inner < second.1.path := by
      obtain ⟨i, more, path⟩ := path_of_mem_allPlaces member
      rw [path]
      exact List.append_left_lt (List.cons_lt_cons_iff.mpr (.inl (by omega)))
    refine ⟨fun second member => ?_, below _ 0, others above (index + 1), fun first inside second behind => ?_⟩
    · rcases List.mem_append.mp member with inside | behind
      · obtain ⟨i, more, path⟩ := path_of_mem_allPlaces inside
        have longer : above.path ++ [index] ++ [] < above.path ++ [index] ++ (0 + i) :: more :=
          List.append_left_lt (List.nil_lt_cons (0 + i) more)
        rw [List.append_nil] at longer
        rwa [path]
      · exact later behind []
    · obtain ⟨i, more, path⟩ := path_of_mem_allPlaces inside
      rw [path, Place.within, List.append_assoc]
      exact later behind _

/-- What stands at a place. -/
theorem mem_allPlaces {root : List Node} {path : NodePath} (before : List Node)
    (found : siblingsAt? root path = some (before ++ nodes)) (length : before.length = index)
    (member : (place, e) ∈ allPlaces ⟨framesTo root path, path⟩ index nodes) :
    follow? root place.path = some (.element e) ∧ place.parents = framesAbove root place.path := by
  induction nodes using forest_induction generalizing before path index with
  | nil => simp at member
  | leaf node rest leaf others =>
    rw [allPlaces_leaf leaf] at member
    exact others (before ++ [node]) (by rw [found, List.append_assoc]; rfl)
      (by rw [List.length_append, length]; rfl) member
  | element first rest below others =>
    have here : (before ++ .element first :: rest)[index]? = some (.element first) := by
      simp [← length]
    have stands : follow? root (path ++ [index]) = some (.element first) :=
      (follow?_below found index).trans here
    rw [allPlaces_element, List.mem_cons, List.mem_append] at member
    rcases member with same | inside | behind
    · cases same
      exact ⟨stands, (framesAbove_below root path index).symm⟩
    · rw [Place.within, ← framesTo_below stands] at inside
      exact below [] (siblingsAt?_below found here) rfl inside
    · exact others (before ++ [.element first]) (by rw [found, List.append_assoc]; rfl)
        (by rw [List.length_append, length]; rfl) behind

theorem places_sublist (above : Place) (index : Nat) {node : Node} {i : Nat}
    (here : nodes[i]? = some node) :
    (node.places ⟨above.parents, above.path ++ [index + i]⟩).Sublist (allPlaces above index nodes) := by
  induction nodes generalizing index i with
  | nil => cases here
  | cons first rest ih =>
    rw [allPlaces]
    cases i with
    | zero =>
      cases here
      exact List.sublist_append_left _ _
    | succ i =>
      have later := ih (index + 1) here
      rw [Nat.add_right_comm, Nat.add_assoc] at later
      exact later.trans (List.sublist_append_right _ _)

/-- Each path to an element occurs. -/
theorem exists_mem_allPlaces (above : Place) (index : Nat) {i : Nat} {path : NodePath}
    (found : follow? nodes (i :: path) = some (.element e)) :
    ∃ place, place.path = above.path ++ (index + i) :: path ∧ (place, e) ∈ allPlaces above index nodes := by
  induction path generalizing nodes above index i with
  | nil =>
    rw [follow?_single] at found
    have sub := places_sublist above index found
    refine ⟨⟨above.parents, above.path ++ [index + i]⟩, rfl, sub.subset ?_⟩
    cases e
    rw [places, Element.places]
    exact List.mem_cons_self
  | cons next path ih =>
    rcases follow?_cons_eq_some found with ⟨ends, _⟩ | ⟨outer, here, below⟩
    · cases ends
    · have sub := places_sublist above index here
      obtain ⟨place, path', member⟩ := ih (Place.within ⟨above.parents, above.path ++ [index + i]⟩ outer) 0 below
      refine ⟨place, ?_, sub.subset ?_⟩
      · rw [path', Nat.zero_add, Place.within, List.append_assoc]
        rfl
      · cases outer
        rw [places, Element.places]
        exact List.mem_cons_of_mem _ member

end Node

namespace Document

theorem map_places (d : Document) : d.places.map Prod.snd = d.elements := Node.map_allPlaces {} 0 d.children

theorem places_ascending (d : Document) :
    d.places.Pairwise fun first second => first.1.path < second.1.path :=
  Node.allPlaces_ascending {} 0 d.children

theorem elementAt?_eq_some_iff {d : Document} {path : NodePath} {e : Element} :
    d.elementAt? path = some e ↔ Node.follow? d.children path = some (.element e) := by
  rw [elementAt?, nodeAt?, Option.bind_eq_some_iff]
  constructor
  · rintro ⟨node, found, element⟩
    rw [found, Node.of_asElement? element]
  · intro found
    exact ⟨.element e, found, rfl⟩

/-- The places are those at which elements stand. -/
theorem mem_places_iff {d : Document} {place : Place} {e : Element} : (place, e) ∈ d.places ↔
    d.elementAt? place.path = some e ∧ place.parents = Node.framesAbove d.children place.path := by
  have start : Node.siblingsAt? d.children [] = some ([] ++ d.children) := rfl
  have sound {place : Place} (member : (place, e) ∈ d.places) :
      Node.follow? d.children place.path = some (.element e) ∧
        place.parents = Node.framesAbove d.children place.path :=
    Node.mem_allPlaces [] start rfl member
  rw [elementAt?_eq_some_iff]
  refine ⟨sound, fun ⟨found, parents⟩ => ?_⟩
  obtain ⟨above, path⟩ := place
  cases path with
  | nil => cases found
  | cons i path =>
    obtain ⟨other, same, member⟩ := Node.exists_mem_allPlaces {} 0 found
    obtain ⟨above', path'⟩ := other
    have here : path' = i :: path := by simpa using same
    subst here
    have above_eq : above = above' := parents.trans (sound member).2.symm
    rw [above_eq]
    exact member

end Document
end LinkedMarkup
