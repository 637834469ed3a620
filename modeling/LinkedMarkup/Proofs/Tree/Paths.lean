import LinkedMarkup.Visitor.Walk
import Mathlib.Data.List.Basic

namespace LinkedMarkup

namespace Node

def withChildren (children : List Node) : Node → Node
  | .element e => .element { e with children }
  | node => node

theorem of_asElement? {node : Node} {e : Element} (found : node.asElement? = some e) :
    node = .element e := by
  cases node with
  | element other => exact congrArg Node.element (Option.some.inj found)
  | content | reference => cases found

theorem withChildren_leaf {node : Node} (leaf : node.asElement? = none) (children : List Node) :
    node.withChildren children = node := by
  cases node with
  | element e => cases leaf
  | content | reference => rfl

/-- The siblings below a path, if the path leads to an element. -/
def siblingsAt? : List Node → NodePath → Option (List Node)
  | nodes, [] => some nodes
  | nodes, index :: path =>
    match nodes[index]? with
    | some (.element e) => siblingsAt? e.children path
    | _ => none

def putAt (siblings : List Node) : List Node → NodePath → List Node
  | _, [] => siblings
  | nodes, index :: path =>
    match nodes[index]? with
    | some (.element e) => nodes.set index (.element { e with children := putAt siblings e.children path })
    | _ => nodes

/-- The element at a path as an ancestor of the nodes below. -/
def frameAt? (nodes : List Node) (path : NodePath) : Option Frame :=
  ((follow? nodes path).bind asElement?).map (Frame.ofElement · path)

/-- The elements that a path leads through, the outermost first. -/
def framesTo (nodes : List Node) (path : NodePath) : List Frame :=
  (List.range path.length).filterMap fun above => frameAt? nodes (path.take (above + 1))

/-- The elements above the node at a path, the outermost first. -/
def framesAbove (nodes : List Node) (path : NodePath) : List Frame := framesTo nodes path.dropLast

variable {nodes siblings : List Node} {path : NodePath} {index : Nat} {e : Element}

theorem siblingsAt?_cons_eq_some (found : siblingsAt? nodes (index :: path) = some siblings) :
    ∃ e, nodes[index]? = some (.element e) ∧ siblingsAt? e.children path = some siblings := by
  rw [siblingsAt?] at found
  split at found
  · rename_i e here
    exact ⟨e, here, found⟩
  · cases found

theorem siblingsAt?_cons (here : nodes[index]? = some (.element e)) (path : NodePath) :
    siblingsAt? nodes (index :: path) = siblingsAt? e.children path := by
  rw [siblingsAt?, here]

theorem putAt_cons (here : nodes[index]? = some (.element e)) (path : NodePath) :
    putAt siblings nodes (index :: path) =
      nodes.set index (.element { e with children := putAt siblings e.children path }) := by
  rw [putAt, here]

theorem getElem?_set_same (here : nodes[index]? = some (.element e)) (node : Node) :
    (nodes.set index node)[index]? = some node := by
  obtain ⟨inside, _⟩ := List.getElem?_eq_some_iff.mp here
  simp [inside]

theorem siblingsAt?_putAt {old : List Node} (found : siblingsAt? nodes path = some old)
    (siblings : List Node) : siblingsAt? (putAt siblings nodes path) path = some siblings := by
  induction path generalizing nodes with
  | nil => rfl
  | cons index path ih =>
    obtain ⟨e, here, below⟩ := siblingsAt?_cons_eq_some found
    rw [putAt_cons here, siblingsAt?_cons (getElem?_set_same here _)]
    exact ih below

theorem putAt_putAt {old : List Node} (found : siblingsAt? nodes path = some old)
    (first second : List Node) : putAt second (putAt first nodes path) path = putAt second nodes path := by
  induction path generalizing nodes with
  | nil => rfl
  | cons index path ih =>
    obtain ⟨e, here, below⟩ := siblingsAt?_cons_eq_some found
    rw [putAt_cons here, putAt_cons here, putAt_cons (getElem?_set_same here _), List.set_set]
    dsimp only
    rw [ih below]

theorem putAt_same (found : siblingsAt? nodes path = some siblings) :
    putAt siblings nodes path = nodes := by
  induction path generalizing nodes with
  | nil => exact (Option.some.inj found).symm
  | cons index path ih =>
    obtain ⟨e, here, below⟩ := siblingsAt?_cons_eq_some found
    obtain ⟨inside, same⟩ := List.getElem?_eq_some_iff.mp here
    have whole : Node.element { e with children := putAt siblings e.children path } = nodes[index] := by
      rw [ih below, same]
      cases e
      rfl
    rw [putAt_cons here, whole]
    exact List.set_getElem_self inside

/-- The siblings below an element. -/
theorem siblingsAt?_below (found : siblingsAt? nodes path = some siblings)
    (here : siblings[index]? = some (.element e)) :
    siblingsAt? nodes (path ++ [index]) = some e.children := by
  induction path generalizing nodes with
  | nil =>
    cases Option.some.inj found
    exact siblingsAt?_cons here []
  | cons first path ih =>
    obtain ⟨outer, there, below⟩ := siblingsAt?_cons_eq_some found
    rw [List.cons_append, siblingsAt?_cons there]
    exact ih below

theorem putAt_below (found : siblingsAt? nodes path = some siblings)
    (here : siblings[index]? = some (.element e)) (inner : List Node) :
    putAt inner nodes (path ++ [index]) =
      putAt (siblings.set index (.element { e with children := inner })) nodes path := by
  induction path generalizing nodes with
  | nil =>
    cases Option.some.inj found
    exact putAt_cons here []
  | cons first path ih =>
    obtain ⟨outer, there, below⟩ := siblingsAt?_cons_eq_some found
    rw [List.cons_append, putAt_cons there, putAt_cons there, ih below]

theorem follow?_cons (here : nodes[index]? = some (.element e)) (further : path ≠ []) :
    follow? nodes (index :: path) = follow? e.children path := by
  cases path with
  | nil => cases further rfl
  | cons next path =>
    rw [follow?.eq_def]
    simp only [here]

theorem follow?_single (nodes : List Node) (index : Nat) : follow? nodes [index] = nodes[index]? := by
  unfold follow?
  cases nodes[index]? <;> rfl

/-- What a path leads to is one of the nodes, or is below an element among them. -/
theorem follow?_cons_eq_some {node : Node} (found : follow? nodes (index :: path) = some node) :
    (path = [] ∧ nodes[index]? = some node) ∨
      ∃ e, nodes[index]? = some (.element e) ∧ follow? e.children path = some node := by
  rw [follow?.eq_def] at found
  dsimp only at found
  split at found
  · rename_i here
    cases found
    exact .inl ⟨rfl, here⟩
  · rename_i e here _
    exact .inr ⟨e, here, found⟩
  · cases found

theorem follow?_below (found : siblingsAt? nodes path = some siblings) (index : Nat) :
    follow? nodes (path ++ [index]) = siblings[index]? := by
  induction path generalizing nodes with
  | nil =>
    cases Option.some.inj found
    exact follow?_single siblings index
  | cons first path ih =>
    obtain ⟨outer, there, below⟩ := siblingsAt?_cons_eq_some found
    rw [List.cons_append, follow?_cons there (by simp)]
    exact ih below

/-- The elements that a path leads through stay, whatever is put below it. -/
theorem follow?_through {old : List Node} (found : siblingsAt? nodes path = some old)
    (siblings : List Node) {above : NodePath} (begins : above <+: path) (further : above ≠ []) :
    ∃ e own, follow? nodes above = some (.element e) ∧
      follow? (putAt siblings nodes path) above = some (.element { e with children := own }) := by
  induction path generalizing nodes above with
  | nil => exact absurd (List.prefix_nil.mp begins) further
  | cons index path ih =>
    obtain ⟨e, here, below⟩ := siblingsAt?_cons_eq_some found
    obtain _ | ⟨first, above⟩ := above
    · cases further rfl
    obtain ⟨rfl, shorter⟩ := List.cons_prefix_cons.mp begins
    have there := getElem?_set_same here (.element { e with children := putAt siblings e.children path })
    rw [putAt_cons here]
    by_cases last : above = []
    · rw [last, follow?_single, follow?_single]
      exact ⟨e, _, here, there⟩
    · rw [follow?_cons here last, follow?_cons there last]
      exact ih below shorter last

/-- Ancestors stay what they are. -/
theorem framesTo_putAt {old : List Node} (found : siblingsAt? nodes path = some old)
    (siblings : List Node) : framesTo (putAt siblings nodes path) path = framesTo nodes path := by
  refine List.filterMap_congr fun above member => ?_
  have further : path.take (above + 1) ≠ [] := by
    have inside := List.mem_range.mp member
    intro empty
    simp [List.take_eq_nil_iff] at empty
    simp [empty] at inside
  obtain ⟨e, own, before, after⟩ :=
    follow?_through found siblings (List.take_prefix (above + 1) path) further
  simp only [frameAt?, before, after]
  rfl

/-- One level deeper there is one ancestor more. -/
theorem framesTo_below (here : follow? nodes (path ++ [index]) = some (.element e)) :
    framesTo nodes (path ++ [index]) = framesTo nodes path ++ [.ofElement e (path ++ [index])] := by
  have last : frameAt? nodes ((path ++ [index]).take (path.length + 1)) =
      some (.ofElement e (path ++ [index])) := by
    have whole : (path ++ [index]).take (path.length + 1) = path ++ [index] :=
      List.take_of_length_le (by simp)
    rw [whole, frameAt?, here]
    rfl
  have before : (List.range path.length).filterMap
      (fun above => frameAt? nodes ((path ++ [index]).take (above + 1))) = framesTo nodes path := by
    refine List.filterMap_congr fun above member => ?_
    rw [List.take_append_of_le_length (List.mem_range.mp member)]
  rw [framesTo, List.length_append, List.length_singleton, List.range_succ, List.filterMap_append,
    before]
  simp only [List.filterMap_cons, List.filterMap_nil, last]

theorem framesAbove_below (nodes : List Node) (path : NodePath) (index : Nat) :
    framesAbove nodes (path ++ [index]) = framesTo nodes path := by
  rw [framesAbove, List.dropLast_concat]

end Node
end LinkedMarkup
