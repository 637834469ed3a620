import LinkedMarkup.Proofs.Visitor.Passes

namespace LinkedMarkup

mutual
/-- The texts of a node in document order. -/
def Node.wording : Node → List Content
  | .element e => e.wording
  | .content c => [c]
  | .reference _ => []
def Node.allWording : List Node → List Content
  | [] => []
  | node :: rest => node.wording ++ Node.allWording rest
def Element.wording : Element → List Content
  | ⟨_, _, children, _, _⟩ => Node.allWording children
end

def Resolved.wording : Resolved → List Content
  | .element e => e.wording
  | .document d => Node.allWording d.children
  | .data _ => []
  | .text _ => []

theorem Element.wording_eq (e : Element) : e.wording = Node.allWording e.children := by
  cases e
  rw [Element.wording]

namespace Node

theorem allWording_append (first second : List Node) :
    allWording (first ++ second) = allWording first ++ allWording second := by
  induction first with
  | nil => rfl
  | cons node rest ih => rw [List.cons_append, allWording, allWording, ih, List.append_assoc]

theorem allWording_element (e : Element) (rest : List Node) :
    allWording (.element e :: rest) = allWording e.children ++ allWording rest := by
  rw [allWording, wording, Element.wording_eq]

theorem allWording_reference (r : Reference) (rest : List Node) :
    allWording (.reference r :: rest) = allWording rest := by
  rw [allWording, wording, List.nil_append]

theorem mem_allWording {nodes : List Node} {c : Content} :
    c ∈ allWording nodes ↔ ∃ node ∈ nodes, c ∈ node.wording := by
  induction nodes with
  | nil => simp [allWording]
  | cons node rest ih => simp [allWording, ih]

end Node

theorem Inheritance.allWording_children_subset (model : ContentModel) (ancestor : Element) :
    Node.allWording (children model ancestor) ⊆ ancestor.wording := by
  rw [children, Element.wording_eq]
  split
  · exact List.Subset.refl _
  · exact List.nil_subset _

/-- The element that a target means has no texts but those of the value. -/
theorem Resolver.wording_ancestorOf {uri : Uri} {value : Resolved} {e : Element}
    (found : ancestorOf uri value = .ok e) : e.wording ⊆ value.wording := by
  match value with
  | .element _ =>
    cases found
    exact List.Subset.refl _
  | .document d =>
    rw [ancestorOf] at found
    split at found
    · rename_i root first
      cases found
      obtain ⟨node, member, same⟩ := List.exists_of_findSome?_eq_some first
      intro c inside
      refine Node.mem_allWording.mpr ⟨node, member, ?_⟩
      cases node with
      | element e => cases same; exact inside
      | content c => cases same
      | reference r => cases same
    · cases found
  | .data _ => cases found
  | .text _ => cases found

namespace Outlook
variable {outlook : Outlook} {holds : Content → Prop} {nodes after : List Node}

/-- All texts of values have a property. -/
def Words (outlook : Outlook) (holds : Content → Prop) : Prop :=
  ∀ {uri value}, outlook.means uri (.ok value) → ∀ c ∈ value.wording, holds c

theorem Words.ancestor (words : outlook.Words holds) {target : String} {a : Element}
    (finds : outlook.Finds target a) (e : Element) : ∀ c ∈ Node.allWording (outlook.legacy e a), holds c := by
  obtain ⟨uri, value, _, means, meant⟩ := finds
  intro c inside
  exact words means c (Resolver.wording_ancestorOf meant (Inheritance.allWording_children_subset _ _ inside))

/-- The property stays when a tree is expanded. -/
theorem Expands.words (expands : outlook.Expands nodes after) (words : outlook.Words holds)
    (all : ∀ c ∈ Node.allWording nodes, holds c) : ∀ c ∈ Node.allWording after, holds c := by
  induction expands with
  | nil => exact all
  | content c _ ih =>
    rw [Node.allWording, List.forall_mem_append] at all ⊢
    exact ⟨all.1, ih all.2⟩
  | resolved _ _ ih | found _ _ _ ih | failed _ _ _ _ ih =>
    rw [Node.allWording_reference] at all ⊢
    exact ih all
  | plain _ _ _ below others | orphan _ _ _ _ _ below others =>
    rw [Node.allWording_element, List.forall_mem_append] at all ⊢
    exact ⟨below all.1, others all.2⟩
  | @heir e _ _ _ _ _ _ _ finds _ _ _ above below others =>
    rw [Node.allWording_element, List.forall_mem_append] at all ⊢
    rw [Node.allWording_append, List.forall_mem_append]
    exact ⟨⟨above (words.ancestor finds e), below all.1⟩, others all.2⟩
  | @cut e _ _ _ _ _ _ finds _ _ _ below others =>
    rw [Node.allWording_element, List.forall_mem_append] at all ⊢
    rw [Node.allWording_append, List.forall_mem_append]
    exact ⟨⟨words.ancestor finds e, below all.1⟩, others all.2⟩

theorem ExpandsTo.words {value expanded : Resolved} (expands : outlook.ExpandsTo value expanded)
    (words : outlook.Words holds) (all : ∀ c ∈ value.wording, holds c) :
    ∀ c ∈ expanded.wording, holds c := by
  cases expands with
  | @element e after expands =>
    have alone (e : Element) : Node.allWording [.element e] = e.wording := by
      rw [Node.allWording, Node.wording, Node.allWording, List.append_nil]
    have kept := expands.words words (alone e ▸ all)
    rw [alone] at kept
    exact kept
  | document expands => exact expands.words words all
  | data | text => exact all

end Outlook

namespace Visitor
variable {outlook : Outlook} {holds : Content → Prop} {nodes after filled : List Node}

/-- The property stays when elements inherit. -/
theorem words_of_inheriting (passes : (inheriting outlook).Passes nodes after)
    (words : outlook.Words holds) (all : ∀ c ∈ Node.allWording nodes, holds c) :
    ∀ c ∈ Node.allWording after, holds c := by
  induction passes with
  | nil => exact all
  | @element e visited own rest rest' here _ _ below others =>
    rw [Node.allWording_element, List.forall_mem_append] at all ⊢
    refine ⟨below ?_, others all.2⟩
    rcases here with ⟨_, rfl⟩ | ⟨_, _, ⟨_, _, _, rfl⟩ | ⟨a, finds, rfl⟩⟩
    · exact all.1
    · exact all.1
    · rw [Inheritance.merge, Node.allWording_append, List.forall_mem_append]
      exact ⟨words.ancestor finds e, all.1⟩
  | leaf here _ others =>
    obtain ⟨_, rfl⟩ := here
    rw [List.singleton_append, Node.allWording, List.forall_mem_append]
    rw [Node.allWording, List.forall_mem_append] at all
    exact ⟨all.1, others all.2⟩

/-- References that get their values have no texts in the tree. -/
theorem allWording_fills (fills : List.Forall₂ (Fills outlook) nodes filled) :
    Node.allWording filled = Node.allWording nodes := by
  induction fills with
  | nil => rfl
  | @cons node part _ _ here _ ih =>
    cases node with
    | element | content =>
      cases here
      rw [Node.allWording, Node.allWording, ih]
    | reference r =>
      obtain ⟨after, rfl, _⟩ := here
      rw [Node.allWording_reference, Node.allWording_reference, ih]

/-- A pass that resolves references below nodes leaves the texts. -/
theorem allWording_of_referring (passes : (referring outlook).Passes nodes after) :
    Node.allWording after = Node.allWording nodes := by
  induction passes with
  | nil => rfl
  | element here _ _ below others =>
    obtain ⟨children, fills, rfl⟩ := here
    rw [Node.allWording_element, Node.allWording_element, others, below, allWording_fills fills]
  | leaf here _ others =>
    obtain ⟨_, rfl⟩ := here
    rw [List.singleton_append, Node.allWording, Node.allWording, others]

end Visitor

def Care.wording (holds : Content → Prop) : Care :=
  .ofValues (fun value => ∀ c ∈ value.wording, holds c) fun _ => False

namespace Care.wording
variable {resolver : Resolver} {context : Context} {holds : Content → Prop}

theorem words (resolver : Resolver) (mode : Mode) :
    ((Care.wording holds).outlook resolver mode).Words holds :=
  fun means => means _ rfl

theorem serves (answers : ∀ {uri answer value}, resolver.answer? context uri = some answer →
    answer.outcome? = some (.ok value) → ∀ c ∈ value.wording, holds c) :
    (Care.wording holds).Serves resolver context :=
  Care.serves_of_values fun given found expands =>
    expands.words (words resolver context.mode) (answers given found)

/-- A document has texts of its own and of values only, when both passes that resolve are over. -/
theorem walks {siblings : Visitor.Siblings} (schedules : resolver.Schedules siblings) {session : Session}
    {d : Document} {levels : Nat} (fellow : context.Fellow session.context) (own : ∀ c ∈ Node.allWording d.children, holds c)
    (answers : ∀ {uri answer value}, resolver.answer? context uri = some answer →
      answer.outcome? = some (.ok value) → ∀ c ∈ value.wording, holds c)
    (before : ∀ {key value}, session.shared.results.find? key = some value → ∀ c ∈ value.wording, holds c) :
    let merged := (Visitor.inheritance resolver).walk [] session d levels
    let resolved := (Visitor.referencesBy siblings).walk [] merged.session merged.part levels
    merged.halt = none → resolved.halt = none → ∀ c ∈ Node.allWording resolved.part.children, holds c := by
  intro merged resolved ended complete
  let care := Care.wording holds
  have begun : care.Quiet context (fun _ => True) session := by
    refine ⟨fellow, ⟨False.elim, fun _ found value same => ?_, fun _ _ _ _ never => by cases never⟩, trivial⟩
    cases same
    exact before found
  obtain ⟨_, _, resolves⟩ := Care.walks_resolve (serves answers) (fun _ => id)
    (Care.rests_of_schedules trivial schedules) schedules.adds (fun _ => trivial) begun d levels
  obtain ⟨inherits, filled, fills, refers⟩ := resolves ended complete id
  have merges := Visitor.words_of_inheriting inherits (words resolver _) own
  rw [Visitor.allWording_of_referring refers, Visitor.allWording_fills fills]
  exact merges

end Care.wording
end LinkedMarkup
