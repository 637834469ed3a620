import LinkedMarkup.Resolution.Resolver

namespace LinkedMarkup

/-- The reference to an ancestor that an element names by a well-formed text. -/
def Element.ancestor? (e : Element) : Option Uri := e.extends?.bind fun target =>
  (Uri.parse target).toOption

def Reference.opens (r : Reference) : List Uri := if r.isResolved then [] else [r.uri]

mutual
/-- The open references of a node in document order. The value of a resolved reference does not
belong to the tree. -/
def Node.opens : Node → List Uri
  | .element e => e.opens
  | .content _ => []
  | .reference r => r.opens
def Node.opensOf : List Node → List Uri
  | [] => []
  | node :: rest => node.opens ++ Node.opensOf rest
def Element.opens : Element → List Uri
  | ⟨tag, attributes, children, metadata, position⟩ =>
    (Element.ancestor? ⟨tag, attributes, children, metadata, position⟩).toList
      ++ Node.opensOf children
end

def Resolved.opens : Resolved → List Uri
  | .element e => e.opens
  | .document d => Node.opensOf d.children
  | .data _ => []
  | .text _ => []

theorem Element.opens_eq (e : Element) :
    e.opens = e.ancestor?.toList ++ Node.opensOf e.children := by
  cases e
  rw [Element.opens]

namespace Node

theorem opensOf_append (first second : List Node) :
    opensOf (first ++ second) = opensOf first ++ opensOf second := by
  induction first with
  | nil => rfl
  | cons node rest ih => rw [List.cons_append, opensOf, opensOf, ih, List.append_assoc]

theorem forall_opensOf_element {known : Uri → Prop} {e : Element} {rest : List Node} :
    (∀ uri ∈ opensOf (.element e :: rest), known uri) ↔ (∀ uri ∈ e.ancestor?.toList, known uri) ∧
      (∀ uri ∈ opensOf e.children, known uri) ∧ ∀ uri ∈ opensOf rest, known uri := by
  rw [opensOf, List.forall_mem_append, opens, Element.opens_eq, List.forall_mem_append, and_assoc]

theorem mem_opensOf {nodes : List Node} {uri : Uri} :
    uri ∈ opensOf nodes ↔ ∃ node ∈ nodes, uri ∈ node.opens := by
  induction nodes with
  | nil => simp [opensOf]
  | cons node rest ih => simp [opensOf, ih]

end Node

namespace Reference

theorem opens_resolveTo {r : Reference} (value : Resolved) : (r.resolveTo value).opens = [] := by
  cases resolved : r.resolved <;> simp [resolveTo, opens, isResolved, resolved]

end Reference

namespace Inheritance

private theorem find?_filter_foreign (entries : Table Value) (name : String) :
    Table.find? (entries.filter fun (name, _) => !isOwn name) name =
      if isOwn name then none else entries.find? name := by
  induction entries with
  | nil => simp [Table.find?]
  | cons entry rest ih =>
    obtain ⟨first, value⟩ := entry
    by_cases own : isOwn first
    · rw [List.filter_cons_of_neg (by simp [own]), ih, Table.find?]
      by_cases same : name = first
      · simp [same, own]
      · simp [same]
    · rw [List.filter_cons_of_pos (by simp [own]), Table.find?, ih, Table.find?]
      by_cases same : name = first
      · simp [same, own]
      · simp [same]

/-- A merged element has its own attributes but for `extends`, and those of its ancestor that it
lacks but for `id` and `extends`. -/
theorem find?_attributes (own ancestor : Table Value) (name : String) :
    (attributes own ancestor).find? name =
      (if name = "extends" then none else own.find? name).or
        (if isOwn name then none else ancestor.find? name) := by
  rw [← Table.find?_erase, ← find?_filter_foreign]
  exact Table.find?_foldl_insertNew _ _ name

/-- The merged head of an element names no ancestor. -/
theorem extends?_head (e ancestor : Element) : (head e ancestor).extends? = none := by
  have erased : (attributes e.attributes ancestor.attributes).find? "extends" = none := by
    simp [find?_attributes, isOwn]
  simp only [Element.extends?, Element.attribute?, head, erased]
  rfl

theorem ancestor?_head (e ancestor : Element) : (head e ancestor).ancestor? = none := by
  rw [Element.ancestor?, extends?_head]
  rfl

theorem opensOf_children_subset (model : ContentModel) (ancestor : Element) :
    Node.opensOf (children model ancestor) ⊆ ancestor.opens := by
  rw [children, Element.opens_eq]
  split
  · exact List.subset_append_right _ _
  · exact List.nil_subset _

end Inheritance

/-- The element that a target means has no open references but those of the target. -/
theorem Resolver.opens_ancestorOf {uri : Uri} {value : Resolved} {e : Element}
    (found : ancestorOf uri value = .ok e) : e.opens ⊆ value.opens := by
  match value with
  | .element _ =>
    cases found
    exact fun _ member => member
  | .document d =>
    rw [ancestorOf] at found
    split at found
    · rename_i root first
      cases found
      obtain ⟨node, member, same⟩ := List.exists_of_findSome?_eq_some first
      intro uri mentioned
      refine Node.mem_opensOf.mpr ⟨node, member, ?_⟩
      cases node with
      | element e => cases same; exact mentioned
      | content c => cases same
      | reference r => cases same
    · cases found
  | .data _ => cases found
  | .text _ => cases found

end LinkedMarkup
