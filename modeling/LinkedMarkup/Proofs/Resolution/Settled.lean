import LinkedMarkup.Proofs.Resolution.Growth

namespace LinkedMarkup

mutual
/-- All references have values, no element names an ancestor, and so it is inside all values. -/
def Node.Settled : Node → Prop
  | .element e => e.Settled
  | .content _ => True
  | .reference r => r.Settled
def Node.AllSettled : List Node → Prop
  | [] => True
  | node :: rest => node.Settled ∧ Node.AllSettled rest
def Element.Settled : Element → Prop
  | ⟨tag, attributes, children, metadata, position⟩ =>
    Element.extends? ⟨tag, attributes, children, metadata, position⟩ = none ∧
      Node.AllSettled children
def Reference.Settled : Reference → Prop
  | ⟨_, _, some value, _⟩ => value.Settled
  | ⟨_, _, none, _⟩ => False
def Resolved.Settled : Resolved → Prop
  | .element e => e.Settled
  | .document d => d.Settled
  | .data _ => True
  | .text _ => True
def Document.Settled : Document → Prop
  | ⟨children, _⟩ => Node.AllSettled children
end

mutual
/-- All elements and references of a tree are of some kind. The values of references do not belong to
the tree. -/
def Node.Every (element : Element → Prop) (reference : Reference → Prop) : Node → Prop
  | .element e => e.Every element reference
  | .content _ => True
  | .reference r => reference r
def Node.EveryOf (element : Element → Prop) (reference : Reference → Prop) : List Node → Prop
  | [] => True
  | node :: rest => node.Every element reference ∧ Node.EveryOf element reference rest
def Element.Every (element : Element → Prop) (reference : Reference → Prop) : Element → Prop
  | ⟨tag, attributes, children, metadata, position⟩ =>
    element ⟨tag, attributes, children, metadata, position⟩ ∧
      Node.EveryOf element reference children
end

/-- The value of the reference, if it has one, has nothing left to resolve. -/
def Reference.Fair (r : Reference) : Prop := ∀ value, r.resolved = some value → value.Settled

/-- References are unresolved, or have values with nothing left to resolve. -/
abbrev Node.AllWhole : List Node → Prop := Node.EveryOf (fun _ => True) Reference.Fair

/-- Besides, no element names an ancestor. -/
abbrev Node.AllFree : List Node → Prop := Node.EveryOf (·.extends? = none) Reference.Fair

def Resolved.Whole : Resolved → Prop
  | .element e => e.Every (fun _ => True) Reference.Fair
  | .document d => Node.AllWhole d.children
  | .data _ => True
  | .text _ => True

theorem Element.settled_iff (e : Element) :
    e.Settled ↔ e.extends? = none ∧ Node.AllSettled e.children := by
  cases e
  rw [Element.Settled]

theorem Document.settled_iff (d : Document) : d.Settled ↔ Node.AllSettled d.children := by
  cases d
  rw [Document.Settled]

theorem Element.every_iff {element : Element → Prop} {reference : Reference → Prop} (e : Element) :
    e.Every element reference ↔ element e ∧ Node.EveryOf element reference e.children := by
  cases e
  rw [Element.Every]

theorem Reference.settled_iff (r : Reference) :
    r.Settled ↔ ∃ value, r.resolved = some value ∧ value.Settled := by
  obtain ⟨protocol, path, resolved, position⟩ := r
  cases resolved with
  | none => simp [Reference.Settled]
  | some value => simp [Reference.Settled]

namespace Node

theorem allSettled_iff {nodes : List Node} : AllSettled nodes ↔ ∀ node ∈ nodes, node.Settled := by
  induction nodes with
  | nil => simp [AllSettled]
  | cons node rest ih => simp [AllSettled, ih]

theorem everyOf_iff {element : Element → Prop} {reference : Reference → Prop} {nodes : List Node} :
    EveryOf element reference nodes ↔ ∀ node ∈ nodes, node.Every element reference := by
  induction nodes with
  | nil => simp [EveryOf]
  | cons node rest ih => simp [EveryOf, ih]

theorem allSettled_append {first second : List Node} :
    AllSettled (first ++ second) ↔ AllSettled first ∧ AllSettled second := by
  simp only [allSettled_iff, List.forall_mem_append]

end Node

mutual
private theorem Node.Settled.free : ∀ {node : Node}, node.Settled →
    node.Every (·.extends? = none) Reference.Fair
  | .element e, settled => by
    rw [Node.Every]
    exact Element.Settled.free (by simpa only [Node.Settled] using settled)
  | .content _, _ => by rw [Node.Every]; trivial
  | .reference r, settled => by
    rw [Node.Settled, Reference.settled_iff] at settled
    obtain ⟨value, same, settled⟩ := settled
    rw [Node.Every]
    intro other found
    cases same.symm.trans found
    exact settled
theorem Node.AllSettled.free : ∀ {nodes : List Node}, Node.AllSettled nodes → Node.AllFree nodes
  | [], _ => by rw [Node.AllFree, Node.EveryOf]; trivial
  | _ :: _, settled => by
    rw [Node.AllSettled] at settled
    rw [Node.AllFree, Node.EveryOf]
    exact ⟨settled.1.free, settled.2.free⟩
private theorem Element.Settled.free : ∀ {e : Element}, e.Settled →
    e.Every (·.extends? = none) Reference.Fair
  | ⟨_, _, _, _, _⟩, settled => by
    rw [Element.Settled] at settled
    rw [Element.Every]
    exact ⟨settled.1, settled.2.free⟩
end

mutual
private theorem Node.Every.mono {strong weak : Element → Prop} {reference : Reference → Prop}
    (weaker : ∀ {e}, strong e → weak e) :
    ∀ {node : Node}, node.Every strong reference → node.Every weak reference
  | .element e, every => by
    rw [Node.Every] at every ⊢
    exact Element.Every.mono weaker every
  | .content _, _ => by rw [Node.Every]; trivial
  | .reference r, every => by rwa [Node.Every] at every ⊢
theorem Node.EveryOf.mono {strong weak : Element → Prop} {reference : Reference → Prop}
    (weaker : ∀ {e}, strong e → weak e) :
    ∀ {nodes : List Node}, Node.EveryOf strong reference nodes → Node.EveryOf weak reference nodes
  | [], _ => by rw [Node.EveryOf]; trivial
  | _ :: _, every => by
    rw [Node.EveryOf] at every ⊢
    exact ⟨every.1.mono weaker, every.2.mono weaker⟩
private theorem Element.Every.mono {strong weak : Element → Prop} {reference : Reference → Prop}
    (weaker : ∀ {e}, strong e → weak e) :
    ∀ {e : Element}, e.Every strong reference → e.Every weak reference
  | ⟨_, _, _, _, _⟩, every => by
    rw [Element.Every] at every ⊢
    exact ⟨weaker every.1, every.2.mono weaker⟩
end

theorem Node.AllFree.whole {nodes : List Node} (free : AllFree nodes) : AllWhole nodes :=
  free.mono fun _ => trivial

namespace Node.EveryOf
variable {p : Element → Prop} {q : Reference → Prop} {node : Node} {rest : List Node}

theorem head (every : EveryOf p q (node :: rest)) : node.Every p q := by
  rw [EveryOf] at every
  exact every.1

theorem tail (every : EveryOf p q (node :: rest)) : EveryOf p q rest := by
  rw [EveryOf] at every
  exact every.2

theorem reference {r : Reference} (every : EveryOf p q (.reference r :: rest)) :
    q r := by
  have head := every.head
  rwa [Every] at head

theorem element {e : Element} (every : EveryOf p q (.element e :: rest)) :
    p e ∧ EveryOf p q e.children := by
  have head := every.head
  rwa [Every, Element.every_iff] at head

theorem append {first second : List Node} (every : EveryOf p q first) (others : EveryOf p q second) :
    EveryOf p q (first ++ second) :=
  everyOf_iff.mpr (List.forall_mem_append.mpr ⟨everyOf_iff.mp every, everyOf_iff.mp others⟩)

end Node.EveryOf

namespace Inheritance

theorem settled_children {model : ContentModel} {ancestor : Element} (settled : ancestor.Settled) :
    Node.AllSettled (children model ancestor) := by
  rw [children]
  split
  · exact ((Element.settled_iff _).mp settled).2
  · rw [Node.AllSettled]
    trivial

end Inheritance

/-- The element that a settled value means is settled. -/
theorem Resolver.settled_ancestorOf {uri : Uri} {value : Resolved} {e : Element}
    (found : ancestorOf uri value = .ok e) (settled : value.Settled) : e.Settled := by
  match value with
  | .element _ =>
    cases found
    simpa only [Resolved.Settled] using settled
  | .document ⟨children, position⟩ =>
    rw [ancestorOf] at found
    split at found
    · rename_i root first
      cases found
      obtain ⟨node, member, same⟩ := List.exists_of_findSome?_eq_some first
      rw [Resolved.Settled, Document.Settled, Node.allSettled_iff] at settled
      have inside := settled node member
      cases node with
      | element e =>
        cases same
        simpa only [Node.Settled] using inside
      | content c => cases same
      | reference r => cases same
    · cases found
  | .data _ => cases found
  | .text _ => cases found

namespace Outlook
variable {outlook : Outlook} {nodes after : List Node}

/-- References come to values with nothing left to resolve, and no failure is passed over. -/
structure Settles (outlook : Outlook) : Prop where
  value : ∀ {uri value}, outlook.means uri (.ok value) → value.Settled
  failure : ∀ {error}, ¬ outlook.passes error

theorem Settles.ancestor (settles : outlook.Settles) {target : String} {a : Element}
    (finds : outlook.Finds target a) : a.Settled := by
  obtain ⟨uri, value, _, means, meant⟩ := finds
  exact Resolver.settled_ancestorOf meant (settles.value means)

/-- Nothing is left to resolve after an expansion. -/
theorem Expands.settled (expands : outlook.Expands nodes after) (settles : outlook.Settles)
    (whole : Node.AllWhole nodes) : Node.AllSettled after := by
  induction expands with
  | nil => rw [Node.AllSettled]; trivial
  | content c _ ih =>
    rw [Node.AllSettled, Node.Settled]
    exact ⟨trivial, ih whole.tail⟩
  | @resolved r _ _ resolved _ ih =>
    obtain ⟨value, same⟩ := Option.isSome_iff_exists.mp resolved
    rw [Node.AllSettled, Node.Settled, Reference.settled_iff]
    exact ⟨⟨value, same, whole.reference value same⟩, ih whole.tail⟩
  | @found r value _ _ unresolved means _ ih =>
    rw [Node.AllSettled, Node.Settled, Reference.settled_iff]
    refine ⟨⟨value, ?_, settles.value means⟩, ih whole.tail⟩
    simp [Reference.resolveTo, unresolved]
  | failed _ _ passes => exact absurd passes settles.failure
  | orphan _ _ passes => exact absurd passes settles.failure
  | plain alone _ _ below others =>
    rw [Node.AllSettled, Node.Settled, Element.settled_iff]
    exact ⟨⟨alone, below whole.element.2⟩, others whole.tail⟩
  | @heir e a _ _ _ _ _ _ finds _ _ _ above below others =>
    have legacy : Node.AllSettled (outlook.legacy e a) :=
      Inheritance.settled_children (settles.ancestor finds)
    rw [Node.AllSettled, Node.Settled, Element.settled_iff]
    refine ⟨⟨Inheritance.extends?_head _ _, ?_⟩, others whole.tail⟩
    exact Node.allSettled_append.mpr ⟨above legacy.free.whole, below whole.element.2⟩
  | @cut e a _ _ _ _ _ finds _ _ _ below others =>
    have legacy : Node.AllSettled (outlook.legacy e a) :=
      Inheritance.settled_children (settles.ancestor finds)
    rw [Node.AllSettled, Node.Settled, Element.settled_iff]
    refine ⟨⟨Inheritance.extends?_head _ _, ?_⟩, others whole.tail⟩
    exact Node.allSettled_append.mpr ⟨legacy, below whole.element.2⟩

theorem ExpandsTo.settled {value expanded : Resolved} (expands : outlook.ExpandsTo value expanded)
    (settles : outlook.Settles) (whole : value.Whole) : expanded.Settled := by
  cases expands with
  | @element e after expands =>
    have alone : Node.AllWhole [.element e] := by
      rw [Node.AllWhole, Node.EveryOf, Node.Every, Node.EveryOf]
      exact ⟨whole, trivial⟩
    have settled := expands.settled settles alone
    rw [Node.AllSettled, Node.Settled] at settled
    rw [Resolved.Settled]
    exact settled.1
  | @document d children expands =>
    rw [Resolved.Settled, Document.Settled]
    exact expands.settled settles whole
  | data | text => rw [Resolved.Settled]; trivial

end Outlook
end LinkedMarkup
