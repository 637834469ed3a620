import LinkedMarkup.Proofs.Resolution.Dependencies
import LinkedMarkup.Proofs.Visitor.Passage
/-! References that give place to what they stand for. The pass that replaces them resolves the same
references in the same order as the pass that leaves them in place, and its document is the other one
with every reference that has a value replaced, once. So the text is the same, and the references that
are left with a value are those inside the values. -/
namespace LinkedMarkup

/-- What takes the place of a reference; nothing, if it has no value. -/
def Reference.contents (r : Reference) : List Node := (Visitor.substitution? r).getD []

mutual
/-- What stands for a node when references have given place to their contents, which are put in as they
are. -/
def Node.substituted : Node → List Node
  | .element e => [.element e.substituted]
  | .content c => [.content c]
  | .reference r => if r.isResolved then r.contents else [.reference r]
def Node.allSubstituted : List Node → List Node
  | [] => []
  | node :: rest => node.substituted ++ Node.allSubstituted rest
def Element.substituted : Element → Element
  | ⟨tag, attributes, children, metadata, position⟩ =>
    ⟨tag, attributes, Node.allSubstituted children, metadata, position⟩
end

def Document.substituted (d : Document) : Document :=
  { d with children := Node.allSubstituted d.children }

mutual
/-- The references of a node that have values, in document order. What is inside the values does not
belong to the tree. -/
def Node.answered : Node → List Reference
  | .element e => e.answered
  | .content _ => []
  | .reference r => if r.isResolved then [r] else []
def Node.allAnswered : List Node → List Reference
  | [] => []
  | node :: rest => node.answered ++ Node.allAnswered rest
def Element.answered : Element → List Reference
  | ⟨_, _, children, _, _⟩ => Node.allAnswered children
end

def Document.answered (d : Document) : List Reference := Node.allAnswered d.children

theorem Element.substituted_eq (e : Element) :
    e.substituted = { e with children := Node.allSubstituted e.children } := by
  cases e
  rw [Element.substituted]

theorem Document.text_eq (d : Document) : d.text = Node.texts d.children := by
  cases d
  rw [Document.text]

theorem Reference.substitution?_eq (r : Reference) :
    Visitor.substitution? r = if r.isResolved then some r.contents else none := by
  rw [Reference.contents]
  cases same : r.resolved with
  | none => simp [Visitor.substitution?, Reference.isResolved, same]
  | some value => simp [Visitor.substitution?, Reference.isResolved, same]

/-- The contents of a reference have its text. -/
theorem Reference.texts_contents (r : Reference) : Node.texts r.contents = r.text := by
  obtain ⟨protocol, path, resolved, position⟩ := r
  cases resolved with
  | none => simp [contents, Visitor.substitution?, Node.texts, text]
  | some value =>
    cases value <;>
      simp [contents, Visitor.substitution?, Node.texts, Node.text, text, Resolved.toText,
        Document.text_eq]

namespace Node

theorem texts_append (first second : List Node) :
    texts (first ++ second) = texts first ++ texts second := by
  induction first with
  | nil => simp [texts]
  | cons node rest ih => rw [List.cons_append, texts, texts, ih, String.append_assoc]

theorem allAnswered_append (first second : List Node) :
    allAnswered (first ++ second) = allAnswered first ++ allAnswered second := by
  induction first with
  | nil => rfl
  | cons node rest ih => rw [List.cons_append, allAnswered, allAnswered, ih, List.append_assoc]

end Node

mutual
private theorem Node.texts_substituted_node : ∀ node : Node, Node.texts node.substituted = node.text
  | .element e => by
    rw [Node.substituted, Node.texts, Node.texts, Node.text, Node.text, Element.text_substituted e]
    exact String.append_empty
  | .content c => by rw [Node.substituted, Node.texts, Node.texts]; exact String.append_empty
  | .reference r => by
    rw [Node.substituted]
    split
    · rw [r.texts_contents, Node.text]
    · rw [Node.texts, Node.texts]
      exact String.append_empty
theorem Node.texts_substituted : ∀ nodes : List Node,
    Node.texts (Node.allSubstituted nodes) = Node.texts nodes
  | [] => rfl
  | node :: rest => by
    rw [Node.allSubstituted, Node.texts_append, Node.texts_substituted_node node,
      Node.texts_substituted rest, Node.texts]
private theorem Element.text_substituted : ∀ e : Element, e.substituted.text = e.text
  | ⟨tag, attributes, children, metadata, position⟩ => by
    rw [Element.substituted, Element.text, Element.text, Node.texts_substituted children]
end

mutual
private theorem Node.answered_substituted : ∀ node : Node,
    Node.allAnswered node.substituted = node.answered.flatMap fun r => Node.allAnswered r.contents
  | .element e => by
    rw [Node.substituted, Node.allAnswered, Node.allAnswered, List.append_nil, Node.answered,
      Node.answered, Element.answered_substituted e]
  | .content c => by rw [Node.substituted, Node.answered]; rfl
  | .reference r => by
    rw [Node.substituted, Node.answered]
    split
    · rw [List.flatMap_singleton]
    · rename_i unresolved
      simp [Node.allAnswered, Node.answered, unresolved]
theorem Node.allAnswered_substituted : ∀ nodes : List Node,
    Node.allAnswered (Node.allSubstituted nodes) =
      (Node.allAnswered nodes).flatMap fun r => Node.allAnswered r.contents
  | [] => rfl
  | node :: rest => by
    rw [Node.allSubstituted, Node.allAnswered_append, Node.answered_substituted node,
      Node.allAnswered_substituted rest, Node.allAnswered, List.flatMap_append]
private theorem Element.answered_substituted : ∀ e : Element,
    e.substituted.answered = e.answered.flatMap fun r => Node.allAnswered r.contents
  | ⟨tag, attributes, children, metadata, position⟩ => by
    rw [Element.substituted, Element.answered, Element.answered, Node.allAnswered_substituted children]
end

namespace Visitor

/-- A walk that puts in what another one leaves in place: they end alike, with the same session. -/
structure Walked.PutsIn {Part : Type} (substituted : Part → Part) (replacing plain : Walked Part) :
    Prop where
  session : replacing.session = plain.session
  halt : replacing.halt = plain.halt
  part : plain.halt = none → replacing.part = substituted plain.part

section
variable {siblings : Siblings}

/-- The references among the children of an element are resolved in either pass, wherever it stands. -/
theorem offer_referencesBy_element (substitute : Bool) (place : Place) (session : Session)
    (e : Element) : (referencesBy siblings substitute).offer place session (.element e) =
      let filled := resolveChildren siblings session e.children
      ⟨.element { e with children := filled.part }, filled.session,
        filled.outcome.map fun _ => .keep⟩ := rfl

theorem visit_referencesBy_element (substitute : Bool) (place other : Place) (session : Session)
    (e : Element) : visit (referencesBy siblings substitute) place session (.element e) =
      visit (referencesBy siblings) other session (.element e) := rfl

theorem visit_referencesBy_resolved {r : Reference} (resolved : r.isResolved = true) (place : Place)
    (session : Session) : visit (referencesBy siblings true) place session (.reference r) =
      (session, .ok (.replace r.contents)) := by
  have substituted := r.substitution?_eq
  rw [if_pos resolved] at substituted
  simp only [decide, offer, referencesBy, substituted]

theorem offer_referencesBy_unresolved {r : Reference} (unresolved : ¬ r.isResolved = true) (place : Place)
    (session : Session) : (referencesBy siblings true).offer place session (.reference r) =
      ⟨.reference r, session, .ok .keep⟩ := by
  have left := r.substitution?_eq
  rw [if_neg unresolved] at left
  simp only [offer, referencesBy, left, Visited.keep]

/-- An element is kept when its children have been resolved. -/
theorem keep_of_referencesBy {place : Place} {session later : Session} {e : Element} {action : Action}
    (decided : visit (referencesBy siblings) place session (.element e) = (later, .ok action)) :
    action = .keep := by
  refine keep_of_decide decided fun other outcome => ?_
  simp only [offer_referencesBy_element] at outcome
  cases ended : (resolveChildren siblings session e.children).outcome with
  | ok =>
    rw [ended] at outcome
    cases outcome
    rfl
  | error failure =>
    rw [ended] at outcome
    cases outcome

variable {descend other : Descent} {parents parents' : List Frame} {path path' : NodePath}
  {session : Session} {nodes : List Node}

/-- The walks over siblings agree if the walks below them do. The places differ behind a reference that
has been replaced, but neither pass looks at them. -/
private theorem walkSiblings_putsIn
    (deeper : ∀ parents path parents' path' session nodes,
      (descend parents path session nodes).PutsIn Node.allSubstituted
        (other parents' path' session nodes))
    {index index' : Nat} :
    (walkSiblings (referencesBy siblings true) descend parents path index session nodes).PutsIn
      Node.allSubstituted
      (walkSiblings (referencesBy siblings) other parents' path' index' session nodes) := by
  induction nodes generalizing index index' session with
  | nil => exact ⟨rfl, rfl, fun _ => rfl⟩
  | cons node rest ih =>
    let place : Place := ⟨parents, path ++ [index]⟩
    let place' : Place := ⟨parents', path' ++ [index']⟩
    cases node with
    | content c =>
      rw [walkSiblings_of_leaf rfl rfl, walkSiblings_of_leaf rfl rfl]
      obtain ⟨last, halt, part⟩ := @ih session (index + 1) (index' + 1)
      exact ⟨last, halt, fun ended => congrArg (Node.content c :: ·) (part ended)⟩
    | reference r =>
      have left : visit (referencesBy siblings) place' session (.reference r) = (session, .ok .keep) := rfl
      rw [walkSiblings_of_leaf left rfl]
      by_cases resolved : r.isResolved = true
      · rw [walkSiblings_of_replace (visit_referencesBy_resolved resolved place session)]
        obtain ⟨last, halt, part⟩ := @ih session (index + r.contents.length) (index' + 1)
        refine ⟨last, halt, fun ended => ?_⟩
        show r.contents ++ _ = Node.substituted (.reference r) ++ _
        rw [part ended, Node.substituted, if_pos resolved]
      · have offered := @offer_referencesBy_unresolved siblings _ resolved place session
        have kept : visit (referencesBy siblings true) place session (.reference r) =
            (session, .ok .keep) := by rw [visit, offered]; rfl
        rw [walkSiblings_of_leaf kept (by rw [offered]; rfl), offered]
        obtain ⟨last, halt, part⟩ := @ih session (index + 1) (index' + 1)
        refine ⟨last, halt, fun ended => ?_⟩
        show [.reference r] ++ _ = Node.substituted (.reference r) ++ _
        rw [part ended, Node.substituted, if_neg resolved]
    | element e =>
      have same := @visit_referencesBy_element siblings true place place' session e
      rcases decided : visit (referencesBy siblings) place' session (.element e) with
        ⟨later, halt | action⟩
      · rw [walkSiblings_of_error decided, walkSiblings_of_error (same.trans decided)]
        exact ⟨rfl, rfl, fun ended => by cases ended⟩
      · cases keep_of_referencesBy decided
        rw [walkSiblings_of_keep decided, walkSiblings_of_keep (same.trans decided)]
        let visited : Element := { e with children := (resolveChildren siblings session e.children).part }
        have inside := deeper (parents ++ [.ofElement visited place.path]) place.path
          (parents' ++ [.ofElement visited place'.path]) place'.path later visited.children
        simp only [offer_referencesBy_element, below]
        generalize descend (parents ++ [.ofElement visited place.path]) place.path later
          visited.children = replacing at inside ⊢
        generalize other (parents' ++ [.ofElement visited place'.path]) place'.path later
          visited.children = plain at inside ⊢
        obtain ⟨last, halt, part⟩ := inside
        rw [last, halt]
        cases whole : plain.halt with
        | some halted => exact ⟨rfl, rfl, fun ended => by cases ended⟩
        | none =>
          obtain ⟨last, halt, others⟩ := @ih plain.session (index + 1) (index' + 1)
          refine ⟨last, halt, fun ended => ?_⟩
          show [_] ++ _ = Node.substituted (.element _) ++ _
          rw [others ended, part whole, Node.substituted, Element.substituted_eq]

private theorem walkNodes_putsIn (levels : Nat) :
    (walkNodes (referencesBy siblings true) levels parents path session nodes).PutsIn
      Node.allSubstituted (walkNodes (referencesBy siblings) levels parents' path' session nodes) := by
  induction levels generalizing parents parents' path path' session nodes with
  | zero =>
    refine ⟨rfl, rfl, fun ended => ?_⟩
    cases nodes with
    | nil => rfl
    | cons node rest => cases ended
  | succ levels ih =>
    exact @walkSiblings_putsIn siblings (walkNodes _ levels) _ _ _ _ _ _ _ (fun _ _ _ _ _ _ => ih) 0 0

/-- The pass that replaces references and the one that leaves them in place, over any document. -/
theorem walk_putsIn (siblings : Siblings) (parents : List Frame) (session : Session) (d : Document)
    (levels : Nat) :
    ((referencesBy siblings true).walk parents session d levels).PutsIn Document.substituted
      ((referencesBy siblings).walk parents session d levels) := by
  have same : opening (referencesBy siblings true) parents session d =
      opening (referencesBy siblings) parents session d := rfl
  have descends (substitute : Bool) : (referencesBy siblings substitute).descends = true := rfl
  rw [walk_eq_opening, walk_eq_opening, same]
  simp only [descends, Bool.not_true, Bool.or_false]
  generalize opening (referencesBy siblings) parents session d = first
  cases halted : first.halt with
  | some halt =>
    simp only [Option.isSome_some, if_true]
    exact ⟨rfl, rfl, fun ended => by cases halted.symm.trans ended⟩
  | none =>
    simp only [Option.isSome_none, Bool.false_eq_true, if_false]
    obtain ⟨last, halt, part⟩ := @walkNodes_putsIn siblings parents parents [] [] first.session
      first.part.children levels
    exact ⟨last, halt, fun ended => congrArg (fun nodes => { first.part with children := nodes })
      (part ended)⟩

end

section
variable (resolver : Resolver) (concurrent : Bool) (parents : List Frame) (session : Session)
  (d : Document) (levels : Nat)

/-- Substitution changes neither what is resolved nor what a document says. From any state, the pass that
replaces references comes to its end just when the pass that leaves them in place does. Then the text is
the same, handlers have been asked as often, the same values and failures are known, and the same
diagnostics have been recorded in the same order. -/
theorem substitution_agrees :
    let plain := (references resolver concurrent).walk parents session d levels
    let replacing := (references resolver concurrent true).walk parents session d levels
    (replacing.halt = none ↔ plain.halt = none) ∧
      (plain.halt = none →
        replacing.part.text = plain.part.text ∧
        replacing.session.shared.fetches = plain.session.shared.fetches ∧
        replacing.session.shared.results = plain.session.shared.results ∧
        replacing.session.shared.failures = plain.session.shared.failures ∧
        replacing.session.context.diagnostics = plain.session.context.diagnostics) := by
  intro plain replacing
  obtain ⟨last, halt, part⟩ := walk_putsIn (siblings resolver concurrent) parents session d levels
  have last : replacing.session = plain.session := last
  have halt : replacing.halt = plain.halt := halt
  have part : plain.halt = none → replacing.part = plain.part.substituted := part
  refine ⟨by rw [halt], fun complete => ⟨?_, ?_, ?_, ?_, ?_⟩⟩
  · rw [part complete, Document.text_eq, Document.text_eq]
    exact Node.texts_substituted plain.part.children
  all_goals rw [last]

/-- What substitution leaves: the references with values that are still in its document are those inside
the contents that have been put in, and there are none just if no reference stands for one. -/
theorem answered_of_substitution
    (complete : ((references resolver concurrent true).walk parents session d levels).halt = none) :
    let plain := (references resolver concurrent).walk parents session d levels
    let replacing := (references resolver concurrent true).walk parents session d levels
    plain.halt = none ∧ replacing.part = plain.part.substituted ∧
      replacing.part.answered = plain.part.answered.flatMap (fun r => Node.allAnswered r.contents) ∧
      (replacing.part.answered = [] ↔
        ∀ r ∈ plain.part.answered, Node.allAnswered r.contents = []) := by
  intro plain replacing
  obtain ⟨_, halt, part⟩ := walk_putsIn (siblings resolver concurrent) parents session d levels
  have ended : plain.halt = none := halt.symm.trans complete
  have replaced : replacing.part = plain.part.substituted := part ended
  have left : replacing.part.answered =
      plain.part.answered.flatMap fun r => Node.allAnswered r.contents := by
    rw [replaced]
    exact Node.allAnswered_substituted plain.part.children
  exact ⟨ended, replaced, left, by rw [left, List.flatMap_eq_nil_iff]⟩

end

/-- A reference to an element that has a reference in it. -/
def quoting : Document :=
  let refer (protocol path : String) : Node := .reference { protocol, path }
  let quoted : Element :=
    { tag := "v", attributes := [("id", .text "a")], children := [refer "var" "user"] }
  let paragraph : Element := { tag := "p", children := [refer "id" "a"] }
  { children := [.element { tag := "root", children := [.element quoted, .element paragraph] }] }

/-- Ids and variables. -/
def quoter : Resolver := { protocols := .registerAll {} [.byId, .ofVariables] }

def quotes : Session :=
  { context := { ids := .ofDocument quoting, bindings := [("user", .text "Ada")] } }

theorem substitution_agrees_quoting :
    let plain := (references quoter false).walk [] quotes quoting
    let replacing := (references quoter false true).walk [] quotes quoting
    plain.halt = none ∧ replacing.part.text = plain.part.text ∧
      replacing.session.shared.fetches = plain.session.shared.fetches := by
  have complete : ((references quoter false).walk [] quotes quoting).halt = none :=
    Option.isNone_iff_eq_none.mp (by decide +kernel)
  obtain ⟨text, fetches, _⟩ := (substitution_agrees quoter false [] quotes quoting defaultLevels).2 complete
  exact ⟨complete, text, fetches⟩

theorem answered_of_substitution_quoting :
    ((references quoter true true).walk [] quotes quoting).part.answered =
      ((references quoter).walk [] quotes quoting).part.answered.flatMap fun r =>
        Node.allAnswered r.contents :=
  (answered_of_substitution quoter true [] quotes quoting defaultLevels
    (Option.isNone_iff_eq_none.mp (by decide +kernel))).2.2.1

/-- The variable is still there as a reference that has its value, below the paragraph. -/
theorem substitution_leaves_quoted :
    ((references quoter true true).walk [] quotes quoting).halt.isNone = true ∧
      ((references quoter true true).walk [] quotes quoting).part.answered.map
        (fun r => (r.key, r.text)) = [("var:user", "Ada")] := by
  decide +kernel

end Visitor
end LinkedMarkup
