import LinkedMarkup.Proofs.Resolution.Ascent
import LinkedMarkup.Proofs.Visitor.Passes
/-! How far walks go down. More levels than a walk needs make no difference to it. A walk that makes no
node higher needs no more levels than the nodes have. One that merges elements with their ancestors may
need more, but whatever they inherit leads to lower levels of the session. -/
namespace LinkedMarkup

mutual
/-- The levels of a node, those of its descendants included. -/
def Node.height : Node → Nat
  | .element e => Element.height e
  | .content _ => 1
  | .reference _ => 1
def Node.heights : List Node → Nat
  | [] => 0
  | node :: rest => max (Node.height node) (Node.heights rest)
def Element.height : Element → Nat
  | ⟨_, _, children, _, _⟩ => Node.heights children + 1
end

@[simp] theorem Node.height_element (e : Element) :
    (Node.element e).height = Node.heights e.children + 1 := by
  cases e
  rw [height, Element.height]

theorem Node.height_le_heights {node : Node} {nodes : List Node} (member : node ∈ nodes) :
    node.height ≤ heights nodes := by
  induction nodes with
  | nil => cases member
  | cons first rest ih =>
    rw [heights]
    rcases List.mem_cons.mp member with rfl | later
    · exact Nat.le_max_left _ _
    · exact (ih later).trans (Nat.le_max_right _ _)

namespace Visitor
variable {visitor other : Visitor} {descend deeper : Descent} {parents : List Frame} {path : NodePath}
  {index : Nat} {session : Session} {node : Node} {nodes : List Node} {holds : Session → Prop}

private def Deepens (descend deeper : Descent) : Prop :=
  ∀ {parents path session nodes}, (descend parents path session nodes).halt ≠ some .tooDeep →
    deeper parents path session nodes = descend parents path session nodes

private theorem below_deepens (deepens : Deepens descend deeper) {place : Place}
    (ends : (below descend place session node).halt ≠ some .tooDeep) :
    below deeper place session node = below descend place session node := by
  cases node with
  | element e =>
    rw [below] at ends
    rw [below, below, deepens ends]
  | content | reference => rfl

private theorem walkSiblings_deepens (deepens : Deepens descend deeper)
    (ends : (walkSiblings visitor descend parents path index session nodes).halt ≠ some .tooDeep) :
    walkSiblings visitor deeper parents path index session nodes =
      walkSiblings visitor descend parents path index session nodes := by
  induction nodes generalizing index session with
  | nil => rfl
  | cons node rest ih =>
    rw [walkSiblings] at ends
    rw [walkSiblings, walkSiblings]
    dsimp only at ends ⊢
    split at ends
    · rfl
    · rw [ih ends]
    · split at ends
      · rename_i halted
        rw [below_deepens deepens (halted ▸ ends), halted]
      · rename_i whole
        rw [below_deepens deepens (by simp [whole]), whole]
        dsimp only
        rw [ih ends]

/-- More levels make no difference to a walk that is not too deep. -/
theorem walkNodes_more {levels more : Nat} (enough : levels ≤ more)
    (ends : (walkNodes visitor levels parents path session nodes).halt ≠ some .tooDeep) :
    walkNodes visitor more parents path session nodes =
      walkNodes visitor levels parents path session nodes := by
  have deepens : Deepens (walkNodes visitor levels) (walkNodes visitor more) := by
    clear ends
    induction levels generalizing more with
    | zero =>
      intro parents path session nodes ends
      cases nodes with
      | cons node rest => exact absurd rfl ends
      | nil => cases more <;> rfl
    | succ levels ih =>
      obtain ⟨more, rfl⟩ : ∃ fewer, more = fewer + 1 := ⟨more - 1, by omega⟩
      exact fun ends => walkSiblings_deepens (fun deep => ih (by omega) deep) ends
  exact deepens ends

/-- Visitors whose visits are the same make the same walks. -/
theorem walkNodes_congr (same : ∀ place {session} node, holds session →
      visitor.offer place session node = other.offer place session node)
    (retains : visitor.Retains holds) (levels : Nat) (begins : holds session) :
    walkNodes visitor levels parents path session nodes =
      walkNodes other levels parents path session nodes := by
  induction levels generalizing parents path session nodes with
  | zero => rfl
  | succ levels ih =>
    rw [walkNodes, walkNodes]
    have siblings {index : Nat} : walkSiblings visitor (walkNodes visitor levels) parents path index
        session nodes =
        walkSiblings other (walkNodes other levels) parents path index session nodes := by
      induction nodes generalizing index session with
      | nil => rfl
      | cons node rest ihRest =>
        have here := retains ⟨parents, path ++ [index]⟩ node begins
        rw [walkSiblings, walkSiblings]
        dsimp only
        rw [← same ⟨parents, path ++ [index]⟩ node begins]
        split
        · rfl
        · rename_i later _ decided
          rw [visit, decided] at here
          rw [ihRest here]
        · rename_i later decided
          rw [visit, decided] at here
          have inside (place : Place) (part : Node) :
              below (walkNodes visitor levels) place later part =
                below (walkNodes other levels) place later part := by
            cases part with
            | element e => rw [below, below, ih here]
            | content | reference => rfl
          rw [← inside]
          split
          · rfl
          · rw [ihRest (below_retains retains levels _ _ here)]
    exact siblings

theorem settle_not_tooDeep {failure : Diagnostic} {later : Session} {halt : Halt}
    (settled : settle failure session = (later, some halt)) : halt ≠ .tooDeep := by
  rw [settle] at settled
  split at settled <;> cases settled
  exact fun never => by cases never

private theorem decide_not_tooDeep {position : Span} {visited : Visited Node Action} {later : Session}
    {halt : Halt} (decided : decide position visited = (later, .error halt)) : halt ≠ .tooDeep := by
  rw [Visitor.decide] at decided
  split at decided
  · cases decided
  · split at decided
    · cases decided
    · rename_i settled
      cases decided
      exact settle_not_tooDeep settled

/-- The visit of the whole of a document never is what makes it too deep. -/
theorem opening_not_tooDeep (visitor : Visitor) (parents : List Frame) (session : Session)
    (d : Document) : (visitor.opening parents session d).halt ≠ some .tooDeep := by
  rw [opening]
  obtain ⟨part, later, outcome⟩ := visitor.document ⟨parents, []⟩ session d
  cases outcome with
  | ok =>
    intro halted
    cases halted
  | error failure => exact fun halted => settle_not_tooDeep (Prod.ext rfl halted) rfl

/-- More levels make no difference to the walk over a document that is not too deep. -/
theorem walk_more {d : Document} {levels more : Nat} (enough : levels ≤ more)
    (ends : (visitor.walk parents session d levels).halt ≠ some .tooDeep) :
    visitor.walk parents session d more = visitor.walk parents session d levels := by
  rw [walk_eq_opening] at ends ⊢
  rw [walk_eq_opening]
  dsimp only at ends ⊢
  split
  · rfl
  · rename_i goesOn
    rw [if_neg goesOn] at ends
    rw [walkNodes_more enough ends]

/-- A visitor whose visits make no node higher. -/
def Flat (visitor : Visitor) : Prop :=
  ∀ place session node, (visitor.offer place session node).part.height ≤ node.height

namespace Flat

/-- As many levels as the nodes have are enough. -/
theorem walkNodes (flat : visitor.Flat) {levels : Nat} (enough : Node.heights nodes ≤ levels) :
    (visitor.walkNodes levels parents path session nodes).halt ≠ some .tooDeep := by
  induction levels generalizing parents path session nodes with
  | zero =>
    cases nodes with
    | nil => exact fun never => by cases never
    | cons node rest =>
      have positive : 0 < node.height := by
        cases node with
        | element e => simp
        | content | reference => exact Nat.one_pos
      rw [Node.heights] at enough
      omega
  | succ levels ih =>
    rw [Visitor.walkNodes]
    have siblings {index : Nat} : (walkSiblings visitor (visitor.walkNodes levels) parents path index
        session nodes).halt ≠ some .tooDeep := by
      induction nodes generalizing index session with
      | nil => exact fun never => by cases never
      | cons node rest ihRest =>
        rw [Node.heights, Nat.max_le] at enough
        rw [walkSiblings]
        dsimp only
        split
        · rename_i decided
          simpa using decide_not_tooDeep decided
        · exact ihRest enough.2
        · split
          · rename_i later _ _ halt halted
            have low := (flat ⟨parents, path ++ [index]⟩ session node).trans enough.1
            rw [← halted]
            cases part : (visitor.offer ⟨parents, path ++ [index]⟩ session node).part with
            | element e =>
              rw [part, Node.height_element] at low
              exact ih (by omega)
            | content | reference => exact fun never => by cases never
          · exact ihRest enough.2
    exact siblings

/-- As many levels are enough as the document has behind the visit of its whole. -/
theorem walk (flat : visitor.Flat) {d : Document} {levels : Nat}
    (enough : Node.heights (visitor.opening parents session d).part.children ≤ levels) :
    (visitor.walk parents session d levels).halt ≠ some .tooDeep := by
  rw [walk_eq_opening]
  dsimp only
  split
  · exact opening_not_tooDeep visitor parents session d
  · exact flat.walkNodes enough

end Flat

/-- With enough levels the walk over nodes is not too deep. -/
def Bounded (visitor : Visitor) (session : Session) (nodes : List Node) : Prop :=
  ∀ parents path index, ∃ levels, (walkSiblings visitor (walkNodes visitor levels) parents path index
    session nodes).halt ≠ some .tooDeep

namespace Bounded

theorem levels (bounded : visitor.Bounded session nodes) (parents : List Frame) (path : NodePath) :
    ∃ levels, (walkNodes visitor levels parents path session nodes).halt ≠ some .tooDeep := by
  obtain ⟨levels, ends⟩ := bounded parents path 0
  exact ⟨levels + 1, ends⟩

/-- The walk at a node is bounded if the one over the children of the visited element is. -/
theorem single (inside : ∀ {place later e}, visitor.visit place session node = (later, .ok .keep) →
      (visitor.offer place session node).part = .element e → visitor.Bounded later e.children) :
    visitor.Bounded session [node] := by
  intro parents path index
  simp only [walkSiblings]
  split
  · rename_i decided
    exact ⟨0, by simpa using decide_not_tooDeep decided⟩
  · exact ⟨0, fun never => by cases never⟩
  · rename_i later decided
    cases part : (visitor.offer ⟨parents, path ++ [index]⟩ session node).part with
    | content | reference => exact ⟨0, fun never => by cases never⟩
    | element e =>
      obtain ⟨levels, ends⟩ := (inside decided part).levels
        (parents ++ [.ofElement e (path ++ [index])]) (path ++ [index])
      refine ⟨levels, ?_⟩
      simp only [below]
      split
      · rename_i halted
        exact halted ▸ ends
      · exact fun never => by cases never

theorem of_each (retains : visitor.Retains holds)
    (each : ∀ node ∈ nodes, ∀ {later}, holds later → visitor.Bounded later [node])
    (begins : holds session) : visitor.Bounded session nodes := by
  induction nodes generalizing session with
  | nil => exact fun parents path index => ⟨0, fun never => by cases never⟩
  | cons node rest ih =>
    have others {later : Session} (goesOn : holds later) : visitor.Bounded later rest :=
      ih (fun node member => each node (List.mem_cons_of_mem _ member)) goesOn
    intro parents path index
    let place : Place := ⟨parents, path ++ [index]⟩
    have here := retains place node begins
    obtain ⟨levels, ends⟩ := each node List.mem_cons_self begins parents path index
    simp only [walkSiblings] at ends ⊢
    split
    · rename_i decided
      exact ⟨0, by simpa using decide_not_tooDeep decided⟩
    · rename_i later parts decided
      rw [visit, decided] at here
      exact others here parents path (index + parts.length)
    · rename_i later decided
      rw [visit, decided] at here
      simp only [decided] at ends
      let first := below (walkNodes visitor levels) place later (visitor.offer place session node).part
      have whole : first.halt ≠ some .tooDeep := by
        cases halted : first.halt with
        | none => exact fun never => by cases never
        | some halt =>
          rw [show (below (walkNodes visitor levels) ⟨parents, path ++ [index]⟩ later _).halt = _
            from halted] at ends
          exact ends
      have still : holds first.session := below_retains retains levels place _ here
      obtain ⟨more, rests⟩ := others still parents path (index + 1)
      have deeper : below (walkNodes visitor (max levels more)) place later
          (visitor.offer place session node).part = first :=
        below_deepens (fun deep => walkNodes_more (Nat.le_max_left _ _) deep) whole
      refine ⟨max levels more, ?_⟩
      rw [deeper]
      split
      · rename_i halted
        exact halted ▸ whole
      · rw [walkSiblings_deepens (fun deep => walkNodes_more (Nat.le_max_right _ _) deep) rests]
        exact rests

end Bounded
end Visitor

open Session Visitor Resolving

namespace Resolver
variable {resolver : Resolver} {level : String → Nat} {bound levels more : Nat} {now : Session}

theorem proceeds_of_like {context : Context} (like : now.context.Like context) :
    now.Proceeds level { now with context } :=
  .of_same like rfl rfl id rfl

theorem proceeds_settle (failure : Diagnostic) :
    now.Proceeds level (settle failure now).1 := by
  rw [settle]
  split
  · rename_i recorded
    exact proceeds_of_like (Context.like_of_report recorded)
  · exact .refl level now

theorem proceeds_decide (position : Span) (visited : Visited Node Action) :
    visited.session.Proceeds level (decide position visited).1 := by
  rw [Visitor.decide]
  split
  · exact .refl level _
  · rename_i failure _
    have settled : visited.session.Proceeds level (settle (placed failure position) visited.session).1 :=
      proceeds_settle _
    split
    · rename_i same
      rw [same] at settled
      exact settled
    · rename_i same
      rw [same] at settled
      exact settled

section Inheriting
variable (high : ∀ key, level key < bound) (enough : bound ≤ levels)
include high enough

private theorem offer_proceeds (layered : now.Layered level) (place : Place) (e : Element) :
    let visited := (inheritance (resolver.nestedTo levels)).offer place now (.element e)
    now.Proceeds level visited.session ∧ ∃ live, visited.part = .element live ∧
      (live = e ∨ ∃ uri ∈ e.ancestor?, ∃ a, live = Inheritance.merge resolver.tags e a ∧
        ¬ now.Barren uri.key ∧ visited.session.Below level (level uri.key) a.children) := by
  have tally : Tally level now _ _ ((resolver.nestedTo levels).inherit e)
      ((resolver.nestedTo levels).inherit e) := inherit_tally high enough enough layered e
  obtain ⟨_, proceeds, meets⟩ := tally
  rw [offer_inheritance]
  generalize ((resolver.nestedTo levels).inherit e).run.alone now = ended at proceeds meets
  obtain ⟨outcome, later⟩ := ended
  cases outcome with
  | ok merged => exact ⟨proceeds, merged, rfl, meets⟩
  | error error => exact ⟨proceeds, e, rfl, .inl rfl⟩

theorem inheritance_retains (layered : now.Layered level) :
    (inheritance (resolver.nestedTo levels)).Retains (now.Proceeds level) := by
  intro place session node before
  refine before.trans (Proceeds.trans ?_ (proceeds_decide _ _))
  cases node with
  | element e => exact (offer_proceeds high enough (before.layered layered) place e).1
  | content | reference => exact .refl level session

theorem offer_inheritance_more (also : bound ≤ more) (layered : now.Layered level) (place : Place)
    (node : Node) : (inheritance (resolver.nestedTo levels)).offer place now node =
      (inheritance (resolver.nestedTo more)).offer place now node := by
  cases node with
  | content c => rw [offer, offer]; rfl
  | reference r => rw [offer, offer]; rfl
  | element e =>
    have tally : Tally level now _ _ ((resolver.nestedTo levels).inherit e)
        ((resolver.nestedTo more).inherit e) := inherit_tally high enough also layered e
    have same : ((resolver.nestedTo levels).inherit e).run.alone now =
        ((resolver.nestedTo more).inherit e).run.alone now := tally.1
    rw [offer_inheritance, offer_inheritance, same]

private theorem bounded_of_smaller {lower : Nat}
    (smaller : ∀ {less}, less < lower → ∀ {now : Session} {node : Node}, now.Layered level →
      now.Below level less [node] → (inheritance (resolver.nestedTo levels)).Bounded now [node])
    {node : Node} (layered : now.Layered level) (below : now.Below level lower [node]) :
    (inheritance (resolver.nestedTo levels)).Bounded now [node] := by
  generalize tall : node.height = height
  induction height using Nat.strong_induction_on generalizing now node with
  | _ height ih =>
  cases node with
  | content | reference => exact .single fun _ same => nomatch same
  | element e =>
    rw [Node.height_element] at tall
    simp only [Below, Node.ancestorsOf_element, List.mem_append, or_imp, forall_and] at below
    refine .single fun {place later visited} decided part => ?_
    obtain ⟨proceeds, live, same, here⟩ := offer_proceeds high enough layered place e
    cases same.symm.trans part
    have after : Proceeds level _ (decide e.position _).1 := proceeds_decide e.position
      ((inheritance (resolver.nestedTo levels)).offer place now (.element e))
    rw [show decide e.position _ = _ from decided] at after
    have goesOn := proceeds.trans after
    have kept {last : Session} (rest : later.Proceeds level last) {child : Node}
        (member : child ∈ e.children) :
        (inheritance (resolver.nestedTo levels)).Bounded last [child] := by
      have low := Node.height_le_heights member
      refine ih _ (by omega) (rest.layered (goesOn.layered layered)) ?_ rfl
      exact ((goesOn.trans rest).below below.2).subset (Node.ancestorsOf_subset member)
    refine .of_each (inheritance_retains high enough (goesOn.layered layered))
      (fun child member last rest => ?_) (.refl level later)
    rcases here with rfl | ⟨uri, extended, a, rfl, fertile, handed⟩
    · exact kept rest member
    · rcases List.mem_append.mp member with inherited | itself
      · refine smaller ((below.1 uri (by simpa using extended)).resolve_left fertile)
          (rest.layered (goesOn.layered layered)) ((rest.below (after.below handed)).subset ?_)
        exact fun _ inside => Inheritance.ancestorsOf_children_subset _ _
          (Node.ancestorsOf_subset inherited inside)
      · exact kept rest itself

/-- The pass over inheritance is not too deep with enough levels. -/
theorem inheritance_bounded (layered : now.Layered level) (nodes : List Node) :
    (inheritance (resolver.nestedTo levels)).Bounded now nodes := by
  -- The induction is on the level below which the ancestors are; what is inherited leads lower.
  have single (lower : Nat) {now : Session} {node : Node} (layered : now.Layered level)
      (below : now.Below level lower [node]) :
      (inheritance (resolver.nestedTo levels)).Bounded now [node] := by
    induction lower using Nat.strong_induction_on generalizing now node with
    | _ lower ih => exact bounded_of_smaller high enough (fun less => ih _ less) layered below
  exact .of_each (inheritance_retains high enough layered)
    (fun node _ later rest => single bound (rest.layered layered) fun uri _ => .inr (high uri.key))
    (.refl level now)

end Inheriting

section Referring
variable (high : ∀ key, level key < bound) (enough : bound ≤ levels) (also : bound ≤ more)
include high enough also

private theorem resolveInTurn_more (resolver : Resolver) (layered : now.Layered level) (references : List Reference) :
    (resolver.nestedTo levels).resolveInTurn references now =
        (resolver.nestedTo more).resolveInTurn references now ∧
      now.Proceeds level ((resolver.nestedTo levels).resolveInTurn references now).2 := by
  induction references generalizing now with
  | nil => exact ⟨rfl, .refl level now⟩
  | cons r rest ih =>
    have tally : Tally level now _ _ (resolveReference (resolver.nestedTo levels).resolve r)
        (resolveReference (resolver.nestedTo more).resolve r) :=
      resolveReference_tally (resolve_tally high enough also) r layered
    have same : (resolver.nestedTo levels).resolveAlone r now =
        (resolver.nestedTo more).resolveAlone r now := tally.1
    have proceeds : now.Proceeds level ((resolver.nestedTo levels).resolveAlone r now).2 := tally.2.1
    obtain ⟨others, goesOn⟩ := ih (proceeds.layered layered)
    rw [resolveInTurn, resolveInTurn, ← same]
    dsimp only
    rw [← others]
    exact ⟨rfl, proceeds.trans goesOn⟩

/-- References among siblings that are resolved in turn. -/
theorem resolveChildren_more (layered : now.Layered level) (nodes : List Node) :
    resolveChildren (siblings (resolver.nestedTo levels) false) now nodes =
        resolveChildren (siblings (resolver.nestedTo more) false) now nodes ∧
      now.Proceeds level (resolveChildren (siblings (resolver.nestedTo levels) false) now nodes).session := by
  have inTurn (levels : Nat) : siblings (resolver.nestedTo levels) false =
      (resolver.nestedTo levels).resolveInTurn := rfl
  obtain ⟨same, proceeds⟩ :=
    resolveInTurn_more high enough also resolver layered (nodes.filterMap unresolved?)
  rw [resolveChildren, resolveChildren, inTurn, inTurn, ← same]
  exact ⟨rfl, proceeds.trans (proceeds_of_like (Context.reportAll_adds _).1)⟩

theorem offer_references_more (layered : now.Layered level) (substitute : Bool) (place : Place)
    (node : Node) : (references (resolver.nestedTo levels) false substitute).offer place now node =
      (references (resolver.nestedTo more) false substitute).offer place now node := by
  cases node with
  | content c => rw [offer, offer]; rfl
  | reference r => rw [offer, offer]; rfl
  | element e =>
    have same : resolveChildren (siblings (resolver.nestedTo levels) false) now e.children =
        resolveChildren (siblings (resolver.nestedTo more) false) now e.children :=
      (resolveChildren_more high enough also layered e.children).1
    simp only [offer, references, referencesBy, same]

end Referring

theorem references_retains (high : ∀ key, level key < bound) (enough : bound ≤ levels)
    (layered : now.Layered level) (substitute : Bool) :
    (references (resolver.nestedTo levels) false substitute).Retains (now.Proceeds level) := by
  intro place session node before
  refine before.trans (Proceeds.trans ?_ (proceeds_decide _ _))
  cases node with
  | element e => exact (resolveChildren_more high enough enough (before.layered layered) e.children).2
  | content c => exact .refl level session
  | reference r =>
    simp only [offer, references, referencesBy]
    split <;> exact .refl level session

end Resolver

namespace Visitor
variable {siblings : Siblings}

theorem heights_fill (nodes : List Node) (results : List (Except ReferenceError Reference)) :
    Node.heights (fill nodes results) = Node.heights nodes := by
  induction nodes generalizing results with
  | nil => rw [fill]
  | cons node rest ih =>
    unfold fill
    split
    · rename_i found
      obtain ⟨rfl, _⟩ := of_unresolved? found
      rw [Node.heights, Node.heights, ih, Node.height, Node.height]
    · rw [Node.heights, Node.heights, ih]
    · rw [Node.heights, Node.heights, ih]

theorem referencesBy_flat (siblings : Siblings) (substitute : Bool) :
    (referencesBy siblings substitute).Flat := by
  intro place session node
  cases node with
  | content c => exact Nat.le_refl _
  | reference r =>
    simp only [offer, referencesBy]
    split <;> exact Nat.le_refl _
  | element e =>
    have same : ((referencesBy siblings substitute).offer place session (.element e)).part =
        .element { e with children := (resolveChildren siblings session e.children).part } := rfl
    rw [same, Node.height_element, Node.height_element]
    exact Nat.succ_le_succ (heights_fill _ _).le

theorem heights_opening_referencesBy (siblings : Siblings) (parents : List Frame) (session : Session)
    (d : Document) : Node.heights ((referencesBy siblings).opening parents session d).part.children =
      Node.heights d.children := by
  have filled : Node.heights (resolveChildren siblings session d.children).part =
    Node.heights d.children := heights_fill _ _
  simp only [opening, referencesBy]
  split <;> exact filled

end Visitor
end LinkedMarkup
