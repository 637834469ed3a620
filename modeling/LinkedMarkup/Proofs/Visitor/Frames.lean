import LinkedMarkup.Proofs.Resolution.Recording
import LinkedMarkup.Proofs.Visitor.Passes

namespace LinkedMarkup

namespace Context

/-- Diagnostics that do not end the processing are recorded in their order, as warnings. -/
theorem reportAll_of_none {context : Context} {diagnostics : List Diagnostic}
    (goesOn : (context.reportAll diagnostics).2 = none) :
    (∀ diagnostic ∈ diagnostics, context.stopsAt diagnostic.severity = false) ∧
      (context.reportAll diagnostics).1 = { context with
        diagnostics := context.diagnostics ++
          diagnostics.map fun diagnostic => (context.located diagnostic).degraded } := by
  induction diagnostics generalizing context with
  | nil => simp [reportAll]
  | cons diagnostic rest ih =>
    rw [reportAll] at goesOn ⊢
    by_cases stops : context.stopsAt diagnostic.severity = true
    · have stopped : context.report diagnostic = .error (context.located diagnostic) := by
        simp [report, severity_located, stops]
      rw [stopped] at goesOn
      cases goesOn
    · have recorded : context.report diagnostic =
          .ok (context.record (context.located diagnostic).degraded) := by
        simp [report, severity_located, stops]
      rw [recorded] at goesOn ⊢
      obtain ⟨mild, same⟩ := ih goesOn
      refine ⟨List.forall_mem_cons.mpr ⟨by simpa using stops, mild⟩, ?_⟩
      dsimp only
      rw [same, record]
      simp only [List.append_assoc, List.singleton_append, List.map_cons]
      rfl

end Context

/-- An element without what passes may change. -/
def Element.bare (e : Element) : Element := { e with children := [], metadata := [] }

/-- The elements of nodes in document order, each by itself. -/
def Node.frames (nodes : List Node) : List Element := (Node.allElements nodes).map Element.bare

theorem Element.descendants_eq (e : Element) : e.descendants = Node.allElements e.children := by
  cases e
  rfl

namespace Node

theorem frames_element (e : Element) (rest : List Node) :
    frames (.element e :: rest) = e.bare :: (frames e.children ++ frames rest) := by
  simp [frames, allElements, elements, Element.descendants_eq]

theorem frames_leaf {node : Node} (leaf : node.asElement? = none) (rest : List Node) :
    frames (node :: rest) = frames rest := by
  cases node with
  | element e => cases leaf
  | content | reference => rfl

theorem allElements_append (first second : List Node) :
    allElements (first ++ second) = allElements first ++ allElements second := by
  induction first with
  | nil => rfl
  | cons node rest ih => rw [List.cons_append, allElements, allElements, ih, List.append_assoc]

theorem frames_append (first second : List Node) :
    frames (first ++ second) = frames first ++ frames second := by
  rw [frames, allElements_append, List.map_append]
  rfl

end Node

namespace Visitor

/-- Nodes keep their frames: an element its own and those of its children, any other node has none. -/
def framing : Manner where
  element e visited := visited.bare = e.bare ∧ Node.frames visited.children = Node.frames e.children
  leaf node parts := node.asElement? = none ∧ Node.frames parts = []

theorem frames_of_framing {nodes after : List Node} (passes : framing.Passes nodes after) :
    Node.frames after = Node.frames nodes := by
  induction passes with
  | nil => rfl
  | @element e visited own _ _ here _ _ below others =>
    have head : Element.bare { visited with children := own } = e.bare := here.1
    rw [Node.frames_element, Node.frames_element, head, below, here.2, others]
  | leaf here _ others => rw [Node.frames_append, Node.frames_leaf here.1, here.2, others]; rfl

/-- A walk that comes to its end keeps all frames and records only asides, if no element extends
another. -/
def KeepsFrames (visitor : Visitor) : Prop :=
  ∀ (session : Session) (d : Document) (levels : Nat),
    (∀ e ∈ Node.frames d.children, e.extends? = none) →
    (visitor.walk [] session d levels).halt = none →
      Node.frames (visitor.walk [] session d levels).part.children = Node.frames d.children ∧
        session.context.Records Diagnostic.Aside (visitor.walk [] session d levels).session.context

variable {visitor : Visitor}

private def Framed (visitor : Visitor) : Prop :=
  ∀ place session node later action, visitor.visit place session node = (later, .ok action) →
    session.context.Records Diagnostic.Aside later.context ∧
      framing.Makes (fun _ => True) node (visitor.offer place session node).part action

private theorem walkNodes_framed (adds : visitor.Adding) (framed : Framed visitor)
    {session : Session} {nodes : List Node} {levels : Nat}
    (ended : (walkNodes visitor levels [] [] session nodes).halt = none) :
    Node.frames (walkNodes visitor levels [] [] session nodes).part = Node.frames nodes ∧
      session.context.Records Diagnostic.Aside
        (walkNodes visitor levels [] [] session nodes).session.context := by
  have minds : visitor.Minds (fun _ => True)
      (fun now => session.context.Records Diagnostic.Aside now.context) (fun _ => False) framing := by
    refine ⟨adds, fun _ => id, fun place now later node action quiet _ decided _ => ?_⟩
    obtain ⟨records, makes⟩ := framed place now node later action decided
    exact ⟨quiet.trans records, makes⟩
  obtain ⟨records, passes⟩ :=
    (minds.walkNodes_passed levels (.refl _) fun _ _ => trivial).passed ended id
  exact ⟨frames_of_framing passes, records⟩

theorem metadata_keepsFrames : metadata.KeepsFrames := by
  intro session d levels _ ended
  have framed : Framed metadata := by
    intro place now node later action decided
    cases node with
    | element e => cases decided; exact ⟨.refl _, .element ⟨rfl, rfl⟩ fun _ _ => trivial⟩
    | content | reference => cases decided; exact ⟨.refl _, .leaf ⟨rfl, rfl⟩ rfl⟩
  rw [walk_nodes rfl rfl] at ended ⊢
  refine walkNodes_framed (fun place session node => ?_) framed ended
  cases node <;> exact .refl _

theorem normalization_keepsFrames : normalization.KeepsFrames := by
  intro session d levels _ ended
  have framed : Framed normalization := by
    intro place now node later action decided
    cases node with
    | element e => cases decided; exact ⟨.refl _, .element ⟨rfl, rfl⟩ fun _ _ => trivial⟩
    | reference r => cases decided; exact ⟨.refl _, .leaf ⟨rfl, rfl⟩ rfl⟩
    | content c =>
      simp only [visit, offer, normalization] at decided ⊢
      split at decided
      · cases decided
        exact ⟨.refl _, .replaced ⟨rfl, rfl⟩⟩
      · rename_i filled
        cases decided
        rw [if_neg filled]
        exact ⟨.refl _, .leaf ⟨rfl, rfl⟩ rfl⟩
  rw [walk_nodes rfl rfl] at ended ⊢
  refine walkNodes_framed (fun place session node => ?_) framed ended
  refine .trans ?_ (decide_adds _ _)
  cases node with
  | element | reference => exact .refl _
  | content c =>
    simp only [offer, normalization]
    split <;> exact .refl _

theorem frames_fill (nodes : List Node) (results : List (Except ReferenceError Reference)) :
    Node.frames (fill nodes results) = Node.frames nodes := by
  induction nodes generalizing results with
  | nil => rfl
  | cons node rest ih =>
    cases node with
    | element e =>
      rw [fill_of_settled rfl, Node.frames_element, Node.frames_element, ih]
    | content c => exact ih results
    | reference r =>
      rw [Node.frames_leaf rfl]
      unfold fill
      split
      · exact ih _
      · exact ih _
      · exact ih _

/-- A failure that is reported and not final is recorded as an aside. -/
theorem reportAll_failures (context : Context) (references : List Reference)
    (results : List (Except ReferenceError Reference))
    (goesOn : (context.reportAll (failures references results)).2 = none) :
    context.Records Diagnostic.Aside (context.reportAll (failures references results)).1 := by
  rw [(Context.reportAll_of_none goesOn).2]
  refine ⟨rfl, _, rfl, ?_⟩
  intro diagnostic member
  obtain ⟨failure, failed, rfl⟩ := List.mem_map.mp member
  obtain ⟨⟨r, result⟩, _, made⟩ := List.mem_filterMap.mp failed
  cases result with
  | ok after => cases made
  | error error =>
    cases made
    exact context.aside_passedOver error r.position

variable {resolver : Resolver} {siblings : Siblings}

/-- References whose resolution goes on have left only asides. -/
theorem resolveChildren_records (schedules : resolver.Schedules siblings) {session : Session}
    {nodes : List Node} (goesOn : (resolveChildren siblings session nodes).outcome = .ok ()) :
    session.context.Records Diagnostic.Aside (resolveChildren siblings session nodes).session.context := by
  have resolved := (schedules (nodes.filterMap unresolved?) session).records
  simp only [resolveChildren] at goesOn ⊢
  generalize siblings (nodes.filterMap unresolved?) session = outcome at resolved goesOn ⊢
  obtain ⟨results, later⟩ := outcome
  refine resolved.trans (reportAll_failures _ _ _ ?_)
  dsimp only at goesOn
  split at goesOn
  · assumption
  · cases goesOn

theorem references_keepsFrames (schedules : resolver.Schedules siblings) :
    (referencesBy siblings).KeepsFrames := by
  intro session d levels _ ended
  have framed : Framed (referencesBy siblings) := by
    intro place now node later action decided
    cases node with
    | content | reference => cases decided; exact ⟨.refl _, .leaf ⟨rfl, rfl⟩ rfl⟩
    | element e =>
      let filled := resolveChildren siblings now e.children
      let visited : Visited Node Action := ⟨.element { e with children := filled.part },
        filled.session, filled.outcome.map fun _ => .keep⟩
      have offered : Visitor.decide e.position visited = (later, .ok action) := decided
      cases outcome : filled.outcome with
      | ok =>
        have kept : visited.outcome = .ok .keep := by simp only [visited, outcome, Except.map]
        have settled : Visitor.decide e.position visited = (visited.session, .ok .keep) := by
          simp only [Visitor.decide, kept]
        cases settled.symm.trans offered
        exact ⟨resolveChildren_records schedules outcome,
          .element ⟨rfl, frames_fill _ _⟩ fun _ _ => trivial⟩
      | error failure =>
        have failed : visited.outcome = .error failure := by simp only [visited, outcome, Except.map]
        obtain ⟨halt, settled⟩ := Visitor.decide_of_stopsAt visited failed
          (resolveChildren_stops outcome) e.position
        cases settled.symm.trans offered
  rw [walk_referencesBy] at ended ⊢
  cases outcome : (resolveChildren siblings session d.children).outcome with
  | error failure =>
    simp only [outcome] at ended
    cases ended
  | ok =>
    simp only [outcome] at ended ⊢
    obtain ⟨frames, records⟩ := walkNodes_framed (referencesBy_adding schedules.adds) framed ended
    refine ⟨frames.trans ?_, (resolveChildren_records schedules outcome).trans records⟩
    exact frames_fill _ _

/-- A visitor that only looks at nodes. `tell` is what the visit of an element makes of the session,
if the walk goes on. -/
structure Inspects (visitor : Visitor) (fits : Element → Prop)
    (tell : Session → Element → Option Session) : Prop where
  leaf : ∀ place session (node : Node), node.asElement? = none →
    visitor.offer place session node = ⟨node, session, .ok .keep⟩
  element : ∀ place session {e : Element}, fits e →
    (visitor.offer place session (.element e)).part = .element e ∧
      ∀ later action, visitor.visit place session (.element e) = (later, .ok action) →
        action = .keep ∧ tell session e = some later

private def Inspected (tell : Session → Element → Option Session) (session : Session)
    (nodes : List Node) (walked : Walked (List Node)) : Prop :=
  walked.halt = none →
    walked.part = nodes ∧ (Node.allElements nodes).foldlM tell session = some walked.session

private theorem walkSiblings_inspected {fits : Element → Prop}
    {tell : Session → Element → Option Session} (inspects : visitor.Inspects fits tell)
    {descend : Descent} {parents : List Frame} {path : NodePath} {index : Nat} {session : Session}
    {nodes : List Node}
    (deeper : ∀ parents path session {nodes}, (∀ e ∈ Node.allElements nodes, fits e) →
      Inspected tell session nodes (descend parents path session nodes))
    (all : ∀ e ∈ Node.allElements nodes, fits e) :
    Inspected tell session nodes (walkSiblings visitor descend parents path index session nodes) := by
  induction nodes generalizing index session with
  | nil => exact fun _ => ⟨rfl, rfl⟩
  | cons node rest ih =>
    rw [Node.allElements, List.forall_mem_append] at all
    have others {later : Session} {index : Nat} := @ih index later all.2
    rw [Inspected, walkSiblings, Node.allElements, List.foldlM_append]
    dsimp only
    cases node with
    | content c =>
      have here := inspects.leaf ⟨parents, path ++ [index]⟩ session (.content c) rfl
      simp only [here]
      intro ended
      obtain ⟨same, told⟩ := others ended
      exact ⟨congrArg _ same, told⟩
    | reference r =>
      have here := inspects.leaf ⟨parents, path ++ [index]⟩ session (.reference r) rfl
      simp only [here]
      intro ended
      obtain ⟨same, told⟩ := others ended
      exact ⟨congrArg _ same, told⟩
    | element e =>
      have member : e ∈ (Node.element e).elements := by simp [Node.elements]
      obtain ⟨part, tells⟩ := inspects.element ⟨parents, path ++ [index]⟩ session (all.1 e member)
      split
      · exact fun halted => by cases halted
      · rename_i later replaced decided
        cases (tells _ _ decided).1
      · rename_i later decided
        obtain ⟨_, told⟩ := tells _ _ decided
        have inside : ∀ e' ∈ Node.allElements e.children, fits e' := fun e' below =>
          all.1 e' (by rw [Node.elements, e.descendants_eq]; exact List.mem_cons_of_mem _ below)
        rw [part]
        dsimp only [below]
        have walked := deeper (parents ++ [.ofElement e (path ++ [index])]) (path ++ [index]) later inside
        split
        · exact fun halted => by cases halted
        · rename_i whole
          intro ended
          obtain ⟨own, toldOwn⟩ := walked whole
          obtain ⟨same, toldRest⟩ := others ended
          rw [own, same]
          refine ⟨by cases e; rfl, ?_⟩
          rw [Node.elements, e.descendants_eq, List.foldlM_cons, told]
          show ((Node.allElements e.children).foldlM tell later >>= _) = _
          rw [toldOwn]
          exact toldRest

theorem Inspects.walkNodes {fits : Element → Prop} {tell : Session → Element → Option Session}
    (inspects : visitor.Inspects fits tell) (levels : Nat) {parents : List Frame} {path : NodePath}
    {session : Session} {nodes : List Node} (all : ∀ e ∈ Node.allElements nodes, fits e)
    (ended : (walkNodes visitor levels parents path session nodes).halt = none) :
    (walkNodes visitor levels parents path session nodes).part = nodes ∧
      (Node.allElements nodes).foldlM tell session =
        some (walkNodes visitor levels parents path session nodes).session := by
  have inspected : Inspected tell session nodes (visitor.walkNodes levels parents path session nodes) := by
    clear ended
    induction levels generalizing parents path session nodes with
    | zero =>
      cases nodes with
      | nil => exact fun _ => ⟨rfl, rfl⟩
      | cons node rest => exact fun halted => by cases halted
    | succ levels ih => exact walkSiblings_inspected inspects (fun _ _ _ {_} fit => ih fit) all
  exact inspected ended

/-- The pass over inheritance changes no element that extends no other. -/
theorem inheritance_inspects (resolver : Resolver) :
    (inheritance resolver).Inspects (·.extends? = none) fun session _ => some session where
  leaf place session node bare := by
    cases node with
    | element e => cases bare
    | content | reference => rfl
  element place session e alone := by
    have stays : (resolver.inherit e).run.alone session = (.ok e, session) := by
      unfold Resolver.inherit
      rw [alone]
      rfl
    rw [visit, offer_inheritance, stays]
    refine ⟨rfl, fun later action decided => ?_⟩
    cases decided
    exact ⟨rfl, rfl⟩

theorem inheritance_keepsFrames (resolver : Resolver) : (inheritance resolver).KeepsFrames := by
  intro session d levels alone ended
  have fits : ∀ e ∈ Node.allElements d.children, e.extends? = none :=
    fun e member => alone e.bare (List.mem_map.mpr ⟨e, member, rfl⟩)
  rw [walk_nodes rfl rfl] at ended ⊢
  obtain ⟨same, told⟩ := (inheritance_inspects resolver).walkNodes _ fits ended
  have still (elements : List Element) :
      elements.foldlM (fun session (_ : Element) => some session) session = some session := by
    induction elements with
    | nil => rfl
    | cons e rest ih => rw [List.foldlM_cons]; exact ih
  have quiet := Option.some.inj ((still _).symm.trans told)
  dsimp only
  rw [same, ← quiet]
  exact ⟨rfl, .refl _⟩

theorem idIndex_keepsFrames : idIndex.KeepsFrames :=
  fun _ _ _ _ _ => ⟨rfl, .of_same rfl rfl⟩

/-- Report the errors about the attributes of an element, if the processing goes on. -/
def tellAttributes (tags : TagRegistry) (session : Session) (e : Element) : Option Session :=
  match tags.find? e.tag with
  | none => some session
  | some definition =>
    match session.context.reportAll ((Validation.attributeErrors definition e).map .ofValidation) with
    | (context, none) => some { session with context }
    | (_, some _) => none

private theorem offer_attributeValidation (tags : TagRegistry) (place : Place) (session : Session)
    (e : Element) : (attributeValidation tags).offer place session (.element e) =
      match tags.find? e.tag with
      | none => ⟨.element e, session, .ok .keep⟩
      | some definition =>
        let errors := (Validation.attributeErrors definition e).map Diagnostic.ofValidation
        ⟨.element e, { session with context := (session.context.reportAll errors).1 },
          match (session.context.reportAll errors).2 with
          | none => .ok .keep
          | some diagnostic => .error diagnostic⟩ := by
  simp only [offer, attributeValidation]
  cases tags.find? e.tag <;> rfl

theorem attributeValidation_inspects (tags : TagRegistry) :
    (attributeValidation tags).Inspects (fun _ => True) (tellAttributes tags) where
  leaf place session node bare := by
    cases node with
    | element e => cases bare
    | content | reference => rfl
  element place session e _ := by
    rw [visit, offer_attributeValidation, tellAttributes]
    cases tags.find? e.tag with
    | none =>
      refine ⟨rfl, fun later action decided => ?_⟩
      cases decided
      exact ⟨rfl, rfl⟩
    | some definition =>
      obtain ⟨like, _, stops⟩ := session.context.reportAll_adds
        ((Validation.attributeErrors definition e).map Diagnostic.ofValidation)
      dsimp only
      generalize session.context.reportAll _ = outcome at like stops ⊢
      rcases outcome with ⟨context, none | stop⟩ <;> dsimp only at like ⊢
      · refine ⟨rfl, fun later action decided => ?_⟩
        cases decided
        exact ⟨rfl, rfl⟩
      · refine ⟨rfl, fun later action decided => ?_⟩
        have mode : context.mode = session.context.mode := by rw [like]
        have final := (Context.stopsAt_congr mode _).trans (stops stop rfl)
        obtain ⟨halt, settled⟩ := decide_of_stopsAt
          (⟨.element e, { session with context }, .error stop⟩ : Visited Node Action) rfl final e.position
        cases settled.symm.trans decided

theorem walk_attributeValidation {tags : TagRegistry} {session : Session} {d : Document} {levels : Nat}
    (ended : ((attributeValidation tags).walk [] session d levels).halt = none) :
    ((attributeValidation tags).walk [] session d levels).part = d := by
  rw [walk_nodes rfl rfl] at ended ⊢
  obtain ⟨kept, _⟩ := (attributeValidation_inspects tags).walkNodes _ (fun _ _ => trivial) ended
  rw [kept]
  cases d
  rfl

end Visitor

namespace Pipeline
variable {session : Session} {d : Document} {levels : Nat}

/-- A run that comes to its end has completed the walk of each visitor. -/
theorem complete_cons {visitor : Visitor} {rest : List Visitor}
    (complete : (pass levels (visitor :: rest) session d).halt = none) :
    (visitor.walk [] session d levels).halt = none ∧
      pass levels (visitor :: rest) session d =
        pass levels rest (visitor.walk [] session d levels).session
          (visitor.walk [] session d levels).part := by
  rw [pass] at complete ⊢
  cases ended : (visitor.walk [] session d levels).halt with
  | some halt => simp [ended] at complete
  | none => exact ⟨rfl, rfl⟩

/-- Processing that comes to its end has reported what the validation finds and let all visitors pass. -/
theorem process_of_complete {pipeline : Pipeline}
    (complete : (pipeline.process session d).isComplete = true) :
    let reported := (session.context.reportAll (findings pipeline.tags d)).1
    pipeline.process session d =
      pass pipeline.levels pipeline.visitors { session with context := reported } d := by
  cases stopped : (session.context.reportAll (findings pipeline.tags d)).2 with
  | none => simp [process, stopped]
  | some stop => simp [process, stopped, Processed.isComplete] at complete

end Pipeline
end LinkedMarkup
