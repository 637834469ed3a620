import LinkedMarkup.Proofs.Tasks.Timely
import LinkedMarkup.Proofs.Visitor.Passage

namespace LinkedMarkup

namespace Context
variable {context : Context}

theorem stopsAt_congr {other : Context} (same : other.mode = context.mode) (severity : Severity) :
    other.stopsAt severity = context.stopsAt severity := by
  cases severity <;> simp [stopsAt, same]

theorem stopsAt_of_report {diagnostic stop : Diagnostic}
    (stopped : context.report diagnostic = .error stop) : context.stopsAt stop.severity = true := by
  rw [report] at stopped
  split at stopped
  · rename_i stops
    cases stopped
    exact stops
  · cases stopped

theorem like_of_report {diagnostic : Diagnostic} {next : Context}
    (recorded : context.report diagnostic = .ok next) : context.Like next := by
  rw [report] at recorded
  split at recorded
  · cases recorded
  · cases recorded
    rfl

theorem subset_of_report {diagnostic : Diagnostic} {next : Context}
    (recorded : context.report diagnostic = .ok next) : context.diagnostics ⊆ next.diagnostics := by
  rw [report] at recorded
  split at recorded
  · cases recorded
  · cases recorded
    exact List.subset_append_left _ _

/-- Reports are only added to what was recorded before; the last one stops for its severity. -/
theorem reportAll_adds (diagnostics : List Diagnostic) :
    context.Like (context.reportAll diagnostics).1 ∧
      context.diagnostics ⊆ (context.reportAll diagnostics).1.diagnostics ∧
      ∀ stop, (context.reportAll diagnostics).2 = some stop →
        context.stopsAt stop.severity = true := by
  induction diagnostics generalizing context with
  | nil => exact ⟨rfl, List.Subset.refl _, fun _ none => by cases none⟩
  | cons diagnostic rest ih =>
    rw [reportAll]
    cases reported : context.report diagnostic with
    | error stop =>
      refine ⟨rfl, List.Subset.refl _, fun other same => ?_⟩
      cases same
      exact stopsAt_of_report reported
    | ok next =>
      have like := like_of_report reported
      obtain ⟨more, grows, stops⟩ := @ih next
      refine ⟨like.trans more, fun _ member => grows (subset_of_report reported member), ?_⟩
      intro stop same
      have mode : next.mode = context.mode := by rw [like]
      exact (stopsAt_congr mode _).symm.trans (stops stop same)

end Context

theorem Session.adds_record {session : Session} {context : Context}
    (like : session.context.Like context)
    (grows : session.context.diagnostics ⊆ context.diagnostics) :
    session.Adds { session with context } :=
  ⟨by rw [like], grows, id⟩

namespace Visitor

theorem settle_adds (failure : Diagnostic) (session : Session) :
    session.Adds (settle failure session).1 := by
  rw [settle]
  split
  · rename_i context recorded
    exact Session.adds_record (Context.like_of_report recorded) (Context.subset_of_report recorded)
  · exact .refl _

theorem decide_adds (position : Span) (visited : Visited Node Action) :
    visited.session.Adds (Visitor.decide position visited).1 := by
  have settled (failure : Diagnostic) := settle_adds (placed failure position) visited.session
  unfold Visitor.decide
  split
  · exact .refl _
  · rename_i failure _
    have here := settled failure
    split
    · rename_i session same
      rwa [same] at here
    · rename_i session halt same
      rwa [same] at here

/-- A failure that has stopped a report ends the walk. -/
theorem decide_of_stopsAt (visited : Visited Node Action) {failure : Diagnostic}
    (failed : visited.outcome = .error failure)
    (stops : visited.session.context.stopsAt failure.severity = true) (position : Span) :
    ∃ halt, Visitor.decide position visited = (visited.session, .error halt) := by
  rw [← severity_placed failure position] at stops
  refine ⟨.stopped (visited.session.context.located (placed failure position)), ?_⟩
  simp only [Visitor.decide, failed, settle_of_stopsAt stops]

/-- The failure of an ancestor is recorded at its element, or it ends the walk. -/
theorem decide_ofReference (part : Node) (session : Session) (error : ReferenceError)
    (position : Span) :
    let visited : Visited Node Action :=
      ⟨part, session, .error ((Diagnostic.ofReference error).placedAt position)⟩
    (Resolver.Tolerated session.context.mode error ∧ Visitor.decide position visited =
        (session.onContext fun context => context.record (context.passedOver error position),
          .ok .keep)) ∨
      ∃ halt, Visitor.decide position visited = (session, .error halt) := by
  have same : placed ((Diagnostic.ofReference error).placedAt position) position =
      (Diagnostic.ofReference error).placedAt position := by
    unfold placed Diagnostic.placedAt
    split <;> split <;> simp_all
  dsimp only
  rcases session.context.report_ofReference error position with ⟨tolerated, recorded⟩ |
    ⟨_, stop, stopped⟩
  · refine .inl ⟨tolerated, ?_⟩
    simp only [Visitor.decide, same, settle, recorded]
    rfl
  · refine .inr ⟨.stopped stop, ?_⟩
    simp only [Visitor.decide, same, settle, stopped]

theorem offer_inheritance (resolver : Resolver) (place : Place) (session : Session) (e : Element) :
    (inheritance resolver).offer place session (.element e) =
      match (resolver.inherit e).run.alone session with
      | (.ok merged, session) => ⟨.element merged, session, .ok .keep⟩
      | (.error error, session) =>
        ⟨.element e, session, .error ((Diagnostic.ofReference error).placedAt e.position)⟩ := by
  simp only [offer, inheritance]
  cases (resolver.inherit e).run.alone session with
  | mk outcome later => cases outcome <;> rfl

/-- What inheritance makes of an element before its children are visited. -/
def inheriting (outlook : Outlook) : Manner where
  element e visited := (e.extends? = none ∧ visited = e) ∨ ∃ target, e.extends? = some target ∧
    ((∃ error, outlook.Misses target error ∧ outlook.passes error ∧ visited = e) ∨
      ∃ a, outlook.Finds target a ∧ visited = Inheritance.merge outlook.tags e a)
  leaf node parts := node.asElement? = none ∧ parts = [node]

section
variable {siblings : Siblings} {session : Session}

/-- A failure that is left over ends the processing. -/
theorem resolveChildren_stops {nodes : List Node} {failure : Diagnostic}
    (failed : (resolveChildren siblings session nodes).outcome = .error failure) :
    (resolveChildren siblings session nodes).session.context.stopsAt failure.severity =
      true := by
  simp only [resolveChildren] at failed ⊢
  generalize siblings (nodes.filterMap unresolved?) session = outcome at failed ⊢
  obtain ⟨results, later⟩ := outcome
  obtain ⟨same, _, stops⟩ := later.context.reportAll_adds
    (failures (nodes.filterMap unresolved?) results)
  dsimp only at failed ⊢
  split at failed
  · cases failed
  · rename_i stop stopped
    cases failed
    have mode : (later.context.reportAll
        (failures (nodes.filterMap unresolved?) results)).1.mode = later.context.mode := by
      rw [same]
    exact (Context.stopsAt_congr mode _).trans (stops _ stopped)

theorem resolveChildren_adds
    (adds : ∀ references (session : Session), session.Adds (siblings references session).2)
    (nodes : List Node) : session.Adds (resolveChildren siblings session nodes).session := by
  simp only [resolveChildren]
  have first := adds (nodes.filterMap unresolved?) session
  generalize siblings (nodes.filterMap unresolved?) session = outcome at first ⊢
  obtain ⟨results, later⟩ := outcome
  obtain ⟨same, grows, _⟩ := later.context.reportAll_adds
    (failures (nodes.filterMap unresolved?) results)
  exact first.trans (Session.adds_record same grows)

/-- The pass over references goes on below the document when those at top level have been resolved. -/
theorem walk_referencesBy (siblings : Siblings) (session : Session) (d : Document) (levels : Nat) :
    (referencesBy siblings).walk [] session d levels =
      let filled := resolveChildren siblings session d.children
      match filled.outcome with
      | .ok () =>
        let walked := walkNodes (referencesBy siblings) levels [] [] filled.session filled.part
        ⟨{ d with children := walked.part }, walked.session, walked.halt⟩
      | .error failure => ⟨{ d with children := filled.part }, filled.session,
          some (.stopped (filled.session.context.located (failure.placedAt d.position)))⟩ := by
  have visit : (referencesBy siblings).document ⟨[], []⟩ session d =
      ⟨{ d with children := (resolveChildren siblings session d.children).part },
        (resolveChildren siblings session d.children).session,
        (resolveChildren siblings session d.children).outcome⟩ := rfl
  rw [walk, visit]
  dsimp only
  cases outcome : (resolveChildren siblings session d.children).outcome with
  | error failure =>
    have stops := resolveChildren_stops outcome
    rw [← failure.severity_placedAt d.position] at stops
    simp only [settle_of_stopsAt stops, Option.isSome_some, Bool.true_or, if_true]
  | ok =>
    have descends : (referencesBy siblings).descends = true := rfl
    simp only [descends, Option.isSome_none, Bool.not_true, Bool.or_self, Bool.false_eq_true,
      if_false]

/-- The pass over references only adds to sessions. -/
theorem referencesBy_adding
    (adds : ∀ references (session : Session), session.Adds (siblings references session).2) :
    (referencesBy siblings).Adding := by
  intro place session node
  refine .trans ?_ (decide_adds _ _)
  cases node with
  | content | reference => exact .refl _
  | element e => exact resolveChildren_adds adds e.children

theorem walk_references_adds
    (adds : ∀ references (session : Session), session.Adds (siblings references session).2)
    (d : Document) (levels : Nat) :
    session.Adds ((referencesBy siblings).walk [] session d levels).session := by
  have first : session.Adds (resolveChildren siblings session d.children).session :=
    resolveChildren_adds adds d.children
  rw [walk_referencesBy]
  dsimp only
  split
  · exact first.trans (walkNodes_adds (referencesBy_adding adds) _)
  · exact first

end

section
variable {node : Node} {r after : Reference} {rest : List Node} {error : ReferenceError}
  {results : List (Except ReferenceError Reference)}

theorem fill_of_settled (settled : unresolved? node = none) :
    fill (node :: rest) results = node :: fill rest results := by
  simp [fill, settled]

theorem fill_of_ok (asked : unresolved? node = some r) :
    fill (node :: rest) (.ok after :: results) = .reference after :: fill rest results := by
  simp [fill, asked]

theorem fill_of_error (asked : unresolved? node = some r) :
    fill (node :: rest) (.error error :: results) = node :: fill rest results := by
  simp [fill, asked]

end

/-- A node before and after the references among its siblings have been resolved. -/
def Fills (outlook : Outlook) : Node → Node → Prop
  | .reference r, part => ∃ after, part = .reference after ∧ Resolver.Refers outlook r after
  | node, part => part = node

/-- What the pass over references makes of an element before its children are visited. -/
def referring (outlook : Outlook) : Manner where
  element e visited :=
    ∃ children, List.Forall₂ (Fills outlook) e.children children ∧ visited = { e with children }
  leaf node parts := node.asElement? = none ∧ parts = [node]

theorem opensOf_fills {outlook : Outlook} {nodes parts : List Node}
    (fills : List.Forall₂ (Fills outlook) nodes parts) :
    Node.opensOf parts ⊆ Node.opensOf nodes := by
  induction fills with
  | nil => exact List.Subset.refl _
  | @cons node part rest others here _ ih =>
    rw [Node.opensOf, Node.opensOf]
    refine List.append_subset.mpr ⟨List.subset_append_of_subset_left _ ?_,
      List.subset_append_of_subset_right _ ih⟩
    cases node with
    | element | content => cases here; exact List.Subset.refl _
    | reference r =>
      obtain ⟨after, rfl, refers⟩ := here
      rcases refers with ⟨_, rfl⟩ | ⟨_, ⟨value, _, rfl⟩ | ⟨_, _, _, rfl⟩⟩
      · exact List.Subset.refl _
      · rw [Node.opens, Reference.opens_resolveTo]
        exact List.nil_subset _
      · exact List.Subset.refl _

end Visitor

/-- Sessions in which a pass may go on: no wait is in vain from there, or else it is reckoned with. -/
structure Care.Rests (care : Care) (resolver : Resolver) (siblings : Visitor.Siblings)
    (context : Context) (idle : Session → Prop) : Prop where
  inherit : ∀ {session e}, idle session → context.Fellow session.context →
    (∀ uri ∈ e.ancestor?.toList, care.known uri) →
    (care.expires ∨ Program.Patient (resolver.inherit e).run session) ∧
      idle ((resolver.inherit e).run.alone session).2
  siblings : ∀ {references session}, idle session → context.Fellow session.context →
    (∀ r ∈ references, r.isResolved = false ∧ care.known r.uri) →
    resolver.Handles care.expires references session (siblings references session) ∧
      idle (siblings references session).2
  record : ∀ {session context}, idle session → session.context.Like context →
    idle { session with context }

/-- Where a pass may go on, with only good outcomes left behind so far. -/
structure Care.Quiet (care : Care) (context : Context) (idle : Session → Prop) (session : Session) :
    Prop where
  fellow : context.Fellow session.context
  calm : care.Calm session.shared
  idle : idle session

namespace Care
variable {care : Care} {resolver : Resolver} {siblings : Visitor.Siblings} {context : Context}
  {idle : Session → Prop} {session : Session} {e : Element}

/-- Where waits may be given up, scheduled passes need nothing else. -/
theorem rests_of_schedules (expires : care.expires) (schedules : resolver.Schedules siblings) :
    care.Rests resolver siblings context fun _ => True where
  inherit _ _ _ := ⟨.inl expires, trivial⟩
  siblings _ _ _ := ⟨eq_true expires ▸ schedules _ _, trivial⟩
  record _ _ := trivial

theorem Quiet.record (quiet : care.Quiet context idle session)
    (rests : care.Rests resolver siblings context idle) {after : Context}
    (like : session.context.Like after) : care.Quiet context idle { session with context := after } :=
  ⟨quiet.fellow.trans like.fellow, quiet.calm, rests.record quiet.idle like⟩

namespace Serves

/-- What an element inherits. -/
theorem inherit_keeps (serves : care.Serves resolver context)
    (known : ∀ uri ∈ e.ancestor?.toList, care.known uri) {base : Context}
    (fellow : context.Fellow base) :
    care.Keeps base (fun merged => (e.extends? = none ∧ merged = e) ∨
        ∃ target, e.extends? = some target ∧ ∃ a, (care.outlook resolver context.mode).Finds target a ∧
          merged = Inheritance.merge resolver.tags e a)
      (fun error => ∃ target, e.extends? = some target ∧
        (care.outlook resolver context.mode).Misses target error) (resolver.inherit e) := by
  unfold Resolver.inherit
  split
  · rename_i alone
    exact Keeps.pure (.inl ⟨alone, rfl⟩)
  · rename_i target names
    have finds : care.Keeps base ((care.outlook resolver base.mode).Finds target)
        ((care.outlook resolver base.mode).Misses target) (Resolver.ancestor resolver.resolve target) :=
      Resolver.ancestor_grows (serves.resolves serves.resolve_keeps fellow) names known
    rw [fellow.mode] at finds
    refine Keeps.bind (Keeps.mono finds id fun misses => ⟨target, names, misses⟩) fun {a} found => ?_
    have warns : care.Keeps base (fun _ => True) (fun error => ∃ target, e.extends? = some target ∧
        (care.outlook resolver context.mode).Misses target error) (resolver.warnDiscarded e a) := by
      unfold Resolver.warnDiscarded
      split
      · exact Keeps.warn _ _
      · exact Keeps.pure trivial
    exact Keeps.bind warns fun _ => Keeps.pure (.inr ⟨target, names, a, found, rfl⟩)

end Serves

/-- To inherit only adds to a session, and leaves its context alike. -/
theorem inherit_plain (resolver : Resolver) (e : Element) (session : Session) :
    Program.Amid .nothing (fun _ later => session.context.Like later.context) (resolver.inherit e).run
      session := by
  have keeps := (Care.nothing.serves resolver session.context).inherit_keeps (e := e)
    (fun _ _ => trivial) (.refl session.context)
  exact (keeps session rfl (Care.nothing.calm _)).mono And.left

theorem inherit_adds (resolver : Resolver) (e : Element) (session : Session) :
    session.Adds ((resolver.inherit e).run.alone session).2 :=
  Program.Plain.alone ((inherit_plain resolver e session).mono fun _ => trivial)

theorem inheritance_adding (resolver : Resolver) : (Visitor.inheritance resolver).Adding := by
  intro place session node
  cases node with
  | content | reference => exact .refl _
  | element e =>
    refine .trans ?_ (Visitor.decide_adds _ _)
    have adds := inherit_adds resolver e session
    rw [Visitor.offer_inheritance]
    split
    · rename_i same
      rwa [same] at adds
    · rename_i same
      rwa [same] at adds

variable (serves : care.Serves resolver context) (lasting : care.Lasting)
  (rests : care.Rests resolver siblings context idle)
include serves lasting rests

private theorem inherit_alone (quiet : care.Quiet context idle session)
    (known : ∀ uri ∈ e.ancestor?.toList, care.known uri)
    (found : ¬ care.lost ((resolver.inherit e).run.alone session).2) :
    care.Quiet context idle ((resolver.inherit e).run.alone session).2 ∧
      Meets (fun merged => (e.extends? = none ∧ merged = e) ∨ ∃ target, e.extends? = some target ∧
          ∃ a, (care.outlook resolver context.mode).Finds target a ∧
            merged = Inheritance.merge resolver.tags e a)
        (fun error => ∃ target, e.extends? = some target ∧
          (care.outlook resolver context.mode).Misses target error)
        ((resolver.inherit e).run.alone session).1 := by
  obtain ⟨waits, idle'⟩ := rests.inherit quiet.idle quiet.fellow known
  have plain := (inherit_plain resolver e session).mono fun _ => trivial
  have keeps := serves.inherit_keeps known quiet.fellow session rfl quiet.calm
  obtain ⟨like, calm, meets⟩ :=
    (Program.Amid.alone lasting waits plain keeps quiet.calm).resolve_left found
  exact ⟨⟨quiet.fellow.trans like.fellow, calm, idle'⟩, meets⟩

theorem minds_inheritance : (Visitor.inheritance resolver).Minds care.known
    (care.Quiet context idle) care.lost (Visitor.inheriting (care.outlook resolver context.mode)) where
  lasting := lasting
  adds := inheritance_adding resolver
  visit place session later node action quiet known decided found := by
    cases node with
    | content c => cases decided; exact ⟨quiet, .leaf ⟨rfl, rfl⟩ rfl⟩
    | reference r => cases decided; exact ⟨quiet, .leaf ⟨rfl, rfl⟩ rfl⟩
    | element e =>
      simp only [Node.opens, Element.opens_eq, List.forall_mem_append] at known
      have alone := inherit_alone serves lasting rests quiet known.1
      simp only [Visitor.visit, Visitor.offer_inheritance] at decided ⊢
      split at decided
      · rename_i merged last same
        rw [same] at alone
        cases decided
        obtain ⟨quiet, meets⟩ := alone found
        rcases meets with ⟨none, rfl⟩ | ⟨target, names, a, finds, rfl⟩
        · exact ⟨quiet, .element (.inl ⟨none, rfl⟩) known.2⟩
        · refine ⟨quiet, .element (.inr ⟨target, names, .inr ⟨a, finds, rfl⟩⟩) ?_⟩
          rw [Inheritance.merge, Node.opensOf_append, List.forall_mem_append]
          refine ⟨fun uri inherited => ?_, known.2⟩
          exact finds.opens names serves.opens known.1 uri
            (Inheritance.opensOf_children_subset _ _ inherited)
      · rename_i error last same
        rw [same] at alone
        rcases Visitor.decide_ofReference (.element e) last error e.position with
          ⟨tolerated, settled⟩ | ⟨halt, settled⟩
        · cases settled.symm.trans decided
          have recorded : last.Adds (last.onContext fun context =>
              context.record (context.passedOver error e.position)) :=
            ⟨rfl, List.subset_append_left _ _, id⟩
          obtain ⟨quiet, target, names, misses⟩ := alone fun lost => found (lasting recorded lost)
          have mode := quiet.fellow.mode
          refine ⟨quiet.record rests rfl, .element (.inr ⟨target, names, .inl ⟨error, misses, ?_, rfl⟩⟩)
            known.2⟩
          exact ⟨mode ▸ tolerated, last, e.position, mode, found⟩
        · cases settled.symm.trans decided

omit serves rests in
private theorem passes_of_reportAll {references : List Reference}
    {results : List (Except ReferenceError Reference)}
    (settles : List.Forall₂ care.Settles references results)
    (goesOn : (session.context.reportAll (Visitor.failures references results)).2 = none)
    (found : ¬ care.lost { session with
      context := (session.context.reportAll (Visitor.failures references results)).1 }) :
    List.Forall₂ (fun r result => care.Settles r result ∧
      ∀ error, result = .error error → care.Passes session.context.mode error) references results := by
  induction settles generalizing session with
  | nil => exact .nil
  | @cons r result rest others here _ ih =>
    cases result with
    | ok after => exact .cons ⟨here, fun _ same => by cases same⟩ (ih goesOn found)
    | error error =>
      have first : Visitor.failures (r :: rest) (.error error :: others) =
          (Diagnostic.ofReference error).placedAt r.position :: Visitor.failures rest others := rfl
      rw [first, Context.reportAll] at goesOn found
      rcases session.context.report_ofReference error r.position with ⟨tolerated, recorded⟩ |
        ⟨_, stop, stopped⟩
      · rw [recorded] at goesOn found
        let later : Session :=
          session.onContext fun context => context.record (context.passedOver error r.position)
        obtain ⟨like, grows, _⟩ := later.context.reportAll_adds (Visitor.failures rest others)
        have adds : later.Adds { later with
            context := (later.context.reportAll (Visitor.failures rest others)).1 } :=
          Session.adds_record like grows
        have kept : ¬ care.lost later := fun lost => found (lasting adds lost)
        refine .cons ⟨here, fun other same => ?_⟩ (@ih later goesOn found)
        cases same
        exact ⟨tolerated, session, r.position, rfl, kept⟩
      · rw [stopped] at goesOn
        cases goesOn

omit serves rests lasting in
private theorem fills_of_settles {mode : Mode} {nodes : List Node}
    {results : List (Except ReferenceError Reference)}
    (settles : List.Forall₂ (fun r result => care.Settles r result ∧
      ∀ error, result = .error error → care.Passes mode error)
      (nodes.filterMap Visitor.unresolved?) results) :
    List.Forall₂ (Visitor.Fills (care.outlook resolver mode)) nodes (Visitor.fill nodes results) := by
  induction nodes generalizing results with
  | nil => exact .nil
  | cons node rest ih =>
    cases node with
    | element | content => exact .cons rfl (ih settles)
    | reference r =>
      cases resolved : r.isResolved with
      | true =>
        have skipped : Visitor.unresolved? (.reference r) = none := by
          simp [Visitor.unresolved?, resolved]
        rw [List.filterMap_cons, skipped] at settles
        rw [Visitor.fill_of_settled skipped]
        exact .cons ⟨r, rfl, .inl ⟨resolved, rfl⟩⟩ (ih settles)
      | false =>
        have asked : Visitor.unresolved? (.reference r) = some r := by
          simp [Visitor.unresolved?, resolved]
        rw [List.filterMap_cons, asked] at settles
        cases settles with
        | @cons _ result _ others here there =>
          obtain ⟨settles, passes⟩ := here
          cases result with
          | ok after =>
            rw [Visitor.fill_of_ok asked]
            rcases settles with ⟨known, _⟩ | ⟨_, value, good, rfl⟩
            · cases resolved.symm.trans known
            · exact .cons ⟨_, rfl, .inr ⟨resolved, .inl ⟨value, good, rfl⟩⟩⟩ (ih there)
          | error error =>
            rw [Visitor.fill_of_error asked]
            exact .cons ⟨r, rfl, .inr ⟨resolved, .inr ⟨error, settles.2, passes error rfl, rfl⟩⟩⟩
              (ih there)

private theorem resolveChildren_fills {nodes : List Node} (quiet : care.Quiet context idle session)
    (known : ∀ uri ∈ Node.opensOf nodes, care.known uri) :
    let visited := Visitor.resolveChildren siblings session nodes
    visited.outcome = .ok () → ¬ care.lost visited.session →
      care.Quiet context idle visited.session ∧
        List.Forall₂ (Visitor.Fills (care.outlook resolver context.mode)) nodes visited.part := by
  have unresolved : ∀ r ∈ nodes.filterMap Visitor.unresolved?,
      r.isResolved = false ∧ care.known r.uri := by
    intro r member
    obtain ⟨node, inside, found⟩ := List.mem_filterMap.mp member
    obtain ⟨rfl, unresolved⟩ := Visitor.of_unresolved? found
    refine ⟨unresolved, known r.uri (Node.mem_opensOf.mpr ⟨_, inside, ?_⟩)⟩
    simp [Node.opens, Reference.opens, unresolved]
  obtain ⟨handles, idle'⟩ := rests.siblings quiet.idle quiet.fellow unresolved
  obtain ⟨_, like, settled⟩ := serves.tends lasting handles quiet.fellow (fun r member uri opens => by
    rw [Reference.opens, (unresolved r member).1] at opens
    exact List.mem_singleton.mp opens ▸ (unresolved r member).2) (.inr quiet.calm)
  dsimp only [Visitor.resolveChildren]
  generalize siblings (nodes.filterMap Visitor.unresolved?) session = outcome at handles idle' like settled ⊢
  obtain ⟨results, later⟩ := outcome
  obtain ⟨same, grows, _⟩ := later.context.reportAll_adds
    (Visitor.failures (nodes.filterMap Visitor.unresolved?) results)
  have recorded := Session.adds_record same grows
  intro goesOn found
  obtain ⟨calm, settles⟩ := settled.resolve_left fun lost => found (lasting recorded lost)
  have quiet' : care.Quiet context idle later := ⟨quiet.fellow.trans like.fellow, calm, idle'⟩
  have ended : (later.context.reportAll
      (Visitor.failures (nodes.filterMap Visitor.unresolved?) results)).2 = none := by
    cases stop : (later.context.reportAll
      (Visitor.failures (nodes.filterMap Visitor.unresolved?) results)).2 with
    | none => rfl
    | some diagnostic =>
      rw [stop] at goesOn
      cases goesOn
  have passes := passes_of_reportAll lasting settles ended found
  rw [quiet'.fellow.mode] at passes
  exact ⟨quiet'.record rests same, fills_of_settles passes⟩

theorem minds_references
    (adds : ∀ references (session : Session), session.Adds (siblings references session).2) :
    (Visitor.referencesBy siblings).Minds care.known (care.Quiet context idle) care.lost
      (Visitor.referring (care.outlook resolver context.mode)) where
  lasting := lasting
  adds := Visitor.referencesBy_adding adds
  visit place session later node action quiet known decided found := by
    cases node with
    | content c => cases decided; exact ⟨quiet, .leaf ⟨rfl, rfl⟩ rfl⟩
    | reference r => cases decided; exact ⟨quiet, .leaf ⟨rfl, rfl⟩ rfl⟩
    | element e =>
      simp only [Node.opens, Element.opens_eq, List.forall_mem_append] at known
      have fills := resolveChildren_fills serves lasting rests quiet known.2
      let visited : Visited Node Action :=
        ⟨.element { e with children := (Visitor.resolveChildren siblings session e.children).part },
          (Visitor.resolveChildren siblings session e.children).session,
          (Visitor.resolveChildren siblings session e.children).outcome.map fun _ => .keep⟩
      have offered : Visitor.decide e.position visited = (later, .ok action) := decided
      cases outcome : (Visitor.resolveChildren siblings session e.children).outcome with
      | ok =>
        have kept : visited.outcome = .ok .keep := by simp only [visited, outcome, Except.map]
        have settled : Visitor.decide e.position visited = (visited.session, .ok .keep) := by
          simp only [Visitor.decide, kept]
        cases settled.symm.trans offered
        obtain ⟨quiet, parts⟩ := fills outcome found
        refine ⟨quiet, .element ⟨_, parts, rfl⟩ fun uri member => ?_⟩
        exact known.2 uri (Visitor.opensOf_fills parts member)
      | error failure =>
        have failed : visited.outcome = .error failure := by simp only [visited, outcome, Except.map]
        obtain ⟨halt, settled⟩ := Visitor.decide_of_stopsAt visited failed
          (Visitor.resolveChildren_stops outcome) e.position
        cases settled.symm.trans offered

/-- What the pass over inheritance makes of a document. -/
theorem walk_inheritance {d : Document} (quiet : care.Quiet context idle session)
    (known : ∀ uri ∈ Node.opensOf d.children, care.known uri) (levels : Nat) :
    let walked := (Visitor.inheritance resolver).walk [] session d levels
    walked.halt = none → ¬ care.lost walked.session →
      care.Quiet context idle walked.session ∧
        (Visitor.inheriting (care.outlook resolver context.mode)).Passes d.children
          walked.part.children :=
  ((minds_inheritance serves lasting rests).walkNodes_passed _ quiet known).passed

/-- What the pass over references makes of a document. -/
theorem walk_references
    (adds : ∀ references (session : Session), session.Adds (siblings references session).2)
    {d : Document} (quiet : care.Quiet context idle session)
    (known : ∀ uri ∈ Node.opensOf d.children, care.known uri) (levels : Nat) :
    let walked := (Visitor.referencesBy siblings).walk [] session d levels
    walked.halt = none → ¬ care.lost walked.session →
      care.Quiet context idle walked.session ∧ ∃ filled,
        List.Forall₂ (Visitor.Fills (care.outlook resolver context.mode)) d.children filled ∧
          (Visitor.referring (care.outlook resolver context.mode)).Passes filled
            walked.part.children := by
  have minds := minds_references serves lasting rests adds
  have fills := resolveChildren_fills serves lasting rests quiet known
  rw [Visitor.walk_referencesBy]
  cases outcome : (Visitor.resolveChildren siblings session d.children).outcome with
  | error failure =>
    simp only [outcome]
    exact fun ended => by cases ended
  | ok =>
    simp only [outcome]
    intro ended found
    have deeper : (Visitor.resolveChildren siblings session d.children).session.Adds
        ((Visitor.referencesBy siblings).walkNodes levels [] []
          (Visitor.resolveChildren siblings session d.children).session
          (Visitor.resolveChildren siblings session d.children).part).session :=
      Visitor.walkNodes_adds minds.adds _
    obtain ⟨quiet, parts⟩ := fills outcome fun lost => found (lasting deeper lost)
    obtain ⟨last, passes⟩ := (minds.walkNodes_passed _ quiet fun uri member =>
      known uri (Visitor.opensOf_fills parts member)).passed ended found
    exact ⟨last, _, parts, passes⟩

/-- What the passes that resolve make of a document one after the other, if all references are known. -/
theorem walks_resolve
    (adds : ∀ references (session : Session), session.Adds (siblings references session).2)
    (known : ∀ uri, care.known uri) (quiet : care.Quiet context idle session) (d : Document)
    (levels : Nat) :
    let merged := (Visitor.inheritance resolver).walk [] session d levels
    let resolved := (Visitor.referencesBy siblings).walk [] merged.session merged.part levels
    session.Adds merged.session ∧ merged.session.Adds resolved.session ∧
      (merged.halt = none → resolved.halt = none → ¬ care.lost resolved.session →
        (Visitor.inheriting (care.outlook resolver context.mode)).Passes d.children merged.part.children ∧
        ∃ filled, List.Forall₂ (Visitor.Fills (care.outlook resolver context.mode))
            merged.part.children filled ∧
          (Visitor.referring (care.outlook resolver context.mode)).Passes filled
            resolved.part.children) := by
  intro merged resolved
  have first : session.Adds merged.session := Visitor.walkNodes_adds (inheritance_adding resolver) _
  have second : merged.session.Adds resolved.session := Visitor.walk_references_adds adds merged.part levels
  refine ⟨first, second, fun ended complete found => ?_⟩
  obtain ⟨goesOn, inherits⟩ := walk_inheritance serves lasting rests quiet (fun uri _ => known uri)
    levels ended fun lost => found (lasting second lost)
  obtain ⟨_, filled, fills, refers⟩ := walk_references serves lasting rests adds goesOn
    (fun uri _ => known uri) levels complete found
  exact ⟨inherits, filled, fills, refers⟩

end Care
end LinkedMarkup
