import LinkedMarkup.Proofs.Visitor.Frames
/-! Where diagnostics point. A walk is a chain of calls of hooks, each in the session that the call before
has left when its failure was reported, so every failure is told by one diagnostic: recorded behind its
call, or the end of the walk. Where it points depends on what was visited. The position of a node is only
taken for a failure that has none. The position of the document takes the place of any other, and so the
failure of a reference points at the reference but for one case: it ends the walk at the top level of a
document whose position is known. -/
namespace LinkedMarkup

def Span.known? (position : Span) : Option Span := if position.isUnknown then none else some position

namespace Diagnostic

theorem position_placedAt (diagnostic : Diagnostic) (position : Span) :
    (diagnostic.placedAt position).position = position.known?.or diagnostic.position := by
  rw [placedAt, Span.known?]
  split <;> rfl

theorem cause_placedAt (diagnostic : Diagnostic) (position : Span) :
    (diagnostic.placedAt position).cause = diagnostic.cause := by
  rw [placedAt]
  split <;> rfl

/-- The diagnostic tells of the error of the reference, where the reference stands. -/
structure PointsAt (diagnostic : Diagnostic) (r : Reference) (error : ReferenceError) : Prop where
  cause : diagnostic.cause = some (.reference error)
  position : diagnostic.position = r.position.known?

theorem placedAt_pointsAt (r : Reference) (error : ReferenceError) :
    ((ofReference error).placedAt r.position).PointsAt r error where
  cause := cause_placedAt _ _
  position := (position_placedAt _ _).trans (Option.or_none)

theorem PointsAt.located {diagnostic : Diagnostic} {r : Reference} {error : ReferenceError}
    (points : diagnostic.PointsAt r error) (context : Context) :
    (context.located diagnostic).PointsAt r error := by
  obtain ⟨file, same⟩ := context.located_eq diagnostic
  rw [same]
  exact ⟨points.cause, points.position⟩

end Diagnostic

theorem Context.position_located (context : Context) (diagnostic : Diagnostic) :
    (context.located diagnostic).position = diagnostic.position := by
  rw [located]
  split <;> rfl

namespace Visitor

theorem position_placed (failure : Diagnostic) (position : Span) :
    (placed failure position).position = failure.position.or position.known? := by
  rw [placed]
  split
  · next bare => rw [Diagnostic.position_placedAt, bare, Option.or_none, Option.none_or]
  · next own => rw [own, Option.some_or]

namespace Call

/-- Where a failure of the call is told to be, by the position that it comes with. -/
def position? (call : Call) (own : Option Span) : Option Span :=
  match call.subject with
  | .document d => (call.visitor.document call.place call.session d).part.position.known?.or own
  | .node node => own.or node.position.known?

theorem position_told (call : Call) (failure : Diagnostic) :
    (call.told failure).position = call.position? failure.position := by
  rw [told, position?]
  cases call.subject with
  | document d => exact Diagnostic.position_placedAt _ _
  | node node => exact position_placed _ _

end Call

/-! ### References -/

def failing? : Reference × Except ReferenceError Reference → Option (Reference × ReferenceError)
  | (_, .ok _) => none
  | (r, .error error) => some (r, error)

/-- The references among the children of what is visited that are found to fail, with their errors. -/
def Call.failing (siblings : Siblings) (call : Call) : List (Reference × ReferenceError) :=
  let references := call.subject.children.filterMap unresolved?
  (references.zip (siblings references call.session).1).filterMap failing?

def failureOf (failed : Reference × ReferenceError) : Diagnostic :=
  (Diagnostic.ofReference failed.2).placedAt failed.1.position

theorem failures_eq_map (references : List Reference) (results : List (Except ReferenceError Reference)) :
    failures references results = ((references.zip results).filterMap failing?).map failureOf := by
  rw [failures, List.map_filterMap]
  refine List.filterMap_congr fun (r, result) _ => ?_
  cases result <;> rfl

section
variable {resolver : Resolver} {siblings : Siblings} {substitute : Bool} {session : Session}
  {before after : List (Reference × ReferenceError)} {r : Reference} {error : ReferenceError}

/-- A failure behind others that are passed over is recorded at its reference, or it ends the report. -/
theorem reportAll_pointsAt {context : Context} (after : List (Reference × ReferenceError))
    (passed : ∀ earlier ∈ before, Resolver.Tolerated context.mode earlier.2) :
    let reported := context.reportAll ((before ++ (r, error) :: after).map failureOf)
    (Resolver.Tolerated context.mode error →
      ∃ told ∈ reported.1.diagnostics, told.PointsAt r error) ∧
    (¬ Resolver.Tolerated context.mode error → ∃ stop, reported.2 = some stop ∧ stop.PointsAt r error) := by
  have placed := Diagnostic.placedAt_pointsAt r error
  induction before generalizing context with
  | nil =>
    rw [List.nil_append, List.map_cons, Context.reportAll, failureOf]
    rcases context.report_ofReference error r.position with ⟨tolerated, recorded⟩ |
      ⟨grave, stop, stopped⟩
    · rw [recorded]
      refine ⟨fun _ => ⟨context.passedOver error r.position, ?_, ?_⟩, fun grave => absurd tolerated grave⟩
      · apply (Context.reportAll_adds _).2.1
        exact List.mem_append_right _ (List.mem_singleton.mpr rfl)
      · obtain ⟨cause, position⟩ := placed.located context
        exact ⟨cause, position⟩
    · rw [stopped]
      refine ⟨fun tolerated => absurd tolerated grave, fun _ => ⟨stop, rfl, ?_⟩⟩
      rw [Context.report] at stopped
      split at stopped
      · cases stopped
        exact placed.located context
      · cases stopped
  | cons first before ih =>
    obtain ⟨here, later⟩ := List.forall_mem_cons.mp passed
    rw [List.cons_append, List.map_cons, Context.reportAll, failureOf]
    rcases context.report_ofReference first.2 first.1.position with ⟨_, recorded⟩ | ⟨grave, _⟩
    · rw [recorded]
      exact @ih (context.record (context.passedOver first.2 first.1.position)) later
    · exact absurd here grave

theorem resolveChildren_pointsAt (schedules : resolver.Schedules siblings) {nodes : List Node}
    (found : ((nodes.filterMap unresolved?).zip (siblings (nodes.filterMap unresolved?) session).1).filterMap
      failing? = before ++ (r, error) :: after)
    (passed : ∀ earlier ∈ before, Resolver.Tolerated session.context.mode earlier.2) :
    let visited := resolveChildren siblings session nodes
    (Resolver.Tolerated session.context.mode error →
      ∃ told ∈ visited.session.context.diagnostics, told.PointsAt r error) ∧
    (¬ Resolver.Tolerated session.context.mode error →
      ∃ stop, visited.outcome = .error stop ∧ stop.PointsAt r error) := by
  have mode := (schedules.adds (nodes.filterMap unresolved?) session).mode
  simp only [resolveChildren]
  generalize siblings (nodes.filterMap unresolved?) session = resolved at found mode ⊢
  obtain ⟨results, later⟩ := resolved
  dsimp only at found mode ⊢
  rw [← mode] at passed ⊢
  rw [failures_eq_map, found]
  obtain ⟨recorded, stopped⟩ := reportAll_pointsAt after passed
  refine ⟨recorded, fun grave => ?_⟩
  obtain ⟨stop, ends, points⟩ := stopped grave
  exact ⟨stop, by rw [ends], points⟩

/-- The hooks of the visitor that resolves references report failures at the references. -/
theorem hook_pointsAt (schedules : resolver.Schedules siblings) {place : Place} {subject : Subject}
    (found : Call.failing siblings ⟨referencesBy siblings substitute, place, session, subject⟩ =
      before ++ (r, error) :: after)
    (passed : ∀ earlier ∈ before, Resolver.Tolerated session.context.mode earlier.2) :
    let call : Call := ⟨referencesBy siblings substitute, place, session, subject⟩
    (Resolver.Tolerated session.context.mode error →
      ∃ told ∈ call.after.context.diagnostics, told.PointsAt r error) ∧
    (¬ Resolver.Tolerated session.context.mode error →
      ∃ failure, call.Stops failure ∧ failure.PointsAt r error) := by
  obtain ⟨recorded, stopped⟩ := resolveChildren_pointsAt schedules found passed
  have ends {stop : Diagnostic}
      (outcome : (resolveChildren siblings session subject.children).outcome = .error stop) :
      Call.Stops ⟨referencesBy siblings substitute, place, session, subject⟩ stop := by
    have stops := resolveChildren_stops outcome
    cases subject with
    | document d => exact ⟨congrArg failure? outcome, stops⟩
    | node node =>
      cases node with
      | element e =>
        refine ⟨?_, stops⟩
        show failure? ((resolveChildren siblings session e.children).outcome.map fun _ => Action.keep) = _
        rw [show (resolveChildren siblings session e.children).outcome = .error stop from outcome]
        rfl
      | content | reference => cases outcome
  refine ⟨fun tolerated => ?_, fun grave => ?_⟩
  · obtain ⟨told, member, points⟩ := recorded tolerated
    refine ⟨told, ?_, points⟩
    cases subject with
    | document d => exact member
    | node node =>
      cases node with
      | element e => exact member
      | content | reference => simp [Call.failing, Subject.children] at found
  · obtain ⟨stop, outcome, points⟩ := stopped grave
    exact ⟨stop, ends outcome, points⟩

end

/-- The failure of any hook is told by one diagnostic. -/
theorem failure_told (visitor : Visitor) (parents : List Frame) (session : Session) (d : Document)
    (levels : Nat) {before after : List Call} {call : Call} {failure : Diagnostic}
    (made : visitor.calls parents session d levels = before ++ call :: after)
    (failed : call.failure? = some failure) :
    ∃ told : Diagnostic, told.Restates failure ∧ told.position = call.position? failure.position ∧
      let walked := visitor.walk parents session d levels
      (call.Stops failure → after = [] ∧ walked.halt = some (.stopped told)) ∧
      (¬ call.Stops failure → (following after walked.session).context =
        call.after.context.record told.degraded) := by
  have chain := chain_of_walk visitor levels parents session d
  rw [made] at chain
  have reported : call.reported = settle (call.told failure) call.after := by
    rw [Call.reported, failed]
  refine ⟨call.after.context.located (call.told failure), call.told_restates failure _, ?_,
    fun stops => chain.last_of_stops stops, fun goesOn => ?_⟩
  · rw [Context.position_located, call.position_told]
  · have reported := Call.reported_of_not_stops failed goesOn
    rcases chain.reported with continues | ⟨_, halt, _, told⟩
    · rw [← (Prod.mk.inj (reported.symm.trans continues)).1]
      rfl
    · cases (Prod.mk.inj (reported.symm.trans told)).2

theorem hook_adds {resolver : Resolver} {siblings : Siblings} (schedules : resolver.Schedules siblings)
    {substitute : Bool} (call : Call) (own : call.visitor = referencesBy siblings substitute) :
    call.session.Adds call.after := by
  obtain ⟨caller, place, session, subject⟩ := call
  change caller = referencesBy siblings substitute at own
  subst own
  cases subject with
  | document d => exact resolveChildren_adds schedules.adds d.children
  | node node =>
    cases node with
    | element e => exact resolveChildren_adds schedules.adds e.children
    | content c => exact .refl session
    | reference r =>
      simp only [Call.after, offer, referencesBy]
      split <;> exact .refl session

/-- A failure of a hook is told once, at the position that the hook has given it, unless that is the hook for
the document and the position of the document is known. So the failures of references, up to the first
that ends the walk, are recorded at the references, and so is the one that ends it, except at the top
level of a document with a known position. -/
theorem failure_positions {resolver : Resolver} {siblings : Siblings} (schedules : resolver.Schedules siblings)
    (substitute : Bool) (visitor : Visitor) (parents : List Frame) (session : Session) (d : Document)
    (levels : Nat) :
    (∀ before call after failure, visitor.calls parents session d levels = before ++ call :: after →
      call.failure? = some failure →
      ∃ told : Diagnostic, told.Restates failure ∧ told.position = call.position? failure.position ∧
        let walked := visitor.walk parents session d levels
        (call.Stops failure → after = [] ∧ walked.halt = some (.stopped told)) ∧
        (¬ call.Stops failure → (following after walked.session).context =
          call.after.context.record told.degraded)) ∧
    let references := referencesBy siblings substitute
    let walked := references.walk parents session d levels
    ∀ call ∈ references.calls parents session d levels, ∀ before r error after,
      call.failing siblings = before ++ (r, error) :: after →
      (∀ earlier ∈ before, Resolver.Tolerated session.context.mode earlier.2) →
      (Resolver.Tolerated session.context.mode error →
        ∃ told ∈ walked.session.context.diagnostics, told.PointsAt r error) ∧
      (¬ Resolver.Tolerated session.context.mode error →
        ∃ stop, walked.halt = some (.stopped stop) ∧ stop.cause = some (.reference error) ∧
          stop.position = match call.subject with
            | .document d => d.position.known?.or r.position.known?
            | .node node => r.position.known?.or node.position.known?) := by
  refine ⟨fun before call after failure => failure_told visitor parents session d levels, ?_⟩
  intro references walked call member before r error after found passed
  have chain := chain_of_walk references levels parents session d
  obtain ⟨begun, ended⟩ := (chain.along Session.Adds.refl Session.Adds.trans settle_adds
    (hook_adds schedules)).2 call member
  obtain ⟨earlier, later, made⟩ := List.append_of_mem member
  have same := chain.made_of_mem call member
  obtain ⟨caller, place, now, subject⟩ := call
  change caller = references at same
  subst same
  rw [← begun.mode] at passed ⊢
  obtain ⟨recorded, stopped⟩ := hook_pointsAt schedules found passed
  refine ⟨fun tolerated => ?_, fun grave => ?_⟩
  · obtain ⟨told, inside, points⟩ := recorded tolerated
    exact ⟨told, ended.diagnostics inside, points⟩
  · obtain ⟨failure, stops, points⟩ := stopped grave
    obtain ⟨told, restates, position, ends, _⟩ := failure_told references parents session d levels made stops.1
    refine ⟨told, (ends stops).2, ?_, ?_⟩
    · rw [restates]
      exact points.cause
    · rw [position, points.position]
      cases subject <;> rfl

/-- A reference that no handler knows, in the third line. -/
def astray : Reference :=
  { protocol := "id", path := "x", position := ⟨⟨3, 5, 20⟩, ⟨3, 25, 40⟩⟩ }

/-- The position of a document as a whole. -/
def nineLines : Span := ⟨⟨1, 1, 0⟩, ⟨9, 1, 90⟩⟩

def strictly : Session := { context := { mode := .strict } }

/-- Below the top level the failure points at the reference. -/
theorem failure_positions_nested :
    let d : Document := ⟨[.element { tag := "a", children := [.reference astray] }], nineLines⟩
    ∃ stop, ((references {} false).walk [] strictly d).halt = some (.stopped stop) ∧
      stop.position = some astray.position := by
  intro d
  let called := (references {} false).calls [] strictly d defaultLevels
  let call : Call := called.get ⟨1, by decide +kernel⟩
  have found : ∃ error, call.failing (siblings {} false) = [] ++ (astray, error) :: [] := ⟨_, rfl⟩
  obtain ⟨_, found⟩ := found
  obtain ⟨stop, ended, _, position⟩ := ((failure_positions (Resolver.schedules_siblings {} false) false
    (references {} false) [] strictly d defaultLevels).2 call (List.get_mem _ _) [] astray _ [] found (by simp)).2
    fun tolerated => by cases tolerated.2
  exact ⟨stop, ended, position⟩

/-- The hook fails at the reference, but the walk ends with a diagnostic for the whole document. -/
theorem document_hides_reference :
    let d : Document := ⟨[.reference astray], nineLines⟩
    let visited := (references {} false).document ⟨[], []⟩ strictly d
    (∃ failure, visited.outcome = .error failure ∧ failure.position = some astray.position) ∧
      (∃ stop, ((references {} false).walk [] strictly d).halt = some (.stopped stop) ∧
        stop.position = some nineLines) ∧ nineLines ≠ astray.position := by
  exact ⟨⟨_, rfl, rfl⟩, ⟨_, rfl, rfl⟩, by decide⟩

end Visitor
end LinkedMarkup
