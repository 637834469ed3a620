import LinkedMarkup.Pipeline
import LinkedMarkup.Proofs.Resolution.Keeping

namespace LinkedMarkup

namespace Context
variable {context : Context}

/-- A diagnostic that ends the processing of a loose document. -/
theorem report_of_fatal {diagnostic : Diagnostic} (fatal : diagnostic.severity = .fatal) :
    context.report diagnostic = .error (context.located diagnostic) := by
  have severity : (context.located diagnostic).severity = .fatal := by
    rw [located]; split <;> exact fatal
  simp [report, stopsAt, severity]

theorem report_of_not_fatal {diagnostic : Diagnostic} (loose : context.mode = .loose)
    (mild : diagnostic.severity ≠ .fatal) :
    context.report diagnostic = .ok (context.record (context.located diagnostic).degraded) := by
  have severity : (context.located diagnostic).severity = diagnostic.severity := by
    rw [located]; split <;> rfl
  have goesOn : context.stopsAt (context.located diagnostic).severity = false := by
    rw [severity]
    cases found : diagnostic.severity with
    | warning => rfl
    | error => simp [stopsAt, loose]
    | fatal => exact False.elim (mild found)
  simp [report, goesOn]

theorem code_located (diagnostic : Diagnostic) :
    (context.located diagnostic).code = diagnostic.code := by
  rw [located]; split <;> rfl

theorem severity_located (diagnostic : Diagnostic) :
    (context.located diagnostic).severity = diagnostic.severity := by
  rw [located]; split <;> rfl

end Context

namespace Diagnostic

/-- A diagnostic that always ends the processing, and says that references lead back to themselves or
too far. -/
def EndsChain (diagnostic : Diagnostic) : Prop :=
  diagnostic.severity = .fatal ∧
    (diagnostic.code = .circularReference ∨ diagnostic.code = .depthExceeded)

theorem severity_placedAt (diagnostic : Diagnostic) (position : Span) :
    (diagnostic.placedAt position).severity = diagnostic.severity := by
  rw [placedAt]; split <;> rfl

theorem code_placedAt (diagnostic : Diagnostic) (position : Span) :
    (diagnostic.placedAt position).code = diagnostic.code := by
  rw [placedAt]; split <;> rfl

theorem severity_ofValidation (error : ValidationError) : (ofValidation error).severity = .error := by
  unfold ofValidation
  split
  · exact severity_placedAt _ _
  · rfl

variable {diagnostic : Diagnostic}

theorem EndsChain.located (ends : diagnostic.EndsChain) (context : Context) :
    (context.located diagnostic).EndsChain := by
  rw [EndsChain, Context.severity_located, Context.code_located]
  exact ends

theorem EndsChain.placedAt (ends : diagnostic.EndsChain) (position : Span) :
    (diagnostic.placedAt position).EndsChain := by
  rw [EndsChain, severity_placedAt, code_placedAt]
  exact ends

/-- Failures that belong to a chain end the processing, others do not. -/
theorem ofReference_endsChain {error : ReferenceError} (path : error.isPathDependent = true) :
    (ofReference error).EndsChain := by
  refine ⟨by simp [ofReference, ReferenceError.severity, path], ?_⟩
  cases error with
  | circular cycle => exact .inl rfl
  | depthExceeded key limit => exact .inr rfl
  | _ => cases path

theorem ofReference_not_fatal {error : ReferenceError} (stays : error.isPathDependent = false) :
    (ofReference error).severity ≠ .fatal := by
  simp [ofReference, ReferenceError.severity, stays]

end Diagnostic

namespace Context
variable {context : Context}

/-- Reports in loose mode go on to the first fatal diagnostic. -/
theorem reportAll_loose (loose : context.mode = .loose) (diagnostics : List Diagnostic) :
    context.Like (context.reportAll diagnostics).1 ∧
      ((context.reportAll diagnostics).2 = none →
        ∀ diagnostic ∈ diagnostics, diagnostic.severity ≠ .fatal) ∧
      ∀ stop, (context.reportAll diagnostics).2 = some stop →
        ∃ diagnostic ∈ diagnostics, diagnostic.severity = .fatal ∧ stop.severity = .fatal ∧
          stop.code = diagnostic.code := by
  induction diagnostics generalizing context with
  | nil => exact ⟨rfl, by simp, fun _ none => by cases none⟩
  | cons diagnostic rest ih =>
    by_cases fatal : diagnostic.severity = .fatal
    · rw [reportAll, report_of_fatal fatal]
      refine ⟨rfl, fun none => (by cases none), fun stop same => ?_⟩
      cases same
      exact ⟨diagnostic, by simp, fatal, by rw [severity_located, fatal], code_located _⟩
    · rw [reportAll, report_of_not_fatal loose fatal]
      have recorded : context.Like (context.record (context.located diagnostic).degraded) := rfl
      have still : (context.record (context.located diagnostic).degraded).mode = .loose := loose
      obtain ⟨like, mild, stops⟩ := ih still
      refine ⟨recorded.trans like, fun none => ?_, fun stop same => ?_⟩
      · simpa [fatal] using mild none
      · obtain ⟨other, member, rest⟩ := stops stop same
        exact ⟨other, by simp [member], rest⟩

end Context

namespace Visitor

theorem of_unresolved? {node : Node} {r : Reference} (found : unresolved? node = some r) :
    node = .reference r ∧ r.isResolved = false := by
  cases node with
  | element e => cases found
  | content c => cases found
  | reference other =>
    rw [unresolved?] at found
    split at found
    · cases found
    · rename_i unresolved
      cases found
      exact ⟨rfl, by simpa using unresolved⟩

/-- A failure of a chain ends the walk. -/
theorem settle_of_endsChain {failure : Diagnostic} (ends : failure.EndsChain) (session : Session) :
    ∃ stop, settle failure session = (session, some (.stopped stop)) ∧ stop.EndsChain := by
  refine ⟨session.context.located failure, ?_, ends.located session.context⟩
  rw [settle, Context.report_of_fatal ends.1]

/-- In loose mode any other failure is only recorded. -/
theorem settle_of_not_fatal {failure : Diagnostic} {session : Session}
    (loose : session.context.mode = .loose) (mild : failure.severity ≠ .fatal) :
    ∃ context, settle failure session = ({ session with context }, none) ∧
      session.context.Like context := by
  refine ⟨session.context.record (session.context.located failure).degraded, ?_, rfl⟩
  rw [settle, Context.report_of_not_fatal loose mild]

theorem severity_placed (failure : Diagnostic) (position : Span) :
    (placed failure position).severity = failure.severity := by
  rw [placed]
  split
  · exact failure.severity_placedAt position
  · rfl

theorem endsChain_placed {failure : Diagnostic} (ends : failure.EndsChain) (position : Span) :
    (placed failure position).EndsChain := by
  rw [placed]
  split
  · exact ends.placedAt position
  · exact ends

/-- A visit that fails with a failure of a chain ends the walk. -/
theorem decide_of_endsChain (visited : Visited Node Action) {failure : Diagnostic}
    (failed : visited.outcome = .error failure) (ends : failure.EndsChain) (position : Span) :
    ∃ stop, Visitor.decide position visited = (visited.session, .error (.stopped stop)) ∧
      stop.EndsChain := by
  obtain ⟨stop, settled, fatal⟩ :=
    settle_of_endsChain (endsChain_placed ends position) visited.session
  exact ⟨stop, by simp only [Visitor.decide, failed, settled], fatal⟩

/-- A node whose visit fails in another way is kept in loose mode. -/
theorem decide_of_not_fatal (visited : Visited Node Action) {failure : Diagnostic}
    (failed : visited.outcome = .error failure) (loose : visited.session.context.mode = .loose)
    (mild : failure.severity ≠ .fatal) (position : Span) :
    ∃ context, Visitor.decide position visited = ({ visited.session with context }, .ok .keep) ∧
      visited.session.context.Like context := by
  have still : (placed failure position).severity ≠ .fatal := by rwa [severity_placed]
  obtain ⟨context, settled, like⟩ := settle_of_not_fatal loose still
  exact ⟨context, by simp only [Visitor.decide, failed, settled], like⟩

/-- The walk was stopped by a fatal failure of a chain, or else the part is as it should be. Nothing is
said of a walk that had too few levels. -/
def Walked.Ends {Part : Type} (begun : Session → Prop) (holds : Part → Prop)
    (walked : Walked Part) : Prop :=
  begun walked.session ∧ match walked.halt with
    | none => holds walked.part
    | some (.stopped stop) => stop.EndsChain
    | some .tooDeep => True

namespace Walked.Ends
variable {Part Other : Type} {begun : Session → Prop} {holds : Part → Prop} {keeps : Other → Prop}
  {walked : Walked Part} {part : Other}

theorem map (ends : walked.Ends begun holds) (goesOn : holds walked.part → keeps part) :
    (⟨part, walked.session, walked.halt⟩ : Walked Other).Ends begun keeps := by
  obtain ⟨last, rest⟩ := ends
  refine ⟨last, ?_⟩
  cases ended : walked.halt with
  | none =>
    rw [ended] at rest
    exact goesOn rest
  | some halt =>
    rw [ended] at rest
    cases halt <;> exact rest

theorem of_some {halt : Halt} (ends : walked.Ends begun holds) (ended : walked.halt = some halt) :
    (⟨part, walked.session, some halt⟩ : Walked Other).Ends begun keeps := by
  obtain ⟨last, rest⟩ := ends
  rw [ended] at rest
  cases halt <;> exact ⟨last, rest⟩

theorem stopped {halt : Halt} (ends : walked.Ends begun holds) (ended : walked.halt = some halt)
    (enough : halt ≠ .tooDeep) : ∃ stop, halt = .stopped stop ∧ stop.EndsChain := by
  obtain ⟨_, rest⟩ := ends
  rw [ended] at rest
  cases halt with
  | stopped stop => exact ⟨stop, rfl, rest⟩
  | tooDeep => exact absurd rfl enough

theorem of_none (ends : walked.Ends begun holds) (ended : walked.halt = none) :
    begun walked.session ∧ holds walked.part := by
  obtain ⟨last, rest⟩ := ends
  rw [ended] at rest
  exact ⟨last, rest⟩

end Walked.Ends

/-- What a visit of one node comes to, with the walk below it. -/
def Visits (visitor : Visitor) (descend : Descent) (begun : Session → Prop) (fits : Node → Prop)
    (passes : Node → Node → Prop) : Prop :=
  ∀ {session node}, begun session → fits node → ∀ place,
    match decide node.position (visitor.offer place session node) with
    | (later, .error halt) => begun later ∧ ∃ stop, halt = .stopped stop ∧ stop.EndsChain
    | (_, .ok (.replace _)) => False
    | (later, .ok .keep) =>
      (below descend place later (visitor.offer place session node).part).Ends begun (passes node)

variable {visitor : Visitor} {begun : Session → Prop} {fits : Node → Prop}
  {passes : Node → Node → Prop}

theorem walkSiblings_ends {descend : Descent} (visits : Visits visitor descend begun fits passes)
    {parents : List Frame} {path : NodePath} {nodes : List Node} {index : Nat} {session : Session}
    (begins : begun session) (all : ∀ node ∈ nodes, fits node) :
    (walkSiblings visitor descend parents path index session nodes).Ends begun
      (List.Forall₂ passes nodes) := by
  induction nodes generalizing index session with
  | nil => exact ⟨begins, .nil⟩
  | cons node rest ih =>
    have visit := visits begins (all node (by simp)) ⟨parents, path ++ [index]⟩
    have fit : ∀ other ∈ rest, fits other := fun other member => all other (by simp [member])
    rw [walkSiblings]
    dsimp only
    split
    · rename_i decided
      rw [decided] at visit
      obtain ⟨last, stop, rfl, chain⟩ := visit
      exact ⟨last, chain⟩
    · rename_i decided
      rw [decided] at visit
      exact False.elim visit
    · rename_i decided
      rw [decided] at visit
      split
      · rename_i ended
        exact visit.of_some ended
      · rename_i ended
        obtain ⟨goesOn, passed⟩ := visit.of_none ended
        exact (ih goesOn fit).map (.cons passed)

/-- A walk over nodes does to each of them what a visit comes to if the walk below does so. -/
theorem walkNodes_ends
    (visits : ∀ {levels}, (∀ parents path {nodes session}, begun session →
      (∀ node ∈ nodes, fits node) →
        (walkNodes visitor levels parents path session nodes).Ends begun
          (List.Forall₂ passes nodes)) →
      Visits visitor (walkNodes visitor levels) begun fits passes) (levels : Nat)
    (parents : List Frame) (path : NodePath) {nodes : List Node} {session : Session}
    (begins : begun session) (all : ∀ node ∈ nodes, fits node) :
    (walkNodes visitor levels parents path session nodes).Ends begun
      (List.Forall₂ passes nodes) := by
  induction levels generalizing parents path nodes session with
  | zero =>
    refine ⟨begins, ?_⟩
    cases nodes with
    | nil => exact .nil
    | cons node rest => trivial
  | succ levels ih => exact walkSiblings_ends (visits ih) begins all

end Visitor

namespace Pipeline

/-- Findings are errors or warnings. -/
theorem findings_not_fatal (tags : TagRegistry) (d : Document) :
    ∀ diagnostic ∈ findings tags d, diagnostic.severity ≠ .fatal := by
  intro diagnostic member
  rcases List.mem_append.mp member with warned | failed
  · obtain ⟨text, _, rfl⟩ := List.mem_map.mp warned
    nofun
  · obtain ⟨error, _, rfl⟩ := List.mem_map.mp failed
    rw [Diagnostic.severity_ofValidation]
    nofun

end Pipeline
end LinkedMarkup
