import LinkedMarkup.Proofs.Resolution.Escalation
import LinkedMarkup.Proofs.Tasks.Adequacy
import LinkedMarkup.Proofs.Visitor.Completion
import LinkedMarkup.Proofs.Visitor.Frames
/-! The policy of diagnostics over whole runs, down to what is raised inside of resolutions: only
warnings are recorded, a failure that ends the processing is the failure of the last call, and nothing
else ends a run that has enough levels. The visitors may be any that leave the mode alone and record
nothing but warnings. -/
namespace LinkedMarkup

def Context.Mild (context : Context) : Prop :=
  ∀ diagnostic ∈ context.diagnostics, diagnostic.severity = .warning

theorem Context.mild_record {context : Context} (mild : context.Mild) (diagnostic : Diagnostic) :
    (context.record diagnostic.degraded).Mild := by
  intro other member
  rcases List.mem_append.mp member with before | here
  · exact mild other before
  · cases List.mem_singleton.mp here
    rfl

theorem Context.stopsAt_iff (context : Context) (severity : Severity) :
    context.stopsAt severity = true ↔
      severity = .fatal ∨ severity = .error ∧ context.mode = .strict := by
  cases severity <;> simp [stopsAt]

/-- The mode is left alone, and no other diagnostics than warnings come to be recorded. -/
structure Session.Keeps (before after : Session) : Prop where
  mode : after.context.mode = before.context.mode
  mild : before.context.Mild → after.context.Mild

namespace Session.Keeps
variable {first second third : Session}

theorem refl (session : Session) : Keeps session session := ⟨rfl, id⟩

theorem trans (one : Keeps first second) (two : Keeps second third) : Keeps first third :=
  ⟨two.mode.trans one.mode, fun mild => two.mild (one.mild mild)⟩

theorem of_records (records : first.context.Records Diagnostic.Aside second.context) :
    Keeps first second := by
  obtain ⟨new, added, asides⟩ := records.added
  refine ⟨records.mode, fun mild diagnostic member => ?_⟩
  rw [added] at member
  exact (List.mem_append.mp member).elim (mild diagnostic) fun here => (asides diagnostic here).1

theorem stopsAt (keeps : Keeps first second) (severity : Severity) :
    second.context.stopsAt severity = first.context.stopsAt severity :=
  Context.stopsAt_congr keeps.mode severity

/-- Reports record warnings, however far they get. -/
theorem of_reportAll (session : Session) (diagnostics : List Diagnostic) :
    Keeps session { session with context := (session.context.reportAll diagnostics).1 } := by
  induction diagnostics generalizing session with
  | nil => exact .refl session
  | cons diagnostic rest ih =>
    rw [Context.reportAll, Context.report]
    by_cases stops : session.context.stopsAt (session.context.located diagnostic).severity
    · rw [if_pos stops]
      exact .refl session
    · rw [if_neg stops]
      let context := session.context.record (session.context.located diagnostic).degraded
      have recorded : Keeps session { session with context } :=
        ⟨rfl, fun mild => Context.mild_record mild _⟩
      exact recorded.trans (ih _)

end Session.Keeps

theorem Context.mild_reportAll {context : Context} (mild : context.Mild) (diagnostics : List Diagnostic) :
    (context.reportAll diagnostics).1.Mild :=
  (Session.Keeps.of_reportAll { context } diagnostics).mild mild

namespace Visitor

/-- A visitor that respects the policy: its hooks leave the mode alone, and what they record are
warnings. They may fail as they like. -/
structure Orderly (visitor : Visitor) : Prop where
  document : ∀ place d (session : Session), session.Keeps (visitor.document place session d).session
  node : ∀ place node (session : Session), session.Keeps (visitor.offer place session node).session

theorem idIndex_orderly : idIndex.Orderly where
  document _ _ _ := ⟨rfl, id⟩
  node _ node session := by cases node <;> exact .refl session

theorem metadata_orderly : metadata.Orderly where
  document _ _ session := .refl session
  node _ node session := by cases node <;> exact .refl session

theorem normalization_orderly : normalization.Orderly where
  document _ _ session := .refl session
  node _ node session := by
    cases node with
    | element | reference => exact .refl session
    | content c =>
      simp only [offer, normalization]
      split <;> exact .refl session

theorem attributeValidation_orderly (tags : TagRegistry) : (attributeValidation tags).Orderly where
  document _ _ session := .refl session
  node _ node session := by
    cases node with
    | content | reference => exact .refl session
    | element e =>
      simp only [offer, attributeValidation]
      split
      · exact .refl session
      · exact .of_reportAll session _

theorem inheritance_orderly (resolver : Resolver) : (inheritance resolver).Orderly where
  document _ _ session := .refl session
  node place node session := by
    cases node with
    | content | reference => exact .refl session
    | element e =>
      have records := ((resolver.inherit_abides e session).alone Resolver.carries_recorded).1
      rw [offer_inheritance]
      generalize (resolver.inherit e).run.alone session = ended at records
      rcases ended with ⟨error | merged, later⟩
      · exact .of_records records
      · exact .of_records records

theorem referencesBy_orderly {resolver : Resolver} {siblings : Siblings}
    (schedules : resolver.Schedules siblings) (substitute : Bool) :
    (referencesBy siblings substitute).Orderly := by
  have resolves (session : Session) (nodes : List Node) :
      session.Keeps (resolveChildren siblings session nodes).session := by
    have records := (schedules (nodes.filterMap unresolved?) session).records
    exact (Session.Keeps.of_records records).trans (.of_reportAll _ _)
  refine ⟨fun _ d session => resolves session d.children, fun _ node session => ?_⟩
  cases node with
  | element e => exact resolves session e.children
  | content c => exact .refl session
  | reference r =>
    simp only [offer, referencesBy]
    split <;> exact .refl session

theorem Orderly.keeps {call : Call} (orderly : call.visitor.Orderly) : call.session.Keeps call.after := by
  obtain ⟨visitor, place, session, d | node⟩ := call
  · exact orderly.document place d session
  · exact orderly.node place node session

theorem settle_keeps (failure : Diagnostic) (session : Session) :
    session.Keeps (settle failure session).1 := by
  cases stops : session.context.stopsAt failure.severity with
  | true =>
    rw [settle_of_stopsAt stops]
    exact .refl session
  | false =>
    rw [settle_of_not_stopsAt stops]
    exact ⟨rfl, fun mild => Context.mild_record mild _⟩

end Visitor

namespace Pipeline
open Visitor

/-- The visitors that a run has let begin, each with the calls of its hooks. -/
def roundsOf (levels : Nat) : List Visitor → Session → Document → List (Visitor × List Call)
  | [], _, _ => []
  | visitor :: rest, session, d =>
    let walked := visitor.walk [] session d levels
    (visitor, visitor.calls [] session d levels) :: match walked.halt with
      | some _ => []
      | none => roundsOf levels rest walked.session walked.part

def rounds (pipeline : Pipeline) (session : Session) (d : Document) : List (Visitor × List Call) :=
  match session.context.reportAll (findings pipeline.tags d) with
  | (_, some _) => []
  | (context, none) => roundsOf pipeline.levels pipeline.visitors { session with context } d

def calls (pipeline : Pipeline) (session : Session) (d : Document) : List Call :=
  (pipeline.rounds session d).flatMap (·.2)

theorem chain_of_pass (levels : Nat) (visitors : List Visitor) (session : Session) (d : Document) :
    Chain (·.visitor ∈ visitors) session ((roundsOf levels visitors session d).flatMap (·.2))
      (pass levels visitors session d).session (pass levels visitors session d).halt := by
  induction visitors generalizing session d with
  | nil => exact .done session
  | cons visitor rest ih =>
    have first (call : Call) (own : call.visitor = visitor) : call.visitor ∈ visitor :: rest :=
      List.mem_cons.mpr (.inl own)
    have walk := (chain_of_walk visitor levels [] session d).mono first
    rw [roundsOf, pass]
    cases ended : (visitor.walk [] session d levels).halt with
    | some halt =>
      rw [ended] at walk
      simpa [ended] using walk
    | none =>
      rw [ended] at walk
      have others := (ih (visitor.walk [] session d levels).session
        (visitor.walk [] session d levels).part).mono fun call own => List.mem_cons_of_mem visitor own
      simp only [List.flatMap_cons]
      exact walk.append others

/-- Every visitor has its walk in a pass that comes to its end. -/
theorem rounds_of_pass {levels : Nat} {visitors : List Visitor} {session : Session} {d : Document}
    (ended : (pass levels visitors session d).halt = none) :
    (roundsOf levels visitors session d).map (·.1) = visitors := by
  induction visitors generalizing session d with
  | nil => rfl
  | cons visitor rest ih =>
    rw [pass] at ended
    rw [roundsOf]
    cases halted : (visitor.walk [] session d levels).halt with
    | some halt => simp [halted] at ended
    | none =>
      rw [halted] at ended
      simp only [List.map_cons, ih ended]

/-- A run respects the policy of diagnostics. -/
structure Upholds (pipeline : Pipeline) (session : Session) (d : Document) : Prop where
  /-- Only warnings are recorded, at whatever time one looks. -/
  mild : (∀ found, found <+: findings pipeline.tags d → (session.context.reportAll found).1.Mild) ∧
    (∀ call ∈ pipeline.calls session d, call.session.context.Mild ∧ call.after.context.Mild) ∧
    (pipeline.process session d).session.context.Mild
  /-- What ends a run is fatal, or an error in strict mode. -/
  aborting : ∀ stop, (pipeline.process session d).halt = some (.stopped stop) →
    stop.severity = .fatal ∨ stop.severity = .error ∧ session.context.mode = .strict
  /-- The failures that stop are the fatal ones and, in strict mode, the errors. -/
  grave : ∀ call ∈ pipeline.calls session d, ∀ failure, call.Stops failure ↔
    call.failure? = some failure ∧
      (failure.severity = .fatal ∨ failure.severity = .error ∧ session.context.mode = .strict)
  /-- A hook that fails so is the last one, and its failure ends the run. -/
  stops : ∀ before call after failure, pipeline.calls session d = before ++ call :: after →
    call.Stops failure → after = [] ∧ ∃ stop, (pipeline.process session d).halt = some (.stopped stop) ∧
      stop.Restates failure
  /-- In loose mode, with enough levels, every visitor has its walk to the end if no hook fails fatally.
  It has the same one with any more levels. -/
  completes : session.context.mode = .loose → ∀ levels, pipeline.Enough session d levels →
    (∀ call ∈ (pipeline.downTo levels).calls session d, ∀ failure, call.failure? = some failure →
      failure.severity ≠ .fatal) →
    ∀ more ≥ levels,
      (pipeline.downTo more).process session d = (pipeline.downTo levels).process session d ∧
      ((pipeline.downTo more).process session d).halt = none ∧
      ((pipeline.downTo more).rounds session d).map (·.1) = pipeline.visitors

section
variable {pipeline : Pipeline} {session : Session} {d : Document} {context : Context}

private theorem upholds_of_stopped (mild : session.context.Mild) {stop : Diagnostic}
    (reported : session.context.reportAll (findings pipeline.tags d) = (context, some stop)) :
    pipeline.Upholds session d := by
  have keeps := Session.Keeps.of_reportAll session (findings pipeline.tags d)
  have stops := (session.context.reportAll_adds (findings pipeline.tags d)).2.2
  rw [reported] at keeps stops
  have processed : pipeline.process session d = ⟨d, { session with context }, some (.stopped stop)⟩ := by
    rw [process, reported]
  have called : pipeline.calls session d = [] := by rw [calls, rounds, reported]; rfl
  refine ⟨⟨fun list _ => Context.mild_reportAll mild list, by simp [called], ?_⟩, ?_, by simp [called], ?_, ?_⟩
  · rw [processed]
    exact keeps.mild mild
  · intro other ended
    rw [processed] at ended
    cases ended
    exact (session.context.stopsAt_iff _).mp (stops stop rfl)
  · intro before call after failure split
    simp [called] at split
  · intro loose
    obtain ⟨diagnostic, member, fatal, _⟩ :=
      (Context.reportAll_loose loose (findings pipeline.tags d)).2.2 stop (by rw [reported])
    exact absurd fatal (findings_not_fatal _ _ diagnostic member)

section
variable (orderly : ∀ visitor ∈ pipeline.visitors, visitor.Orderly)
  (reported : session.context.reportAll (findings pipeline.tags d) = (context, none))
include reported

private theorem process_eq_pass : pipeline.process session d =
    pass pipeline.levels pipeline.visitors { session with context } d := by
  rw [process, reported]

private theorem chain_of_process :
    Chain (·.visitor ∈ pipeline.visitors) { session with context } (pipeline.calls session d)
      (pipeline.process session d).session (pipeline.process session d).halt := by
  rw [process_eq_pass reported, calls, rounds, reported]
  exact chain_of_pass _ _ _ d

private theorem rounds_of_process (complete : (pipeline.process session d).halt = none) :
    (pipeline.rounds session d).map (·.1) = pipeline.visitors := by
  rw [process_eq_pass reported] at complete
  rw [rounds, reported]
  exact rounds_of_pass complete

include orderly

private theorem keeps_of_process : session.Keeps (pipeline.process session d).session ∧
    ∀ call ∈ pipeline.calls session d, session.Keeps call.session ∧ session.Keeps call.after := by
  have chain := chain_of_process reported
  have hooks (call : Call) (own : call.visitor ∈ pipeline.visitors) : call.session.Keeps call.after :=
    (orderly _ own).keeps
  have keeps := Session.Keeps.of_reportAll session (findings pipeline.tags d)
  rw [reported] at keeps
  obtain ⟨whole, around⟩ := chain.along Session.Keeps.refl Session.Keeps.trans settle_keeps hooks
  refine ⟨keeps.trans whole, fun call member => ?_⟩
  have before := keeps.trans (around call member).1
  exact ⟨before, before.trans (hooks call (chain.made_of_mem call member))⟩

private theorem stops_iff {call : Call} (member : call ∈ pipeline.calls session d)
    (failure : Diagnostic) : call.Stops failure ↔ call.failure? = some failure ∧
      (failure.severity = .fatal ∨ failure.severity = .error ∧ session.context.mode = .strict) := by
  have behind := ((keeps_of_process orderly reported).2 call member).2
  rw [Call.Stops, behind.stopsAt, session.context.stopsAt_iff]

private theorem complete_of_harmless (loose : session.context.mode = .loose)
    (enough : (pipeline.process session d).halt ≠ some .tooDeep)
    (harmless : ∀ call ∈ pipeline.calls session d, ∀ failure, call.failure? = some failure →
      failure.severity ≠ .fatal) : (pipeline.process session d).halt = none := by
  have chain := chain_of_process reported
  cases halted : (pipeline.process session d).halt with
  | none => rfl
  | some halt =>
    rw [halted] at chain enough
    obtain ⟨call, member, failure, _, stops, _⟩ := chain.ended (by simpa using enough)
    obtain ⟨failed, fatal | ⟨_, strict⟩⟩ := (stops_iff orderly reported member failure).mp stops
    · exact absurd fatal (harmless call member failure failed)
    · cases loose.symm.trans strict

private theorem upholds_of_goesOn (mild : session.context.Mild) : pipeline.Upholds session d := by
  obtain ⟨whole, around⟩ := keeps_of_process orderly reported
  have chain := chain_of_process reported
  constructor
  case mild =>
    exact ⟨fun list _ => Context.mild_reportAll mild list,
      fun call member => ⟨(around call member).1.mild mild, (around call member).2.mild mild⟩,
      whole.mild mild⟩
  case aborting =>
    intro stop ended
    rw [ended] at chain
    obtain ⟨call, member, failure, last, stops, same, restates⟩ := chain.ended (by simp)
    cases same
    rw [restates.severity]
    exact ((stops_iff orderly reported member failure).mp stops).2
  case grave => exact fun call member failure => stops_iff orderly reported member failure
  case stops =>
    intro before call after failure split stops
    rw [split] at chain
    obtain ⟨last, ended⟩ := chain.last_of_stops stops
    exact ⟨last, _, ended, call.told_restates failure _⟩
  case completes =>
    intro loose levels enough harmless more above
    have same := enough.same above
    have complete : ((pipeline.downTo levels).process session d).halt = none :=
      complete_of_harmless orderly reported loose enough harmless
    rw [← same] at complete
    exact ⟨same, complete, rounds_of_process reported complete⟩

end

/-- A run whose visitors are orderly respects the policy. -/
theorem upholds (orderly : ∀ visitor ∈ pipeline.visitors, visitor.Orderly) (mild : session.context.Mild)
    (d : Document) : pipeline.Upholds session d := by
  rcases reported : session.context.reportAll (findings pipeline.tags d) with ⟨context, none | stop⟩
  · exact upholds_of_goesOn orderly reported mild
  · exact upholds_of_stopped mild reported

end

end Pipeline

open Program Resolving

/-- Whatever course a resolution takes, each of its changes respects the policy, and what is raised in
it, at whatever depth, and ends the processing is the failure with which it ends itself. -/
def Resolver.Escalates {α : Type} (resolution watched : Resolving α) : Prop :=
  ∀ session changes outcome last, Course resolution.run session changes outcome last →
    (∀ change ∈ changes, change.1.Keeps change.2) ∧
    ∃ retraced seen,
      Course watched.run session retraced outcome (last.noted (session.context.notes ++ seen)) ∧
      Retraced changes retraced ∧ Raised session.context outcome seen

namespace Resolver
variable {resolver : Resolver}

private theorem escalates {α : Type} {resolution watched : Resolving α}
    (abides : ∀ session, Abides Recorded (fun _ _ => True) resolution.run session)
    (follows : Watched resolution watched) : Escalates resolution watched := by
  intro session changes outcome last course
  refine ⟨fun change member => .of_records (((abides session).always _ _ _ course).1 change member), ?_⟩
  exact (follows session session.context.notes _ _ _ course).2

end Resolver

namespace Visitor
variable {resolver : Resolver}

private theorem resolveChildren_of_stops {siblings : Siblings} {nodes : List Node} {session : Session}
    {r : Reference} {error : ReferenceError}
    (failed : (r, .error error) ∈ (nodes.filterMap unresolved?).zip
      (siblings (nodes.filterMap unresolved?) session).1)
    (stops : (siblings (nodes.filterMap unresolved?) session).2.context.stopsAt error.severity = true) :
    ∃ failure, (resolveChildren siblings session nodes).outcome = .error failure := by
  simp only [resolveChildren]
  generalize siblings (nodes.filterMap unresolved?) session = ended at failed stops
  obtain ⟨results, later⟩ := ended
  dsimp only at failed stops ⊢
  split
  · rename_i goesOn
    have told : (Diagnostic.ofReference error).placedAt r.position ∈
        failures (nodes.filterMap unresolved?) results :=
      List.mem_filterMap.mpr ⟨_, failed, rfl⟩
    have mild := (Context.reportAll_of_none goesOn).1 _ told
    rw [Diagnostic.severity_placedAt] at mild
    cases stops.symm.trans mild
  · exact ⟨_, rfl⟩

/-- The hook of the pass over inheritance fails with what is raised while its element inherits. -/
def InheritanceEscalates (resolver : Resolver) : Prop :=
  ∀ place session e,
    let call : Call := ⟨inheritance resolver, place, session, .node (.element e)⟩
    ∃ retraced seen outcome, Course (resolver.watchInherit observed e).run session retraced outcome
        (call.after.noted (session.context.notes ++ seen)) ∧
      ∀ note ∈ seen, ∃ error failure, note = .text error.message ∧
        failure.cause = some (.reference error) ∧ call.Stops failure

/-- The hooks of the pass over references fail if anything is raised while they resolve siblings, one
after another or side by side. -/
def ReferencesEscalate (resolver : Resolver) (concurrent substitute : Bool) : Prop :=
  ∀ place session subject,
    let call : Call := ⟨references resolver concurrent substitute, place, session, subject⟩
    let siblings := siblings resolver concurrent (subject.children.filterMap unresolved?) session
    List.Forall₂ (fun r result => ∃ (begins last : Session) (retraced : List (Session × Session))
        (seen : List Value), begins.context.mode = session.context.mode ∧
        Course (resolver.watchResolution observed r) begins retraced result
          (last.noted (begins.context.notes ++ seen)) ∧
        ∀ note ∈ seen, ∃ failure, call.Stops failure)
      (subject.children.filterMap unresolved?) siblings.1

theorem inheritance_escalates : InheritanceEscalates resolver := by
  intro place session e call
  obtain ⟨changes, course⟩ := course_alone (resolver.inherit e).run session
  obtain ⟨_, retraced, seen, watched, _, raised⟩ :=
    resolver.watchInherit_watched e session session.context.notes _ _ _ course
  have mode : ((resolver.inherit e).run.alone session).2.context.mode = session.context.mode :=
    ((resolver.inherit_abides e session).alone Resolver.carries_recorded).1.mode
  have offered := offer_inheritance resolver place session e
  have after : call.after = ((inheritance resolver).offer place session (.element e)).session := rfl
  have failed : call.failure? =
      failure? ((inheritance resolver).offer place session (.element e)).outcome := rfl
  rcases ended : (resolver.inherit e).run.alone session with ⟨outcome, last⟩
  rw [ended] at watched raised mode offered
  cases outcome with
  | ok merged =>
    cases raised.nil_of_ok
    have after : call.after = last := by rw [after, offered]
    refine ⟨retraced, [], .ok merged, ?_, by simp⟩
    rw [after]
    exact watched
  | error cause =>
    have after : call.after = last := by rw [after, offered]
    refine ⟨retraced, seen, .error cause, ?_, fun note member => ?_⟩
    · rw [after]
      exact watched
    obtain ⟨error, same, stops, text⟩ := raised note member
    cases same
    refine ⟨cause, (Diagnostic.ofReference cause).placedAt e.position, text, ?_, ?_, ?_⟩
    · unfold Diagnostic.placedAt
      split <;> rfl
    · rw [failed, offered]
      rfl
    · rw [after, Diagnostic.severity_placedAt]
      exact (Context.stopsAt_congr mode _).trans stops

theorem references_escalate (concurrent substitute : Bool) :
    ReferencesEscalate resolver concurrent substitute := by
  intro place session subject call
  have schedules := resolver.schedules_siblings concurrent
  have records := (schedules (subject.children.filterMap unresolved?) session).records
  obtain ⟨lengths, courses⟩ := List.forall₂_iff_zip.mp
    (resolver.siblings_courses concurrent (subject.children.filterMap unresolved?) session)
  refine List.forall₂_iff_zip.mpr ⟨lengths, fun {r result} member => ?_⟩
  obtain ⟨begins, changes, last, mode, course⟩ := courses member
  obtain ⟨_, retraced, seen, watched, _, raised⟩ :=
    resolver.watchResolution_watched r begins begins.context.notes _ _ _ course
  refine ⟨begins, last, retraced, seen, mode, watched, fun note noted => ?_⟩
  obtain ⟨error, rfl, stops, _⟩ := raised note noted
  have grave : (siblings resolver concurrent (subject.children.filterMap unresolved?) session).2.context.stopsAt
      error.severity = true := by
    rw [Context.stopsAt_congr records.mode, ← Context.stopsAt_congr mode]
    exact stops
  obtain ⟨failure, failed⟩ := resolveChildren_of_stops member grave
  have stopped := resolveChildren_stops failed
  refine ⟨failure, ?_⟩
  show Call.Stops ⟨references resolver concurrent substitute, place, session, subject⟩ failure
  cases subject with
  | document d => exact ⟨congrArg failure? failed, stopped⟩
  | node node =>
    cases node with
    | element e =>
      refine ⟨?_, stopped⟩
      show failure? ((resolveChildren (siblings resolver concurrent) session e.children).outcome.map
        fun _ => Action.keep) = some failure
      rw [show (resolveChildren (siblings resolver concurrent) session e.children).outcome =
        .error failure from failed]
      rfl
    | content | reference => cases member

theorem builtIn_orderly (resolver : Resolver) (concurrent substitute : Bool) (tags : TagRegistry) :
    ∀ visitor ∈ builtIn resolver concurrent substitute tags, visitor.Orderly := by
  simp only [builtIn, List.forall_mem_cons]
  exact ⟨idIndex_orderly, inheritance_orderly resolver,
    referencesBy_orderly (resolver.schedules_siblings concurrent) substitute, metadata_orderly,
    normalization_orderly, attributeValidation_orderly tags, fun _ member => by cases member⟩

end Visitor

open Visitor

/-- Runs for which some number of levels is enough: those of flat visitors, which all of the library are
but one, and those of the library from sessions in which what values hand on leads to no cycle. References
that are resolved side by side may leave such a cycle behind when they time out, so what comes after them
has to be flat. -/
structure Pipeline.EnoughLevels (resolver : Resolver) (concurrent substitute : Bool) : Prop where
  flat : ∀ pipeline : Pipeline, (∀ visitor ∈ pipeline.visitors, visitor.Flat) →
    ∀ session d, ∃ levels, pipeline.Enough session d levels
  builtIn : ∀ tags, ∀ visitor ∈ builtIn resolver concurrent substitute tags,
    visitor = inheritance resolver ∨ visitor.Flat
  inheriting : ∀ session : Session, session.shared.Lineal →
    session.shared.results.length < resolver.nesting →
    ∀ (pipeline : Pipeline) first rest tags, pipeline.visitors = first ++ rest →
      (∀ visitor ∈ first, visitor ∈ Visitor.builtIn resolver false substitute tags) →
      (∀ visitor ∈ rest, visitor.Flat) → ∀ d, ∃ levels, pipeline.Enough session d levels

/-- The policy of diagnostics over whole runs. Whatever the document, the mode and the visitors, as long as
the visitors leave the mode alone and record warnings only, which those of the library do: a run
records nothing but warnings, a failure that stops ends it and no hook is called any more, and in loose
mode it has every visitor walk to the end, with enough levels, if no hook fails fatally. What is raised at
any depth of a resolution, and stops, is what the whole resolution fails with, and a hook that asks for
such a resolution fails so in turn. The depth is that of the resolver itself, which a watch that does
nothing leaves as it is. -/
theorem Pipeline.policy_of_runs (resolver : Resolver) (concurrent substitute : Bool) :
    (∀ pipeline : Pipeline, (∀ visitor ∈ pipeline.visitors, visitor.Orderly) →
      ∀ session : Session, session.context.Mild → ∀ d, pipeline.Upholds session d) ∧
    (∀ tags, ∀ visitor ∈ builtIn resolver concurrent substitute tags, visitor.Orderly) ∧
    EnoughLevels resolver concurrent substitute ∧
    (resolver.watchResolve (fun resolution => resolution) = resolver.resolve ∧
      resolver.watchResolution (fun resolution => resolution) = resolver.resolution ∧
      resolver.watchInherit (fun resolution => resolution) = resolver.inherit ∧
      resolver.watchNodes (fun resolution => resolution) = resolver.expandNodes) ∧
    (∀ uri, Resolver.Escalates (resolver.resolve uri) (resolver.watchResolve observed uri)) ∧
    (∀ e, Resolver.Escalates (resolver.inherit e) (resolver.watchInherit observed e)) ∧
    (∀ nodes, Resolver.Escalates (resolver.expandNodes nodes) (resolver.watchNodes observed nodes)) ∧
    InheritanceEscalates resolver ∧ ReferencesEscalate resolver concurrent substitute := by
  have enough : EnoughLevels resolver concurrent substitute :=
    ⟨fun _ flat => enough_of_flat flat, builtIn_flat resolver concurrent substitute,
      fun _ lineal nested _ _ _ _ visitors own flat => enough_of_builtIn lineal nested visitors own flat⟩
  refine ⟨fun pipeline orderly session mild d => pipeline.upholds orderly mild d,
    builtIn_orderly resolver concurrent substitute, enough, resolver.watch_id, fun uri => ?_,
    fun e => ?_, fun nodes => ?_, inheritance_escalates, references_escalate concurrent substitute⟩
  · exact Resolver.escalates (resolver.resolve_abides uri) (resolver.watchResolve_watched uri)
  · exact Resolver.escalates (resolver.inherit_abides e) (resolver.watchInherit_watched e)
  · exact Resolver.escalates (resolver.expandNodes_abides nodes) (resolver.watchNodes_watched nodes)

/-- An element with a reference to another one, in which there is a reference that nobody answers. -/
def shelves : Resolver :=
  let book : Element := { tag := "book", children := [.reference { protocol := "x", path := "gone" }] }
  let shelf : Element := { tag := "shelf", children := [.reference { protocol := "s", path := "book" }] }
  { protocols := ⟨[{
      name := "s"
      handles := fun protocol => protocol == "s"
      answer := fun request => .found (.element (if request.uri.path == "book" then book else shelf)) }]⟩ }

/-- An element two levels down extends the one with the reference. -/
def room : Document :=
  let heir : Element := { tag := "shelf", attributes := [("extends", .text "s:shelf")] }
  { children := [.element { tag := "room", children := [.content { text := "text" }, .element heir] }] }

/-- The failure two resolutions down is passed over in loose mode, and ends the run in strict mode. -/
theorem Pipeline.policy_of_runs_shelves :
    let pipeline := usual shelves (siblings shelves true) {}
    let strictly : Session := { context := { mode := .strict } }
    (∃ levels, pipeline.Enough {} room levels) ∧ pipeline.levels ≥ 3 ∧
    (∀ levels ≥ 3, ((pipeline.downTo levels).process {} room).halt = none ∧
      ((pipeline.downTo levels).rounds {} room).map (·.1) = pipeline.visitors ∧
      ((pipeline.downTo levels).process {} room).session.shared.results.keys = ["s:book", "s:shelf"]) ∧
    ∃ stop, ((pipeline.downTo 3).process strictly room).halt = some (.stopped stop) ∧
      stop.severity = .error ∧ stop.code = .unsupportedProtocol := by
  intro pipeline strictly
  obtain ⟨runs, orderly, enough, _⟩ := policy_of_runs shelves true false
  have orderly : ∀ visitor ∈ pipeline.visitors, visitor.Orderly := orderly {}
  have mild (mode : Mode) : Context.Mild { mode } := fun _ member => by cases member
  refine ⟨?_, by decide, fun levels above => ?_, ?_⟩
  · have lineal : Shared.Lineal {} :=
      Shared.lineal_of_level (fun _ => 0) fun ⟨kept, _, _, _⟩ => by cases kept
    have flat : ∀ visitor ∈ [references shelves, metadata, normalization, attributeValidation {}],
        visitor.Flat := by
      simp only [List.forall_mem_cons]
      exact ⟨referencesBy_flat _ _, metadata_flat, normalization_flat, attributeValidation_flat {},
        fun _ member => by cases member⟩
    exact enough.inheriting {} lineal (by decide) pipeline [idIndex, inheritance shelves] _ {} rfl
      (by simp [builtIn]) flat room
  · have harmless : ((pipeline.downTo 3).calls {} room).all
        (fun call => call.failure?.all (·.severity != .fatal)) = true := by decide +kernel
    have ends : ((pipeline.downTo 3).process {} room).halt.isNone = true := by decide +kernel
    have keys : ((pipeline.downTo 3).process {} room).session.shared.results.keys =
      ["s:book", "s:shelf"] := by decide +kernel
    obtain ⟨same, complete, rounds⟩ := (runs pipeline orderly {} (mild .loose) room).completes rfl 3
      (by simp [Enough, Option.isNone_iff_eq_none.mp ends])
      (fun call member failure failed => by simpa [failed] using List.all_eq_true.mp harmless call member)
      levels above
    exact ⟨complete, rounds, by rw [same]; exact keys⟩
  · have last : (((pipeline.downTo 3).calls strictly room).getLast?.bind Call.failure?).map
        (fun failure => (failure.severity, failure.code)) = some (.error, .unsupportedProtocol) := by
      decide +kernel
    obtain ⟨failure, last, same⟩ := Option.map_eq_some_iff.mp last
    obtain ⟨severity, code⟩ := Prod.mk.inj same
    obtain ⟨call, last, failed⟩ := Option.bind_eq_some_iff.mp last
    obtain ⟨before, calls⟩ := List.getLast?_eq_some_iff.mp last
    have upholds := runs (pipeline.downTo 3) orderly strictly (mild .strict) room
    have stops := (upholds.grave call (List.mem_of_getLast? last) failure).mpr
      ⟨failed, .inr ⟨severity, rfl⟩⟩
    obtain ⟨_, stop, ended, restates⟩ := upholds.stops before call [] failure calls stops
    exact ⟨stop, ended, by rw [restates]; exact severity, by rw [restates]; exact code⟩

end LinkedMarkup
