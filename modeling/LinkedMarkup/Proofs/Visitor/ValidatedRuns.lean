import LinkedMarkup.Compiler
import LinkedMarkup.Proofs.Tag.Violations
import LinkedMarkup.Proofs.Visitor.Frames

namespace LinkedMarkup

namespace Diagnostic

def violation? (diagnostic : Diagnostic) : Option ValidationError :=
  match diagnostic.cause with
  | some (.validation error) => some error
  | _ => none

def unknownTag? (diagnostic : Diagnostic) : Option String :=
  if diagnostic.code = .unknownTag then some diagnostic.message else none

theorem violation?_ofValidation (error : ValidationError) :
    (ofValidation error).violation? = some error := by
  unfold ofValidation placedAt
  split
  · split <;> rfl
  · rfl

theorem unknownTag?_ofValidation (error : ValidationError) :
    (ofValidation error).unknownTag? = none := by
  have code : (ofValidation error).code = error.code := by
    unfold ofValidation
    split
    · exact code_placedAt _ _
    · rfl
  rw [unknownTag?, code]
  cases error <;> rfl

variable {diagnostic : Diagnostic}

theorem Aside.violation? (aside : diagnostic.Aside) : diagnostic.violation? = none := by
  rcases aside.2 with ⟨error, cause, _⟩ | ⟨cause, _⟩
  · simp [Diagnostic.violation?, cause]
  · simp [Diagnostic.violation?, cause]

theorem Aside.unknownTag? (aside : diagnostic.Aside) : diagnostic.unknownTag? = none := by
  rcases aside.2 with ⟨error, _, code⟩ | ⟨_, code⟩
  · cases error <;> simp [Diagnostic.unknownTag?, code, ReferenceError.code]
  · simp [Diagnostic.unknownTag?, code]

end Diagnostic

/-- What a context tells of violations and of unknown tags when diagnostics are recorded in it. -/
theorem Context.violation?_recorded (context : Context) (diagnostic : Diagnostic) :
    (context.located diagnostic).degraded.violation? = diagnostic.violation? ∧
      (context.located diagnostic).degraded.unknownTag? = diagnostic.unknownTag? := by
  obtain ⟨file, same⟩ := context.located_eq diagnostic
  rw [same]
  exact ⟨rfl, rfl⟩

namespace Pipeline

/-- Between two contexts these violations and these unknown tags have been recorded. -/
structure Tells (before after : Context) (errors : List ValidationError) (unknown : List String) :
    Prop where
  mode : after.mode = before.mode
  told : ∃ new, after.diagnostics = before.diagnostics ++ new ∧
    new.filterMap Diagnostic.violation? = errors ∧ new.filterMap Diagnostic.unknownTag? = unknown

namespace Tells
variable {first second third : Context} {errors more : List ValidationError}
  {unknown others : List String}

theorem trans (one : Tells first second errors unknown) (two : Tells second third more others) :
    Tells first third (errors ++ more) (unknown ++ others) := by
  obtain ⟨new, added, rfl, rfl⟩ := one.told
  obtain ⟨rest, added', rfl, rfl⟩ := two.told
  refine ⟨two.mode.trans one.mode, new ++ rest, ?_, ?_, ?_⟩
  · rw [added', added, List.append_assoc]
  · rw [List.filterMap_append]
  · rw [List.filterMap_append]

/-- Asides tell of neither. -/
theorem of_records (records : first.Records Diagnostic.Aside second) : Tells first second [] [] := by
  obtain ⟨new, added, asides⟩ := records.added
  refine ⟨records.mode, new, added, ?_, ?_⟩
  · exact List.filterMap_eq_nil_iff.mpr fun diagnostic member => (asides diagnostic member).violation?
  · exact List.filterMap_eq_nil_iff.mpr fun diagnostic member => (asides diagnostic member).unknownTag?

theorem of_reportAll {context : Context} {diagnostics : List Diagnostic}
    (goesOn : (context.reportAll diagnostics).2 = none) :
    Tells context (context.reportAll diagnostics).1 (diagnostics.filterMap Diagnostic.violation?)
      (diagnostics.filterMap Diagnostic.unknownTag?) := by
  rw [(Context.reportAll_of_none goesOn).2]
  refine ⟨rfl, _, rfl, ?_, ?_⟩
  · rw [List.filterMap_map]
    exact congrArg (List.filterMap · diagnostics) (funext fun diagnostic =>
      (context.violation?_recorded diagnostic).1)
  · rw [List.filterMap_map]
    exact congrArg (List.filterMap · diagnostics) (funext fun diagnostic =>
      (context.violation?_recorded diagnostic).2)

end Tells

variable {tags : TagRegistry} {levels : Nat}

theorem violations_ofValidation (errors : List ValidationError) :
    (errors.map Diagnostic.ofValidation).filterMap Diagnostic.violation? = errors ∧
      (errors.map Diagnostic.ofValidation).filterMap Diagnostic.unknownTag? = [] := by
  induction errors with
  | nil => exact ⟨rfl, rfl⟩
  | cons error rest ih =>
    simp only [List.map_cons, List.filterMap_cons, Diagnostic.violation?_ofValidation,
      Diagnostic.unknownTag?_ofValidation, ih]
    exact ⟨trivial, trivial⟩

/-- In strict mode nothing but warnings can be reported to the end. -/
theorem errors_of_strict {context : Context} {errors : List ValidationError}
    (strict : context.mode = .strict)
    (goesOn : (context.reportAll (errors.map Diagnostic.ofValidation)).2 = none) : errors = [] := by
  cases errors with
  | nil => rfl
  | cons error rest =>
    have mild := (Context.reportAll_of_none goesOn).1 (.ofValidation error) (by simp)
    rw [Diagnostic.severity_ofValidation] at mild
    simp [Context.stopsAt, strict] at mild

abbrev attributeErrors (tags : TagRegistry) (elements : List Element) : List ValidationError :=
  elements.flatMap fun e => (Validation.element tags ⟨true, false⟩ e).errors

private theorem tells_of_element {session later : Session} {e : Element}
    (told : Visitor.tellAttributes tags session e = some later) :
    Tells session.context later.context (attributeErrors tags [e]) [] ∧
      (session.context.mode = .strict → attributeErrors tags [e] = []) := by
  unfold Visitor.tellAttributes at told
  unfold attributeErrors Validation.element
  cases found : tags.find? e.tag with
  | none =>
    rw [found] at told
    cases told
    simp only [found, List.flatMap_cons, List.flatMap_nil, List.append_nil]
    exact ⟨.of_records (.refl _), fun _ => trivial⟩
  | some definition =>
    rw [found] at told
    simp only [found, if_true, Bool.false_eq_true, if_false, List.flatMap_cons, List.flatMap_nil,
      List.append_nil]
    dsimp only at told
    obtain ⟨carried, unknown⟩ := violations_ofValidation (Validation.attributeErrors definition e)
    have tells {context : Context} (goesOn : (context.reportAll
        ((Validation.attributeErrors definition e).map .ofValidation)).2 = none) :=
      Tells.of_reportAll goesOn
    have strictly {context : Context} (strict : context.mode = .strict) (goesOn : (context.reportAll
        ((Validation.attributeErrors definition e).map .ofValidation)).2 = none) :=
      errors_of_strict strict goesOn
    rw [carried, unknown] at tells
    split at told
    · rename_i context reported
      cases told
      have goesOn := congrArg Prod.snd reported
      have same := congrArg Prod.fst reported
      refine ⟨?_, fun strict => strictly strict goesOn⟩
      rw [← (show _ = context from same)]
      exact tells goesOn
    · cases told

private theorem tells_of_elements {session later : Session} {elements : List Element}
    (told : elements.foldlM (Visitor.tellAttributes tags) session = some later) :
    Tells session.context later.context (attributeErrors tags elements) [] ∧
      (session.context.mode = .strict → attributeErrors tags elements = []) := by
  induction elements generalizing session with
  | nil =>
    cases told
    exact ⟨.of_records (.refl _), fun _ => rfl⟩
  | cons e rest ih =>
    rw [List.foldlM_cons] at told
    obtain ⟨now, here, there⟩ := Option.bind_eq_some_iff.mp told
    obtain ⟨first, firstStrict⟩ := tells_of_element here
    obtain ⟨others, othersStrict⟩ := ih there
    have both : attributeErrors tags (e :: rest) =
        attributeErrors tags [e] ++ attributeErrors tags rest := by simp [attributeErrors]
    rw [both]
    refine ⟨first.trans others, fun strict => ?_⟩
    rw [firstStrict strict, othersStrict (first.mode.trans strict), List.append_nil]

private theorem pass_keepsFrames {visitors : List Visitor} (others : List Visitor)
    (keeps : ∀ visitor ∈ visitors, visitor.KeepsFrames) {session : Session} {d : Document}
    (alone : ∀ e ∈ Node.frames d.children, e.extends? = none)
    (complete : (pass levels (visitors ++ others) session d).halt = none) :
    ∃ later after, pass levels (visitors ++ others) session d = pass levels others later after ∧
      Node.frames after.children = Node.frames d.children ∧
      session.context.Records Diagnostic.Aside later.context := by
  induction visitors generalizing session d with
  | nil => exact ⟨session, d, rfl, rfl, .refl _⟩
  | cons visitor rest ih =>
    rw [List.cons_append] at complete ⊢
    obtain ⟨ended, same⟩ := complete_cons complete
    obtain ⟨frames, records⟩ := keeps visitor (by simp) session d levels alone ended
    rw [same] at complete ⊢
    obtain ⟨later, after, goesOn, frames', records'⟩ :=
      ih (fun other member => keeps other (List.mem_cons_of_mem _ member)) (frames ▸ alone) complete
    exact ⟨later, after, goesOn, frames'.trans frames, records.trans records'⟩

private theorem pass_tells {resolver : Resolver} {siblings : Visitor.Siblings}
    (schedules : resolver.Schedules siblings) {session : Session} {d : Document}
    (alone : ∀ e ∈ d.elements, e.extends? = none)
    (complete : (pass levels (usual resolver siblings tags).visitors session d).halt = none) :
    Tells session.context (pass levels (usual resolver siblings tags).visitors session d).session.context
        (attributeErrors tags d.elements) [] ∧
      (session.context.mode = .strict → attributeErrors tags d.elements = []) := by
  have keeps : ∀ visitor ∈ [Visitor.idIndex, .inheritance resolver, .referencesBy siblings, .metadata,
      .normalization], visitor.KeepsFrames := by
    simp only [List.forall_mem_cons]
    exact ⟨Visitor.idIndex_keepsFrames, Visitor.inheritance_keepsFrames resolver,
      Visitor.references_keepsFrames schedules, Visitor.metadata_keepsFrames,
      Visitor.normalization_keepsFrames, fun _ member => by cases member⟩
  have bare : ∀ e ∈ Node.frames d.children, e.extends? = none := by
    intro e member
    obtain ⟨itself, inside, rfl⟩ := List.mem_map.mp member
    exact alone itself inside
  obtain ⟨later, after, goesOn, frames, records⟩ :=
    pass_keepsFrames [.attributeValidation tags] keeps bare complete
  have same : pass levels (usual resolver siblings tags).visitors session d =
      pass levels [.attributeValidation tags] later after := goesOn
  rw [same] at complete ⊢
  obtain ⟨ended, final⟩ := complete_cons complete
  rw [final]
  rw [Visitor.walk_nodes rfl rfl] at ended ⊢
  obtain ⟨_, told⟩ := (Visitor.attributeValidation_inspects tags).walkNodes _ (fun _ _ => trivial) ended
  -- The errors about an element do not depend on what the passes have changed.
  have framed (nodes : List Node) (session : Session) :
      (Node.allElements nodes).foldlM (Visitor.tellAttributes tags) session =
        (Node.frames nodes).foldlM (Visitor.tellAttributes tags) session := by
    rw [Node.frames, List.foldlM_map]
    rfl
  rw [framed, frames, ← framed] at told
  obtain ⟨tells, strictly⟩ := tells_of_elements told
  exact ⟨(Tells.of_records records).trans tells, fun strict => strictly (records.mode.trans strict)⟩

theorem findings_tell (d : Document) :
    (findings tags d).filterMap Diagnostic.violation? =
        (Validation.document tags ⟨false, true⟩ d).errors ++ (Validation.duplicateIds? d).toList ∧
      (findings tags d).filterMap Diagnostic.unknownTag? =
        (Validation.document tags ⟨false, true⟩ d).warnings := by
  obtain ⟨carried, known⟩ := violations_ofValidation
    ((Validation.document tags ⟨false, true⟩ d).errors ++ (Validation.duplicateIds? d).toList)
  have warned (texts : List String) :
      (texts.map (.warning .unknownTag)).filterMap Diagnostic.violation? = [] ∧
        (texts.map (.warning .unknownTag)).filterMap Diagnostic.unknownTag? = texts := by
    rw [List.filterMap_map, List.filterMap_map]
    exact ⟨List.filterMap_eq_nil_iff.mpr fun _ _ => rfl, List.filterMap_some⟩
  unfold findings
  dsimp only
  rw [List.filterMap_append, List.filterMap_append, carried, known, (warned _).1, (warned _).2]
  exact ⟨rfl, List.append_nil _⟩

/-- A run that comes to its end tells of the structure before the passes and of the attributes behind
them. -/
theorem process_tells {resolver : Resolver} {siblings : Visitor.Siblings}
    (schedules : resolver.Schedules siblings) {session : Session} {d : Document}
    (alone : ∀ e ∈ d.elements, e.extends? = none)
    (complete : ((usual resolver siblings tags levels).process session d).halt = none) :
    let before := (Validation.document tags ⟨false, true⟩ d).errors ++
      (Validation.duplicateIds? d).toList
    Tells session.context ((usual resolver siblings tags levels).process session d).session.context
        (before ++ attributeErrors tags d.elements) (Validation.document tags ⟨false, true⟩ d).warnings ∧
      (session.context.mode = .strict → before = [] ∧ attributeErrors tags d.elements = []) := by
  have same : (usual resolver siblings tags levels).tags = tags := rfl
  unfold process at complete ⊢
  rw [same] at complete ⊢
  have found (goesOn : (session.context.reportAll (findings tags d)).2 = none) :=
    Tells.of_reportAll goesOn
  rw [(findings_tell d).1, (findings_tell d).2] at found
  have strictly (strict : session.context.mode = .strict)
      (goesOn : (session.context.reportAll (findings tags d)).2 = none) :
      (Validation.document tags ⟨false, true⟩ d).errors ++ (Validation.duplicateIds? d).toList = [] := by
    refine List.eq_nil_iff_forall_not_mem.mpr fun error member => ?_
    have mild := (Context.reportAll_of_none goesOn).1 (.ofValidation error)
      (List.mem_append_right _ (List.mem_map.mpr ⟨error, member, rfl⟩))
    rw [Diagnostic.severity_ofValidation] at mild
    simp [Context.stopsAt, strict] at mild
  rcases reported : session.context.reportAll (findings tags d) with ⟨context, none | stop⟩
  · rw [reported] at complete found strictly
    dsimp only at complete ⊢
    obtain ⟨tells, strict'⟩ := pass_tells schedules alone complete
    have begun := found rfl
    refine ⟨?_, fun strict => ⟨strictly strict rfl, strict' (begun.mode.trans strict)⟩⟩
    have whole := begun.trans tells
    rwa [List.append_nil] at whole
  · rw [reported] at complete
    cases complete

end Pipeline

open Pipeline

/-- What validation reports, in the order in which a run tells of it. -/
theorem Compiler.validate_perm (compiler : Compiler) (d : Document) :
    (((Validation.document compiler.tags ⟨false, true⟩ d).errors ++
        (Validation.duplicateIds? d).toList) ++ attributeErrors compiler.tags d.elements).Perm
      (compiler.validate d).errors ∧
    (Validation.document compiler.tags ⟨false, true⟩ d).warnings = (compiler.validate d).warnings := by
  have both (e : Element) : (Validation.element compiler.tags .all e).errors =
      (Validation.element compiler.tags ⟨true, false⟩ e).errors ++
        (Validation.element compiler.tags ⟨false, true⟩ e).errors := by
    unfold Validation.element
    cases compiler.tags.find? e.tag with
    | none => rfl
    | some definition => simp [Validation.Checks.all]
  have warned (e : Element) : (Validation.element compiler.tags ⟨false, true⟩ e).warnings =
      (Validation.element compiler.tags .all e).warnings := by
    unfold Validation.element
    cases compiler.tags.find? e.tag <;> rfl
  unfold Compiler.validate
  rw [Validation.document_eq, Validation.document_eq]
  dsimp only
  simp only [both, warned]
  refine ⟨?_, trivial⟩
  have perElement := List.flatMap_append_perm d.elements
    (fun e => (Validation.element compiler.tags ⟨true, false⟩ e).errors)
    (fun e => (Validation.element compiler.tags ⟨false, true⟩ e).errors)
  refine (List.perm_append_comm).trans ?_
  rw [← List.append_assoc]
  exact perElement.append_right _

/-- Processing a document in which no element extends another reports what validating it does: a loose
run that comes to its end tells of the same violations, each as often, and warns of the same unknown
tags in their order; a strict run does not come to its end if there are violations. -/
theorem Compiler.process_agrees (compiler : Compiler) (session : Session) (d : Document)
    (alone : ∀ e ∈ d.elements, e.extends? = none) (levels : Nat) :
    let processed := (compiler.pipeline.downTo levels).process session d
    (session.context.mode = .loose → processed.isComplete = true →
      ∃ new, processed.diagnostics = session.context.diagnostics ++ new ∧
        (new.filterMap Diagnostic.violation?).Perm (compiler.validate d).errors ∧
        new.filterMap Diagnostic.unknownTag? = (compiler.validate d).warnings) ∧
    (session.context.mode = .strict → (compiler.validate d).errors ≠ [] → processed.isComplete = false) := by
  intro processed
  obtain ⟨perm, warnings⟩ := compiler.validate_perm d
  let resolver := Pipeline.resolver compiler.settings compiler.protocols compiler.tags
  have schedules := resolver.schedules_siblings compiler.settings.concurrent
  have tells := @process_tells compiler.tags levels resolver _ schedules session d alone
  constructor
  · intro _ complete
    obtain ⟨⟨_, new, added, carried, unknown⟩, _⟩ := tells (Option.isNone_iff_eq_none.mp complete)
    exact ⟨new, added, carried ▸ perm, unknown.trans warnings⟩
  · intro strict violations
    by_contra complete
    have ended : processed.isComplete = true := by simpa using complete
    obtain ⟨_, none⟩ := tells (Option.isNone_iff_eq_none.mp ended)
    obtain ⟨before, behind⟩ := none strict
    rw [before, behind] at perm
    exact violations perm.nil_eq.symm

/-- A compiler that knows items by their keys only. -/
def curator : Compiler :=
  { tags := { definitions := [("item", { name := "item", requiredAttributes := ["key"] })] } }

def catalog : Document :=
  { children := [.element { tag := "shelf", children := [.element { tag := "item" }] }] }

theorem Compiler.process_agrees_catalog :
    (∃ new, (curator.pipeline.process {} catalog).diagnostics = new ∧
      (new.filterMap Diagnostic.violation?).Perm [.element "item" {} (.missingAttribute "key")] ∧
      (new.filterMap Diagnostic.unknownTag?).length = 1) ∧
    (curator.pipeline.process { context := { mode := .strict } } catalog).isComplete = false := by
  have alone : ∀ e ∈ catalog.elements, e.extends? = none := by decide +kernel
  have errors : (curator.validate catalog).errors = [.element "item" {} (.missingAttribute "key")] := by
    decide +kernel
  have warnings : (curator.validate catalog).warnings.length = 1 := by decide +kernel
  have complete : (curator.pipeline.process {} catalog).isComplete = true := by decide +kernel
  obtain ⟨new, added, violations, unknown⟩ :=
    (curator.process_agrees {} catalog alone Visitor.defaultLevels).1 rfl complete
  refine ⟨⟨new, added, errors ▸ violations, by rw [unknown, warnings]⟩, ?_⟩
  exact (curator.process_agrees { context := { mode := .strict } } catalog alone
    Visitor.defaultLevels).2 rfl (by rw [errors]; simp)

end LinkedMarkup
