import LinkedMarkup.Proofs.Resolution.Customs
import LinkedMarkup.Proofs.Tasks.Timely

namespace LinkedMarkup
open Program

namespace Pool
variable {α : Type} {allowed : Session × Session → Prop} {step : Context → Context → Prop}
  {ends : α → Context → Prop} {origin : Context} {state next : State α}

/-- The forked tasks make allowed changes only. -/
def Abiding (allowed : Session × Session → Prop) (step : Context → Context → Prop)
    (ends : α → Context → Prop) (origin : Context) (state : State α) : Prop :=
  ∀ strand ∈ state.strands, (∃ task, step (origin.fork task) strand.context) ∧
    ∀ shared, Abides allowed ends strand.program (strand.session shared)

namespace Abiding

private theorem replace {shared later : Shared} {before after : List (Strand α)}
    {strand moved : Strand α}
    (abiding : Abiding allowed step ends origin ⟨shared, before ++ strand :: after⟩)
    (reaches : ∃ task, step (origin.fork task) moved.context)
    (abides : ∀ shared, Abides allowed ends moved.program (moved.session shared)) :
    Abiding allowed step ends origin ⟨later, before ++ moved :: after⟩ := by
  intro other member
  have place : other = moved ∨ other ∈ before ∨ other ∈ after := by
    simpa [or_left_comm] using member
  rcases place with rfl | elsewhere
  · exact ⟨reaches, abides⟩
  · exact abiding other (by simpa using elsewhere.imp id .inr)

theorem turn (carries : Carries allowed step) (abiding : Abiding allowed step ends origin state)
    (turn : Turn state next) : Abiding allowed step ends origin next := by
  obtain ⟨now, shared, before, strand, after, _⟩ := turn
  obtain ⟨⟨task, reaches⟩, abides⟩ := abiding strand (by simp)
  obtain ⟨goesOn, rest⟩ := (abides shared).turn carries
  exact abiding.replace ⟨task, carries.trans reaches goesOn⟩ rest

theorem shift (carries : Carries allowed step) (abiding : Abiding allowed step ends origin state)
    (shift : Shift state next) : Abiding allowed step ends origin next := by
  cases shift with
  | turn turn => exact abiding.turn carries turn
  | expire shared before strand after _ =>
    obtain ⟨reaches, abides⟩ := abiding strand (by simp)
    obtain ⟨context, program, deadline⟩ := strand
    cases program with
    | await ready limit next late =>
      exact abiding.replace reaches fun shared => (abides shared shared).2
    | done | read | change | pause => exact abiding.replace reaches abides

theorem forked (carries : Carries allowed step) (session : Session)
    {programs : List (Program Session α)}
    (abides : ∀ program ∈ programs, ∀ task shared,
      Abides allowed ends program ⟨shared, session.context.fork task⟩) :
    Abiding allowed step ends session.context (Pool.forked session programs) := by
  intro strand member
  rw [Pool.forked, strands_fork] at member
  obtain ⟨⟨program, task⟩, given, rfl⟩ := List.mem_map.mp member
  refine ⟨⟨task, carries.refl _⟩, fun shared => ?_⟩
  exact abides program (List.fst_mem_of_mem_zipIdx given) task shared

end Abiding
end Pool

namespace Resolver
variable {resolver : Resolver}

/-- A change that records asides only. -/
def Recorded (change : Session × Session) : Prop :=
  change.1.context.Records Diagnostic.Aside change.2.context

theorem customs_recorded (base : Context) (limit : Nat) : Customs base limit Recorded where
  mild _ records _ := records
  enter _ _ := .of_same rfl rfl
  conclude _ _ := .of_same rfl rfl

theorem carries_recorded : Carries Recorded (Context.Records Diagnostic.Aside) where
  refl := .refl
  trans := .trans
  change := id

private theorem abides_of_restores {α : Type} {resolution : Resolving α} (session : Session)
    (restores : ∀ {limit}, Customs session.context limit Recorded → resolver.maxDepth ≤ limit →
      session.context.resolving.length ≤ limit →
      Resolving.Restores Recorded session.context (fun _ => True) (fun _ => True) resolution) :
    Abides Recorded (fun _ _ => True) resolution.run session := by
  have customs := customs_recorded session.context
    (max resolver.maxDepth session.context.resolving.length)
  exact (restores customs (Nat.le_max_left _ _) (Nat.le_max_right _ _) session rfl).mono fun _ => trivial

theorem resolve_abides (uri : Uri) (session : Session) :
    Abides Recorded (fun _ _ => True) (resolver.resolve uri).run session :=
  abides_of_restores session fun customs depth fits =>
    customs.resolve_restores depth (List.Subset.refl _) fits uri

theorem expandNodes_abides (nodes : List Node) (session : Session) :
    Abides Recorded (fun _ _ => True) (resolver.expandNodes nodes).run session :=
  abides_of_restores session fun customs depth fits =>
    customs.expandNodes_restores depth (List.Subset.refl _) fits nodes

theorem resolution_abides (r : Reference) (session : Session) :
    Abides Recorded (fun _ _ => True) (resolver.resolution r) session :=
  abides_of_restores session fun customs depth fits =>
    customs.resolution_restores depth (List.Subset.refl _) fits r

theorem inherit_abides (e : Element) (session : Session) :
    Abides Recorded (fun _ _ => True) (resolver.inherit e).run session :=
  abides_of_restores session fun customs depth fits =>
    customs.inherit_restores depth (List.Subset.refl _) fits e

theorem resolveInTurn_records (references : List Reference) (session : Session) :
    session.context.Records Diagnostic.Aside (resolver.resolveInTurn references session).2.context := by
  induction references generalizing session with
  | nil => exact .refl _
  | cons r rest ih =>
    have first := ((resolver.resolution_abides r session).alone carries_recorded).1
    exact first.trans (ih _)

/-- Siblings that are resolved in whatever way leave only asides behind. -/
theorem Handles.records {expires : Prop} {references : List Reference} {session : Session}
    {outcome : List (Except ReferenceError Reference) × Session}
    (handles : resolver.Handles expires references session outcome) :
    session.context.Records Diagnostic.Aside outcome.2.context := by
  cases handles with
  | inTurn => exact resolveInTurn_records references session
  | @sideBySide state path _ =>
    have begun : Pool.Abiding Recorded (Context.Records Diagnostic.Aside) (fun _ _ => True)
        session.context (Pool.forked session (references.map resolver.resolution)) := by
      refine Pool.Abiding.forked carries_recorded session fun program member task shared => ?_
      obtain ⟨r, _, rfl⟩ := List.mem_map.mp member
      exact resolver.resolution_abides r _
    have ended : Pool.Abiding Recorded (Context.Records Diagnostic.Aside) (fun _ _ => True)
        session.context state := by
      clear * - begun path
      induction path with
      | refl => exact begun
      | tail _ step ih =>
        rcases step with turn | ⟨_, shift⟩
        · exact ih.turn carries_recorded turn
        · exact ih.shift carries_recorded shift
    rw [Pool.context_join]
    refine ⟨rfl, _, rfl, ?_⟩
    intro diagnostic member
    obtain ⟨strand, inside, recorded⟩ := List.mem_flatMap.mp member
    obtain ⟨⟨task, records⟩, _⟩ := ended strand inside
    obtain ⟨new, added, asides⟩ := records.added
    exact asides diagnostic (by simpa [Context.fork, added] using recorded)

end Resolver
end LinkedMarkup
