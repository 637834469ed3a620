import LinkedMarkup.Proofs.Resolution.Care
import LinkedMarkup.Proofs.Tasks.Siblings

namespace LinkedMarkup

/-- What is lost stays lost while diagnostics are added and cuts stay noted. -/
def Care.Lasting (care : Care) : Prop :=
  ∀ {before after : Session}, before.Adds after → care.lost before → care.lost after

def Care.nothing : Care := ⟨fun _ => True, fun _ _ => True, fun _ => False, fun _ => False, True⟩

namespace Care.nothing
variable {resolver : Resolver} {context : Context}

theorem calm (shared : Shared) : Care.nothing.Calm shared :=
  ⟨False.elim, fun _ _ => trivial, fun _ _ _ => trivial⟩

theorem serves (resolver : Resolver) (context : Context) : Care.nothing.Serves resolver context := by
  constructor <;> intros <;> trivial

end Care.nothing

namespace Program
variable {α : Type} {care : Care} {post : α → Session → Prop} {program : Program Session α}
  {session : Session}

/-- Whatever others do, the program only adds to its session. -/
abbrev Plain (program : Program Session α) (session : Session) : Prop :=
  Amid .nothing (fun _ _ => True) program session

theorem Plain.turn (plain : Plain program session) :
    session.Adds (program.turn session).2 ∧
      ∀ shared, Plain (program.turn session).1 ⟨shared, (program.turn session).2.context⟩ := by
  induction program generalizing session with
  | done result => exact ⟨.refl _, fun _ => trivial⟩
  | read next ih => exact ih session plain
  | change update next ih =>
    obtain ⟨adds, goesOn⟩ := plain
    obtain ⟨more, rest⟩ := ih (goesOn.resolve_left not_false).2
    exact ⟨adds.trans more, rest⟩
  | pause next ih => exact ⟨.refl _, fun shared => plain (Care.nothing.calm shared)⟩
  | await ready limit next late ihNext ihLate =>
    rw [Program.turn]
    split
    · exact ihNext (plain (Care.nothing.calm session.shared)).1
    · exact ⟨.refl _, fun _ => fun calm => plain calm⟩

theorem Plain.alone (plain : Plain program session) : session.Adds (program.alone session).2 := by
  induction program generalizing session with
  | done result => exact .refl _
  | read next ih => exact ih session plain
  | change update next ih => exact plain.1.trans (ih (plain.2.resolve_left not_false).2)
  | pause next ih => exact ih (plain (Care.nothing.calm session.shared))
  | await ready limit next late ihNext ihLate =>
    rw [Program.alone]
    split
    · exact ihNext (plain (Care.nothing.calm session.shared)).1
    · exact ihLate ((plain (Care.nothing.calm session.shared)).2 trivial)

/-- After a turn all is lost, or outcomes are good and the rest takes care as well. -/
theorem Amid.turn (lasting : care.Lasting)
    (stable : ∀ {result session shared}, post result session → post result ⟨shared, session.context⟩)
    (plain : Plain program session) (amid : Amid care post program session)
    (calm : care.Calm session.shared) :
    care.lost (program.turn session).2 ∨ care.Calm (program.turn session).2.shared ∧
      ∀ {shared}, care.Calm shared →
        Amid care post (program.turn session).1 ⟨shared, (program.turn session).2.context⟩ := by
  induction program generalizing session with
  | done result => exact .inr ⟨calm, fun _ => stable amid⟩
  | read next ih => exact ih session plain amid calm
  | change update next ih =>
    have goesOn : Plain next (update session) := (plain.2.resolve_left not_false).2
    rcases amid.2 with lost | ⟨calm, amid⟩
    · exact .inl (lasting goesOn.turn.1 lost)
    · exact ih goesOn amid calm
  | pause next ih => exact .inr ⟨calm, fun quiet => amid quiet⟩
  | await ready limit next late ihNext ihLate =>
    rw [Program.turn]
    split
    · exact ihNext (plain (Care.nothing.calm session.shared)).1 (amid calm).1 calm
    · exact .inr ⟨calm, fun _ => fun quiet => amid quiet⟩

def Patient : Program Session α → Session → Prop
  | done _, _ => True
  | read next, session => Patient (next session) session
  | change update next, session => Patient next (update session)
  | pause next, session => Patient next session
  | await ready _ next _, session => ready session = true ∧ Patient next session

theorem Amid.alone (lasting : care.Lasting) (waits : care.expires ∨ Patient program session)
    (plain : Plain program session) (amid : Amid care post program session)
    (calm : care.Calm session.shared) :
    care.lost (program.alone session).2 ∨
      post (program.alone session).1 (program.alone session).2 := by
  induction program generalizing session with
  | done result => exact .inr amid
  | read next ih => exact ih session waits plain amid calm
  | change update next ih =>
    have goesOn : Plain next (update session) := (plain.2.resolve_left not_false).2
    rcases amid.2 with lost | ⟨calm, amid⟩
    · exact .inl (lasting goesOn.alone lost)
    · exact ih waits goesOn amid calm
  | pause next ih => exact ih waits (plain (Care.nothing.calm session.shared)) (amid calm) calm
  | await ready limit next late ihNext ihLate =>
    have goesOn := plain (Care.nothing.calm session.shared)
    rw [Program.alone]
    split
    · exact ihNext (waits.imp_right And.right) goesOn.1 (amid calm).1 calm
    · rename_i fails
      have expires := waits.resolve_right fun patient => fails patient.1
      exact ihLate (.inl expires) (goesOn.2 trivial) ((amid calm).2 expires) calm

end Program

namespace Pool
variable {α : Type}

theorem forall₂_replace {ι : Type} {holds : ι → α → Prop} {items : List ι}
    {before after : List α} {old new : α} (all : List.Forall₂ holds items (before ++ old :: after))
    (step : ∀ {item}, holds item old → holds item new) :
    List.Forall₂ holds items (before ++ new :: after) := by
  induction before generalizing items with
  | nil =>
    obtain ⟨item, rest, here, others, rfl⟩ := List.forall₂_cons_right_iff.mp all
    exact .cons (step here) others
  | cons first before ih =>
    obtain ⟨item, rest, here, others, rfl⟩ := List.forall₂_cons_right_iff.mp all
    exact .cons here (ih others)

private theorem exists_of_forall₂ {ι : Type} {holds : ι → α → Prop} {items : List ι}
    {list : List α} (all : List.Forall₂ holds items list) {member : α} (inside : member ∈ list) :
    ∃ item, holds item member := by
  induction all with
  | nil => cases inside
  | cons here _ ih =>
    rcases List.mem_cons.mp inside with rfl | there
    · exact ⟨_, here⟩
    · exact ih there

/-- A task has a turn, or gives up to wait. -/
inductive Shift : State α → State α → Prop where
  | turn {state next : State α} (turn : Turn state next) : Shift state next
  | expire (shared : Shared) (before : List (Strand α)) (strand : Strand α) (after : List (Strand α))
    (stuck : strand.isStuck shared = true) :
    Shift ⟨shared, before ++ strand :: after⟩ ⟨shared, before ++ strand.expire :: after⟩

/-- The tasks that a task has forked take care, each of an item, or all is lost. -/
structure Tended {ι : Type} (care : Care) (origin : Session) (holds : ι → α → Prop) (items : List ι)
    (state : State α) : Prop where
  plain : ∀ strand ∈ state.strands, strand.context.mode = origin.context.mode ∧
    ∀ shared, Program.Plain strand.program (strand.session shared)
  cutOff : origin.shared.cutOff = true → state.shared.cutOff = true
  careful : (∃ strand ∈ state.strands, care.lost (strand.session state.shared)) ∨
    care.Calm state.shared ∧ List.Forall₂ (fun item strand => ∀ {shared}, care.Calm shared →
      Program.Amid care (fun result _ => holds item result) strand.program (strand.session shared))
      items state.strands

namespace Tended
variable {ι : Type} {care : Care} {origin : Session} {holds : ι → α → Prop} {items : List ι}
  {state next : State α}

private theorem plain_step {shared : Shared} {before after : List (Strand α)}
    {strand moved : Strand α}
    (tended : Tended care origin holds items ⟨shared, before ++ strand :: after⟩)
    (same : moved.context.mode = strand.context.mode)
    (plain : ∀ shared, Program.Plain moved.program (moved.session shared)) :
    ∀ other ∈ before ++ moved :: after, other.context.mode = origin.context.mode ∧
      ∀ shared, Program.Plain other.program (other.session shared) := by
  intro other member
  have place : other = moved ∨ other ∈ before ∨ other ∈ after := by
    simpa [or_left_comm] using member
  rcases place with rfl | elsewhere
  · exact ⟨same.trans (tended.plain strand (by simp)).1, plain⟩
  · exact tended.plain other (by simpa using elsewhere.imp id .inr)

theorem turn (lasting : care.Lasting) (tended : Tended care origin holds items state)
    (turn : Turn state next) : Tended care origin holds items next := by
  obtain ⟨now, shared, before, strand, after, free⟩ := turn
  have plain := (tended.plain strand (by simp)).2 shared
  obtain ⟨adds, rest⟩ := plain.turn
  refine ⟨plain_step tended adds.mode rest, adds.cutOff ∘ tended.cutOff, ?_⟩
  rcases tended.careful with ⟨other, member, lost⟩ | ⟨calm, careful⟩
  · -- The lost task has had the turn, or it has stayed as it was.
    have place : other = strand ∨ other ∈ before ∨ other ∈ after := by
      simpa [or_left_comm] using member
    rcases place with rfl | elsewhere
    · exact .inl ⟨(other.turn now shared).1, by simp, lasting adds lost⟩
    · refine .inl ⟨other, List.mem_append.mpr (elsewhere.imp id (List.mem_cons_of_mem _)), lasting ?_ lost⟩
      exact ⟨rfl, List.Subset.refl _, adds.cutOff⟩
  · by_cases lost : care.lost (strand.program.turn (strand.session shared)).2
    · exact .inl ⟨(strand.turn now shared).1, by simp, lost⟩
    have moves {item : ι} (amid : ∀ {shared}, care.Calm shared → Program.Amid care
        (fun result _ => holds item result) strand.program (strand.session shared)) :=
      (Program.Amid.turn lasting (fun meets => meets) plain (amid calm) calm).resolve_left lost
    obtain ⟨item, amid⟩ := exists_of_forall₂ careful (List.mem_append_right _ List.mem_cons_self)
    exact .inr ⟨(moves amid).1, forall₂_replace careful fun amid => (moves amid).2⟩

theorem expire (expires : care.expires) {shared : Shared}
    {before after : List (Strand α)} {strand : Strand α}
    (tended : Tended care origin holds items ⟨shared, before ++ strand :: after⟩) :
    Tended care origin holds items ⟨shared, before ++ strand.expire :: after⟩ := by
  have plain := (tended.plain strand (by simp)).2
  obtain ⟨context, program, deadline⟩ := strand
  cases program with
  | done | read | change | pause => exact tended
  | await ready limit next late =>
    refine ⟨plain_step tended rfl fun shared => (plain shared (Care.nothing.calm shared)).2 trivial,
      tended.cutOff, ?_⟩
    rcases tended.careful with ⟨other, member, lost⟩ | ⟨calm, careful⟩
    · have place : other = ⟨context, .await ready limit next late, deadline⟩ ∨
          other ∈ before ∨ other ∈ after := by simpa [or_left_comm] using member
      rcases place with rfl | elsewhere
      · exact .inl ⟨⟨context, late, none⟩, List.mem_append_right _ List.mem_cons_self, lost⟩
      · exact .inl ⟨other, List.mem_append.mpr (elsewhere.imp id (List.mem_cons_of_mem _)), lost⟩
    · refine .inr ⟨calm, forall₂_replace careful fun amid => ?_⟩
      exact fun {shared} quiet => (amid quiet quiet).2 expires

/-- The scheduler may only let waits be given up if the tasks have reckoned with it. -/
theorem shifts (lasting : care.Lasting) (tended : Tended care origin holds items state)
    (path : Relation.ReflTransGen (fun state next => Turn state next ∨ care.expires ∧ Shift state next)
      state next) : Tended care origin holds items next := by
  induction path with
  | refl => exact tended
  | tail _ step ih =>
    rcases step with turn | ⟨expires, turn | ⟨shared, before, strand, after, _⟩⟩
    · exact ih.turn lasting turn
    · exact ih.turn lasting turn
    · exact ih.expire expires

private theorem careful_fork {program : ι → Program Session α}
    (careful : ∀ item ∈ items, ∀ task {shared}, care.Calm shared →
      Program.Amid care (fun result _ => holds item result) (program item)
        ⟨shared, origin.context.fork task⟩) (shared : Shared) :
    List.Forall₂ (fun item strand => ∀ {shared}, care.Calm shared →
      Program.Amid care (fun result _ => holds item result) strand.program (strand.session shared))
      items (fork origin (items.map program) shared).1 := by
  induction items generalizing shared with
  | nil => exact .nil
  | cons item rest ih =>
    refine .cons (careful item (by simp) _) (ih (fun other member => ?_) _)
    exact careful other (List.mem_cons_of_mem _ member)

theorem begin {program : ι → Program Session α} (calm : care.Calm origin.shared)
    (plain : ∀ item session, Program.Plain (program item) session)
    (careful : ∀ item ∈ items, ∀ task {shared}, care.Calm shared →
      Program.Amid care (fun result _ => holds item result) (program item)
        ⟨shared, origin.context.fork task⟩) :
    Tended care origin holds items (forked origin (items.map program)) := by
  have context : ∀ strand ∈ (forked origin (items.map program)).strands,
      strand.context.mode = origin.context.mode ∧ ∃ item, strand.program = program item := by
    intro strand member
    rw [forked, strands_fork] at member
    obtain ⟨⟨some, task⟩, given, rfl⟩ := List.mem_map.mp member
    obtain ⟨item, _, rfl⟩ := List.mem_map.mp (List.fst_mem_of_mem_zipIdx given)
    exact ⟨rfl, item, rfl⟩
  refine ⟨fun strand member => ?_, fun cut => ?_, .inr ⟨?_, careful_fork careful _⟩⟩
  · obtain ⟨mode, item, same⟩ := context strand member
    exact ⟨mode, fun shared => same ▸ plain item _⟩
  · rw [forked, shared_fork]
    exact cut
  · rw [forked, shared_fork]
    exact calm.congr rfl rfl

theorem joined (lasting : care.Lasting) (tended : Tended care origin holds items state)
    (finished : state.Finished) :
    origin.Adds (join origin state.strands state.shared).2 ∧
      (care.lost (join origin state.strands state.shared).2 ∨
        care.Calm (join origin state.strands state.shared).2.shared ∧
          List.Forall₂ holds items (join origin state.strands state.shared).1) := by
  have shared := shared_join origin state.strands state.shared
  have context := context_join origin state.strands state.shared
  refine ⟨⟨by rw [context], by rw [context]; exact List.subset_append_left _ _, fun cut => ?_⟩, ?_⟩
  · rw [shared]
    exact tended.cutOff cut
  rcases tended.careful with ⟨strand, member, lost⟩ | ⟨calm, careful⟩
  · refine .inl (lasting ⟨?_, ?_, fun cut => ?_⟩ lost)
    · rw [context]
      exact (tended.plain strand member).1.symm
    · rw [context]
      intro diagnostic recorded
      exact List.mem_append_right _ (List.mem_flatMap.mpr ⟨strand, member, recorded⟩)
    · rw [shared]
      exact cut
  · refine .inr ⟨by rw [shared]; exact calm.congr rfl rfl, ?_⟩
    let stays (item : ι) (result : α) (_ : Session) : Prop := holds item result
    have ended : List.Forall₂ (fun item strand => ∃ result, strand.program.result? = some result ∧
        stays item result (strand.session state.shared)) items state.strands := by
      refine (((List.forall₂_and_left _ _).mpr ⟨finished, careful.flip⟩).imp ?_).flip
      intro strand item ⟨done, amid⟩
      obtain ⟨context, program, deadline⟩ := strand
      cases program with
      | done result => exact ⟨result, rfl, amid calm⟩
      | read | change | pause | await => cases done
    exact (filterMap_result _ ended).imp fun _ _ ⟨_, meets⟩ => meets

end Tended
end Pool

/-- What a reference comes to in its place. -/
def Care.Settles (care : Care) (r : Reference) : Except ReferenceError Reference → Prop :=
  Meets (fun after => (r.isResolved = true ∧ after = r) ∨
      r.isResolved = false ∧ ∃ value, care.good r.uri (.ok value) ∧ after = r.resolveTo value)
    fun error => r.isResolved = false ∧ care.good r.uri (.error error)

namespace Care.Serves
variable {care : Care} {resolver : Resolver} {context : Context} {r : Reference}

/-- A reference in its place comes to what is good for it. -/
theorem resolveReference_keeps (serves : care.Serves resolver context)
    (known : ∀ uri ∈ r.opens, care.known uri) {base : Context} (fellow : context.Fellow base) :
    care.Keeps base (fun after => care.Settles r (.ok after))
      (fun error => care.Settles r (.error error)) (Resolver.resolveReference resolver.resolve r) := by
  unfold Resolver.resolveReference
  split
  · rename_i resolved
    exact Keeps.pure (.inl ⟨resolved, rfl⟩)
  · rename_i unresolved
    have open_ : r.isResolved = false := by simpa using unresolved
    have mentioned : r.uri ∈ r.opens := by simp [Reference.opens, open_]
    have resolves := serves.resolve_keeps (known _ mentioned) fellow
    refine Keeps.bind (Keeps.mono resolves id fun failed => ⟨open_, failed⟩) fun {value} good => ?_
    exact Keeps.pure (.inr ⟨open_, value, good, rfl⟩)

end Care.Serves

namespace Resolver
variable {resolver : Resolver} {references : List Reference} {session : Session}

/-- A task that resolves a reference only adds to its session, and leaves its context alike. -/
theorem resolution_plain (resolver : Resolver) (r : Reference) (session : Session) :
    Program.Amid .nothing (fun _ later => session.context.Like later.context) (resolver.resolution r)
      session := by
  have keeps := (Care.nothing.serves resolver session.context).resolveReference_keeps (r := r)
    (fun _ _ => trivial) (.refl session.context)
  exact (keeps session rfl (Care.nothing.calm _)).mono And.left

/-- No wait is in vain when references are resolved one after another. -/
def PatientInTurn (resolver : Resolver) : List Reference → Session → Prop
  | [], _ => True
  | r :: rest, session => Program.Patient (resolver.resolution r) session ∧
      PatientInTurn resolver rest (resolver.resolveAlone r session).2

/-- The ways to resolve references: one after another, or by tasks of their own that have turns in some
order until all have ended. Waits are perhaps given up. -/
inductive Handles (expires : Prop) (resolver : Resolver) (references : List Reference)
    (session : Session) : List (Except ReferenceError Reference) × Session → Prop where
  | inTurn (waits : expires ∨ resolver.PatientInTurn references session) :
    Handles expires resolver references session (resolver.resolveInTurn references session)
  | sideBySide {state : Pool.State (Except ReferenceError Reference)}
    (path : Relation.ReflTransGen
      (fun state next => Pool.Turn state next ∨ expires ∧ Pool.Shift state next)
      (Pool.forked session (references.map resolver.resolution)) state)
    (finished : state.Finished) :
    Handles expires resolver references session (Pool.join session state.strands state.shared)

end Resolver

namespace Care.Serves
variable {care : Care} {resolver : Resolver} {context : Context} {references : List Reference}
  {session : Session}

/-- What resolving siblings comes to, whichever way it is done. -/
structure Tends (care : Care) (references : List Reference) (session : Session)
    (outcome : List (Except ReferenceError Reference) × Session) : Prop where
  adds : session.Adds outcome.2
  like : session.context.Like outcome.2.context
  settled : care.lost outcome.2 ∨
    care.Calm outcome.2.shared ∧ List.Forall₂ care.Settles references outcome.1

private theorem tends_inTurn (serves : care.Serves resolver context) (lasting : care.Lasting)
    (fellow : context.Fellow session.context)
    (known : ∀ r ∈ references, ∀ uri ∈ r.opens, care.known uri)
    (careful : care.lost session ∨ care.Calm session.shared)
    (waits : care.expires ∨ resolver.PatientInTurn references session) :
    Tends care references session (resolver.resolveInTurn references session) := by
  induction references generalizing session with
  | nil => exact ⟨.refl _, rfl, careful.imp_right fun calm => ⟨calm, .nil⟩⟩
  | cons r rest ih =>
    have plain := resolver.resolution_plain r session
    have like : session.context.Like (resolver.resolveAlone r session).2.context :=
      (Program.Amid.alone (fun _ => id) (.inl trivial) (plain.mono fun _ => trivial) plain
        (Care.nothing.calm _)).resolve_left id
    have adds : session.Adds (resolver.resolveAlone r session).2 :=
      Program.Plain.alone (plain.mono fun _ => trivial)
    have first : care.lost (resolver.resolveAlone r session).2 ∨
        care.Calm (resolver.resolveAlone r session).2.shared ∧
          care.Settles r (resolver.resolveAlone r session).1 := by
      rcases careful with lost | calm
      · exact .inl (lasting adds lost)
      · have keeps := serves.resolveReference_keeps (known r (by simp)) fellow
        have amid := (keeps session rfl calm).mono And.right
        exact Program.Amid.alone lasting (waits.imp_right And.left) (plain.mono fun _ => trivial)
          amid calm
    obtain ⟨adds', like', others⟩ := ih (fellow.trans like.fellow)
      (fun other member => known other (List.mem_cons_of_mem _ member))
      (first.imp_right And.left) (waits.imp_right And.right)
    refine ⟨adds.trans adds', like.trans like', ?_⟩
    rcases first with lost | ⟨_, settles⟩
    · exact .inl (lasting adds' lost)
    · exact others.imp_right fun ⟨calm, rest⟩ => ⟨calm, .cons settles rest⟩

/-- Siblings come to what is good for them. -/
theorem tends (serves : care.Serves resolver context) (lasting : care.Lasting)
    {outcome : List (Except ReferenceError Reference) × Session}
    (handles : resolver.Handles care.expires references session outcome)
    (fellow : context.Fellow session.context)
    (known : ∀ r ∈ references, ∀ uri ∈ r.opens, care.known uri)
    (careful : care.lost session ∨ care.Calm session.shared) :
    Tends care references session outcome := by
  cases handles with
  | inTurn waits => exact serves.tends_inTurn lasting fellow known careful waits
  | @sideBySide state path finished =>
    have like : session.context.Like (Pool.join session state.strands state.shared).2.context := by
      rw [Pool.context_join]
      rfl
    rcases careful with lost | calm
    · -- All is lost before anyone begins, and stays so whatever the tasks do.
      have begun : Pool.Tended .nothing session (fun _ _ => True) references
          (Pool.forked session (references.map resolver.resolution)) :=
        .begin (Care.nothing.calm _)
          (fun r later => (resolver.resolution_plain r later).mono fun _ => trivial)
          (fun r _ _ {_} _ => (resolver.resolution_plain r _).mono fun _ => trivial)
      have path : Relation.ReflTransGen (fun state next => Pool.Turn state next ∨
          Care.nothing.expires ∧ Pool.Shift state next) _ _ :=
        path.lift id fun _ _ step => step.imp_right fun ⟨_, shift⟩ => ⟨trivial, shift⟩
      have adds := ((begun.shifts (fun _ => id) path).joined (fun _ => id) finished).1
      exact ⟨adds, like, .inl (lasting adds lost)⟩
    · have begun : Pool.Tended care session care.Settles references
          (Pool.forked session (references.map resolver.resolution)) := by
        refine .begin calm (fun r later => (resolver.resolution_plain r later).mono fun _ => trivial) ?_
        intro r member task shared calm
        have forked : context.Fellow (session.context.fork task) :=
          fellow.trans ⟨rfl, rfl, rfl, rfl⟩
        have keeps := serves.resolveReference_keeps (known r member) forked
        exact (keeps ⟨shared, session.context.fork task⟩ rfl calm).mono fun ⟨_, _, settles⟩ => settles
      obtain ⟨adds, settled⟩ := (begun.shifts lasting path).joined lasting finished
      exact ⟨adds, like, settled⟩

end Care.Serves
end LinkedMarkup
