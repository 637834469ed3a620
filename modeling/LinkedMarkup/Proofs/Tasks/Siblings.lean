import LinkedMarkup.Proofs.Resolution.Fate
import LinkedMarkup.Proofs.Tasks.Forking
import LinkedMarkup.Visitor.References

namespace LinkedMarkup
open Shared

namespace Pool
variable {α : Type} {policy : Policy} {base : Shared} {post : Nat → α → Session → Prop}
  {state next : State α} {session : Session}

def forked (session : Session) (programs : List (Program Session α)) : State α :=
  ⟨(fork session programs session.shared).2, (fork session programs session.shared).1⟩

theorem Manned.turns (manned : Manned policy base post state) (stable : Stable policy post)
    (turns : Turns state next) : Manned policy base post next ∧ next.tasks = state.tasks := by
  induction turns with
  | refl => exact ⟨manned, rfl⟩
  | tail _ turn ih =>
    obtain ⟨manned, tasks, _⟩ := ih.1.turn stable turn
    exact ⟨manned, tasks.trans ih.2⟩

/-- What holds of the result of each program holds in their order when all have ended. -/
theorem forall₂_of_finished {ι : Type} {holds : ι → α → Session → Prop} {items : List ι}
    {first : Nat} {shared : Shared} {strands : List (Strand α)}
    (tasks : strands.map (·.context.task) = List.range' first items.length)
    (ended : ∀ strand ∈ strands, ∃ item result, (item, strand.context.task) ∈ items.zipIdx first ∧
      strand.program.result? = some result ∧ holds item result (strand.session shared)) :
    List.Forall₂ (fun item strand => ∃ result, strand.program.result? = some result ∧
      holds item result (strand.session shared)) items strands := by
  induction items generalizing first strands with
  | nil => rw [List.map_eq_nil_iff.mp tasks]; exact .nil
  | cons item rest ih =>
    obtain ⟨strand, others, rfl, here, there⟩ := List.map_eq_cons_iff.mp tasks
    refine .cons ?_ (ih there fun other member => ?_)
    · obtain ⟨itself, result, place, done, meets⟩ := ended strand (by simp)
      rw [here, List.zipIdx_cons] at place
      rcases List.mem_cons.mp place with same | later
      · cases same
        exact ⟨result, done, meets⟩
      · have above := List.le_snd_of_mem_zipIdx later
        simp only at above
        omega
    · obtain ⟨itself, result, place, done, meets⟩ := ended other (by simp [member])
      have later : first + 1 ≤ other.context.task := by
        have inside : other.context.task ∈ List.range' (first + 1) rest.length :=
          there ▸ List.mem_map.mpr ⟨other, member, rfl⟩
        exact (List.mem_range'_1.mp inside).1
      rw [List.zipIdx_cons] at place
      rcases List.mem_cons.mp place with same | behind
      · have equal : other.context.task = first := congrArg Prod.snd same
        omega
      · exact ⟨itself, result, behind, done, meets⟩

theorem filterMap_result {ι : Type} {holds : ι → α → Session → Prop} {items : List ι}
    (shared : Shared) {strands : List (Strand α)}
    (ended : List.Forall₂ (fun item strand => ∃ result, strand.program.result? = some result ∧
      holds item result (strand.session shared)) items strands) :
    List.Forall₂ (fun item result => ∃ last, holds item result last) items
      (strands.filterMap (·.program.result?)) := by
  induction ended with
  | nil => exact .nil
  | cons here _ ih =>
    obtain ⟨result, done, meets⟩ := here
    simp only [List.filterMap_cons, done]
    exact .cons ⟨_, meets⟩ ih

end Pool

namespace Policy
variable {policy : Policy} {session : Session} {α : Type}

/-- A task that has only done work of its own is idle again. -/
theorem Idle.of_within {later : Session} (idle : policy.Idle session)
    (within : policy.Within session later)
    (step : policy.Step session.context.task session.shared later.shared) :
    policy.Idle later := by
  have fit := within.fit idle.fit
  refine ⟨step.sound, ⟨fun key => ?_, fun task key waits => ?_⟩, fit.leaf, fit.known⟩
  · cases owner : later.shared.owners.find? key with
    | none => rfl
    | some task =>
      have before : session.shared.owners.find? key = some task := by
        by_cases same : task = session.context.task
        · exact same ▸ within.kept.bare (same ▸ owner)
        · exact (step.aside same).bare owner
      simp [idle.quiet.owners] at before
  · have before : (task, key) ∈ session.shared.waiting := by
      by_cases same : task = session.context.task
      · exact same ▸ within.kept.waits.mp (same ▸ waits)
      · exact (step.aside same).waits.mp waits
    exact idle.quiet.waiting _ _ before

/-- An idle task that resolves by itself comes to an end and is idle again. -/
theorem Idle.alone {program : Program Session α} {holds : α → Session → Prop}
    (idle : policy.Idle session) (answers : ¬ policy.silent)
    (safe : Program.Safe policy (fun result later => policy.Within session later ∧
      holds result later) program session) :
    policy.Idle (program.alone session).2 ∧
      session.context.Like (program.alone session).2.context ∧
      policy.Step session.context.task session.shared (program.alone session).2.shared ∧
      holds (program.alone session).1 (program.alone session).2 := by
  obtain ⟨⟨within, meets⟩, step, _⟩ := safe.alone answers idle.sound idle.sole
  exact ⟨idle.of_within within step, within.context, step, meets⟩

end Policy

/-- References that a task has to resolve, by itself or by tasks that it forks. What `holds` of a
reference, of the session in which its resolution begins, of the result and of the session of its
task in the end, is not touched by other tasks. -/
structure Resolver.Work (resolver : Resolver) (policy : Policy) (session : Session)
    (references : List Reference)
    (holds : Reference → Session → Except ReferenceError Reference → Session → Prop) : Prop where
  idle : policy.Idle session
  answers : ¬ policy.silent
  does : ∀ {r now}, r ∈ references → policy.Sound now.shared → now.shared.Fit now.context.task →
    (∀ key, now.shared.owners.find? key ≠ some now.context.task) →
    session.context.Fellow now.context → now.context.resolving = session.context.resolving →
    Program.Safe policy (fun result later => policy.Within now later ∧ holds r now result later)
      (resolver.resolution r) now
  stays : ∀ {r now result before after}, holds r now result before → policy.Resumes before after →
    holds r now result after

namespace Resolver.Work
variable {resolver : Resolver} {policy : Policy} {session : Session} {r : Reference}
  {references : List Reference}
  {holds : Reference → Session → Except ReferenceError Reference → Session → Prop}

/-- The task resolves the first reference by itself and has the others left. -/
theorem alone (work : resolver.Work policy session (r :: references) holds) :
    holds r session (resolver.resolveAlone r session).1 (resolver.resolveAlone r session).2 ∧
      session.context.Like (resolver.resolveAlone r session).2.context ∧
      policy.Step session.context.task session.shared (resolver.resolveAlone r session).2.shared ∧
      resolver.Work policy (resolver.resolveAlone r session).2 references holds := by
  have safe := work.does (List.mem_cons_self) work.idle.sound work.idle.fit
    (fun key => by simp [work.idle.quiet.owners]) (.refl _) rfl
  obtain ⟨idle, like, step, meets⟩ := work.idle.alone work.answers safe
  have like : session.context.Like (resolver.resolveAlone r session).2.context := like
  refine ⟨meets, like, step, idle, work.answers, ?_, work.stays⟩
  intro other now member sound fit bare fellow same
  refine work.does (List.mem_cons_of_mem _ member) sound fit bare (like.fellow.trans fellow) ?_
  rw [same, like]

abbrev base (resolver : Resolver) (session : Session) (references : List Reference) (task : Nat) :
    Session :=
  ⟨(Pool.forked session (references.map resolver.resolution)).shared, session.context.fork task⟩

def Ended (resolver : Resolver) (policy : Policy) (session : Session) (references : List Reference)
    (holds : Reference → Session → Except ReferenceError Reference → Session → Prop)
    (r : Reference) (result : Except ReferenceError Reference) (last : Session) : Prop :=
  ∃ now, policy.Resumes (base resolver session references last.context.task) now ∧
    policy.Within now last ∧ holds r now result last

def Numbered (resolver : Resolver) (policy : Policy) (session : Session)
    (references : List Reference)
    (holds : Reference → Session → Except ReferenceError Reference → Session → Prop)
    (task : Nat) (result : Except ReferenceError Reference) (last : Session) : Prop :=
  task = last.context.task ∧
    ∃ r, (r, task) ∈ references.zipIdx (session.shared.lastTask + 1) ∧
      Ended resolver policy session references holds r result last

theorem stable (work : resolver.Work policy session references holds) :
    Pool.Stable policy (Numbered resolver policy session references holds) := by
  intro task result before after own ⟨same, r, place, now, begins, within, meets⟩ resumes
  refine ⟨own ▸ congrArg Context.task resumes.context.symm, r, place, now, ?_,
    within.resumes resumes, work.stays meets resumes⟩
  rw [resumes.context]
  exact begins

theorem manned (work : resolver.Work policy session references holds) :
    Pool.Manned policy (Pool.forked session (references.map resolver.resolution)).shared
      (Numbered resolver policy session references holds)
      (Pool.forked session (references.map resolver.resolution)) := by
  have idle := work.idle
  refine .begin (idle.sound.forks idle.quiet idle.known _) ?_
    fun {strand} member {later} resumes => ?_
  · rw [Pool.tasks_fork]
    exact List.nodup_range'
  · have fit := Pool.fit_fork idle (List.mem_map.mpr ⟨strand, member, rfl⟩)
    have quiet := Pool.quiet_fork idle (references.map resolver.resolution)
    have member : strand ∈
        (Pool.fork session (references.map resolver.resolution) session.shared).1 := member
    rw [Pool.strands_fork] at member
    obtain ⟨⟨program, task⟩, given, rfl⟩ := List.mem_map.mp member
    obtain ⟨r, place, rfl⟩ : ∃ r, (r, task) ∈ references.zipIdx (session.shared.lastTask + 1) ∧
        program = resolver.resolution r := by
      rw [List.zipIdx_map] at given
      obtain ⟨⟨r, number⟩, place, same⟩ := List.mem_map.mp given
      cases same
      exact ⟨r, place, rfl⟩
    have context : later.context = session.context.fork task := resumes.context
    have same : later.context.task = task := by rw [context]; rfl
    have within : policy.Within (base resolver session references task) later :=
      (Policy.Within.refl _ _).resumes resumes
    have safe := work.does (List.fst_mem_of_mem_zipIdx place) resumes.sound (within.fit fit)
      (fun key owns => by
        have before := within.kept.bare (same ▸ owns)
        cases (quiet.owners key).symm.trans before)
      (by rw [context]; exact ⟨rfl, rfl, rfl, rfl⟩) (by rw [context]; rfl)
    refine safe.mono resumes.sound fun {result last} _ ⟨inside, meets⟩ => ?_
    have number : last.context.task = task := inside.task_eq.trans same
    exact ⟨number.symm, r, place, later, number ▸ resumes, inside, meets⟩

theorem tasks_forked (session : Session) (references : List Reference) :
    (Pool.forked session (references.map resolver.resolution)).tasks =
      List.range' (session.shared.lastTask + 1) references.length := by
  rw [Pool.forked, Pool.State.tasks, Pool.tasks_fork, List.length_map]

theorem closed (work : resolver.Work policy session references holds) :
    Pool.Closed (Pool.forked session (references.map resolver.resolution)).shared
      (Numbered resolver policy session references holds)
      (Pool.forked session (references.map resolver.resolution)).tasks where
  quiet := Pool.quiet_fork work.idle _
  leaf member := (Pool.fit_fork work.idle member).leaf _
  rests := by
    rintro task result last _ ⟨same, r, _, now, begins, within, _⟩
    have quiet := Pool.quiet_fork work.idle (references.map resolver.resolution)
    have whole := (Policy.Within.refl policy _).resumes begins
    have kept := (whole.trans within).kept
    subst same
    refine ⟨fun key owns => ?_, fun key waits => ?_⟩
    · cases (quiet.owners key).symm.trans (kept.bare owns)
    · exact quiet.waiting _ _ (kept.waits.mp waits)

variable {state : Pool.State (Except ReferenceError Reference)}

/-- The forked tasks never come to a standstill before all have ended. -/
theorem finished_of_stuck (work : resolver.Work policy session references holds)
    (turns : Pool.Turns (Pool.forked session (references.map resolver.resolution)) state)
    (stuck : ∀ strand ∈ state.strands, strand.isStuck state.shared = true) : state.Finished := by
  obtain ⟨manned, tasks⟩ := work.manned.turns work.stable turns
  exact manned.finished_of_stuck (tasks ▸ work.closed) work.answers stuck

/-- When all forked tasks have ended, their results stand in the order of the references. -/
theorem ended (work : resolver.Work policy session references holds)
    (turns : Pool.Turns (Pool.forked session (references.map resolver.resolution)) state)
    (finished : state.Finished) :
    List.Forall₂ (fun r strand => ∃ result, strand.program.result? = some result ∧
        Ended resolver policy session references holds r result (strand.session state.shared))
      references state.strands := by
  obtain ⟨manned, tasks⟩ := work.manned.turns work.stable turns
  rw [tasks_forked] at tasks
  refine Pool.forall₂_of_finished tasks fun strand member => ?_
  obtain ⟨result, done⟩ := Option.isSome_iff_exists.mp (finished strand member)
  obtain ⟨_, r, place, meets⟩ := manned.ended member done
  exact ⟨r, result, place, done, meets⟩

theorem joined (work : resolver.Work policy session references holds)
    (turns : Pool.Turns (Pool.forked session (references.map resolver.resolution)) state)
    (finished : state.Finished) :
    policy.Idle (Pool.join session state.strands state.shared).2 ∧
      session.context.Like (Pool.join session state.strands state.shared).2.context := by
  obtain ⟨manned, tasks⟩ := work.manned.turns work.stable turns
  have quiet := manned.quiet_of_finished (tasks ▸ work.closed) finished
  have shared := Pool.shared_join session state.strands state.shared
  have context := Pool.context_join session state.strands state.shared
  refine ⟨⟨?_, ?_, fun child fork => ?_, ?_⟩, by rw [context]; rfl⟩
  · rw [shared]
    exact manned.sound.fewerForks (List.filter_subset_self _)
  · rw [shared]
    exact ⟨quiet.owners, quiet.waiting⟩
  · rw [shared, context, manned.forks] at fork
    obtain ⟨old, outside⟩ := List.mem_filter.mp fork
    have outside : child ∉ state.tasks := by
      simpa [Pool.State.tasks] using outside
    rw [tasks] at outside
    have forks : (child, session.context.task) ∈
        (Pool.fork session (references.map resolver.resolution) session.shared).2.forks := old
    rw [Pool.shared_fork] at forks
    rcases List.mem_append.mp forks with before | new
    · exact work.idle.leaf _ before
    · obtain ⟨task, member, same⟩ := List.mem_map.mp new
      cases same
      rw [tasks_forked] at outside
      exact outside (by simpa using member)
  · rw [shared, context, manned.lastTask]
    have later : session.shared.lastTask ≤
        (Pool.fork session (references.map resolver.resolution) session.shared).2.lastTask := by
      rw [Pool.shared_fork]
      exact Nat.le_add_right _ _
    exact work.idle.known.trans later

end Resolver.Work

/-- A way to resolve siblings goes through them in turn or lets tasks of their own have turns in
some order, provided that this comes to no standstill. -/
def Resolver.Orders (resolver : Resolver) (siblings : Visitor.Siblings) : Prop :=
  ∀ references session,
    (∀ {state}, Pool.Turns (Pool.forked session (references.map resolver.resolution)) state →
      (∀ strand ∈ state.strands, strand.isStuck state.shared = true) → state.Finished) →
    siblings references session = resolver.resolveInTurn references session ∨
      ∃ state, Pool.Turns (Pool.forked session (references.map resolver.resolution)) state ∧
        state.Finished ∧
        siblings references session = Pool.join session state.strands state.shared

/-- The two ways of the library are such ways. -/
theorem Resolver.orders_siblings (resolver : Resolver) (concurrent : Bool) :
    resolver.Orders (Visitor.siblings resolver concurrent) := by
  intro references session goesOn
  rw [Visitor.siblings]
  split
  · match references with
    | [] => exact .inl rfl
    | [r] => exact .inl rfl
    | first :: second :: rest =>
      let programs := (first :: second :: rest).map resolver.resolution
      have run := Pool.run_turns (Pool.Turns (Pool.forked session programs)) 0 .refl
        (fun path turn => path.tail turn) fun path stuck => goesOn path stuck
      exact .inr ⟨_, run.1, run.2, rfl⟩
  · exact .inl rfl

end LinkedMarkup
