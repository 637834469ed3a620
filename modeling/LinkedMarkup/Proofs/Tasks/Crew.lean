import LinkedMarkup.Proofs.Resolution.Fate
import LinkedMarkup.Proofs.Tasks.Forking

namespace LinkedMarkup
open Shared

namespace Resolver

/-- What a task may be given to do. -/
inductive Errand (resolver : Resolver) : Program Session (Except ReferenceError Unit) → Prop where
  | uri (uri : Uri) : Errand resolver ((fun _ => ()) <$> resolver.resolve uri).run
  | text (text : String) : Errand resolver ((fun _ => ()) <$> resolver.resolveText text).run
  | reference (r : Reference) :
    Errand resolver ((fun _ => ()) <$> resolveReference resolver.resolve r).run
  | element (e : Element) : Errand resolver ((fun _ => ()) <$> resolver.inherit e).run

end Resolver

/-- The main task's session, and the tasks that are at work. -/
structure Crew where
  session : Session
  strands : List (Strand (Except ReferenceError Unit)) := []

namespace Crew

def pool (crew : Crew) : Pool.State (Except ReferenceError Unit) :=
  ⟨crew.session.shared, crew.strands⟩

def withPool (crew : Crew) (pool : Pool.State (Except ReferenceError Unit)) : Crew :=
  ⟨⟨pool.shared, crew.session.context⟩, pool.strands⟩

/-- A step that is not the end of a wait that was too long. -/
inductive Step (resolver : Resolver) : Crew → Crew → Prop where
  /-- The main task records diagnostics, indexes ids and the like. -/
  | tend (session : Session) (context : Context) (same : context.task = session.context.task) :
    Step resolver ⟨session, []⟩ ⟨⟨session.shared, context⟩, []⟩
  /-- The main task goes about an errand by itself. -/
  | begin (session : Session) {program : Program Session (Except ReferenceError Unit)}
    (errand : resolver.Errand program) :
    Step resolver ⟨session, []⟩ ⟨session, [⟨session.context, program, none⟩]⟩
  /-- The main task forks a task for each errand. -/
  | fork (session : Session) {programs : List (Program Session (Except ReferenceError Unit))}
    (errands : ∀ program ∈ programs, resolver.Errand program) :
    Step resolver ⟨session, []⟩
      ⟨⟨(Pool.fork session programs session.shared).2, session.context⟩,
        (Pool.fork session programs session.shared).1⟩
  /-- A task asks for a key, takes it, is handed it, hears from a handler, ends a key, or several of
  these, until it waits. -/
  | turn {crew : Crew} {next : Pool.State (Except ReferenceError Unit)}
    (turn : Pool.Turn crew.pool next) : Step resolver crew (crew.withPool next)
  /-- The main task has done its errand. -/
  | finish (session : Session) {strand : Strand (Except ReferenceError Unit)}
    (itself : strand.context.task = session.context.task)
    (ended : strand.program.result?.isSome) :
    Step resolver ⟨session, [strand]⟩ ⟨⟨session.shared, strand.context⟩, []⟩
  /-- The main task goes on when all forked tasks have done theirs. -/
  | join (session : Session) {strands : List (Strand (Except ReferenceError Unit))}
    (apart : ∀ strand ∈ strands, strand.context.task ≠ session.context.task)
    (ended : ∀ strand ∈ strands, strand.program.result?.isSome) :
    Step resolver ⟨session, strands⟩ ⟨(Pool.join session strands session.shared).2, []⟩

/-- A wait of some task was too long. -/
inductive Lapse : Crew → Crew → Prop where
  | mk {crew : Crew} {next : Pool.State (Except ReferenceError Unit)}
    (expiry : Pool.Expiry crew.pool next) : Lapse crew (crew.withPool next)

def Moves (resolver : Resolver) (crew next : Crew) : Prop := Step resolver crew next ∨ Lapse crew next

/-- The crew comes about from a main task that has not begun with anything. -/
def Reachable (resolver : Resolver) (crew : Crew) : Prop :=
  ∃ context : Context, context.task = 0 ∧
    Relation.ReflTransGen (Moves resolver) ⟨⟨{}, context⟩, []⟩ crew

theorem Reachable.turns {resolver : Resolver} {crew : Crew}
    {next : Pool.State (Except ReferenceError Unit)} (reachable : Reachable resolver crew)
    (turns : Pool.Turns crew.pool next) : Reachable resolver (crew.withPool next) := by
  obtain ⟨context, first, path⟩ := reachable
  refine ⟨context, first, path.trans ?_⟩
  induction turns with
  | refl => exact .refl
  | tail _ turn ih => exact ih.tail (.inl (.turn turn))

end Crew

/-- An answer that comes when the others have had a turn. -/
def Answer.slow : Answer := { turns := 1, outcome? := some (.ok (.text "found")) }

def Crew.pair (answer : Answer) : Nat → Crew
  | 0 =>
    let errand := ((fun _ => ()) <$> (Resolver.constant answer).resolve ⟨"s", "r"⟩).run
    let forked := Pool.fork {} [errand, errand] {}
    ⟨⟨forked.2, {}⟩, forked.1⟩
  | rounds + 1 =>
    let crew := pair answer rounds
    let result := Pool.round 0 crew.session.shared crew.strands
    crew.withPool ⟨result.2.1, result.1⟩

theorem Crew.reachable_pair (answer : Answer) (rounds : Nat) :
    Reachable (.constant answer) (pair answer rounds) := by
  induction rounds with
  | zero =>
    refine ⟨{}, rfl, .single (.inl (.fork {} fun program member => ?_))⟩
    simp only [List.mem_cons, List.not_mem_nil, or_false, or_self] at member
    exact member ▸ .uri ⟨"s", "r"⟩
  | succ rounds ih => exact ih.turns (Pool.round_turns 0 _ [] _)

/-- Every handler answers every request in the end. -/
def Protocols.Answer (protocols : Protocols) : Prop :=
  ∀ handler ∈ protocols.handlers, ∀ request, (handler.answer request).outcome? ≠ none

def Policy.lenient (resolver : Resolver) : Policy where
  start := {}
  handled uri := (resolver.protocols.find? uri.protocol).isSome
  ends uri outcome _ := resolver.protocols.find? uri.protocol = none →
    outcome = .error (.unsupportedProtocol uri.protocol uri.key)
  remains _ holds := holds
  above _ _ := True
  expires := True
  silent := ¬ resolver.protocols.Answer

namespace Policy.lenient
variable {resolver : Resolver}

private theorem fate (resolver : Resolver) (context : Context) :
    Fate resolver (lenient resolver) context (fun _ => True) fun _ _ => True where
  handled_iff := Iff.rfl
  above _ _ := trivial
  ends _ _ unhandled none := unhandled (by simp [lenient, none])
  value _ _ _ := trivial
  failure _ _ _ := trivial
  opens _ _ _ _ := trivial
  circular _ _ := trivial
  deep _ _ := trivial
  wait _ _ _ := trivial
  silent found none answers := by
    obtain ⟨handler, member, rfl⟩ := Option.map_eq_some_iff.mp found
    exact answers _ (Protocols.mem_of_find? member) _ none
  late _ _ _ := trivial
  unsupported _ _ := trivial
  refused _ _ _ := trivial
  leads _ _ _ _ _ := trivial
  expanded _ _ _ _ _ := trivial
  broken _ _ _ _ := trivial

variable {base : Session}

private theorem resolve_keeps (fit : base.shared.Fit base.context.task) (uri : Uri) :
    (lenient resolver).Keeps base (fun _ => True) (fun _ => True) (resolver.resolve uri) :=
  (fate resolver base.context).resolve trivial (.refl _) fit

private theorem ancestor_keeps (fit : base.shared.Fit base.context.task) (target : String) :
    (lenient resolver).Keeps base (fun _ => True) (fun _ => True)
      (Resolver.ancestor resolver.resolve target) := by
  unfold Resolver.ancestor
  split
  · exact Keeps.throw trivial
  · refine Keeps.bind (resolve_keeps fit _) fun {value} _ => ?_
    cases Resolver.ancestorOf _ value with
    | ok e => exact Keeps.pure trivial
    | error error => exact Keeps.throw trivial

private theorem resolveText_keeps (fit : base.shared.Fit base.context.task) (text : String) :
    (lenient resolver).Keeps base (fun _ => True) (fun _ => True) (resolver.resolveText text) := by
  unfold Resolver.resolveText
  split
  · exact Keeps.throw trivial
  · exact resolve_keeps fit _

private theorem resolveReference_keeps (fit : base.shared.Fit base.context.task) (r : Reference) :
    (lenient resolver).Keeps base (fun _ => True) (fun _ => True)
      (Resolver.resolveReference resolver.resolve r) := by
  unfold Resolver.resolveReference
  split
  · exact Keeps.pure trivial
  · exact Keeps.bind (resolve_keeps fit _) fun _ => Keeps.pure trivial

private theorem inherit_keeps (fit : base.shared.Fit base.context.task) (e : Element) :
    (lenient resolver).Keeps base (fun _ => True) (fun _ => True) (resolver.inherit e) := by
  unfold Resolver.inherit
  split
  · exact Keeps.pure trivial
  · refine Keeps.bind (ancestor_keeps fit _) fun {a} _ => ?_
    have warns : (lenient resolver).Keeps base (fun _ => True) (fun _ => True)
        (resolver.warnDiscarded e a) := by
      unfold Resolver.warnDiscarded
      split
      · exact Keeps.warn trivial _ _
      · exact Keeps.pure trivial
    exact Keeps.bind warns fun _ => Keeps.pure trivial

theorem errand_keeps (fit : base.shared.Fit base.context.task)
    {program : Program Session (Except ReferenceError Unit)} (errand : resolver.Errand program) :
    (lenient resolver).Keeps base (fun _ => True) (fun _ => True) (ExceptT.mk program) := by
  cases errand with
  | uri uri => exact Keeps.map (resolve_keeps fit uri) fun _ => trivial
  | text text => exact Keeps.map (resolveText_keeps fit text) fun _ => trivial
  | reference r => exact Keeps.map (resolveReference_keeps fit r) fun _ => trivial
  | element e => exact Keeps.map (inherit_keeps fit e) fun _ => trivial

end Policy.lenient

namespace Crew
variable {resolver : Resolver} {crew next : Crew}

/-- A task that has ended owns and awaits what it did at the base. -/
def Rested (resolver : Resolver) (base : Shared) (task : Nat)
    (_ : Except ReferenceError Unit) (last : Session) : Prop :=
  Kept (Policy.lenient resolver).start task base last.shared

/-- The tasks of the crew keep to the policy, and no other task has a part in the locks. -/
structure Ordered (resolver : Resolver) (base : Shared) (crew : Crew) : Prop where
  manned : Pool.Manned (.lenient resolver) base (Rested resolver base) crew.pool
  quiet : base.Quiet
  fit : ∀ {task}, task ∈ crew.pool.tasks → base.Fit task
  known : crew.session.context.task ≤ base.lastTask
  heirs : ∀ {child}, (child, crew.session.context.task) ∈ base.forks → child ∈ crew.pool.tasks
  mainTask : crew.pool.tasks = [crew.session.context.task] ∨
    crew.session.context.task ∉ crew.pool.tasks

theorem rested_stable (resolver : Resolver) (base : Shared) :
    Pool.Stable (.lenient resolver) (Rested resolver base) :=
  fun own kept resumes => Shared.Kept.trans kept (own ▸ resumes.aside.toKept)

namespace Ordered
variable {base : Shared}

theorem closed (ordered : Ordered resolver base crew) :
    Pool.Closed base (Rested resolver base) crew.pool.tasks where
  quiet := ordered.quiet
  leaf member := (ordered.fit member).leaf _
  rests {task _ _} _ kept := by
    refine ⟨fun key owns => ?_, fun key waits => ?_⟩
    · have before := kept.bare owns
      simp [ordered.quiet.owners] at before
    · exact ordered.quiet.waiting _ _ (kept.waits.mp waits)

theorem idle (ordered : Ordered resolver base crew)
    (ended : ∀ strand ∈ crew.strands, strand.program.result?.isSome) {session : Session}
    (shared : session.shared = { crew.session.shared with
      forks := crew.session.shared.forks.filter (·.1 ∉ crew.pool.tasks) })
    (task : session.context.task = crew.session.context.task) :
    (Policy.lenient resolver).Idle session := by
  have quiet := ordered.manned.quiet_of_finished ordered.closed ended
  refine ⟨?_, ?_, fun child fork => ?_, ?_⟩
  · rw [shared]
    exact ordered.manned.sound.fewerForks (List.filter_subset_self _)
  · rw [shared]
    exact ⟨quiet.owners, quiet.waiting⟩
  · rw [shared, task] at fork
    obtain ⟨old, outside⟩ := List.mem_filter.mp fork
    have heir := ordered.heirs (ordered.manned.forks ▸ old)
    simp [heir] at outside
  · rw [shared, task]
    exact ordered.manned.lastTask ▸ ordered.known

theorem idle_of_rest {session : Session} (ordered : Ordered resolver base ⟨session, []⟩) :
    (Policy.lenient resolver).Idle session :=
  ordered.idle (by simp) (by simp [pool, Pool.State.tasks]) rfl

/-- A crew whose main task has nothing at work is in order. -/
theorem rest {session : Session} (idle : (Policy.lenient resolver).Idle session) :
    Ordered resolver session.shared ⟨session, []⟩ where
  manned := .begin idle.sound List.nodup_nil fun member => by cases member
  quiet := idle.quiet
  fit member := by cases member
  known := idle.known
  heirs fork := False.elim (idle.leaf _ fork)
  mainTask := .inr (by simp [pool, Pool.State.tasks])

theorem begin {session : Session} (idle : (Policy.lenient resolver).Idle session)
    {program : Program Session (Except ReferenceError Unit)} (errand : resolver.Errand program) :
    Ordered resolver session.shared ⟨session, [⟨session.context, program, none⟩]⟩ where
  manned := by
    refine .begin idle.sound (List.nodup_singleton _) fun {strand} member {later} resumes => ?_
    cases List.mem_singleton.mp member
    have keeps := Policy.lenient.errand_keeps idle.fit errand
    refine (keeps later resumes.sound ((Policy.Within.refl _ _).resumes resumes)).mono
      resumes.sound fun _ holds => holds.1.kept
  quiet := idle.quiet
  fit member := by
    cases List.mem_singleton.mp member
    exact idle.fit
  known := idle.known
  heirs fork := False.elim (idle.leaf _ fork)
  mainTask := .inl rfl

theorem fork {session : Session} (idle : (Policy.lenient resolver).Idle session)
    {programs : List (Program Session (Except ReferenceError Unit))}
    (errands : ∀ program ∈ programs, resolver.Errand program) :
    Ordered resolver (Pool.fork session programs session.shared).2
      ⟨⟨(Pool.fork session programs session.shared).2, session.context⟩,
        (Pool.fork session programs session.shared).1⟩ where
  manned := by
    refine .begin (idle.sound.forks idle.quiet idle.known programs) ?_
      fun {strand} member {later} resumes => ?_
    · rw [Pool.tasks_fork]
      exact List.nodup_range'
    · have fit := Pool.fit_fork idle (List.mem_map.mpr ⟨strand, member, rfl⟩)
      rw [Pool.strands_fork] at member
      obtain ⟨⟨program, task⟩, given, rfl⟩ := List.mem_map.mp member
      let base : Session :=
        ⟨(Pool.fork session programs session.shared).2, session.context.fork task⟩
      have keeps : (Policy.lenient resolver).Keeps base (fun _ => True) (fun _ => True)
          (ExceptT.mk program) :=
        Policy.lenient.errand_keeps fit (errands program (List.fst_mem_of_mem_zipIdx given))
      refine (keeps later resumes.sound ((Policy.Within.refl _ _).resumes resumes)).mono
        resumes.sound fun _ holds => holds.1.kept
  quiet := Pool.quiet_fork idle programs
  fit := Pool.fit_fork idle
  known := by
    rw [Pool.shared_fork]
    exact Nat.le_add_right_of_le idle.known
  heirs {child} fork := by
    rw [Pool.shared_fork] at fork
    rcases List.mem_append.mp fork with old | new
    · exact False.elim (idle.leaf _ old)
    · obtain ⟨task, member, same⟩ := List.mem_map.mp new
      cases same
      rw [← Pool.tasks_fork] at member
      exact member
  mainTask := .inr fun member => by
    have above := (Pool.mem_tasks_fork.mp member).1
    exact absurd idle.known (Nat.not_le.mpr above)

theorem turned {pool : Pool.State (Except ReferenceError Unit)}
    (ordered : Ordered resolver base crew)
    (manned : Pool.Manned (.lenient resolver) base (Rested resolver base) pool)
    (tasks : pool.tasks = crew.pool.tasks) : Ordered resolver base (crew.withPool pool) where
  manned := manned
  quiet := ordered.quiet
  fit member := ordered.fit (tasks ▸ member)
  known := ordered.known
  heirs fork := by
    show _ ∈ pool.tasks
    rw [tasks]
    exact ordered.heirs fork
  mainTask := by
    show pool.tasks = _ ∨ _ ∉ pool.tasks
    rw [tasks]
    exact ordered.mainTask

theorem moves (ordered : Ordered resolver base crew) (moves : Moves resolver crew next) :
    ∃ base, Ordered resolver base next := by
  rcases moves with step | lapse
  · cases step with
    | tend session context same =>
      have rests := ordered.idle_of_rest
      exact ⟨_, rest ⟨rests.sound, rests.quiet, same ▸ rests.leaf, same ▸ rests.known⟩⟩
    | begin session errand => exact ⟨_, begin ordered.idle_of_rest errand⟩
    | fork session errands => exact ⟨_, fork ordered.idle_of_rest errands⟩
    | turn turn =>
      obtain ⟨manned, tasks, _⟩ := ordered.manned.turn (rested_stable resolver base) turn
      exact ⟨base, ordered.turned manned tasks⟩
    | @finish session strand itself ended =>
      have main := ordered.fit (List.mem_singleton.mpr itself.symm)
      have finished : (pool ⟨session, [strand]⟩).Finished :=
        fun _ member => List.mem_singleton.mp member ▸ ended
      refine ⟨_, rest ⟨ordered.manned.sound,
        ordered.manned.quiet_of_finished ordered.closed finished, ?_, ?_⟩⟩
      · exact fun child fork => main.leaf child (itself ▸ ordered.manned.forks ▸ fork)
      · exact ordered.manned.lastTask ▸ itself ▸ main.known
    | join session apart ended =>
      refine ⟨_, rest (ordered.idle ended (Pool.shared_join _ _ _) ?_)⟩
      rw [Pool.context_join]
  · obtain ⟨expiry⟩ := lapse
    obtain ⟨manned, tasks, _⟩ := ordered.manned.expiry (rested_stable resolver base) trivial expiry
    exact ⟨base, ordered.turned manned tasks⟩

theorem of_reachable (reachable : Reachable resolver crew) : ∃ base, Ordered resolver base crew := by
  obtain ⟨context, first, path⟩ := reachable
  induction path with
  | refl =>
    exact ⟨_, rest (.begin rfl .nothing (by simp [first]))⟩
  | tail _ step ih =>
    obtain ⟨base, ordered⟩ := ih
    exact ordered.moves step

end Ordered
end Crew
end LinkedMarkup
