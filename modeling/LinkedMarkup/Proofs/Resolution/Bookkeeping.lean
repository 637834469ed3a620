import LinkedMarkup.Proofs.Resolution.Restoration
import LinkedMarkup.Proofs.Tasks.Crew
import LinkedMarkup.Visitor.References

namespace LinkedMarkup
open Program Session Shared

theorem Table.eq_nil_of_find? {α : Type} {table : Table α} (empty : ∀ key, table.find? key = none) :
    table = [] := by
  cases table with
  | nil => rfl
  | cons entry rest =>
    have found := empty entry.1
    simp [find?] at found

namespace Pool
variable {α : Type} {holds : α → Context → Prop} {state next : State α}

/-- However the others have their turns, the tasks of a pool end as is told. -/
def Destined (holds : α → Context → Prop) (state : State α) : Prop :=
  ∀ strand ∈ state.strands, ∀ shared, Always strand.program (strand.session shared)
    fun _ result last => holds result last.context

private theorem destined_step {shared later : Shared} {before after : List (Strand α)}
    {strand moved : Strand α} (destined : Destined holds ⟨shared, before ++ strand :: after⟩)
    (always : ∀ shared, Always moved.program (moved.session shared)
      fun _ result last => holds result last.context) :
    Destined holds ⟨later, before ++ moved :: after⟩ := by
  intro other member
  have place : other = moved ∨ other ∈ before ∨ other ∈ after := by
    simpa [or_left_comm] using member
  rcases place with rfl | elsewhere
  · exact always
  · exact destined other (by simpa using elsewhere.imp id .inr)

theorem Destined.turn (destined : Destined holds state) (turn : Turn state next) :
    Destined holds next := by
  obtain ⟨now, shared, before, strand, after, free⟩ := turn
  exact destined_step destined (destined strand (by simp) shared).turn

theorem Destined.expiry (destined : Destined holds state) (expiry : Expiry state next) :
    Destined holds next := by
  obtain ⟨now, shared, before, ⟨context, program, deadline⟩, after, stuck, waits⟩ := expiry
  have always := destined ⟨context, program, deadline⟩ (by simp) shared
  cases program with
  | await ready limit next late =>
    have fails : ready ⟨shared, context⟩ = false := by
      simpa [Strand.isStuck, Program.isStuck, Strand.session] using stuck
    have goesOn : Always late ⟨shared, context⟩ fun _ result last => holds result last.context :=
      fun _ _ _ course => always _ _ _ (.expires shared fails course)
    exact destined_step destined goesOn.turn
  | done result => cases waits
  | read next => cases stuck
  | change update next => cases stuck
  | pause next => cases stuck

/-- What the end of a task is told to be holds when it has ended. -/
theorem Destined.ended (destined : Destined holds state) {strand : Strand α}
    (member : strand ∈ state.strands) {result : α} (done : strand.program.result? = some result) :
    holds result strand.context := by
  have always := destined strand member state.shared
  cases found : strand.program with
  | done last =>
    rw [found] at always done
    cases done
    exact always _ _ _ (.done _ _)
  | read | change | pause | await => simp [found, Program.result?] at done

end Pool

namespace Crew
variable {resolver : Resolver} {crew next : Crew}

/-- Whatever becomes of an errand, its task resolves the same keys as before in the end. -/
theorem errand_restores {program : Program Session (Except ReferenceError Unit)}
    (errand : resolver.Errand program) (session : Session) :
    Always program session fun _ _ last =>
      last.context.resolving = session.context.resolving := by
  have forget {α : Type} {resolution : Resolving α}
      (likes : Always resolution.run session fun _ _ last => session.context.Like last.context) :
      Always ((fun _ => ()) <$> resolution).run session fun _ _ last =>
        last.context.resolving = session.context.resolving := by
    refine likes.bind fun {_ outcome last} like => ?_
    have same : last.context.resolving = session.context.resolving := by rw [like]
    cases outcome with
    | ok result => exact .done same
    | error error => exact .done same
  have resolves (uri : Uri) := (resolver.resolve_reverts uri session).mono fun reverts => reverts.1
  cases errand with
  | uri uri => exact forget (resolves uri)
  | text text =>
    refine forget ?_
    unfold Resolver.resolveText
    split
    · exact .done rfl
    · exact resolves _
  | reference r => exact forget ((resolver.resolution_reverts r session).mono fun reverts => reverts.1)
  | element e => exact forget ((resolver.inherit_reverts e session).mono fun reverts => reverts.1)

/-- Every task that is at work ends with the stack of the main task. -/
def Restoring (crew : Crew) : Prop :=
  Pool.Destined (fun _ context => context.resolving = crew.session.context.resolving) crew.pool

private theorem Restoring.moves (restoring : crew.Restoring) (moves : Moves resolver crew next) :
    next.Restoring := by
  rcases moves with step | ⟨⟨expiry⟩⟩
  · cases step with
    | tend | finish | join => exact fun strand member => by cases member
    | begin session errand =>
      intro strand member shared
      cases List.mem_singleton.mp member
      exact errand_restores errand _
    | fork session errands =>
      intro strand member shared
      have member : strand ∈ (Pool.fork session _ session.shared).1 := member
      rw [Pool.strands_fork] at member
      obtain ⟨⟨program, task⟩, given, rfl⟩ := List.mem_map.mp member
      exact errand_restores (errands program (List.fst_mem_of_mem_zipIdx given)) _
    | turn turn => exact Pool.Destined.turn restoring turn
  · exact Pool.Destined.expiry restoring expiry

theorem restoring_of_reachable (reachable : Reachable resolver crew) : crew.Restoring := by
  obtain ⟨context, first, path⟩ := reachable
  induction path with
  | refl => exact fun strand member => by cases member
  | tail _ step ih => exact ih.moves step

/-- All forks are tasks that the main task has forked and not yet absorbed. -/
def Attended (crew : Crew) : Prop :=
  ∀ child parent, (child, parent) ∈ crew.session.shared.forks →
    child ∈ crew.pool.tasks ∧ child ≠ crew.session.context.task

private theorem Attended.none {session : Session} (attended : Attended ⟨session, []⟩) :
    session.shared.forks = [] := by
  refine List.eq_nil_iff_forall_not_mem.mpr fun (child, parent) fork => ?_
  simpa [pool, Pool.State.tasks] using (attended child parent fork).1

private theorem Attended.moves {base : Shared} (ordered : Ordered resolver base crew)
    (attended : crew.Attended) (moves : Moves resolver crew next) : next.Attended := by
  have stays {pool : Pool.State (Except ReferenceError Unit)}
      (manned : Pool.Manned (.lenient resolver) base (Rested resolver base) pool)
      (tasks : pool.tasks = crew.pool.tasks) : (crew.withPool pool).Attended := by
    intro child parent fork
    have forks : pool.shared.forks = crew.session.shared.forks :=
      manned.forks.trans ordered.manned.forks.symm
    obtain ⟨member, apart⟩ := attended child parent (forks ▸ fork)
    exact ⟨tasks.symm ▸ member, apart⟩
  rcases moves with step | ⟨⟨expiry⟩⟩
  · cases step with
    | tend session context same =>
      intro child parent fork
      have fork : (child, parent) ∈ session.shared.forks := fork
      simp [attended.none] at fork
    | begin session errand =>
      intro child parent fork
      have fork : (child, parent) ∈ session.shared.forks := fork
      simp [attended.none] at fork
    | fork session errands =>
      intro child parent fork
      have fork : (child, parent) ∈ (Pool.fork session _ session.shared).2.forks := fork
      rw [Pool.shared_fork, attended.none, List.nil_append] at fork
      obtain ⟨task, member, same⟩ := List.mem_map.mp fork
      cases same
      rw [← Pool.tasks_fork] at member
      refine ⟨member, fun same => ?_⟩
      have above := (Pool.mem_tasks_fork.mp member).1
      have known := ordered.known.trans_eq ordered.manned.lastTask.symm
      exact absurd known (Nat.not_le.mpr (same ▸ above))
    | turn turn =>
      obtain ⟨manned, tasks, _⟩ := ordered.manned.turn (rested_stable resolver base) turn
      exact stays manned tasks
    | @finish session strand itself ended =>
      intro child parent fork
      obtain ⟨member, apart⟩ := attended child parent fork
      have same : child = strand.context.task := by
        simpa [pool, Pool.State.tasks] using member
      exact False.elim (apart (same.trans itself))
    | @join session strands apart ended =>
      intro child parent fork
      have fork : (child, parent) ∈ (Pool.join session strands session.shared).2.shared.forks := fork
      rw [Pool.shared_join] at fork
      obtain ⟨old, outside⟩ := List.mem_filter.mp fork
      have member := (attended child parent old).1
      simp [pool, Pool.State.tasks] at member
      simp at outside
      grind
  · obtain ⟨manned, tasks, _⟩ := ordered.manned.expiry (rested_stable resolver base) trivial expiry
    exact stays manned tasks

theorem attended_of_reachable (reachable : Reachable resolver crew) : crew.Attended := by
  obtain ⟨context, first, path⟩ := reachable
  induction path with
  | refl => exact fun child parent fork => by cases fork
  | tail path step ih =>
    obtain ⟨base, ordered⟩ := Ordered.of_reachable ⟨context, first, path⟩
    exact ih.moves ordered step

/-- When no task is at work the bookkeeping of locks is as in the beginning. -/
theorem resting_of_reachable {session : Session} (reachable : Reachable resolver ⟨session, []⟩) :
    session.shared.Resting := by
  obtain ⟨base, ordered⟩ := Ordered.of_reachable reachable
  have quiet : session.shared.Quiet := ordered.manned.quiet_of_finished ordered.closed (by
    simp [pool, Pool.State.Finished])
  refine ⟨?_, Table.eq_nil_of_find? quiet.owners, ?_, (attended_of_reachable reachable).none⟩
  · refine Table.eq_nil_of_find? fun key => ?_
    by_contra held
    obtain ⟨lock, found⟩ := Option.ne_none_iff_exists'.mp held
    exact quiet.waiting _ _ (ordered.manned.sound.locked.handed found (quiet.owners key))
  · exact List.eq_nil_iff_forall_not_mem.mpr fun wait => quiet.waiting wait.1 wait.2

end Crew

namespace Visitor

def failed (references : List Reference) (results : List (Except ReferenceError Reference)) :
    List Reference :=
  (references.zip results).filterMap fun (r, result) => if result.toBool then none else some r

/-- The references that are still unresolved when results have been put in their places are those
that have failed, as they were. -/
theorem unresolved_fill {nodes : List Node} {results : List (Except ReferenceError Reference)}
    (complete : (nodes.filterMap unresolved?).length = results.length)
    (resolved : ∀ after, .ok after ∈ results → after.isResolved) :
    (fill nodes results).filterMap unresolved? =
      failed (nodes.filterMap unresolved?) results := by
  induction nodes generalizing results with
  | nil => rfl
  | cons node rest ih =>
    cases found : unresolved? node with
    | none =>
      rw [List.filterMap_cons_none found] at complete ⊢
      have passes : fill (node :: rest) results = node :: fill rest results := by
        simp [fill, found]
      rw [passes, List.filterMap_cons_none found]
      exact ih complete resolved
    | some r =>
      rw [List.filterMap_cons_some found] at complete ⊢
      cases results with
      | nil => cases complete
      | cons result results =>
        have below := ih (Nat.succ.inj complete) fun after member =>
          resolved after (List.mem_cons_of_mem _ member)
        cases result with
        | ok after =>
          have gone : unresolved? (.reference after) = none := by
            simp [unresolved?, resolved after (List.mem_cons_self)]
          have filled : fill (node :: rest) (.ok after :: results) =
              .reference after :: fill rest results := by simp [fill, found]
          rw [filled, List.filterMap_cons_none gone, below]
          rfl
        | error error =>
          have filled : fill (node :: rest) (.error error :: results) =
              node :: fill rest results := by simp [fill, found]
          rw [filled, List.filterMap_cons_some found, below]
          rfl

end Visitor

namespace Resolver

/-- Whatever other tasks do in the meantime, a task that resolves a reference, or lets an element
inherit, resolves the same keys afterwards as before. If it fails, it has given its key no value;
only what an element cannot inherit from, since it is no element, is kept all the same. References
that fail stay in their places as they were, and so do elements. When all tasks have ended and the
forked ones are absorbed, there are no locks, owners, waits and forks. -/
theorem bookkeeping_restored (resolver : Resolver) :
    (∀ uri session, Always (resolver.resolve uri).run session fun changes outcome last =>
      last.context.resolving = session.context.resolving ∧
        ∀ error, outcome = .error error → Spares uri.key changes) ∧
    (∀ r session, Always (resolver.resolution r) session fun changes outcome last =>
      last.context.resolving = session.context.resolving ∧
        (∀ error, outcome = .error error → Spares r.uri.key changes) ∧
        ∀ after, outcome = .ok after → after.isResolved) ∧
    (∀ e session, Always (resolver.inherit e).run session fun changes outcome last =>
      last.context.resolving = session.context.resolving ∧
        ∀ error, outcome = .error error → ∀ uri ∈ e.ancestor?,
          StoresOnly uri.key (fun value => ancestorOf uri value = .error error) changes) ∧
    (∀ (nodes : List Node) results,
      (nodes.filterMap Visitor.unresolved?).length = results.length →
      (∀ after, .ok after ∈ results → after.isResolved) →
      (Visitor.fill nodes results).filterMap Visitor.unresolved? =
        Visitor.failed (nodes.filterMap Visitor.unresolved?) results) ∧
    (∀ place session e failure,
      ((Visitor.inheritance resolver).element place session e).outcome = .error failure →
      ((Visitor.inheritance resolver).element place session e).part = e) ∧
    ∀ crew, Crew.Reachable resolver crew →
      (∀ strand ∈ crew.strands, strand.program.result?.isSome →
        strand.context.resolving = crew.session.context.resolving) ∧
      (crew.strands = [] → crew.session.shared.Resting) := by
  refine ⟨fun uri session => ?_, fun r session => ?_, fun e session => ?_,
    fun nodes results => Visitor.unresolved_fill, fun place session e failure fails => ?_,
    fun crew reachable => ⟨fun strand member ended => ?_, fun none => ?_⟩⟩
  · refine (resolver.resolve_reverts uri session).mono fun ⟨like, _, stores⟩ => ⟨by rw [like], ?_⟩
    rintro error rfl
    exact stores.spares fun _ ended => by cases ended
  · exact (resolver.resolution_reverts r session).mono fun ⟨like, spares, resolved⟩ =>
      ⟨by rw [like], spares, resolved⟩
  · exact (resolver.inherit_reverts e session).mono fun ⟨like, stores⟩ => ⟨by rw [like], stores⟩
  · simp only [Visitor.inheritance] at fails ⊢
    split at fails
    · cases fails
    · rfl
  · obtain ⟨result, done⟩ := Option.isSome_iff_exists.mp ended
    exact (Crew.restoring_of_reachable reachable).ended member done
  · obtain ⟨session, strands⟩ := crew
    cases none
    exact Crew.resting_of_reachable reachable

/-- Two tasks have resolved one reference side by side, and the second one has waited for the first
one. -/
theorem bookkeeping_restored_pair :
    let crew := Crew.pair .slow 3
    (∀ strand ∈ crew.strands, strand.program.result?.isSome ∧ strand.context.resolving = []) ∧
      (Pool.join crew.session crew.strands crew.session.shared).2.shared.Resting := by
  intro crew
  obtain ⟨-, -, -, -, -, crews⟩ := bookkeeping_restored (.constant .slow)
  have reachable : Crew.Reachable (.constant .slow) crew := Crew.reachable_pair .slow 3
  have ended : ∀ strand ∈ crew.strands, strand.program.result?.isSome := by decide +kernel
  have apart : ∀ strand ∈ crew.strands,
      strand.context.task ≠ crew.session.context.task := by decide +kernel
  have joined : Crew.Reachable (.constant .slow)
      ⟨(Pool.join crew.session crew.strands crew.session.shared).2, []⟩ := by
    obtain ⟨context, first, path⟩ := reachable
    exact ⟨context, first, path.tail (.inl (.join crew.session apart ended))⟩
  refine ⟨fun strand member => ⟨ended strand member, ?_⟩, (crews _ joined).2 rfl⟩
  exact ((crews crew reachable).1 strand member (ended strand member)).trans rfl

/-- An element whose ancestor is found and is no element cannot inherit from it, and the value is
kept. -/
theorem value_kept_of_failed_inheritance :
    let e : Element := { tag := "a", attributes := Table.ofList [("extends", .text "s:r")] }
    let ended := ((constant (.found (.text "text"))).inherit e).run.alone {}
    e.ancestor? = some ⟨"s", "r"⟩ ∧ ended.1.toBool = false ∧
      ended.2.shared.results.keys = ["s:r"] := by
  decide +kernel

end Resolver
end LinkedMarkup
