import LinkedMarkup.Proofs.Tasks.Conduct
import LinkedMarkup.Proofs.Tasks.Schedule

namespace LinkedMarkup

structure Shared.Quiet (shared : Shared) : Prop where
  owners : ∀ key, shared.owners.find? key = none
  waiting : ∀ task key, (task, key) ∉ shared.waiting

namespace Pool
open Shared
variable {α : Type} {policy : Policy} {base : Shared} {post : Nat → α → Session → Prop}
  {state next : State α}

/-- Every task of the pool is at work on its own program and keeps to the policy. Tasks that do not
belong to the pool stand as they stood at the base. -/
structure Manned (policy : Policy) (base : Shared) (post : Nat → α → Session → Prop)
    (state : State α) : Prop where
  sound : policy.Sound state.shared
  apart : state.tasks.Nodup
  safe : ∀ {strand}, strand ∈ state.strands → ∀ {later},
    policy.Resumes (strand.session state.shared) later →
      Program.Safe policy (post strand.context.task) strand.program later
  others : ∀ {task}, task ∉ state.tasks → Aside policy.start task base state.shared
  forks : state.shared.forks = base.forks
  lastTask : state.shared.lastTask = base.lastTask

/-- The result of a task is not touched by the turns of the others. -/
def Stable (policy : Policy) (post : Nat → α → Session → Prop) : Prop :=
  ∀ {task result before after}, before.context.task = task → post task result before →
    policy.Resumes before after → post task result after

private theorem tasks_turn (shared later : Shared) (before after : List (Strand α))
    {strand moved : Strand α} (same : moved.context.task = strand.context.task) :
    State.tasks ⟨later, before ++ moved :: after⟩ =
      State.tasks (⟨shared, before ++ strand :: after⟩ : State α) := by
  simp [State.tasks, same]

private theorem manned_step {shared later : Shared} {before after : List (Strand α)}
    {strand moved : Strand α} (manned : Manned policy base post ⟨shared, before ++ strand :: after⟩)
    (same : moved.context.task = strand.context.task)
    (step : policy.Step strand.context.task shared later)
    (safe : ∀ {last}, policy.Resumes (moved.session later) last →
      Program.Safe policy (post strand.context.task) moved.program last) :
    Manned policy base post ⟨later, before ++ moved :: after⟩ := by
  have tasks := tasks_turn shared later before after same
  have member : strand.context.task ∈
      State.tasks (⟨shared, before ++ strand :: after⟩ : State α) := by simp [State.tasks]
  have other {strand' : Strand α} (found : strand' ∈ before ∨ strand' ∈ after) :
      strand'.context.task ≠ strand.context.task := by
    have apart := manned.apart
    simp only [State.tasks, List.map_append, List.map_cons, List.nodup_append, List.nodup_cons,
      List.mem_map, List.mem_cons] at apart
    obtain ⟨_, ⟨absent, _⟩, distinct⟩ := apart
    rcases found with here | there
    · exact distinct _ ⟨_, here, rfl⟩ _ (.inl rfl)
    · exact fun again => absent ⟨_, there, again⟩
  exact {
    sound := step.sound
    apart := tasks ▸ manned.apart
    safe := fun {strand'} found {last} resumes => by
      have place : strand' = moved ∨ strand' ∈ before ∨ strand' ∈ after := by
        simpa [or_left_comm] using found
      rcases place with rfl | elsewhere
      · exact same ▸ safe resumes
      · refine manned.safe (by simpa using elsewhere.imp id .inr) (.trans ?_ resumes)
        exact ⟨rfl, step.sound, step.aside (other elsewhere)⟩
    others := fun {task} absent => by
      rw [tasks] at absent
      have different : task ≠ strand.context.task := fun again => absent (again ▸ member)
      exact (manned.others absent).trans (step.aside different)
    forks := (step.aside (Nat.succ_ne_self _)).forks.trans manned.forks
    lastTask := (step.aside (Nat.succ_ne_self _)).lastTask.trans manned.lastTask }

theorem Manned.turn (manned : Manned policy base post state) (stable : Stable policy post)
    (turn : Turn state next) : Manned policy base post next ∧ next.tasks = state.tasks ∧
      ∃ task, policy.Step task state.shared next.shared := by
  obtain ⟨now, shared, before, strand, after, free⟩ := turn
  have safe : Program.Safe policy (post strand.context.task) strand.program
      (strand.session shared) := manned.safe (by simp) (.refl manned.sound)
  obtain ⟨same, step, later⟩ := safe.turn manned.sound rfl fun own => stable own
  exact ⟨manned_step manned same step later, tasks_turn _ _ _ _ same, _, step⟩

/-- A wait that is given up keeps the pool manned, if it may be given up. -/
theorem Manned.expires {shared : Shared} {before after : List (Strand α)} {strand : Strand α}
    (manned : Manned policy base post ⟨shared, before ++ strand :: after⟩)
    (stable : Stable policy post) (now : Nat) (stuck : strand.isStuck shared = true)
    (waits : strand.program.result? = none)
    (givesUp : policy.expires ∨ shared.Awake strand.context.task) :
    let turned := strand.expire.turn now shared
    Manned policy base post ⟨turned.2, before ++ turned.1 :: after⟩ ∧
      State.tasks ⟨turned.2, before ++ turned.1 :: after⟩ =
        State.tasks ⟨shared, before ++ strand :: after⟩ ∧
      ∃ task, policy.Step task shared turned.2 := by
  obtain ⟨context, program, deadline⟩ := strand
  have member : (⟨context, program, deadline⟩ : Strand α) ∈
      before ++ ⟨context, program, deadline⟩ :: after := by simp
  have safe : Program.Safe policy (post context.task) program ⟨shared, context⟩ :=
    manned.safe member (.refl manned.sound)
  cases program with
  | await ready limit next late =>
    have fails : ready ⟨shared, context⟩ = false := by
      simpa [Strand.isStuck, Program.isStuck, Strand.session] using stuck
    have goesOn := ((safe (.refl manned.sound)).2 fails).2 givesUp
    obtain ⟨same, step, later⟩ := goesOn.turn manned.sound rfl fun own => stable own
    exact ⟨manned_step manned same step later, tasks_turn _ _ _ _ same, _, step⟩
  | done result => cases waits
  | read next => cases stuck
  | change update next => cases stuck
  | pause next => cases stuck

theorem Manned.expiry (manned : Manned policy base post state) (stable : Stable policy post)
    (expires : policy.expires) (expiry : Expiry state next) :
    Manned policy base post next ∧ next.tasks = state.tasks ∧
      ∃ task, policy.Step task state.shared next.shared := by
  obtain ⟨now, shared, before, strand, after, stuck, waits⟩ := expiry
  exact manned.expires stable now stuck waits (.inl expires)

/-- While the tasks of a pool are at work, the others have no part in the locks. A task whose work
is done owns nothing and waits for nothing. -/
structure Closed (base : Shared) (post : Nat → α → Session → Prop) (tasks : List Nat) : Prop where
  quiet : base.Quiet
  leaf : ∀ {task child}, task ∈ tasks → (child, task) ∉ base.forks
  rests : ∀ {task result last}, task ∈ tasks → post task result last →
    (∀ key, last.shared.owners.find? key ≠ some task) ∧ last.shared.Awake task

/-- The result of a task that has ended stands. -/
theorem Manned.ended (manned : Manned policy base post state) {strand : Strand α}
    (member : strand ∈ state.strands) {result : α} (ended : strand.program.result? = some result) :
    post strand.context.task result (strand.session state.shared) := by
  have safe := manned.safe member (.refl manned.sound)
  cases found : strand.program with
  | done other =>
    rw [found] at safe ended
    cases ended
    exact safe
  | _ => simp [found, Program.result?] at ended

/-- A task that owns a key or waits for one belongs to the pool and has not ended. -/
theorem Manned.at_work (manned : Manned policy base post state)
    (closed : Closed base post state.tasks) {task : Nat} {key : String}
    (busy : state.shared.owners.find? key = some task ∨ (task, key) ∈ state.shared.waiting) :
    ∃ strand ∈ state.strands, strand.context.task = task ∧ strand.program.result? = none := by
  by_cases inside : task ∈ state.tasks
  · obtain ⟨strand, member, rfl⟩ := List.mem_map.mp inside
    refine ⟨strand, member, rfl, ?_⟩
    cases ended : strand.program.result? with
    | none => rfl
    | some result =>
      obtain ⟨bare, awake⟩ := closed.rests inside (manned.ended member ended)
      exact False.elim (busy.elim (bare key) (awake key))
  · have aside := manned.others inside
    rcases busy with owns | waits
    · have before := aside.bare owns
      simp [closed.quiet.owners] at before
    · exact False.elim (closed.quiet.waiting _ _ (aside.waits.mp waits))

/-- A task that is stuck before its end waits for another one that is still at work. -/
theorem Manned.waits_for (manned : Manned policy base post state)
    (closed : Closed base post state.tasks) (answers : ¬ policy.silent) {strand : Strand α}
    (member : strand ∈ state.strands) (unfinished : strand.program.result? = none)
    (stuck : strand.isStuck state.shared = true) :
    ∃ other ∈ state.strands, other.program.result? = none ∧
      state.shared.Needs strand.context.task other.context.task := by
  have safe := manned.safe member (.refl manned.sound)
  have need : ∃ other, state.shared.Needs strand.context.task other := by
    cases program : strand.program with
    | await ready limit next late =>
      rw [program] at safe
      have fails : ready (strand.session state.shared) = false := by
        simpa [Strand.isStuck, program, Program.isStuck] using stuck
      exact ((safe (.refl manned.sound)).2 fails).1.resolve_left answers
    | done result => simp [program, Program.result?] at unfinished
    | read next => simp [Strand.isStuck, program, Program.isStuck] at stuck
    | change update next => simp [Strand.isStuck, program, Program.isStuck] at stuck
    | pause next => simp [Strand.isStuck, program, Program.isStuck] at stuck
  obtain ⟨other, ⟨key, lock, found, queued, rfl⟩ | fork⟩ := need
  · have busy : state.shared.owners.find? key = some lock.holder ∨
        (lock.holder, key) ∈ state.shared.waiting := by
      cases owner : state.shared.owners.find? key with
      | none => exact .inr (manned.sound.locked.handed found owner)
      | some task => exact .inl (by rw [manned.sound.locked.holder_of_owner owner found])
    obtain ⟨holder, there, same, working⟩ := manned.at_work closed busy
    exact ⟨holder, there, working, .inl ⟨key, lock, found, queued, same.symm⟩⟩
  · rw [manned.forks] at fork
    exact False.elim (closed.leaf (List.mem_map.mpr ⟨strand, member, rfl⟩) fork)

/-- A pool in which every task is stuck has come to its end. -/
theorem Manned.finished_of_stuck (manned : Manned policy base post state)
    (closed : Closed base post state.tasks) (answers : ¬ policy.silent)
    (stuck : ∀ strand ∈ state.strands, strand.isStuck state.shared = true) : state.Finished := by
  by_contra unfinished
  -- The tasks at work would need each other in a circle.
  let working := (state.strands.filter (·.program.result?.isNone)).map (·.context.task)
  have nonempty : working ≠ [] := by
    intro none
    refine unfinished fun strand member => ?_
    by_contra goesOn
    have there : strand ∈ state.strands.filter (·.program.result?.isNone) := by
      simpa [member] using goesOn
    simp [List.map_eq_nil_iff.mp none] at there
  obtain ⟨task, member, last⟩ := manned.sound.unknotted.exists_end nonempty
  obtain ⟨strand, found, rfl⟩ := List.mem_map.mp member
  obtain ⟨inside, goesOn⟩ := List.mem_filter.mp found
  obtain ⟨other, there, working', need⟩ :=
    manned.waits_for closed answers inside (by simpa using goesOn) (stuck strand inside)
  refine last other.context.task (List.mem_map.mpr ⟨other, ?_, rfl⟩) need
  exact List.mem_filter.mpr ⟨there, by simp [working']⟩

end Pool
end LinkedMarkup
