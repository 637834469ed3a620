import LinkedMarkup.Proofs.Tasks.Manning

namespace LinkedMarkup
open Shared

namespace Pool
variable {α : Type}

/-- Forked tasks are numbered in the order of their programs. -/
theorem strands_fork (session : Session) (programs : List (Program Session α)) (shared : Shared) :
    (fork session programs shared).1 = (programs.zipIdx (shared.lastTask + 1)).map
      fun (program, task) => ⟨session.context.fork task, program, none⟩ := by
  induction programs generalizing shared with
  | nil => rfl
  | cons program rest ih =>
    have next : (shared.fork session.context.task).lastTask = shared.lastTask + 1 := rfl
    rw [fork, List.zipIdx_cons, List.map_cons]
    simp only [ih, next]

theorem shared_fork (session : Session) (programs : List (Program Session α)) (shared : Shared) :
    (fork session programs shared).2 = { shared with
      lastTask := shared.lastTask + programs.length
      forks := shared.forks ++ (List.range' (shared.lastTask + 1) programs.length).map
        (·, session.context.task) } := by
  induction programs generalizing shared with
  | nil => simp [fork]
  | cons program rest ih =>
    have sum : shared.lastTask + 1 + rest.length = shared.lastTask + (rest.length + 1) := by omega
    rw [fork]
    simp only [ih, Shared.fork, List.length_cons, List.range'_succ, List.map_cons,
      List.append_assoc, List.singleton_append, sum]

theorem tasks_fork (session : Session) (programs : List (Program Session α)) (shared : Shared) :
    (fork session programs shared).1.map (·.context.task) =
      List.range' (shared.lastTask + 1) programs.length := by
  rw [strands_fork, List.map_map]
  exact List.zipIdx_map_snd _ _

private theorem shared_foldl_absorb (ended : List (Strand α)) (session : Session) :
    (ended.foldl absorb session).shared = { session.shared with
      forks := session.shared.forks.filter (·.1 ∉ ended.map (·.context.task)) } := by
  induction ended generalizing session with
  | nil => simp
  | cons strand rest ih =>
    rw [List.foldl_cons, ih]
    simp only [absorb, endFork, List.filter_filter, List.map_cons, List.mem_cons, not_or]
    congr 2
    funext fork
    by_cases same : fork.1 = strand.context.task <;> simp [same]

theorem shared_join (session : Session) (ended : List (Strand α)) (shared : Shared) :
    (join session ended shared).2.shared = { shared with
      forks := shared.forks.filter (·.1 ∉ ended.map (·.context.task)) } :=
  shared_foldl_absorb ended { session with shared }

private theorem context_foldl_absorb (ended : List (Strand α)) (session : Session) :
    (ended.foldl absorb session).context = { session.context with
      diagnostics := session.context.diagnostics ++ ended.flatMap (·.context.diagnostics) } := by
  induction ended generalizing session with
  | nil => simp
  | cons strand rest ih =>
    rw [List.foldl_cons, ih]
    simp [absorb, Context.absorb]

theorem context_join (session : Session) (ended : List (Strand α)) (shared : Shared) :
    (join session ended shared).2.context = { session.context with
      diagnostics := session.context.diagnostics ++ ended.flatMap (·.context.diagnostics) } :=
  context_foldl_absorb ended { session with shared }

end Pool

/-- Nobody works on anything, and the main task may begin. -/
structure Policy.Idle (policy : Policy) (session : Session) : Prop where
  sound : policy.Sound session.shared
  quiet : session.shared.Quiet
  leaf : ∀ child, (child, session.context.task) ∉ session.shared.forks
  known : session.context.task ≤ session.shared.lastTask

namespace Policy
variable {policy : Policy} {session : Session}

/-- Where nobody is at work, any policy that starts here is kept so far. -/
theorem Idle.begin (start : policy.start = session.shared) (resting : session.shared.Resting)
    (known : session.context.task ≤ session.shared.lastTask) : policy.Idle session where
  sound := by
    have nothing : policy.start.since session.shared = [] := start ▸ since_self _
    refine ⟨resting.locked, resting.unknotted, start ▸ .refl _ _, fun member => ?_, fun waits => ?_⟩
    · simp [nothing] at member
    · simp [resting.waiting] at waits
  quiet := ⟨fun key => by simp [resting.owners, Table.find?], by simp [resting.waiting]⟩
  leaf := by simp [resting.forks]
  known := known

theorem Idle.fit (idle : policy.Idle session) : session.shared.Fit session.context.task :=
  ⟨fun _ => idle.quiet.waiting _ _, idle.leaf, idle.known⟩

theorem Idle.sole (idle : policy.Idle session) : session.shared.Sole session.context.task where
  owner owns := by simp [idle.quiet.owners] at owns
  waits waiting := False.elim (idle.quiet.waiting _ _ waiting)
  leaf := idle.leaf

theorem Sound.fork {shared : Shared} (sound : policy.Sound shared) (quiet : shared.Quiet)
    {task : Nat} (known : task ≤ shared.lastTask) : policy.Sound (shared.fork task) where
  locked := sound.locked.fork (fun _ => quiet.waiting _ _) (by simp [quiet.owners]) known
  unknotted := sound.unknotted.fork sound.locked known
  chronicle := sound.chronicle.congr rfl rfl rfl fun _ => rfl
  ended member := by
    have grows : shared.Grows (shared.fork task) := ⟨id, id⟩
    exact policy.remains grows (sound.ended member)
  ranked := sound.ranked

theorem Sound.forks {α : Type} {shared : Shared} (sound : policy.Sound shared)
    (quiet : shared.Quiet) (known : session.context.task ≤ shared.lastTask)
    (programs : List (Program Session α)) :
    policy.Sound (Pool.fork session programs shared).2 := by
  induction programs generalizing shared with
  | nil => exact sound
  | cons program rest ih =>
    exact ih (sound.fork quiet known) ⟨quiet.owners, quiet.waiting⟩ (Nat.le_succ_of_le known)

theorem Sound.fewerForks {shared : Shared} (sound : policy.Sound shared)
    {forks : List (Nat × Nat)} (fewer : forks ⊆ shared.forks) :
    policy.Sound { shared with forks } where
  locked := sound.locked.fewerForks fewer
  unknotted := sound.unknotted.fewerForks fewer
  chronicle := sound.chronicle.congr rfl rfl rfl fun _ => rfl
  ended member := by
    have grows : shared.Grows { shared with forks } := ⟨id, id⟩
    exact policy.remains grows (sound.ended member)
  ranked := sound.ranked

end Policy

namespace Pool
variable {α : Type} {policy : Policy} {session : Session} {post : Nat → α → Session → Prop}

/-- A pool is manned when each program of its tasks is safe to begin with. -/
theorem Manned.begin {shared : Shared} {strands : List (Strand α)} (sound : policy.Sound shared)
    (apart : (strands.map (·.context.task)).Nodup)
    (safe : ∀ {strand}, strand ∈ strands → ∀ {later},
      policy.Resumes (strand.session shared) later →
        Program.Safe policy (post strand.context.task) strand.program later) :
    Manned policy shared post ⟨shared, strands⟩ :=
  ⟨sound, apart, safe, fun _ => .refl _ _ _, rfl, rfl⟩

theorem mem_tasks_fork {programs : List (Program Session α)} {shared : Shared} {task : Nat} :
    task ∈ (fork session programs shared).1.map (·.context.task) ↔
      shared.lastTask < task ∧ task ≤ shared.lastTask + programs.length := by
  rw [tasks_fork, List.mem_range'_1]
  omega

/-- A task that is forked may ask for keys. -/
theorem fit_fork (idle : policy.Idle session) {programs : List (Program Session α)} {task : Nat}
    (member : task ∈ (fork session programs session.shared).1.map (·.context.task)) :
    (fork session programs session.shared).2.Fit task := by
  rw [mem_tasks_fork] at member
  rw [shared_fork]
  refine ⟨fun key => idle.quiet.waiting task key, fun child fork => ?_, member.2⟩
  rcases List.mem_append.mp fork with old | new
  · have below := idle.sound.locked.forked old
    omega
  · obtain ⟨_, _, same⟩ := List.mem_map.mp new
    have main := idle.known
    have same : session.context.task = task := congrArg Prod.snd same
    omega

theorem quiet_fork (idle : policy.Idle session) (programs : List (Program Session α)) :
    (fork session programs session.shared).2.Quiet := by
  rw [shared_fork]
  exact ⟨idle.quiet.owners, idle.quiet.waiting⟩

/-- After the work of a closed pool nobody owns a key or waits for one. -/
theorem Manned.quiet_of_finished {base : Shared} {state : State α}
    (manned : Manned policy base post state) (closed : Closed base post state.tasks)
    (finished : state.Finished) : state.shared.Quiet := by
  have rests {task : Nat} {key : String} (busy : state.shared.owners.find? key = some task ∨
      (task, key) ∈ state.shared.waiting) : False := by
    obtain ⟨strand, member, _, unfinished⟩ := manned.at_work closed busy
    have ended := finished strand member
    simp [unfinished] at ended
  constructor
  · intro key
    cases owner : state.shared.owners.find? key with
    | none => rfl
    | some task => exact False.elim (rests (.inl owner))
  · exact fun task key waits => rests (.inr waits)

end Pool
end LinkedMarkup
