import LinkedMarkup.Proofs.Tasks.Policy
import LinkedMarkup.Resolution.Program

namespace LinkedMarkup
open Shared

/-- The session in which a task goes on after the others have had turns. -/
structure Policy.Resumes (policy : Policy) (before after : Session) : Prop where
  context : after.context = before.context
  sound : policy.Sound after.shared
  aside : Aside policy.start before.context.task before.shared after.shared

namespace Policy.Resumes
variable {policy : Policy} {before after last : Session}

theorem refl (sound : policy.Sound before.shared) : policy.Resumes before before :=
  ⟨rfl, sound, .refl _ _ _⟩

theorem trans (first : policy.Resumes before after) (second : policy.Resumes after last) :
    policy.Resumes before last :=
  ⟨second.context.trans first.context, second.sound,
    first.aside.trans (first.context ▸ second.aside)⟩

end Policy.Resumes

theorem Policy.Step.refl {policy : Policy} {shared : Shared} (sound : policy.Sound shared)
    (task : Nat) : policy.Step task shared shared :=
  ⟨sound, fun _ => .refl _ _ _⟩

namespace Program
variable {α β : Type} {policy : Policy} {post mid : α → Session → Prop}
  {program : Program Session α} {session : Session}

/-- The program keeps to the policy from here on, and ends with a result and a session for which
`post` holds. Where it waits in vain it needs another task, unless handlers may be silent. A wait for
a handler may always be given up. -/
def Safe (policy : Policy) (post : α → Session → Prop) : Program Session α → Session → Prop
  | done result, session => post result session
  | read next, session => Safe policy post (next session) session
  | change update next, session =>
    (update session).context.task = session.context.task ∧
      policy.Step session.context.task session.shared (update session).shared ∧
      Safe policy post next (update session)
  | pause next, session => ∀ {later}, policy.Resumes session later → Safe policy post next later
  | await ready _ next late, session => ∀ {later}, policy.Resumes session later →
    (ready later = true → Safe policy post next later) ∧
      (ready later = false →
        (policy.silent ∨ ∃ other, later.shared.Needs later.context.task other) ∧
          (policy.expires ∨ later.shared.Awake later.context.task → Safe policy post late later))

/-- The continuation may count on a sound state. -/
theorem Safe.bind {f : α → Program Session β} {last : β → Session → Prop}
    (safe : Safe policy mid program session) (sound : policy.Sound session.shared)
    (rest : ∀ {result later}, policy.Sound later.shared → mid result later →
      Safe policy last (f result) later) : Safe policy last (program.bind f) session := by
  induction program generalizing session with
  | done result => exact rest sound safe
  | read next ih => exact ih session safe sound
  | change update next ih => exact ⟨safe.1, safe.2.1, ih safe.2.2 safe.2.1.sound⟩
  | pause next ih => exact fun resumes => ih (safe resumes) resumes.sound
  | await ready limit next late ihNext ihLate =>
    intro later resumes
    obtain ⟨goesOn, waits⟩ := safe resumes
    exact ⟨fun holds => ihNext (goesOn holds) resumes.sound,
      fun fails => ⟨(waits fails).1, fun expires => ihLate ((waits fails).2 expires) resumes.sound⟩⟩

theorem Safe.mono (safe : Safe policy mid program session) (sound : policy.Sound session.shared)
    (weaker : ∀ {result later}, policy.Sound later.shared → mid result later →
      post result later) : Safe policy post program session := by
  induction program generalizing session with
  | done result => exact weaker sound safe
  | read next ih => exact ih session safe sound
  | change update next ih => exact ⟨safe.1, safe.2.1, ih safe.2.2 safe.2.1.sound⟩
  | pause next ih => exact fun resumes => ih (safe resumes) resumes.sound
  | await ready limit next late ihNext ihLate =>
    intro later resumes
    obtain ⟨goesOn, waits⟩ := safe resumes
    exact ⟨fun holds => ihNext (goesOn holds) resumes.sound,
      fun fails => ⟨(waits fails).1, fun expires => ihLate ((waits fails).2 expires) resumes.sound⟩⟩

theorem Safe.pauses {turns : Nat} (sound : policy.Sound session.shared)
    (rest : ∀ {later}, policy.Resumes session later → Safe policy post program later) :
    Safe policy post (pauses program turns) session := by
  induction turns generalizing session with
  | zero => exact rest (.refl sound)
  | succ turns ih =>
    intro later resumes
    exact ih resumes.sound fun again => rest (resumes.trans again)

/-- A turn is a step of the task, and the rest of the program is safe at its next turn. -/
theorem Safe.turn {task : Nat} (safe : Safe policy post program session)
    (sound : policy.Sound session.shared) (own : session.context.task = task)
    (stable : ∀ {result before after}, before.context.task = task → post result before →
      policy.Resumes before after → post result after) :
    (program.turn session).2.context.task = task ∧
      policy.Step task session.shared (program.turn session).2.shared ∧
      ∀ {later}, policy.Resumes (program.turn session).2 later →
        Safe policy post (program.turn session).1 later := by
  induction program generalizing session with
  | done result => exact ⟨own, .refl sound _, fun resumes => stable own safe resumes⟩
  | read next ih => exact ih session safe sound own
  | change update next ih =>
    obtain ⟨same, step, safe⟩ := safe
    rw [own] at same step
    obtain ⟨sameAfter, stepAfter, later⟩ := ih safe step.sound same
    exact ⟨sameAfter, step.trans stepAfter, later⟩
  | pause next ih => exact ⟨own, .refl sound _, fun resumes => safe resumes⟩
  | await ready limit next late ihNext ihLate =>
    by_cases holds : ready session
    · rw [Program.turn, if_pos holds]
      exact ihNext ((safe (.refl sound)).1 holds) sound own
    · rw [Program.turn, if_neg holds]
      exact ⟨own, .refl sound _, fun resumes _ again => safe (resumes.trans again)⟩

end Program

/-- No other task owns a key or waits for one, and the task has forked none. -/
structure Shared.Sole (shared : Shared) (task : Nat) : Prop where
  owner : ∀ {key other}, shared.owners.find? key = some other → other = task
  waits : ∀ {key other}, (other, key) ∈ shared.waiting → other = task
  leaf : ∀ child, (child, task) ∉ shared.forks

namespace Shared.Sole
variable {policy : Policy} {before after : Shared} {task : Nat}

theorem needs_nothing (sole : before.Sole task) (locked : before.Locked) (other : Nat) :
    ¬ before.Needs task other := by
  rintro (⟨key, lock, found, queued, rfl⟩ | fork)
  · refine (locked.queued found queued).2 ?_
    cases owner : before.owners.find? key with
    | some holder => rw [locked.holder_of_owner owner found, sole.owner owner]
    | none => exact (sole.waits (locked.handed found owner)).symm
  · exact sole.leaf other fork

theorem step (sole : before.Sole task) (step : policy.Step task before after) :
    after.Sole task where
  owner {key other} owns := by
    by_contra different
    exact different (sole.owner ((step.aside different).bare owns))
  waits {key other} waiting := by
    by_contra different
    exact different (sole.waits ((step.aside different).waits.mp waiting))
  leaf child fork := by
    have forks := (step.aside (Nat.succ_ne_self task)).forks
    exact sole.leaf child (forks ▸ fork)

end Shared.Sole

/-- A program that runs alone never waits in vain if its handlers answer. -/
theorem Program.Safe.alone {α : Type} {policy : Policy} {post : α → Session → Prop}
    {program : Program Session α} {session : Session} (answers : ¬ policy.silent)
    (safe : Safe policy post program session) (sound : policy.Sound session.shared)
    (sole : session.shared.Sole session.context.task) :
    post (program.alone session).1 (program.alone session).2 ∧
      policy.Step session.context.task session.shared (program.alone session).2.shared ∧
      (program.alone session).2.context.task = session.context.task := by
  induction program generalizing session with
  | done result => exact ⟨safe, .refl sound _, rfl⟩
  | read next ih => exact ih session safe sound sole
  | change update next ih =>
    obtain ⟨same, step, safe⟩ := safe
    obtain ⟨holds, later, sameLater⟩ := ih safe step.sound (same ▸ sole.step step)
    exact ⟨holds, step.trans (same ▸ later), sameLater.trans same⟩
  | pause next ih => exact ih (safe (.refl sound)) sound sole
  | await ready limit next late ihNext ihLate =>
    by_cases holds : ready session
    · rw [Program.alone, if_pos holds]
      exact ihNext ((safe (.refl sound)).1 holds) sound sole
    · rcases ((safe (.refl sound)).2 (by simpa using holds)).1 with silent | ⟨other, need⟩
      · exact False.elim (answers silent)
      · exact False.elim (sole.needs_nothing sound.locked other need)

end LinkedMarkup
