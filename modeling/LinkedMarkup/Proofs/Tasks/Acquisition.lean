import LinkedMarkup.Proofs.Tasks.Conduct
import LinkedMarkup.Resolution.Resolver

namespace LinkedMarkup
open Shared

namespace Policy
variable {policy : Policy} {session : Session} {key : String}

/-- The key is a wait of the task and nothing else has changed for it. -/
private structure Queued (policy : Policy) (key : String) (before now : Session) : Prop where
  context : now.context = before.context
  sound : policy.Sound now.shared
  respects : Respects policy.start before.context.task before.shared now.shared
  bare : ∀ {name}, now.shared.owners.find? name = some before.context.task →
    before.shared.owners.find? name = some before.context.task
  waits : ∀ {name}, (before.context.task, name) ∈ now.shared.waiting ↔ name = key
  deeds : policy.start.deeds now.shared before.context.task =
    policy.start.deeds before.shared before.context.task

private theorem queued_of_resumes {later : Session} (fit : session.shared.Fit session.context.task)
    (resumes : policy.Resumes
      (session.onShared (·.enqueue session.context.task key)) later) :
    Queued policy key session later := by
  have aside : Aside policy.start session.context.task
      (session.shared.enqueue session.context.task key) later.shared := resumes.aside
  have joins : Respects policy.start session.context.task session.shared
      (session.shared.enqueue session.context.task key) :=
    ⟨⟨id, id⟩, List.suffix_refl _, fun _ => ⟨rfl, rfl, rfl, course_congr rfl _⟩, rfl, rfl⟩
  exact {
    context := resumes.context
    sound := resumes.sound
    respects := joins.trans aside.toRespects
    bare := aside.bare
    waits := fun {name} => by
      rw [aside.waits, mem_waiting_enqueue]
      exact ⟨fun waits => waits.elim (fun old => False.elim (fit.awake _ old)) And.right,
        fun same => .inr ⟨rfl, same⟩⟩
    deeds := aside.deeds.trans (deeds_congr rfl _) }

private theorem Queued.resumes {before now : Session} {last : Shared}
    (queued : Queued policy key before now) (fit : before.shared.Fit before.context.task)
    (foreign : before.shared.owners.find? key ≠ some before.context.task)
    (sound : policy.Sound last) (touches : Touches before.context.task key now.shared last)
    (history : last.history = now.shared.history)
    (waits : ∀ {name}, (before.context.task, name) ∉ last.waiting)
    (free : last.owners.find? key ≠ some before.context.task) :
    policy.Resumes before ⟨last, now.context⟩ where
  context := queued.context
  sound := sound
  aside := {
    toRespects := touches.respects queued.respects queued.sound.grown foreign
    bare := fun {name} owns => by
      by_cases same : name = key
      · exact False.elim (free (same ▸ owns))
      · exact queued.bare (touches.owners same ▸ owns)
    waits := ⟨fun waiting => False.elim (waits waiting), fun old => False.elim (fit.awake _ old)⟩
    deeds := (deeds_congr history _).trans queued.deeds }

private theorem Queued.gained {before now : Session} {lock : Lock}
    (queued : Queued policy key before now) (fit : before.shared.Fit before.context.task)
    (foreign : before.shared.owners.find? key ≠ some before.context.task)
    (found : now.shared.locks.find? key = some lock) (holds : lock.holder = before.context.task)
    (unsettled : ¬ now.shared.Settled key) :
    Gained policy.start before.context.task key before.shared
      (now.shared.receive before.context.task key) := by
  have waits : (lock.holder, key) ∈ now.shared.waiting := holds ▸ queued.waits.mpr rfl
  have touches := touches_receive before.context.task key now.shared
  exact {
    toRespects := touches.respects queued.respects queued.sound.grown foreign
    foreign := foreign
    owns := by rw [find?_owners_receive, if_pos rfl]
    others := fun different owns => queued.bare (touches.owners different ▸ owns)
    waits := ⟨fun waiting => False.elim ((mem_waiting_stopWaiting.mp waiting).2 rfl),
      fun old => False.elim (fit.awake _ old)⟩
    unsettled := unsettled
    ready := by
      rw [course_congr rfl]
      exact queued.sound.chronicle.open_of_unowned
        (queued.sound.unowned_of_handed found waits) unsettled
    deeds := (deeds_congr rfl _).trans queued.deeds }

private theorem Queued.recheck_safe {before now : Session} {lock : Lock}
    {post : Except ReferenceError Acquired → Session → Prop}
    (queued : Queued policy key before now) (fit : before.shared.Fit before.context.task)
    (foreign : before.shared.owners.find? key ≠ some before.context.task)
    (found : now.shared.locks.find? key = some lock) (holds : lock.holder = before.context.task)
    (known : ∀ {value later}, policy.Resumes before later →
      later.shared.results.find? key = some value → post (.ok (.value value)) later)
    (failed : ∀ {error later}, policy.Resumes before later →
      later.shared.results.find? key = none → later.shared.failures.find? key = some error →
      post (.error error) later)
    (gained : ∀ {later}, later.context = before.context → policy.Sound later.shared →
      Gained policy.start before.context.task key before.shared later.shared →
      post (.ok .owned) later) :
    Program.Safe policy post
      (.change (Session.onShared (·.receive before.context.task key)) (recheck key).run) now := by
  have waits : (lock.holder, key) ∈ now.shared.waiting := holds ▸ queued.waits.mpr rfl
  have step : policy.Step before.context.task now.shared
      (now.shared.receive before.context.task key) := holds ▸ queued.sound.receive found waits
  have owns : (now.shared.receive before.context.task key).owners.find? key =
      some before.context.task := by rw [find?_owners_receive, if_pos rfl]
  have touches := touches_receive before.context.task key now.shared
  -- A settled key is handed on at once.
  have hands (settled : now.shared.Settled key) :
      policy.Step before.context.task (now.shared.receive before.context.task key)
          ((now.shared.receive before.context.task key).release key) ∧
        policy.Resumes before
          ⟨(now.shared.receive before.context.task key).release key, now.context⟩ := by
    have release := step.sound.release owns
      (step.sound.chronicle.not_inFlight_of_settled settled)
    refine ⟨release, queued.resumes fit foreign release.sound ?_ rfl ?_ ?_⟩
    · exact touches.trans (touches_release before.context.task key _)
    · exact fun waiting => (mem_waiting_stopWaiting.mp waiting).2 rfl
    · simp [find?_owners_release]
  have same : now.context.task = before.context.task := by rw [queued.context]
  refine ⟨rfl, by rw [same]; exact step, ?_⟩
  unfold recheck ExceptT.run ExceptT.mk
  rw [Program.Safe]
  split
  · rename_i known'
    have known' : now.shared.results.find? key = some _ := known'
    obtain ⟨release, resumes⟩ := hands (.inl (by simp [known']))
    exact ⟨rfl, by exact same.symm ▸ release, known resumes known'⟩
  · rename_i unknown failed'
    have failed' : now.shared.failures.find? key = some _ := failed'
    obtain ⟨release, resumes⟩ := hands (.inr (by simp [failed']))
    exact ⟨rfl, by exact same.symm ▸ release, failed resumes unknown failed'⟩
  · rename_i noValue noFailure
    refine gained queued.context step.sound (queued.gained fit foreign found holds ?_)
    exact fun settled => settled.elim (fun value => value noValue) fun error => error noFailure

/-- A task that waits in vain stands behind another one. -/
private theorem Queued.needs {before now : Session} {lock : Lock}
    (queued : Queued policy key before now) (found : now.shared.locks.find? key = some lock)
    (fails : lock.holder ≠ before.context.task) :
    before.context.task ∈ lock.queue := by
  obtain ⟨held, same, place⟩ := queued.sound.locked.awaited (queued.waits.mpr rfl)
  cases found.symm.trans same
  exact place.resolve_right fun handed => fails handed.1

/-- A task that asks for a key takes the outcome that is known, gains the key, or fails: on a circle
of waits, or because its wait was too long. -/
theorem acquire_safe {post : Except ReferenceError Acquired → Session → Prop} (timeout : Nat)
    (sound : policy.Sound session.shared) (fit : session.shared.Fit session.context.task)
    (upper : ¬ session.shared.Settled key →
      ∀ {other}, session.shared.owners.find? other = some session.context.task →
        policy.above other key)
    (known : ∀ {value later}, policy.Resumes session later →
      later.shared.results.find? key = some value → post (.ok (.value value)) later)
    (failed : ∀ {error later}, policy.Resumes session later →
      later.shared.results.find? key = none → later.shared.failures.find? key = some error →
      post (.error error) later)
    (circular : ¬ session.shared.Settled key →
      session.shared.wouldCycle session.context.task key = true →
        post (.error (.circular (session.context.resolving ++ [key]))) session)
    (late : policy.expires → ∀ {later}, policy.Resumes session later →
      post (.error (.timeout key timeout)) later)
    (gained : ∀ {later}, later.context = session.context → policy.Sound later.shared →
      Gained policy.start session.context.task key session.shared later.shared →
      post (.ok .owned) later) :
    Program.Safe policy post (acquire timeout key).run session := by
  unfold acquire ExceptT.run ExceptT.mk
  rw [Program.Safe]
  dsimp only
  split
  · exact known (.refl sound) ‹_›
  · rename_i noValue error'
    exact failed (.refl sound) noValue error'
  rename_i noValue noFailure
  have unsettled : ¬ session.shared.Settled key :=
    fun settled => settled.elim (fun value => value noValue) fun error => error noFailure
  cases found : session.shared.locks.find? key with
  | none =>
    have unowned := sound.unowned_of_free found
    have step := sound.take fit found
    rw [if_pos (by simp [isFree, found])]
    refine ⟨rfl, step, gained rfl step.sound ?_⟩
    have foreign : session.shared.owners.find? key ≠ some session.context.task := by
      simp [unowned]
    exact {
      toRespects := (touches_take _ key _).respects (.refl _ _ _) sound.grown foreign
      foreign := foreign
      owns := by rw [Session.onShared, find?_owners_take, if_pos rfl]
      others := fun different owns => (touches_take _ key _).owners different ▸ owns
      waits := Iff.rfl
      unsettled := unsettled
      ready := by
        rw [course_congr rfl]
        exact sound.chronicle.open_of_unowned unowned unsettled
      deeds := deeds_congr rfl _ }
  | some lock =>
    rw [if_neg (by simp [isFree, found])]
    by_cases cycle : session.shared.wouldCycle session.context.task key
    · rw [if_pos cycle]
      exact circular unsettled cycle
    rw [if_neg cycle]
    have safe : session.shared.wouldCycle session.context.task key = false := by simpa using cycle
    have foreign : session.shared.owners.find? key ≠ some session.context.task :=
      fun owns => sound.holder_ne fit found safe (sound.locked.holder_of_owner owns found)
    refine ⟨rfl, sound.enqueue fit found safe (upper unsettled), fun {later} resumes => ?_⟩
    have queued := queued_of_resumes fit resumes
    have same : later.context.task = session.context.task := by rw [queued.context]
    obtain ⟨held, place, _⟩ := queued.sound.locked.awaited (queued.waits.mpr rfl)
    constructor
    · intro holds
      have holder : held.holder = session.context.task := by
        simpa [isHolder, place] using holds
      exact queued.recheck_safe fit foreign place holder known failed gained
    · intro fails
      have behind := queued.needs place (by simpa [isHolder, place] using fails)
      refine ⟨.inr ⟨_, .inl ⟨key, held, place, same ▸ behind, rfl⟩⟩, fun givesUp => ?_⟩
      have expires : policy.expires := givesUp.resolve_right fun awake =>
        awake key (same ▸ queued.waits.mpr rfl)
      have step := queued.sound.giveUp place behind
      refine ⟨rfl, by rw [same]; exact step, late expires ?_⟩
      refine queued.resumes fit foreign step.sound ?_ rfl ?_ ?_
      · exact touches_giveUp _ _ _
      · exact fun waiting => (mem_waiting_stopWaiting.mp waiting).2 rfl
      · exact fun owns => foreign (queued.bare owns)

end Policy
end LinkedMarkup
