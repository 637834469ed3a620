import LinkedMarkup.Proofs.Tasks.Crew

namespace LinkedMarkup.Crew
open Shared

variable {resolver : Resolver} {crew : Crew}

private theorem exists_turn (answers : resolver.protocols.Answer) {base : Shared}
    (ordered : Ordered resolver base crew) {strand : Strand (Except ReferenceError Unit)}
    (member : strand ∈ crew.strands) (unfinished : strand.program.result? = none) :
    ∃ next, Pool.Turn crew.pool next := by
  by_contra none
  have stuck : ∀ other ∈ crew.strands, other.isStuck crew.session.shared = true := by
    intro other found
    by_contra free
    obtain ⟨before, after, split⟩ := List.append_of_mem found
    refine none ⟨⟨(other.turn 0 crew.session.shared).2,
      before ++ (other.turn 0 crew.session.shared).1 :: after⟩, ?_⟩
    rw [pool, split]
    exact .mk 0 _ before other after (by simpa using free)
  have finished := ordered.manned.finished_of_stuck ordered.closed (not_not_intro answers) stuck
  have ended := finished strand member
  simp [unfinished] at ended

/-- In every state that the tasks come to, in whatever order they have had their turns and whatever
waits were given up, the recorded waits and forks close no cycle, and neither do they with the waits
for locks that were handed on and not yet received. If handlers answer, some task goes on by itself
as long as one has not ended, and the main task when all have. -/
theorem deadlock_free (reachable : Reachable resolver crew) :
    Acyclic crew.session.shared.Recorded ∧ Acyclic crew.session.shared.Needs ∧
      (resolver.protocols.Answer →
        (∀ strand ∈ crew.strands, strand.program.result? = none →
          ∃ next, Pool.Turn crew.pool next) ∧
        (crew.strands ≠ [] → ∃ next, Step resolver crew next)) := by
  obtain ⟨base, ordered⟩ := Ordered.of_reachable reachable
  have sound := ordered.manned.sound
  refine ⟨sound.unknotted.mono fun _ _ => sound.locked.needs_of_recorded, sound.unknotted,
    fun answers => ⟨fun strand member => exists_turn answers ordered member, fun busy => ?_⟩⟩
  by_cases ended : ∀ strand ∈ crew.strands, strand.program.result?.isSome
  · obtain ⟨session, strands⟩ := crew
    rcases ordered.mainTask with alone | apart
    · obtain ⟨strand, rfl, itself⟩ := List.map_eq_singleton_iff.mp alone
      exact ⟨_, .finish session itself (ended strand (by simp))⟩
    · refine ⟨_, .join session (fun strand member same => apart ?_) ended⟩
      exact List.mem_map.mpr ⟨strand, member, same⟩
  · obtain ⟨strand, member, unfinished⟩ : ∃ strand ∈ crew.strands,
        strand.program.result? = none := by simpa using ended
    obtain ⟨next, turn⟩ := exists_turn answers ordered member unfinished
    exact ⟨_, .turn turn⟩

/-- A task waits for the key that another one has taken, and the tasks can go on. -/
theorem deadlock_free_pair :
    let crew := pair .slow 1
    crew.session.shared.owners = [("s:r", 1)] ∧ crew.session.shared.waiting = [(2, "s:r")] ∧
      Acyclic crew.session.shared.Recorded ∧ Acyclic crew.session.shared.Needs ∧
      ∃ next, Pool.Turn crew.pool next := by
  intro crew
  obtain ⟨recorded, needs, goesOn⟩ := deadlock_free (reachable_pair _ 1 : Reachable _ crew)
  refine ⟨by decide +kernel, by decide +kernel, recorded, needs, ?_⟩
  have busy : ∃ strand ∈ crew.strands, strand.program.result?.isNone := by decide +kernel
  obtain ⟨strand, member, unfinished⟩ := busy
  have answers : (Resolver.constant .slow).protocols.Answer := by
    simp [Protocols.Answer, Resolver.constant, Answer.slow]
  exact (goesOn answers).1 strand member (Option.isNone_iff_eq_none.mp unfinished)

end LinkedMarkup.Crew
