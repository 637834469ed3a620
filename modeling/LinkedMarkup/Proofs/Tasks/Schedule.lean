import LinkedMarkup.Resolution.Pool
import Mathlib.Logic.Relation

namespace LinkedMarkup.Pool
variable {α : Type}

structure State (α : Type) where
  shared : Shared
  strands : List (Strand α)

/-- A task that is not stuck has a turn. -/
inductive Turn : State α → State α → Prop where
  | mk (now : Nat) (shared : Shared) (before : List (Strand α)) (strand : Strand α)
    (after : List (Strand α)) (free : strand.isStuck shared = false) :
    Turn ⟨shared, before ++ strand :: after⟩
      ⟨(strand.turn now shared).2, before ++ (strand.turn now shared).1 :: after⟩

/-- A wait of a task has been too long, and the task goes on without what it has waited for. -/
inductive Expiry : State α → State α → Prop where
  | mk (now : Nat) (shared : Shared) (before : List (Strand α)) (strand : Strand α)
    (after : List (Strand α)) (stuck : strand.isStuck shared = true)
    (waits : strand.program.result? = none) :
    Expiry ⟨shared, before ++ strand :: after⟩
      ⟨(strand.expire.turn now shared).2, before ++ (strand.expire.turn now shared).1 :: after⟩

namespace State

def Finished (state : State α) : Prop := ∀ strand ∈ state.strands, strand.program.result?.isSome

def tasks (state : State α) : List Nat := state.strands.map (·.context.task)

end State

abbrev Turns : State α → State α → Prop := Relation.ReflTransGen Turn

/-- A round is a sequence of turns. -/
theorem round_turns (now : Nat) (shared : Shared) (before strands : List (Strand α)) :
    Turns ⟨shared, before ++ strands⟩
      ⟨(round now shared strands).2.1, before ++ (round now shared strands).1⟩ := by
  induction strands generalizing shared before with
  | nil => exact .refl
  | cons strand rest ih =>
    by_cases stuck : strand.isStuck shared
    · rw [round, if_pos stuck]
      simpa using ih shared (before ++ [strand])
    · rw [round, if_neg stuck]
      have first := Turn.mk now shared before strand rest (by simpa using stuck)
      have others := ih (strand.turn now shared).2 (before ++ [(strand.turn now shared).1])
      simp only [List.append_assoc, List.singleton_append] at others
      exact .head first others

def afterRounds : Nat → State α → State α
  | 0, state => state
  | rounds + 1, state =>
    let state := afterRounds rounds state
    ⟨(round 0 state.shared state.strands).2.1, (round 0 state.shared state.strands).1⟩

theorem turns_afterRounds (rounds : Nat) (state : State α) : Turns state (afterRounds rounds state) := by
  induction rounds with
  | zero => exact .refl
  | succ rounds ih => exact ih.trans (round_turns 0 _ [] _)

/-- A round in which nobody has had a turn finds all tasks stuck. -/
theorem stuck_of_round {now : Nat} {shared : Shared} {strands : List (Strand α)}
    (still : (round now shared strands).2.2 = false) :
    ∀ strand ∈ strands, strand.isStuck shared = true := by
  induction strands with
  | nil => simp
  | cons first rest ih =>
    by_cases stuck : first.isStuck shared
    · rw [round, if_pos stuck] at still
      simpa [stuck] using ih still
    · rw [round, if_neg stuck] at still
      cases still

theorem expireFirst?_of_finished {time : Nat} {strands : List (Strand α)}
    (finished : ∀ strand ∈ strands, strand.program.result?.isSome) :
    expireFirst? time strands = none := by
  induction strands with
  | nil => rfl
  | cons first rest ih =>
    have done := finished first (by simp)
    rw [expireFirst?]
    split
    · rename_i waits _
      simp [waits, Program.result?] at done
    · simp [ih fun strand member => finished strand (by simp [member])]

theorem run_of_finished {now : Nat} {shared : Shared} {strands : List (Strand α)}
    (still : (round now shared strands).2.2 = false)
    (finished : ∀ strand ∈ strands, strand.program.result?.isSome) :
    run now shared strands = (strands, shared) := by
  rw [run, dif_neg (by simp [still])]
  split
  · rfl
  · split
    · rfl
    · rename_i expired
      rw [expireFirst?_of_finished finished] at expired
      cases expired

/-- Where some task can go on until all have ended, the scheduler lets them take turns to the end,
and no wait is over too early. -/
theorem run_turns (good : State α → Prop) (now : Nat) {shared : Shared} {strands : List (Strand α)}
    (begins : good ⟨shared, strands⟩)
    (turns : ∀ {state next}, good state → Turn state next → good next)
    (goesOn : ∀ {state}, good state → (∀ strand ∈ state.strands, strand.isStuck state.shared) →
      state.Finished) :
    Turns ⟨shared, strands⟩ ⟨(run now shared strands).2, (run now shared strands).1⟩ ∧
      State.Finished ⟨(run now shared strands).2, (run now shared strands).1⟩ := by
  have kept {state next : State α} (path : Turns state next) (holds : good state) : good next := by
    induction path with
    | refl => exact holds
    | tail _ turn ih => exact turns ih turn
  have ends {now : Nat} {shared : Shared} {strands : List (Strand α)}
      (holds : good ⟨shared, strands⟩) (still : ¬ (round now shared strands).2.2 = true) :
      Turns ⟨shared, strands⟩ ⟨(run now shared strands).2, (run now shared strands).1⟩ ∧
        State.Finished ⟨(run now shared strands).2, (run now shared strands).1⟩ := by
    have unmoved : (round now shared strands).2.2 = false := by simpa using still
    have finished := goesOn holds (stuck_of_round unmoved)
    rw [run_of_finished unmoved finished]
    exact ⟨.refl, finished⟩
  induction now, shared, strands using run.induct with
  | case1 now shared strands result moved ih =>
    have path := round_turns now shared [] strands
    rw [run, dif_pos moved]
    obtain ⟨rest, finished⟩ := ih (kept path begins)
    exact ⟨path.trans rest, finished⟩
  | case2 now shared strands result still => exact ends begins still
  | case3 now shared strands result still => exact ends begins still
  | case4 now shared strands result still => exact ends begins still

end LinkedMarkup.Pool
