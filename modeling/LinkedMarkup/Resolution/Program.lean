/-! Programs of tasks that take turns on a common state. A task keeps its turn until it pauses or
waits for a condition that does not hold; a wait that lasts too long goes on elsewhere. -/
namespace LinkedMarkup

inductive Program (σ α : Type) where
  | done (result : α)
  | read (next : σ → Program σ α)
  | change (update : σ → σ) (next : Program σ α)
  /-- Let the other tasks have a turn. -/
  | pause (next : Program σ α)
  /-- Go on with `next` when the state is ready, or with `late` after `limit` milliseconds. -/
  | await (ready : σ → Bool) (limit : Nat) (next late : Program σ α)

namespace Program
variable {σ α β : Type}

def bind (f : α → Program σ β) : Program σ α → Program σ β
  | done a => f a
  | read next => read fun s => bind f (next s)
  | change update next => change update (bind f next)
  | pause next => pause (bind f next)
  | await ready limit next late => await ready limit (bind f next) (bind f late)

instance : Monad (Program σ) where
  pure := done
  bind program f := bind f program

/-- Pause a number of times. -/
def pauses (next : Program σ α) : Nat → Program σ α
  | 0 => next
  | n + 1 => pause (pauses next n)

/-- Wait in vain and go on after the limit. -/
def elapse (limit : Nat) (late : Program σ α) : Program σ α :=
  await (fun _ => false) limit late late

def result? : Program σ α → Option α
  | done a => some a
  | _ => none

/-- Run a program while no other task changes the state: a condition that does not hold at once
never holds. -/
def alone : Program σ α → σ → α × σ
  | done a, s => (a, s)
  | read next, s => alone (next s) s
  | change update next, s => alone next (update s)
  | pause next, s => alone next s
  | await ready _ next late, s => if ready s then alone next s else alone late s

/-- Run a program for one turn. The rest is done, has paused or waits for a condition. -/
def turn : Program σ α → σ → Program σ α × σ
  | done a, s => (done a, s)
  | read next, s => turn (next s) s
  | change update next, s => turn next (update s)
  | pause next, s => (next, s)
  | await ready limit next late, s =>
    if ready s then turn next s else (await ready limit next late, s)

/-- A turn would leave the program as it is. -/
def isStuck : Program σ α → σ → Bool
  | done _, _ => true
  | await ready _ _ _, s => !ready s
  | _, _ => false

/-- One program is a rest of another one. -/
inductive Rest : Program σ α → Program σ α → Prop where
  | read (next : σ → Program σ α) (s : σ) : Rest (next s) (read next)
  | change (update : σ → σ) (next : Program σ α) : Rest next (change update next)
  | pause (next : Program σ α) : Rest next (pause next)
  | ready (ready : σ → Bool) (limit : Nat) (next late : Program σ α) :
    Rest next (await ready limit next late)
  | late (ready : σ → Bool) (limit : Nat) (next late : Program σ α) :
    Rest late (await ready limit next late)

/-- Every program comes to an end. -/
theorem rest_wellFounded : WellFounded (Rest (σ := σ) (α := α)) := by
  refine ⟨fun program => ?_⟩
  induction program with
  | done a => exact ⟨_, fun _ rest => nomatch rest⟩
  | read next ih => exact ⟨_, fun _ rest => by cases rest; exact ih _⟩
  | change update next ih => exact ⟨_, fun _ rest => by cases rest; exact ih⟩
  | pause next ih => exact ⟨_, fun _ rest => by cases rest; exact ih⟩
  | await ready limit next late ihNext ihLate =>
    exact ⟨_, fun _ rest => by cases rest <;> assumption⟩

/-- A later rest of a program. -/
def Later : Program σ α → Program σ α → Prop := Relation.TransGen Rest

theorem later_wellFounded : WellFounded (Later (σ := σ) (α := α)) := rest_wellFounded.transGen

/-- A turn leaves the program as it is or goes on to a later rest. -/
theorem turn_same_or_later (program : Program σ α) (s : σ) :
    (turn program s).1 = program ∨ Later (turn program s).1 program := by
  induction program generalizing s with
  | done a => exact .inl rfl
  | read next ih =>
    refine .inr ?_
    rcases ih s s with same | later
    · rw [turn, same]; exact .single (.read next s)
    · exact .trans later (.single (.read next s))
  | change update next ih =>
    refine .inr ?_
    rcases ih (update s) with same | later
    · rw [turn, same]; exact .single (.change update next)
    · exact .trans later (.single (.change update next))
  | pause next ih => exact .inr (.single (.pause next))
  | await ready limit next late ihNext ihLate =>
    by_cases holds : ready s
    · refine .inr ?_
      rw [turn, if_pos holds]
      rcases ihNext s with same | later
      · rw [same]; exact .single (.ready ready limit next late)
      · exact .trans later (.single (.ready ready limit next late))
    · rw [turn, if_neg holds]; exact .inl rfl

/-- A program that is not stuck goes on in its turn. -/
theorem turn_later {program : Program σ α} {s : σ} (free : program.isStuck s = false) :
    Later (turn program s).1 program := by
  cases program with
  | done a => cases free
  | read next =>
    rcases turn_same_or_later (next s) s with same | later
    · rw [turn, same]; exact .single (.read next s)
    · exact .trans later (.single (.read next s))
  | change update next =>
    rcases turn_same_or_later next (update s) with same | later
    · rw [turn, same]; exact .single (.change update next)
    · exact .trans later (.single (.change update next))
  | pause next => exact .single (.pause next)
  | await ready limit next late =>
    have holds : ready s = true := by simpa [isStuck] using free
    rw [turn, if_pos holds]
    rcases turn_same_or_later next s with same | later
    · rw [same]; exact .single (.ready ready limit next late)
    · exact .trans later (.single (.ready ready limit next late))

end Program
end LinkedMarkup
