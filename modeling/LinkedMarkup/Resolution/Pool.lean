import LinkedMarkup.Resolution.Resolver
/-! References that are resolved side by side. Each has a task of its own, forked from the task that
asks for them. The tasks have their turns in the order of the references; when all of them wait, the
wait that ends first is over. -/
namespace LinkedMarkup

/-- A task of the pool: its context, the rest of its program, and when its wait is over. -/
structure Strand (α : Type) where
  context : Context
  program : Program Session α
  deadline : Option Nat := none

namespace Strand
variable {α : Type}

def session (strand : Strand α) (shared : Shared) : Session := ⟨shared, strand.context⟩

def isStuck (strand : Strand α) (shared : Shared) : Bool :=
  strand.program.isStuck (strand.session shared)

/-- The time at which the wait of a program is over that begins now. -/
def deadlineOf (now : Nat) : Program Session α → Option Nat
  | .await _ limit _ _ => some (now + limit)
  | _ => none

def turn (now : Nat) (strand : Strand α) (shared : Shared) : Strand α × Shared :=
  let (program, session) := strand.program.turn (strand.session shared)
  (⟨session.context, program, deadlineOf now program⟩, session.shared)

/-- The program goes on because its wait was too long. -/
def expire (strand : Strand α) : Strand α :=
  match strand.program with
  | .await _ _ _ late => { strand with program := late, deadline := none }
  | _ => strand

end Strand

namespace Pool
variable {α : Type}

def programs (strands : List (Strand α)) : List (Program Session α) := strands.map (·.program)

/-- One program of a list has gone on. -/
inductive Advance : List (Program Session α) → List (Program Session α) → Prop where
  | head {first next : Program Session α} (rest : List (Program Session α))
    (later : Program.Later next first) : Advance (next :: rest) (first :: rest)
  | tail (first : Program Session α) {rest next : List (Program Session α)}
    (advance : Advance next rest) : Advance (first :: next) (first :: rest)

theorem advance_acc_cons {first : Program Session α} (acc : Acc Program.Later first) :
    ∀ {rest : List (Program Session α)}, Acc Advance rest → Acc Advance (first :: rest) := by
  induction acc with
  | intro first _ ihFirst =>
    intro rest accRest
    induction accRest with
    | intro rest below ihRest =>
      refine ⟨_, fun list advance => ?_⟩
      cases advance with
      | head _ later => exact ihFirst _ later ⟨_, below⟩
      | tail _ advance => exact ihRest _ advance

theorem advance_wellFounded : WellFounded (Advance (α := α)) := by
  refine ⟨fun list => ?_⟩
  induction list with
  | nil => exact ⟨_, fun _ advance => nomatch advance⟩
  | cons first rest ih => exact advance_acc_cons (Program.later_wellFounded.apply first) ih

/-- At least one program of a list has gone on, and perhaps several. -/
def Progress : List (Program Session α) → List (Program Session α) → Prop :=
  Relation.TransGen Advance

theorem progress_wellFounded : WellFounded (Progress (α := α)) := advance_wellFounded.transGen

theorem progress_cons (first : Program Session α) {next rest : List (Program Session α)}
    (progress : Progress next rest) : Progress (first :: next) (first :: rest) := by
  induction progress with
  | single advance => exact .single (.tail first advance)
  | tail _ advance ih => exact .tail ih (.tail first advance)

/-- Give each task that is not stuck a turn, in order. The flag tells whether there was one. -/
def round (now : Nat) : Shared → List (Strand α) → List (Strand α) × Shared × Bool
  | shared, [] => ([], shared, false)
  | shared, strand :: rest =>
    if strand.isStuck shared then
      let (others, shared, moved) := round now shared rest
      (strand :: others, shared, moved)
    else
      let (strand, shared) := strand.turn now shared
      let (others, shared, _) := round now shared rest
      (strand :: others, shared, true)

/-- A round makes progress if it says so, and changes no program otherwise. -/
theorem round_progress (now : Nat) (shared : Shared) (strands : List (Strand α)) :
    if (round now shared strands).2.2 then
      Progress (programs (round now shared strands).1) (programs strands)
    else programs (round now shared strands).1 = programs strands := by
  induction strands generalizing shared with
  | nil => simp [round]
  | cons strand rest ih =>
    by_cases stuck : strand.isStuck shared
    · have below := ih shared
      rw [round, if_pos stuck]
      dsimp only [programs, List.map_cons] at below ⊢
      split at below
      · rename_i moved
        rw [if_pos moved]
        exact progress_cons _ below
      · rename_i still
        rw [if_neg still, List.map_cons, below, List.map_cons]
    · have free : strand.program.isStuck (strand.session shared) = false := by
        simpa [Strand.isStuck] using stuck
      have below := ih (strand.turn now shared).2
      have later := Program.turn_later free
      rw [round, if_neg stuck]
      dsimp only [programs, List.map_cons] at below ⊢
      rw [if_pos rfl]
      have first : Advance ((strand.turn now shared).1.program :: rest.map (·.program))
          (strand.program :: rest.map (·.program)) := .head _ later
      split at below
      · exact .trans (progress_cons _ below) (.single first)
      · rw [List.map_cons, below]; exact .single first

/-- The earliest time at which a wait is over. -/
def earliest? (strands : List (Strand α)) : Option Nat := (strands.filterMap (·.deadline)).min?

/-- End the first wait that is over at a time. None if no task waits for that time. -/
def expireFirst? (time : Nat) : List (Strand α) → Option (List (Strand α))
  | [] => none
  | strand :: rest =>
    match strand.program, strand.deadline == some time with
    | .await _ _ _ _, true => some (strand.expire :: rest)
    | _, _ => (expireFirst? time rest).map (strand :: ·)

theorem expireFirst?_advance {time : Nat} {strands next : List (Strand α)}
    (expired : expireFirst? time strands = some next) :
    Advance (programs next) (programs strands) := by
  induction strands generalizing next with
  | nil => cases expired
  | cons strand rest ih =>
    rw [expireFirst?] at expired
    split at expired
    · rename_i waits _
      cases expired
      simp only [programs, List.map_cons, Strand.expire, waits]
      exact .head _ (.single (.late _ _ _ _))
    · obtain ⟨others, found, same⟩ := Option.map_eq_some_iff.1 expired
      cases same
      exact .tail _ (ih found)

/-- Run the tasks until no one can go on. -/
def run (now : Nat) (shared : Shared) (strands : List (Strand α)) : List (Strand α) × Shared :=
  let result := round now shared strands
  if _ : result.2.2 then run now result.2.1 result.1
  else
    match earliest? strands with
    | none => (strands, shared)
    | some time =>
      match _ : expireFirst? time strands with
      | none => (strands, shared)
      | some next => run time shared next
termination_by progress_wellFounded.wrap (programs strands)
decreasing_by
  · rename_i moved
    have progress := round_progress now shared strands
    rw [if_pos moved] at progress
    exact progress
  · rename_i expired
    exact .single (expireFirst?_advance expired)

/-- Fork a task for each program. -/
def fork (session : Session) : List (Program Session α) → Shared → List (Strand α) × Shared
  | [], shared => ([], shared)
  | program :: rest, shared =>
    let forked := shared.fork session.context.task
    let (others, last) := fork session rest forked
    (⟨session.context.fork forked.lastTask, program, none⟩ :: others, last)

/-- Take over what a forked task has recorded. -/
def absorb (session : Session) (strand : Strand α) : Session :=
  ⟨session.shared.endFork strand.context.task, session.context.absorb strand.context⟩

/-- The results of tasks that have ended, in the order of the tasks, and the session of the task
that forked them. -/
def join (session : Session) (ended : List (Strand α)) (shared : Shared) : List α × Session :=
  (ended.filterMap (·.program.result?), ended.foldl absorb { session with shared })

/-- Run programs side by side. Their results come in the order of the programs. -/
def runAll (programs : List (Program Session α)) (session : Session) : List α × Session :=
  let (strands, shared) := fork session programs session.shared
  let (ended, shared) := run 0 shared strands
  join session ended shared

end Pool

namespace Resolver

/-- The program that resolves a reference in place. -/
def resolution (resolver : Resolver) (r : Reference) :
    Program Session (Except ReferenceError Reference) :=
  (resolveReference resolver.resolve r).run

/-- Resolve a reference in place by the task itself. -/
def resolveAlone (resolver : Resolver) (r : Reference) (session : Session) :
    Except ReferenceError Reference × Session :=
  (resolver.resolution r).alone session

/-- Resolve references one after another. -/
def resolveInTurn (resolver : Resolver) :
    List Reference → Session → List (Except ReferenceError Reference) × Session
  | [], session => ([], session)
  | r :: rest, session =>
    let (first, session) := resolver.resolveAlone r session
    let (others, session) := resolveInTurn resolver rest session
    (first :: others, session)

/-- Resolve references side by side; a single one needs no task of its own. -/
def resolveAll (resolver : Resolver) (references : List Reference) (session : Session) :
    List (Except ReferenceError Reference) × Session :=
  match references with
  | [] | [_] => resolver.resolveInTurn references session
  | _ => Pool.runAll (references.map resolver.resolution) session

end Resolver
end LinkedMarkup
