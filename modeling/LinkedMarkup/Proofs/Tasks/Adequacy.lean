import LinkedMarkup.Proofs.Resolution.Recording
/-! Tasks that run side by side take courses of their programs. The scheduler lets tasks have turns and
ends waits in such a way that whoever gives up a wait goes on at once, so that each result it gathers is
the result of a course that begins in a fork of the session. -/
namespace LinkedMarkup
open Program

namespace Pool
variable {α : Type} {state next : State α} {shared : Shared} {strands : List (Strand α)}

/-- A task has a turn, or it gives up a wait and has a turn then. -/
abbrev Moves : State α → State α → Prop := Relation.ReflTransGen fun state next =>
  Turn state next ∨ Expiry state next

private theorem round_append (now : Nat) {before : List (Strand α)} {strand : Strand α}
    (after : List (Strand α)) (stuck : ∀ other ∈ before, other.isStuck shared = true)
    (free : strand.isStuck shared = false) :
    let others := round now (strand.turn now shared).2 after
    round now shared (before ++ strand :: after) =
      (before ++ (strand.turn now shared).1 :: others.1, others.2.1, true) := by
  induction before with
  | nil => simp [round, free]
  | cons first rest ih =>
    have below := ih fun other member => stuck other (List.mem_cons_of_mem _ member)
    dsimp only at below ⊢
    rw [List.cons_append, round, if_pos (stuck first (by simp)), below]
    rfl

/-- Among tasks that all are stuck, one has just given up its wait. -/
private structure Late (before : List (Strand α)) (strand : Strand α) (shared : Shared) : Prop where
  passed : ∀ other ∈ before, other.isStuck shared = true
  stuck : strand.isStuck shared = true
  waits : strand.program.isWaiting = true
  brisk : Brisk (fun _ => True) strand.program

namespace Late
variable {before after : List (Strand α)} {strand : Strand α}

private theorem expiry (late : Late before strand shared) (now : Nat) :
    Expiry ⟨shared, before ++ strand :: after⟩
      ⟨(strand.expire.turn now shared).2, before ++ (strand.expire.turn now shared).1 :: after⟩ := by
  refine .mk now shared before strand after late.stuck ?_
  have waits := late.waits
  cases program : strand.program with
  | await => rfl
  | done | read | change | pause => simp [program, isWaiting] at waits

private theorem idle (late : Late before strand shared)
    (stuck : strand.expire.isStuck shared = true) :
    Moves ⟨shared, before ++ strand :: after⟩ ⟨shared, before ++ strand.expire :: after⟩ := by
  have expiry : Expiry ⟨shared, before ++ strand :: after⟩ ⟨(strand.expire.turn 0 shared).2,
      before ++ (strand.expire.turn 0 shared).1 :: after⟩ := late.expiry 0
  have same : (strand.expire.turn 0 shared).1 = strand.expire ∧
      (strand.expire.turn 0 shared).2 = shared := by
    obtain ⟨_, _, waits, brisk⟩ := late
    obtain ⟨context, program, deadline⟩ := strand
    cases program with
    | done | read | change | pause => cases waits
    | await ready limit next late =>
      cases late with
      | done result => exact ⟨rfl, rfl⟩
      | read | change | pause => cases stuck
      | await => cases brisk.2.2
  rw [same.1, same.2] at expiry
  exact .single (.inr expiry)

end Late

private theorem moves_of_turns (turns : Turns state next) : Moves state next :=
  turns.lift id fun _ _ turn => .inl turn

namespace Timely

private theorem late {time : Nat} (timely : Timely strands)
    (still : (round time shared strands).2.2 = false) {before after : List (Strand α)}
    {strand : Strand α} (split : strands = before ++ strand :: after)
    (waits : strand.program.isWaiting = true) : Late before strand shared := by
  have stuck := stuck_of_round still
  subst split
  exact ⟨fun other member => stuck other (by simp [member]), stuck strand (by simp), waits,
    (timely strand (by simp)).1⟩

private theorem run_moves (now : Nat) (timely : Timely strands) :
    let ended : State α := ⟨(Pool.run now shared strands).2, (Pool.run now shared strands).1⟩
    Moves ⟨shared, strands⟩ ended ∧
      ∀ before strand after, strands = before ++ Strand.expire strand :: after →
        Late before strand shared → Moves ⟨shared, before ++ strand :: after⟩ ended := by
  have both {now : Nat} {shared : Shared} {strands : List (Strand α)} {ended : State α}
      (still : ¬ (round now shared strands).2.2 = true) (moves : Moves ⟨shared, strands⟩ ended) :
      Moves ⟨shared, strands⟩ ended ∧
        ∀ before strand after, strands = before ++ Strand.expire strand :: after →
          Late before strand shared → Moves ⟨shared, before ++ strand :: after⟩ ended := by
    refine ⟨moves, fun before strand after split late => ?_⟩
    subst split
    exact (late.idle (stuck_of_round (by simpa using still) _ (by simp))).trans moves
  induction now, shared, strands using run.induct with
  | case1 now shared strands result moved ih =>
    have path := round_turns now shared [] strands
    obtain ⟨rest, _⟩ := ih (timely.turns path)
    rw [Pool.run, dif_pos moved]
    refine ⟨(moves_of_turns path).trans rest, fun before strand after split late => ?_⟩
    subst split
    by_cases stuck : strand.expire.isStuck shared = true
    · exact (late.idle stuck).trans ((moves_of_turns path).trans rest)
    · have rounds := round_append now after late.passed (by simpa using stuck)
      have others := round_turns now (strand.expire.turn now shared).2
        (before ++ [(strand.expire.turn now shared).1]) after
      simp only [List.append_assoc, List.singleton_append] at others
      simp only [result, rounds] at rest ⊢
      exact .head (.inr (late.expiry now)) ((moves_of_turns others).trans rest)
  | case2 now shared strands result still nobody =>
    refine both still ?_
    rw [Pool.run, dif_neg still, nobody]
  | case3 now shared strands result still time first unknown =>
    obtain ⟨_, _, _, _, expired, _⟩ := timely.expireFirst? (due_of_earliest? first)
    rw [unknown] at expired
    cases expired
  | case4 now shared strands result still time first next expired ih =>
    obtain ⟨before, strand, after, rfl, same, timely', waits⟩ := timely.expireFirst? (due_of_earliest? first)
    cases expired.symm.trans same
    have goesOn := run_of_expired still first expired
    have late : Late before strand shared := timely.late (by simpa using still) rfl waits
    refine both still ?_
    rw [goesOn]
    exact (ih timely').2 before strand after rfl late

end Timely

/-- A program has a course to this result and this context, from a fork of the session. -/
def Comes (session : Session) (program : Program Session α) (result : α) (context : Context) : Prop :=
  ∃ task shared changes last, Course program ⟨shared, session.context.fork task⟩ changes result last ∧
    last.context = context

def Comes.Kept (session : Session) (program : Program Session α) (strand : Strand α) : Prop :=
  ∀ shared, Always strand.program (strand.session shared) fun _ result last =>
    Comes session program result last.context

namespace Comes.Kept
variable {session : Session} {programs : List (Program Session α)} {program : Program Session α}

private theorem turn {strand : Strand α} (kept : Kept session program strand) (now : Nat)
    (shared : Shared) : Kept session program (strand.turn now shared).1 :=
  fun later => Always.turn (kept shared) later

private theorem expire {strand : Strand α} (kept : Kept session program strand) (now : Nat)
    (stuck : strand.isStuck shared = true) (waits : strand.program.result? = none) :
    Kept session program (strand.expire.turn now shared).1 := by
  obtain ⟨context, waiting, deadline⟩ := strand
  cases waiting with
  | done => cases waits
  | read | change | pause => cases stuck
  | await ready limit next late =>
    have fails : ready ⟨shared, context⟩ = false := by
      simpa [Strand.isStuck, Strand.session, isStuck] using stuck
    have goesOn : Always late ⟨shared, context⟩ fun _ result last =>
        Comes session program result last.context :=
      fun _ _ _ course => kept shared _ _ _ (.expires shared fails course)
    exact fun later => Always.turn goesOn later

private theorem moves (kept : List.Forall₂ (Kept session) programs state.strands)
    (path : Moves state next) : List.Forall₂ (Kept session) programs next.strands := by
  induction path with
  | refl => exact kept
  | tail _ move ih =>
    rcases move with ⟨now, shared, before, strand, after, _⟩ |
      ⟨now, shared, before, strand, after, stuck, waits⟩
    · exact forall₂_replace ih fun kept => kept.turn now shared
    · exact forall₂_replace ih fun kept => kept.expire now stuck waits

private theorem forked (session : Session) (programs : List (Program Session α)) :
    List.Forall₂ (Kept session) programs (Pool.forked session programs).strands := by
  rw [Pool.forked, strands_fork]
  generalize session.shared.lastTask + 1 = first
  induction programs generalizing first with
  | nil => exact .nil
  | cons program rest ih =>
    rw [List.zipIdx_cons, List.map_cons]
    refine .cons (fun shared changes result last course => ?_) (ih (first + 1))
    exact ⟨first, shared, changes, last, course, rfl⟩

end Comes.Kept

/-- The results of programs that run side by side are those of their courses. -/
theorem runAll_courses (session : Session) {programs : List (Program Session α)}
    (prompt : ∀ program ∈ programs, Prompt (fun _ => True) program) :
    List.Forall₂ (fun program result => ∃ context, Comes session program result context) programs
      (runAll programs session).1 := by
  have timely := timely_forked session prompt
  have kept : List.Forall₂ (Comes.Kept session) programs
      (run 0 (forked session programs).shared (forked session programs).strands).1 :=
    Comes.Kept.moves (Comes.Kept.forked session programs) (timely.run_moves 0).1
  have finished : State.Finished
      ⟨(run 0 (forked session programs).shared (forked session programs).strands).2,
        (run 0 (forked session programs).shared (forked session programs).strands).1⟩ :=
    (timely.run 0).2
  have ended : List.Forall₂ (fun program strand => ∃ result, strand.program.result? = some result ∧
      Comes session program result strand.context) programs
      (run 0 (forked session programs).shared (forked session programs).strands).1 := by
    refine ((List.forall₂_and_left _ _).mpr ⟨finished, kept.flip⟩).flip.imp ?_
    rintro program ⟨context, rest, deadline⟩ ⟨done, kept⟩
    cases rest with
    | done result => exact ⟨result, rfl, kept {} _ _ _ (.done result _)⟩
    | read | change | pause | await => cases done
  exact (filterMap_result (forked session programs).shared ended).imp
    fun _ _ ⟨last, comes⟩ => ⟨last.context, comes⟩

end Pool

namespace Resolver
variable {resolver : Resolver}

private theorem resolveInTurn_courses (references : List Reference) (session : Session) :
    List.Forall₂ (fun r result => ∃ begins changes last,
        begins.context.mode = session.context.mode ∧
          Course (resolver.resolution r) begins changes result last)
      references (resolver.resolveInTurn references session).1 := by
  induction references generalizing session with
  | nil => exact .nil
  | cons r rest ih =>
    have mode : (resolver.resolveAlone r session).2.context.mode = session.context.mode :=
      ((resolver.resolution_abides r session).alone carries_recorded).1.mode
    obtain ⟨changes, course⟩ := course_alone (resolver.resolution r) session
    rw [resolveInTurn]
    refine .cons ⟨session, changes, _, rfl, course⟩ ?_
    refine (ih (resolver.resolveAlone r session).2).imp ?_
    rintro other result ⟨begins, changes, last, same, course⟩
    exact ⟨begins, changes, last, same.trans mode, course⟩

/-- Each reference among siblings gets the result of a course of its resolution. -/
theorem siblings_courses (concurrent : Bool) (references : List Reference) (session : Session) :
    List.Forall₂ (fun r result => ∃ begins changes last,
        begins.context.mode = session.context.mode ∧
          Course (resolver.resolution r) begins changes result last)
      references (Visitor.siblings resolver concurrent references session).1 := by
  have inTurn : List.Forall₂ (fun r result => ∃ begins changes last,
        begins.context.mode = session.context.mode ∧
          Course (resolver.resolution r) begins changes result last)
      references (resolver.resolveInTurn references session).1 :=
    resolveInTurn_courses references session
  cases concurrent with
  | false => exact inTurn
  | true =>
    match references with
    | [] => exact inTurn
    | [_] => exact inTurn
    | first :: second :: rest =>
      have prompt : ∀ program ∈ (first :: second :: rest).map resolver.resolution,
          Program.Prompt (fun _ => True) program := by
        intro program member
        obtain ⟨r, _, rfl⟩ := List.mem_map.mp member
        exact resolution_prompt r
      have courses := List.forall₂_map_left_iff.mp (Pool.runAll_courses session prompt)
      refine courses.imp fun r result ⟨context, task, shared, changes, last, course, _⟩ => ?_
      exact ⟨⟨shared, session.context.fork task⟩, changes, last, rfl, course⟩

end Resolver
end LinkedMarkup
