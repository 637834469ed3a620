import LinkedMarkup.Proofs.Tasks.Company
/-! The scheduler brings the tasks of a pool to their ends: a wait that nobody serves is given up at
its time, and a task that has given up one wait does not begin another at once. -/
namespace LinkedMarkup

namespace Program
variable {α β : Type}

def isWaiting : Program Session α → Bool
  | await _ _ _ _ => true
  | _ => false

/-- Each wait that is given up is followed by something else than a wait, and the result is as it
should be. -/
def Brisk (post : α → Prop) : Program Session α → Prop
  | done result => post result
  | read next => ∀ session, Brisk post (next session)
  | change _ next => Brisk post next
  | pause next => Brisk post next
  | await _ _ next late => Brisk post next ∧ Brisk post late ∧ late.isWaiting = false

/-- Such a program that does not begin with a wait. -/
structure Prompt (post : α → Prop) (program : Program Session α) : Prop where
  brisk : Brisk post program
  begins : program.isWaiting = false

namespace Brisk
variable {post mid : α → Prop} {program : Program Session α}

theorem mono (brisk : Brisk mid program) (weaker : ∀ {result}, mid result → post result) :
    Brisk post program := by
  induction program with
  | done result => exact weaker brisk
  | read next ih => exact fun session => ih session (brisk session)
  | change update next ih => exact ih brisk
  | pause next ih => exact ih brisk
  | await ready limit next late ihNext ihLate =>
    exact ⟨ihNext brisk.1, ihLate brisk.2.1, brisk.2.2⟩

theorem turn (brisk : Brisk post program) (session : Session) :
    Brisk post (program.turn session).1 := by
  induction program generalizing session with
  | done result => exact brisk
  | read next ih => exact ih session (brisk session) session
  | change update next ih => exact ih brisk _
  | pause next ih => exact brisk
  | await ready limit next late ihNext ihLate =>
    rw [Program.turn]
    split
    · exact ihNext brisk.1 session
    · exact brisk

theorem pauses (brisk : Brisk post program) (turns : Nat) : Brisk post (pauses program turns) := by
  induction turns with
  | zero => exact brisk
  | succ turns ih => exact ih

end Brisk

namespace Prompt
variable {post mid : α → Prop} {program : Program Session α}

theorem bind {f : α → Program Session β} {last : β → Prop} (prompt : Prompt mid program)
    (rest : ∀ {result}, mid result → Prompt last (f result)) : Prompt last (program.bind f) := by
  have begins {program : Program Session α} (prompt : Prompt mid program) :
      (program.bind f).isWaiting = false := by
    cases program with
    | done result => exact (rest prompt.brisk).begins
    | read | change | pause => rfl
    | await => cases prompt.begins
  refine ⟨?_, begins prompt⟩
  have brisk := prompt.brisk
  clear prompt
  induction program with
  | done result => exact (rest brisk).brisk
  | read next ih => exact fun session => ih session (brisk session)
  | change update next ih => exact ih brisk
  | pause next ih => exact ih brisk
  | await ready limit next late ihNext ihLate =>
    exact ⟨ihNext brisk.1, ihLate brisk.2.1, begins ⟨brisk.2.1, brisk.2.2⟩⟩

end Prompt
end Program

namespace Resolving

/-- A resolution that never gives up one wait only to begin another. -/
def Prompt {α : Type} (ok : α → Prop) (error : ReferenceError → Prop) (resolution : Resolving α) :
    Prop :=
  Program.Prompt (Meets ok error) resolution.run

def prompt : Resolver.Rules (fun _ => True) fun _ => True where
  holds := Prompt
  mono prompt weaker softer := ⟨prompt.brisk.mono fun meets => meets.imp weaker softer, prompt.begins⟩
  pure holds := ⟨holds, rfl⟩
  throw holds := ⟨holds, rfl⟩
  bind prompt rest := Program.Prompt.bind prompt fun {outcome} meets => by
    cases outcome with
    | ok result => exact rest meets
    | error cause => exact ⟨meets, rfl⟩
  tryCatch prompt copes := Program.Prompt.bind prompt fun {outcome} meets => by
    cases outcome with
    | ok result => exact ⟨meets, rfl⟩
    | error cause => exact copes meets
  tolerate cause position := by
    refine ⟨fun session => ?_, rfl⟩
    dsimp only
    split <;> trivial
  warn _ _ := ⟨trivial, rfl⟩

end Resolving

namespace Resolver
variable {resolver : Resolver}

/-- A resolution is prompt whatever it comes to. -/
abbrev Lively {α : Type} (resolution : Resolving α) : Prop :=
  Resolving.Prompt (fun _ => True) (fun _ => True) resolution

private theorem trivially {α : Type} (outcome : Except ReferenceError α) :
    Meets (fun _ => True) (fun _ => True) outcome := by
  cases outcome <;> trivial

private theorem update_lively (change : Session → Session) : Lively (Resolving.update change) :=
  ⟨trivial, rfl⟩

theorem acquire_lively (timeout : Nat) (key : String) : Lively (acquire timeout key) := by
  refine ⟨fun session => ?_, rfl⟩
  dsimp only
  split
  · trivial
  · trivial
  split
  · trivial
  split
  · trivial
  refine ⟨fun session => ?_, trivial, rfl⟩
  dsimp only
  split <;> trivial

private theorem ask_lively (handler : Handler) (uri : Uri) : Lively (resolver.ask handler uri) := by
  refine ⟨fun session => ?_, rfl⟩
  dsimp only
  split
  · have elapses (late : Except ReferenceError Resolved) : Program.Brisk (Meets (fun _ => True)
        fun _ => True) (.elapse resolver.timeout (.done late)) :=
      ⟨trivially late, trivially late, rfl⟩
    exact (elapses _).pauses _
  · rename_i outcome _
    split
    · trivial
    · have done : Program.Brisk (Meets (fun _ => True) fun _ => True) (.done outcome) :=
        trivially outcome
      exact done.pauses _

private def anything (resolver : Resolver) : Outlook :=
  ⟨fun _ _ => True, fun _ => True, resolver.tags, True⟩

private theorem fetch_lively {resolve : Uri → Resolving Resolved} (lively : ∀ uri, Lively (resolve uri))
    (uri : Uri) : Lively (resolver.fetch resolve uri) := by
  have resolves : Resolving.prompt.Resolves (anything resolver) (fun _ => True) resolve := by
    refine ⟨fun {uri} _ => lively uri, fun _ _ _ _ => trivial, rfl, fun nodes => ?_⟩
    unfold Resolver.cutOff
    split
    · exact Resolving.prompt.bind (update_lively _) fun {_} _ =>
        Resolving.prompt.pure ⟨rfl, .inr trivial⟩
    · rename_i empty
      exact Resolving.prompt.pure ⟨rfl, .inr trivial⟩
  unfold fetch
  split
  · exact ⟨trivial, rfl⟩
  · rename_i handler _
    refine Resolving.prompt.bind (update_lively _) fun {_} _ => ?_
    refine Resolving.prompt.bind (ask_lively handler uri) fun {value} _ => ?_
    have known : ∀ uri ∈ value.opens, True := fun _ _ => trivial
    have expands : Resolving.Prompt ((anything resolver).ExpandsTo value) (fun _ => True)
        (resolver.expand resolve value) := expand_grows resolves rfl known
    exact Resolving.prompt.mono expands (fun _ => trivial) id

private theorem resolveBy_lively {fetch? : Option (Resolving Resolved)}
    (lively : ∀ fetch ∈ fetch?, Lively fetch) (uri : Uri) : Lively (resolver.resolveBy uri fetch?) := by
  refine ⟨fun session => ?_, rfl⟩
  dsimp only
  split
  · trivial
  · trivial
  · trivial
  · rename_i fetch _ _
    refine (Program.Prompt.bind (acquire_lively _ _) fun {outcome} _ => ?_).brisk
    split
    · exact ⟨trivial, rfl⟩
    · exact ⟨trivial, rfl⟩
    · have owned : Program.Prompt (Meets (fun _ => True) fun _ => True)
          (fetch.run.bind fun outcome => .change (conclude uri outcome) (.done outcome)) :=
        (lively fetch rfl).bind fun {outcome} _ => ⟨trivially outcome, rfl⟩
      exact ⟨owned.brisk, rfl⟩

theorem resolve_lively (uri : Uri) : Lively (resolver.resolve uri) := by
  have within (room : Nat) : ∀ uri, Lively (resolver.resolveWithin room uri) := by
    induction room with
    | zero => exact fun uri => resolveBy_lively (by simp) uri
    | succ room ih =>
      refine fun uri => resolveBy_lively (fun fetch given => ?_) uri
      cases Option.mem_some.mp given
      exact fetch_lively ih uri
  exact ⟨fun session => (within _ uri).brisk, rfl⟩

theorem resolution_prompt (r : Reference) :
    Program.Prompt (fun _ => True) (resolver.resolution r) := by
  unfold resolution resolveReference
  split
  · exact ⟨trivial, rfl⟩
  · refine Program.Prompt.bind (resolve_lively r.uri) fun {outcome} _ => ?_
    cases outcome <;> exact ⟨trivial, rfl⟩

end Resolver

namespace Pool
variable {α : Type} {strands : List (Strand α)} {state next : State α}

abbrev Shifts : State α → State α → Prop := Relation.ReflTransGen Shift

/-- Exactly the tasks that wait have a time at which they give up. -/
def Timely (strands : List (Strand α)) : Prop :=
  ∀ strand ∈ strands, Program.Brisk (fun _ => True) strand.program ∧
    strand.program.isWaiting = strand.deadline.isSome

theorem due_of_earliest? {time : Nat} (first : earliest? strands = some time) :
    ∃ strand ∈ strands, strand.deadline = some time :=
  List.mem_filterMap.mp (List.min?_mem first)

theorem run_of_expired {now time : Nat} {shared : Shared} {next : List (Strand α)}
    (still : ¬ (round now shared strands).2.2 = true) (first : earliest? strands = some time)
    (expired : expireFirst? time strands = some next) :
    run now shared strands = run time shared next := by
  rw [run, dif_neg still]
  split
  · rename_i nobody
    cases first.symm.trans nobody
  · rename_i other earliest
    cases first.symm.trans earliest
    split
    · rename_i unknown
      cases expired.symm.trans unknown
    · rename_i found
      cases expired.symm.trans found
      rfl

namespace Timely

private theorem replace {before after : List (Strand α)} {strand moved : Strand α}
    (timely : Timely (before ++ strand :: after))
    (brisk : Program.Brisk (fun _ => True) moved.program)
    (waits : moved.program.isWaiting = moved.deadline.isSome) :
    Timely (before ++ moved :: after) := by
  intro other member
  have place : other = moved ∨ other ∈ before ∨ other ∈ after := by
    simpa [or_left_comm] using member
  rcases place with rfl | elsewhere
  · exact ⟨brisk, waits⟩
  · exact timely other (List.mem_append.mpr (elsewhere.imp id (List.mem_cons_of_mem _)))

theorem turns (timely : Timely state.strands) (path : Turns state next) : Timely next.strands := by
  induction path with
  | refl => exact timely
  | tail _ turn ih =>
    obtain ⟨now, shared, before, strand, after, _⟩ := turn
    refine ih.replace ((ih strand (by simp)).1.turn _) ?_
    show (strand.program.turn (strand.session shared)).1.isWaiting =
      (Strand.deadlineOf now (strand.program.turn (strand.session shared)).1).isSome
    cases (strand.program.turn (strand.session shared)).1 <;> rfl

theorem expireFirst? {time : Nat} (timely : Timely strands)
    (due : ∃ strand ∈ strands, strand.deadline = some time) :
    ∃ before strand after, strands = before ++ strand :: after ∧
      Pool.expireFirst? time strands = some (before ++ strand.expire :: after) ∧
      Timely (before ++ strand.expire :: after) ∧ strand.program.isWaiting = true := by
  induction strands with
  | nil => obtain ⟨_, member, _⟩ := due; cases member
  | cons first rest ih =>
    obtain ⟨brisk, waits⟩ := timely first (by simp)
    by_cases here : first.deadline = some time
    · obtain ⟨context, program, deadline⟩ := first
      cases program with
      | done | read | change | pause =>
        simp [Program.isWaiting, show deadline = some time from here] at waits
      | await ready limit next late =>
        refine ⟨[], _, rest, rfl, ?_, ?_, rfl⟩
        · have now : (deadline == some time) = true := by simpa using here
          simp only [Pool.expireFirst?, now]
          rfl
        · have whole : Timely ([] ++ ⟨context, .await ready limit next late, deadline⟩ :: rest) := timely
          exact whole.replace brisk.2.1 brisk.2.2
    · obtain ⟨strand, member, same⟩ := due
      have there : strand ∈ rest := by
        rcases List.mem_cons.mp member with rfl | there
        · exact absurd same here
        · exact there
      obtain ⟨before, late, after, rfl, expired, still, waiting⟩ :=
        ih (fun other inside => timely other (List.mem_cons_of_mem _ inside)) ⟨strand, there, same⟩
      refine ⟨first :: before, late, after, rfl, ?_, ?_, waiting⟩
      · have other : (first.deadline == some time) = false := by simpa using here
        rw [Pool.expireFirst?]
        simp only [other, expired]
        split
        · rename_i mismatch
          cases mismatch
        · rfl
      · intro other inside
        rcases List.mem_cons.mp inside with rfl | below
        · exact ⟨brisk, waits⟩
        · exact still other below

/-- The scheduler lets tasks have turns and give up waits till all have ended. -/
theorem run (now : Nat) {shared : Shared} (timely : Timely strands) :
    Shifts ⟨shared, strands⟩ ⟨(Pool.run now shared strands).2, (Pool.run now shared strands).1⟩ ∧
      State.Finished ⟨(Pool.run now shared strands).2, (Pool.run now shared strands).1⟩ := by
  have finished {now : Nat} {shared : Shared} {strands : List (Strand α)} (timely : Timely strands)
      (still : ¬ (round now shared strands).2.2 = true)
      (none : ∀ time, ¬ ∃ strand ∈ strands, strand.deadline = some time) :
      State.Finished ⟨shared, strands⟩ := by
    intro strand member
    have stuck := stuck_of_round (by simpa using still) strand member
    have idle : strand.program.isWaiting = false := by
      cases deadline : strand.deadline with
      | none => rw [(timely strand member).2, deadline]; rfl
      | some time => exact absurd ⟨strand, member, deadline⟩ (none time)
    obtain ⟨context, program, deadline⟩ := strand
    cases program with
    | done => rfl
    | read | change | pause => cases stuck
    | await => cases idle
  induction now, shared, strands using run.induct with
  | case1 now shared strands result moved ih =>
    have path := round_turns now shared [] strands
    obtain ⟨rest, ended⟩ := ih (timely.turns path)
    rw [Pool.run, dif_pos moved]
    exact ⟨(path.lift id fun _ _ turn => .turn turn).trans rest, ended⟩
  | case2 now shared strands result still nobody =>
    have same : Pool.run now shared strands = (strands, shared) := by
      rw [Pool.run, dif_neg still, nobody]
    rw [same]
    refine ⟨.refl, finished timely still fun time waiting => ?_⟩
    obtain ⟨strand, member, deadline⟩ := waiting
    have empty := List.min?_eq_none_iff.mp nobody
    exact List.ne_nil_of_mem (List.mem_filterMap.mpr ⟨strand, member, deadline⟩) empty
  | case3 now shared strands result still time first unknown =>
    obtain ⟨_, _, _, _, expired, _⟩ := timely.expireFirst? (due_of_earliest? first)
    rw [unknown] at expired
    cases expired
  | case4 now shared strands result still time first next expired ih =>
    obtain ⟨before, strand, after, rfl, same, timely', _⟩ := timely.expireFirst? (due_of_earliest? first)
    cases expired.symm.trans same
    have goesOn := run_of_expired still first expired
    rw [goesOn]
    obtain ⟨rest, ended⟩ := ih timely'
    have stuck := stuck_of_round (by simpa using still) strand (by simp)
    exact ⟨.head (.expire shared before strand after stuck) rest, ended⟩

end Timely

/-- Tasks that are just forked have not begun to wait. -/
theorem timely_forked (session : Session) {programs : List (Program Session α)}
    (prompt : ∀ program ∈ programs, Program.Prompt (fun _ => True) program) :
    Timely (forked session programs).strands := by
  intro strand member
  rw [forked, strands_fork] at member
  obtain ⟨⟨program, task⟩, given, rfl⟩ := List.mem_map.mp member
  obtain ⟨brisk, begins⟩ := prompt program (List.fst_mem_of_mem_zipIdx given)
  exact ⟨brisk, begins⟩

end Pool

/-- A way to resolve siblings that brings all of them to an end, whoever has to give up a wait. -/
def Resolver.Schedules (resolver : Resolver) (siblings : Visitor.Siblings) : Prop :=
  ∀ references session, resolver.Handles True references session (siblings references session)

/-- The two ways of the library are such ways. -/
theorem Resolver.schedules_siblings (resolver : Resolver) (concurrent : Bool) :
    resolver.Schedules (Visitor.siblings resolver concurrent) := by
  intro references session
  rw [Visitor.siblings]
  split
  · rcases references with _ | ⟨first, _ | ⟨second, rest⟩⟩
    · exact .inTurn (.inl trivial)
    · exact .inTurn (.inl trivial)
    · let programs := (first :: second :: rest).map resolver.resolution
      have timely : Pool.Timely (Pool.forked session programs).strands := by
        refine Pool.timely_forked session fun program member => ?_
        obtain ⟨r, _, rfl⟩ := List.mem_map.mp member
        exact resolution_prompt r
      obtain ⟨path, finished⟩ := timely.run 0
      exact .sideBySide (path.lift id fun _ _ shift => .inr ⟨trivial, shift⟩) finished
  · exact .inTurn (.inl trivial)

theorem Resolver.Schedules.adds {resolver : Resolver} {siblings : Visitor.Siblings}
    (schedules : resolver.Schedules siblings) (references : List Reference) (session : Session) :
    session.Adds (siblings references session).2 :=
  ((Care.nothing.serves resolver session.context).tends (fun _ => id) (schedules references session)
    (.refl _) (fun _ _ _ _ => trivial) (.inr (Care.nothing.calm _))).adds

end LinkedMarkup
