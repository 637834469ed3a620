import LinkedMarkup.Proofs.Resolution.Accounts
import LinkedMarkup.Proofs.Tasks.Siblings

namespace LinkedMarkup
open Shared Relation

/-- Nobody is at work, and no reference is being resolved. -/
structure Session.Calm (session : Session) : Prop where
  resting : session.shared.Resting
  known : session.context.task ≤ session.shared.lastTask
  begins : session.context.resolving = []

namespace Resolver
variable {resolver : Resolver} {session now : Session} {others : List Uri}
  {references : List Reference}

/-- References without a value that are in play. -/
def Pending (resolver : Resolver) (session : Session) (others : List Uri)
    (references : List Reference) : Prop :=
  ∀ r ∈ references, r.isResolved = false ∧ resolver.InPlay session others r.uri

def replaced (resolver : Resolver) (session : Session) (r : Reference) :
    Except ReferenceError Reference :=
  (resolver.outcome session r.uri).map r.resolveTo

/-- The reference is replaced as its script tells, at the charge of one request. -/
def Scripted (resolver : Resolver) (session : Session) (r : Reference) (now : Session)
    (result : Except ReferenceError Reference) (last : Session) : Prop :=
  result = resolver.replaced session r ∧ resolver.Ledger session now last [r.uri] []

namespace Untangled
variable (untangled : resolver.Untangled session others)
include untangled

private theorem resolution_safe {r : Reference} (unresolved : r.isResolved = false)
    (played : resolver.InPlay session others r.uri)
    (sound : (Policy.scripted resolver session others).Sound now.shared)
    (usual : session.context.Fellow now.context) (fit : now.shared.Fit now.context.task)
    (bare : ∀ key, now.shared.owners.find? key ≠ some now.context.task)
    (begins : now.context.resolving = []) :
    Program.Safe (.scripted resolver session others) (fun result later =>
        (Policy.scripted resolver session others).Within now later ∧
          resolver.Scripted session r now result later) (resolver.resolution r) now := by
  have beneath : resolver.Beneath session others now r.uri :=
    ⟨fun owns => False.elim (bare _ owns), fun member => by simp [begins] at member⟩
  have safe := untangled.performs resolver.maxDepth played (untangled.fits played) sound usual fit
    beneath
  have whole : resolver.maxDepth - now.context.resolving.length = resolver.maxDepth := by
    rw [begins, List.length_nil, Nat.sub_zero]
  have resolves : Program.Safe (.scripted resolver session others)
      (Performed resolver session others now r.uri) (resolver.resolve r.uri).run now := by
    show Program.Safe _ _ (resolver.resolveWithin _ r.uri).run now
    rw [whole]
    exact safe
  unfold resolution resolveReference
  rw [if_neg (by simp [unresolved])]
  refine Program.Safe.bind resolves sound fun {outcome later} _ ⟨inside, told, ledger⟩ => ?_
  have same : resolver.replaced session r = outcome.map r.resolveTo := by rw [replaced, ← told]
  cases outcome with
  | ok value => exact ⟨inside, same.symm, ledger⟩
  | error error => exact ⟨inside, same.symm, ledger⟩

private theorem work (pending : resolver.Pending session others references)
    (idle : (Policy.scripted resolver session others).Idle now)
    (usual : session.context.Fellow now.context) (begins : now.context.resolving = []) :
    resolver.Work (.scripted resolver session others) now references
      (resolver.Scripted session) where
  idle := idle
  answers silent := silent
  does member sound fit bare fellow same := by
    obtain ⟨unresolved, played⟩ := pending _ member
    exact untangled.resolution_safe unresolved played sound (usual.trans fellow) fit bare
      (same.trans begins)
  stays scripted resumes := ⟨scripted.1, scripted.2.resumes rfl resumes⟩

private theorem inTurn_scripted (pending : resolver.Pending session others references)
    (idle : (Policy.scripted resolver session others).Idle now)
    (usual : session.context.Fellow now.context) (begins : now.context.resolving = []) :
    (resolver.resolveInTurn references now).1 = references.map (resolver.replaced session) ∧
      (Policy.scripted resolver session others).Idle (resolver.resolveInTurn references now).2 ∧
      now.context.Like (resolver.resolveInTurn references now).2.context ∧
      (Policy.scripted resolver session others).Step now.context.task now.shared
        (resolver.resolveInTurn references now).2.shared ∧
      resolver.Ledger session now (resolver.resolveInTurn references now).2
        (references.map (·.uri)) [] := by
  induction references generalizing now with
  | nil =>
    refine ⟨rfl, idle, rfl, .refl idle.sound _, ?_⟩
    exact .still rfl rfl (List.append_nil _).symm (by simp) (by simp)
  | cons r rest ih =>
    obtain ⟨⟨result, ledger⟩, like, step, others⟩ :=
      (untangled.work pending idle usual begins).alone
    have task : (resolver.resolveAlone r now).2.context.task = now.context.task := by rw [like]
    obtain ⟨results, ends, goesOn, steps, ledgers⟩ :=
      ih (fun r member => pending r (List.mem_cons_of_mem _ member)) others.idle
        (usual.trans like.fellow) (by rw [like]; exact begins)
    have grows := (steps.aside (Nat.succ_ne_self _)).grows
    refine ⟨?_, ends, like.trans goesOn, step.trans (task ▸ steps), ledger.trans ledgers grows⟩
    rw [resolveInTurn, List.map_cons, ← result, ← results]

end Untangled

private theorem since_eq_deeds {policy : Policy} {task : Nat} {last : Shared}
    (start : policy.start = session.shared) (step : policy.Step task session.shared last) :
    session.shared.since last = session.shared.deeds last task := by
  refine (List.filter_eq_self.mpr fun event member => ?_).symm
  by_contra different
  have different : event.task ≠ task := by simpa using different
  have same := (step.aside different).deeds
  rw [start, deeds_self] at same
  have inside : event ∈ session.shared.deeds last event.task :=
    List.mem_filter.mpr ⟨member, beq_self_eq_true _⟩
  simp [same] at inside

variable (calm : session.Calm) (unresolved : ∀ r ∈ references, r.isResolved = false)
  (untangled : resolver.Untangled session (references.map (·.uri)))

private theorem pending_of_unresolved (unresolved : ∀ r ∈ references, r.isResolved = false) :
    resolver.Pending session (references.map (·.uri)) references :=
  fun r member => ⟨unresolved r member, r.uri, List.mem_map.mpr ⟨r, member, rfl⟩, .refl⟩

include calm unresolved untangled

private theorem concluded_inTurn :
    (resolver.resolveInTurn references session).1 = references.map (resolver.replaced session) ∧
      resolver.Concluded session (references.map (·.uri)) (references.map (·.uri))
        (resolver.resolveInTurn references session).2 := by
  have idle : (Policy.scripted resolver session (references.map (·.uri))).Idle session :=
    .begin rfl calm.resting calm.known
  obtain ⟨results, ends, like, step, ledger⟩ := untangled.inTurn_scripted
    (pending_of_unresolved unresolved) idle (.refl _) calm.begins
  obtain ⟨events, deeds, balanced, recorded⟩ := ledger.entries
  have since := since_eq_deeds rfl step
  rw [deeds_self, List.append_nil] at deeds
  rw [← deeds, ← since] at balanced recorded
  exact ⟨results, ends.sound, ends.quiet.owners, ledger.done, balanced, recorded, like⟩

omit calm unresolved untangled

private theorem perm_flatMap_filter {events : List Event} {tasks : List Nat} (apart : tasks.Nodup)
    (inside : ∀ event ∈ events, event.task ∈ tasks) :
    events.Perm (tasks.flatMap fun task => events.filter (·.task == task)) := by
  induction tasks generalizing events with
  | nil =>
    have none : events = [] := List.eq_nil_iff_forall_not_mem.mpr fun event member =>
      absurd (inside event member) List.not_mem_nil
    rw [none]
    exact .refl _
  | cons task rest ih =>
    have split := (List.filter_append_perm (·.task == task) events).symm
    have foreign : ∀ event ∈ events.filter (fun event => !(event.task == task)),
        event.task ∈ rest := by
      intro event member
      obtain ⟨there, different⟩ := List.mem_filter.mp member
      have different : event.task ≠ task := by simpa using different
      exact (List.mem_cons.mp (inside event there)).resolve_left different
    have same : ∀ other ∈ rest,
        (events.filter fun event => !(event.task == task)).filter (·.task == other) =
          events.filter (·.task == other) := by
      intro other member
      have different : other ≠ task := fun same => (List.nodup_cons.mp apart).1 (same ▸ member)
      rw [List.filter_filter]
      refine List.filter_congr fun event _ => ?_
      by_cases here : event.task = other
      · simp [here, different]
      · simp [here]
    have others := ih (List.nodup_cons.mp apart).2 foreign
    rw [List.flatMap, List.map_congr_left same, ← List.flatMap] at others
    rw [List.flatMap_cons]
    exact split.trans (others.append_left _)

structure Part (resolver : Resolver) (session : Session) (shared : Shared) (r : Reference)
    (strand : Strand (Except ReferenceError Reference)) : Prop where
  result : strand.program.result? = some (resolver.replaced session r)
  done : resolver.Done session shared r.uri
  balanced : resolver.Balanced session [r.uri]
    (session.shared.deeds shared strand.context.task)
  diagnostics : strand.context.diagnostics.Perm
    ((Event.closed (session.shared.deeds shared strand.context.task)).flatMap
      (resolver.remarks session))

private theorem Part.gather {shared : Shared}
    {strands : List (Strand (Except ReferenceError Reference))}
    (parts : List.Forall₂ (resolver.Part session shared) references strands) :
    strands.filterMap (·.program.result?) = references.map (resolver.replaced session) ∧
      (∀ uri ∈ references.map (·.uri), resolver.Done session shared uri) ∧
      resolver.Balanced session (references.map (·.uri))
        (strands.flatMap fun strand => session.shared.deeds shared strand.context.task) ∧
      (strands.flatMap (·.context.diagnostics)).Perm
        ((Event.closed (strands.flatMap fun strand =>
          session.shared.deeds shared strand.context.task)).flatMap (resolver.remarks session)) := by
  induction parts with
  | nil => exact ⟨rfl, by simp, .nothing (by simp), .refl _⟩
  | @cons r strand rest others part _ ih =>
    obtain ⟨results, done, balanced, diagnostics⟩ := ih
    refine ⟨?_, ?_, ?_, ?_⟩
    · simp only [List.filterMap_cons, part.result, results, List.map_cons]
    · intro uri member
      rcases List.mem_cons.mp member with rfl | below
      · exact part.done
      · exact done uri below
    · rw [List.map_cons, List.flatMap_cons]
      refine (balanced.append part.balanced).perm ?_ (.refl _)
      exact List.perm_append_comm
    · rw [List.flatMap_cons, List.flatMap_cons, Event.closed_append, List.flatMap_append]
      exact part.diagnostics.append diagnostics

section Concurrent
variable {state : Pool.State (Except ReferenceError Reference)}

private theorem deeds_forked (task : Nat) :
    session.shared.deeds (Pool.forked session (references.map resolver.resolution)).shared task =
      [] := by
  have same : (Pool.forked session (references.map resolver.resolution)).shared.history =
      session.shared.history := by
    rw [Pool.forked, Pool.shared_fork]
  rw [deeds_congr same, deeds_self]

private theorem part_of_ended {r : Reference}
    {strand : Strand (Except ReferenceError Reference)}
    {result : Except ReferenceError Reference} {shared : Shared}
    (done : strand.program.result? = some result)
    (ended : Work.Ended resolver (.scripted resolver session others) session references
      (resolver.Scripted session) r result (strand.session shared)) :
    resolver.Part session shared r strand := by
  obtain ⟨now, begins, within, same, ledger⟩ := ended
  obtain ⟨events, deeds, balanced, recorded⟩ := ledger.entries
  have task : strand.context.task = now.context.task := within.task_eq
  have nothing : session.shared.deeds now.shared now.context.task = [] := by
    have still := begins.aside.deeds
    rw [begins.context]
    exact still.trans (deeds_forked _)
  have deeds : session.shared.deeds shared now.context.task = events := by
    rw [nothing, List.append_nil] at deeds
    exact deeds
  have silent : now.context.diagnostics = [] := by rw [begins.context]; rfl
  constructor
  · rw [done, same]
  · exact ledger.done r.uri (List.mem_singleton_self _)
  · rw [task, deeds]
    exact balanced
  · rw [silent, List.nil_append, List.nil_append] at recorded
    rw [task, deeds]
    exact recorded

include calm unresolved untangled

private theorem forked_work : resolver.Work (.scripted resolver session (references.map (·.uri)))
    session references (resolver.Scripted session) :=
  untangled.work (pending_of_unresolved unresolved) (.begin rfl calm.resting calm.known) (.refl _)
    calm.begins

/-- Siblings side by side, in whatever order their tasks have had turns. -/
private theorem concluded_joined
    (turns : Pool.Turns (Pool.forked session (references.map resolver.resolution)) state)
    (finished : state.Finished) :
    (Pool.join session state.strands state.shared).1 =
        references.map (resolver.replaced session) ∧
      resolver.Concluded session (references.map (·.uri)) (references.map (·.uri))
        (Pool.join session state.strands state.shared).2 := by
  have work := forked_work calm unresolved untangled
  obtain ⟨manned, _⟩ := work.manned.turns work.stable turns
  obtain ⟨idle, like⟩ := work.joined turns finished
  have parts : List.Forall₂ (resolver.Part session state.shared) references state.strands :=
    (work.ended turns finished).imp fun r strand ended => by
      obtain ⟨result, done, ended⟩ := ended
      exact part_of_ended done ended
  obtain ⟨results, done, balanced, diagnostics⟩ := Part.gather parts
  have shared := Pool.shared_join session state.strands state.shared
  have context := Pool.context_join session state.strands state.shared
  have history : (Pool.join session state.strands state.shared).2.shared.history =
      state.shared.history := by rw [shared]
  -- Nobody but the forked tasks has done anything.
  have inside : ∀ event ∈ session.shared.since state.shared,
      event.task ∈ state.strands.map (·.context.task) := by
    intro event member
    by_contra outside
    have same := (manned.others outside).deeds
    have there : event ∈ session.shared.deeds state.shared event.task :=
      List.mem_filter.mpr ⟨member, beq_self_eq_true _⟩
    have there := same.trans (deeds_forked _) ▸ there
    exact absurd there List.not_mem_nil
  have sorted := perm_flatMap_filter manned.apart inside
  rw [Pool.State.tasks, List.flatMap_map] at sorted
  refine ⟨results, idle.sound, idle.quiet.owners, ?_, ?_, ?_, like⟩
  · rw [shared]
    exact done
  · rw [since_congr history]
    exact balanced.perm (.refl _) sorted.symm
  · rw [since_congr history, context]
    refine (diagnostics.trans ?_).append_left _
    exact (Event.closed_perm sorted.symm).flatMap_right _

omit calm unresolved untangled

/-- Siblings that are resolved side by side end like siblings in turn: their tasks never come to a
standstill, and whatever order they have turns in, all results are the same, the same is known in the
end, handlers are asked equally often, and the same diagnostics are recorded. The scheduler of the
library follows one of these orders. -/
theorem resolveAll_agrees (calm : session.Calm)
    (unresolved : ∀ r ∈ references, r.isResolved = false)
    (untangled : resolver.Untangled session (references.map (·.uri))) :
    (∀ {state}, Pool.Turns (Pool.forked session (references.map resolver.resolution)) state →
      ((∀ strand ∈ state.strands, strand.isStuck state.shared = true) → state.Finished) ∧
      (state.Finished →
        (Pool.join session state.strands state.shared).1 =
            (resolver.resolveInTurn references session).1 ∧
          (Pool.join session state.strands state.shared).2.Agrees
            (resolver.resolveInTurn references session).2)) ∧
    (resolver.resolveAll references session).1 = (resolver.resolveInTurn references session).1 ∧
      (resolver.resolveAll references session).2.Agrees
        (resolver.resolveInTurn references session).2 := by
  have work := forked_work calm unresolved untangled
  have played : ∀ uri ∈ references.map (·.uri),
      resolver.InPlay session (references.map (·.uri)) uri := fun uri member =>
    ⟨uri, member, .refl⟩
  obtain ⟨results, inTurn⟩ := concluded_inTurn calm unresolved untangled
  have joined {state : Pool.State (Except ReferenceError Reference)}
      (turns : Pool.Turns (Pool.forked session (references.map resolver.resolution)) state)
      (finished : state.Finished) :
      (Pool.join session state.strands state.shared).1 =
          (resolver.resolveInTurn references session).1 ∧
        (Pool.join session state.strands state.shared).2.Agrees
          (resolver.resolveInTurn references session).2 := by
    obtain ⟨same, concluded⟩ := concluded_joined calm unresolved untangled turns finished
    exact ⟨same.trans results.symm, concluded.agrees untangled inTurn played⟩
  constructor
  · intro state turns
    exact ⟨work.finished_of_stuck turns, joined turns⟩
  have orders := resolver.orders_siblings true references session work.finished_of_stuck
  rcases orders with same | ⟨state, turns, finished, same⟩
  · have same : resolver.resolveAll references session =
        resolver.resolveInTurn references session := same
    rw [same]
    exact ⟨rfl, inTurn.agrees untangled inTurn played⟩
  · have same : resolver.resolveAll references session =
        Pool.join session state.strands state.shared := same
    rw [same]
    exact joined turns finished

end Concurrent

/-- A slow handler whose documents refer to a text, and two handlers with texts. The protocol of one
of them contains a colon. -/
def meeting : Resolver :=
  { protocols := ⟨[
      { name := "outer", handles := fun protocol => protocol == "s", answer := fun _ =>
          { turns := 2, outcome? := some (.ok (.document
              { children := [.reference { protocol := "a:b", path := "c" }] })) } },
      { name := "long", handles := fun protocol => protocol == "a:b", answer := fun _ =>
          .found (.text "long") },
      { name := "short", handles := fun protocol => protocol == "a", answer := fun _ =>
          .found (.text "short") }]⟩ }

private theorem meeting_prompt : meeting.Prompt {} := by
  constructor
  all_goals
    intro uri answer answers
    obtain ⟨handler, known, rfl⟩ := Option.map_eq_some_iff.mp answers
    rcases List.mem_cons.mp (Protocols.mem_of_find? known) with rfl | other
    · simp [meeting]
    · rcases List.mem_pair.mp other with rfl | rfl <;> simp [Answer.found]

private theorem meeting_leads {first next : Uri} (leads : meeting.Leads {} first next) :
    Text.asciiLower first.protocol = "s" ∧ next = ⟨"a:b", "c"⟩ := by
  obtain ⟨value, found, opens⟩ := leads
  obtain ⟨answer, answers, found⟩ := Option.bind_eq_some_iff.mp
    (show (meeting.answer? {} first).bind _ = some value from found)
  obtain ⟨handler, known, rfl⟩ := Option.map_eq_some_iff.mp answers
  have handles := List.find?_some known
  rcases List.mem_cons.mp (Protocols.mem_of_find? known) with rfl | other
  · cases found
    have only : (Resolved.document
        { children := [.reference { protocol := "a:b", path := "c" }] }).opens =
          [⟨"a:b", "c"⟩] := by decide +kernel
    rw [only] at opens
    exact ⟨by simpa using handles, List.mem_singleton.mp opens⟩
  · rcases List.mem_pair.mp other with rfl | rfl
    · cases found
      exact absurd opens List.not_mem_nil
    · cases found
      exact absurd opens List.not_mem_nil

private theorem meeting_shallow (uri : Uri) : meeting.Shallow {} meeting.maxDepth uri := by
  have short : meeting.Shallow {} 2 uri := by
    intro next leads last again
    have place := (meeting_leads again).1
    rw [(meeting_leads leads).2] at place
    exact absurd place (by decide +kernel)
  exact short.mono (by decide)

theorem resolveAll_agrees_meeting :
    let references : List Reference :=
      [{ protocol := "s", path := "r" }, { protocol := "a:b", path := "c" }]
    (meeting.resolveAll references {}).1 = (meeting.resolveInTurn references {}).1 ∧
      (meeting.resolveAll references {}).2.Agrees (meeting.resolveInTurn references {}).2 := by
  intro references
  have uris : references.map (·.uri) = [⟨"s", "r"⟩, ⟨"a:b", "c"⟩] := by decide +kernel
  have inside {uri : Uri} (played : meeting.InPlay {} (references.map (·.uri)) uri) :
      uri = ⟨"s", "r"⟩ ∨ uri = ⟨"a:b", "c"⟩ := by
    obtain ⟨first, member, path⟩ := played
    rcases path.cases_tail with rfl | ⟨_, _, leads⟩
    · rw [uris] at member
      simpa using member
    · exact .inr (meeting_leads leads).2
  have untangled : meeting.Untangled {} (references.map (·.uri)) := by
    refine ⟨meeting_prompt, fun {one other} played also same => ?_, fun _ => meeting_shallow _⟩
    rcases inside played with rfl | rfl <;> rcases inside also with rfl | rfl
    · rfl
    · exact absurd same (by decide)
    · exact absurd same (by decide)
    · rfl
  exact (resolveAll_agrees ⟨.nothing, Nat.le_refl _, rfl⟩ (by decide) untangled).2

def texts (results : List (Except ReferenceError Reference)) : List (Option String) :=
  results.map fun result => result.toOption.bind fun r => r.resolved.bind fun
    | .text text => some text
    | _ => none

/-- Two references share a key. Which of them is resolved depends on the order of the tasks. -/
theorem disagrees_at_collision :
    let references : List Reference :=
      [{ protocol := "s", path := "r" }, { protocol := "a", path := "b:c" }]
    Session.Calm {} ∧ (∀ r ∈ references, r.isResolved = false) ∧ meeting.Prompt {} ∧
      (∀ r ∈ references, meeting.Shallow {} meeting.maxDepth r.uri) ∧
      ∃ state, Pool.Turns (Pool.forked {} (references.map meeting.resolution)) state ∧
        state.Finished ∧
        (Pool.join {} state.strands state.shared).1 ≠
          (meeting.resolveInTurn references {}).1 := by
  intro references
  let state := Pool.afterRounds 4 (Pool.forked {} (references.map meeting.resolution))
  have sideBySide : texts (Pool.join {} state.strands state.shared).1 = [none, some "short"] := by
    decide +kernel
  have inTurn : texts (meeting.resolveInTurn references {}).1 = [none, some "long"] := by
    decide +kernel
  refine ⟨⟨.nothing, Nat.le_refl _, rfl⟩, by decide, meeting_prompt, fun _ _ => meeting_shallow _,
    state, Pool.turns_afterRounds _ _, ?_, fun same => ?_⟩
  · show ∀ strand ∈ state.strands, strand.program.result?.isSome
    decide +kernel
  · rw [same, inTurn] at sideBySide
    exact absurd sideBySide (by decide)

end Resolver
end LinkedMarkup
