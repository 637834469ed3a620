import LinkedMarkup.Proofs.Resolution.Circles
import LinkedMarkup.Proofs.Tasks.Crew

namespace LinkedMarkup
open Shared Relation

namespace Resolver
variable {resolver : Resolver} {seen : Context → Prop} {lapses forked : Prop} {base : Session}

private theorem resolve_honest (standing : resolver.Standing seen lapses forked base)
    (nothing : base.context.resolving = []) (uri : Uri) :
    (Policy.tracing resolver seen lapses).Tracks base (fun _ _ => True)
      (fun _ error => resolver.Honest seen lapses forked error) (resolver.resolve uri) :=
  (resolve_tells standing (.inl (by simp [nothing]))).mono (fun _ _ => trivial) fun _ told => told.2

private theorem resolveText_honest (standing : resolver.Standing seen lapses forked base)
    (nothing : base.context.resolving = []) (text : String) :
    (Policy.tracing resolver seen lapses).Tracks base (fun _ _ => True)
      (fun _ error => resolver.Honest seen lapses forked error) (resolver.resolveText text) := by
  unfold resolveText
  split
  · exact .throw (honest_of_ordinary rfl)
  · exact resolve_honest standing nothing _

private theorem resolveReference_honest (standing : resolver.Standing seen lapses forked base)
    (nothing : base.context.resolving = []) (r : Reference) :
    (Policy.tracing resolver seen lapses).Tracks base (fun _ _ => True)
      (fun _ error => resolver.Honest seen lapses forked error)
      (resolveReference resolver.resolve r) := by
  unfold resolveReference
  split
  · exact .pure trivial
  · exact (resolve_honest standing nothing _).bind fun _ _ => .pure trivial

private theorem inherit_honest (standing : resolver.Standing seen lapses forked base)
    (nothing : base.context.resolving = []) (e : Element) :
    (Policy.tracing resolver seen lapses).Tracks base (fun _ _ => True)
      (fun _ error => resolver.Honest seen lapses forked error) (resolver.inherit e) := by
  have ancestor (target : String) : (Policy.tracing resolver seen lapses).Tracks base
      (fun _ _ => True) (fun _ error => resolver.Honest seen lapses forked error)
      (ancestor resolver.resolve target) := by
    unfold ancestor
    split
    · exact .throw (honest_of_ordinary rfl)
    · rename_i uri _
      refine (resolve_honest standing nothing uri).bind fun {_ value} _ _ => ?_
      cases means : ancestorOf uri value with
      | ok a => exact .pure trivial
      | error error => exact .throw (honest_of_ordinary (ordinary_of_ancestorOf means))
  have warns {now : Session} (a : Element) : (Policy.tracing resolver seen lapses).Tracks now
      (fun _ _ => True) (fun _ error => resolver.Honest seen lapses forked error)
      (resolver.warnDiscarded e a) := by
    unfold warnDiscarded
    split
    · exact .of_sure (.warn trivial _ _)
    · exact .pure trivial
  unfold inherit
  split
  · exact .pure trivial
  · exact (ancestor _).bind fun {_ a} _ _ => (warns a).bind fun _ _ => .pure trivial

theorem Errand.honest {program : Program Session (Except ReferenceError Unit)}
    (errand : resolver.Errand program) (standing : resolver.Standing seen lapses forked base)
    (nothing : base.context.resolving = []) :
    (Policy.tracing resolver seen lapses).Tracks base (fun _ _ => True)
      (fun _ error => resolver.Honest seen lapses forked error) (ExceptT.mk program) := by
  cases errand with
  | uri uri => exact (resolve_honest standing nothing uri).map fun _ _ => trivial
  | text text => exact (resolveText_honest standing nothing text).map fun _ _ => trivial
  | reference r => exact (resolveReference_honest standing nothing r).map fun _ _ => trivial
  | element e => exact (inherit_honest standing nothing e).map fun _ _ => trivial

end Resolver

namespace Crew

/-- The handler of a task has been silent for too long, and the task goes on without its answer. -/
inductive Silence : Crew → Crew → Prop where
  | mk (now : Nat) (session : Session) (before : List (Strand (Except ReferenceError Unit)))
    (strand : Strand (Except ReferenceError Unit))
    (after : List (Strand (Except ReferenceError Unit)))
    (stuck : strand.isStuck session.shared = true) (waits : strand.program.result? = none)
    (awake : session.shared.Awake strand.context.task) :
    Silence ⟨session, before ++ strand :: after⟩
      ⟨⟨(strand.expire.turn now session.shared).2, session.context⟩,
        before ++ (strand.expire.turn now session.shared).1 :: after⟩

/-- How crews come about whose main task leaves the chain of what it resolves to its errands. The
surroundings of all errands are seen, and `lapses` says whether waits for other tasks may be given up. -/
inductive Tour (resolver : Resolver) (seen : Context → Prop) (lapses : Prop) : Crew → Prop where
  | start (context : Context) (first : context.task = 0) (nothing : context.resolving = [])
    (there : seen context) : Tour resolver seen lapses ⟨⟨{}, context⟩, []⟩
  | step {crew next : Crew} (tour : Tour resolver seen lapses crew) (step : Step resolver crew next)
    (untouched : crew.strands = [] → next.strands = [] →
      next.session.context.resolving = crew.session.context.resolving)
    (there : seen next.session.context) : Tour resolver seen lapses next
  | silence {crew next : Crew} (tour : Tour resolver seen lapses crew) (silence : Silence crew next) :
    Tour resolver seen lapses next
  | lapse {crew next : Crew} (giveUp : lapses) (tour : Tour resolver seen lapses crew)
    (lapse : Lapse crew next) : Tour resolver seen lapses next

variable {resolver : Resolver} {seen : Context → Prop} {lapses : Prop} {crew next : Crew}

theorem Silence.lapse (silence : Silence crew next) : Lapse crew next := by
  obtain ⟨now, session, before, strand, after, stuck, waits, _⟩ := silence
  have expiry : Pool.Expiry (pool ⟨session, before ++ strand :: after⟩) _ :=
    .mk now session.shared before strand after stuck waits
  exact .mk expiry

theorem Tour.reachable (tour : Tour resolver seen lapses crew) : Reachable resolver crew := by
  induction tour with
  | start context first nothing there => exact ⟨context, first, .refl⟩
  | step _ step _ _ ih =>
    obtain ⟨context, first, path⟩ := ih
    exact ⟨context, first, path.tail (.inl step)⟩
  | silence _ silence ih =>
    obtain ⟨context, first, path⟩ := ih
    exact ⟨context, first, path.tail (.inr silence.lapse)⟩
  | lapse _ _ lapse ih =>
    obtain ⟨context, first, path⟩ := ih
    exact ⟨context, first, path.tail (.inr lapse)⟩

def Ended (resolver : Resolver) (seen : Context → Prop) (lapses : Prop) (_ : Nat)
    (outcome : Except ReferenceError Unit) (last : Session) : Prop :=
  last.context.resolving = [] ∧ ∀ error, outcome = .error error →
    resolver.Honest seen lapses (0 < last.shared.lastTask) error

theorem ended_stable : Pool.Stable (.tracing resolver seen lapses) (Ended resolver seen lapses) := by
  intro task outcome before after _ ended resumes
  refine ⟨by rw [resumes.context]; exact ended.1, ?_⟩
  rw [resumes.aside.lastTask]
  exact ended.2

private theorem errand_safe (base : Session) {later : Session}
    {program : Program Session (Except ReferenceError Unit)} (errand : resolver.Errand program)
    (usual : ∃ context, seen context ∧ context.Fellow base.context)
    (nothing : base.context.resolving = []) (quiet : base.shared.Quiet)
    (fit : base.shared.Fit base.context.task)
    (resumes : (Policy.tracing resolver seen lapses).Resumes base later) :
    Program.Safe (.tracing resolver seen lapses) (Ended resolver seen lapses base.context.task)
      program later := by
  have standing : resolver.Standing seen lapses (0 < base.shared.lastTask) base := {
    usual := usual
    fit := fit
    alone := id
    chain := nothing ▸ .nil
    owned := fun owns => by simp [quiet.owners] at owns
    held := fun member => by simp [nothing] at member
    unsettled := fun member => by simp [nothing] at member }
  have within := (Policy.Within.refl (Policy.tracing resolver seen lapses) base).resumes resumes
  have nothing : later.context.resolving = [] := within.resolving_eq.trans nothing
  refine (errand.honest (standing.within within) nothing resumes.sound).mono resumes.sound ?_
  intro outcome last _ kept
  refine ⟨kept.1.resolving_eq.trans nothing, ?_⟩
  rintro error rfl
  rw [(within.trans kept.1).kept.lastTask]
  exact kept.2

/-- The main task is about nothing but what its tasks are about, and these are followed. -/
structure Followed (resolver : Resolver) (seen : Context → Prop) (lapses : Prop) (crew : Crew) :
    Prop where
  nothing : crew.session.context.resolving = []
  there : seen crew.session.context
  manned : ∃ base, Pool.Manned (.tracing resolver seen lapses) base (Ended resolver seen lapses)
    crew.pool

namespace Followed

private theorem idle {session : Session} (tour : Tour resolver seen lapses ⟨session, []⟩)
    (followed : Followed resolver seen lapses ⟨session, []⟩) :
    (Policy.tracing resolver seen lapses).Idle session := by
  obtain ⟨_, ordered⟩ := Ordered.of_reachable tour.reachable
  obtain ⟨_, manned⟩ := followed.manned
  have idle := ordered.idle_of_rest
  exact ⟨manned.sound, idle.quiet, idle.leaf, idle.known⟩

private theorem rest {session : Session} (nothing : session.context.resolving = [])
    (there : seen session.context) (sound : (Policy.tracing resolver seen lapses).Sound session.shared) :
    Followed resolver seen lapses ⟨session, []⟩ :=
  ⟨nothing, there, _, .begin sound List.nodup_nil fun member => by cases member⟩

private theorem begin {session : Session} (tour : Tour resolver seen lapses ⟨session, []⟩)
    (followed : Followed resolver seen lapses ⟨session, []⟩)
    {program : Program Session (Except ReferenceError Unit)} (errand : resolver.Errand program) :
    Followed resolver seen lapses ⟨session, [⟨session.context, program, none⟩]⟩ := by
  have idle := followed.idle tour
  refine ⟨followed.nothing, followed.there, _,
    .begin idle.sound (List.nodup_singleton _) fun {strand} member {later} resumes => ?_⟩
  cases List.mem_singleton.mp member
  exact errand_safe session errand ⟨_, followed.there, .refl _⟩ followed.nothing idle.quiet idle.fit resumes

private theorem fork {session : Session} (tour : Tour resolver seen lapses ⟨session, []⟩)
    (followed : Followed resolver seen lapses ⟨session, []⟩)
    {programs : List (Program Session (Except ReferenceError Unit))}
    (errands : ∀ program ∈ programs, resolver.Errand program) :
    Followed resolver seen lapses
      ⟨⟨(Pool.fork session programs session.shared).2, session.context⟩,
        (Pool.fork session programs session.shared).1⟩ := by
  have idle := followed.idle tour
  refine ⟨followed.nothing, followed.there, _,
    .begin (idle.sound.forks idle.quiet idle.known programs) ?_
      fun {strand} member {later} resumes => ?_⟩
  · rw [Pool.tasks_fork]
    exact List.nodup_range'
  · have fit := Pool.fit_fork idle (List.mem_map.mpr ⟨strand, member, rfl⟩)
    rw [Pool.strands_fork] at member
    obtain ⟨⟨program, task⟩, given, rfl⟩ := List.mem_map.mp member
    have errand := errands program (List.fst_mem_of_mem_zipIdx given)
    exact errand_safe ⟨(Pool.fork session programs session.shared).2, session.context.fork task⟩ errand
      ⟨session.context, followed.there, rfl, rfl, rfl, rfl⟩ followed.nothing
      (Pool.quiet_fork idle programs) fit resumes

private theorem step (tour : Tour resolver seen lapses crew)
    (followed : Followed resolver seen lapses crew) (step : Step resolver crew next)
    (untouched : crew.strands = [] → next.strands = [] →
      next.session.context.resolving = crew.session.context.resolving)
    (there : seen next.session.context) : Followed resolver seen lapses next := by
  obtain ⟨_, manned⟩ := followed.manned
  cases step with
  | tend session context same =>
    exact rest ((untouched rfl rfl).trans followed.nothing) there manned.sound
  | begin session errand => exact followed.begin tour errand
  | fork session errands => exact followed.fork tour errands
  | turn turn =>
    exact ⟨followed.nothing, followed.there, _, (manned.turn ended_stable turn).1⟩
  | @finish session strand itself ended =>
    obtain ⟨outcome, done⟩ := Option.isSome_iff_exists.mp ended
    exact rest (manned.ended (List.mem_singleton.mpr rfl) done).1 there manned.sound
  | join session apart ended =>
    refine rest ?_ there ?_
    · rw [Pool.context_join]
      exact followed.nothing
    · rw [Pool.shared_join]
      exact manned.sound.fewerForks (List.filter_subset_self _)

/-- All crews that come about are followed. -/
theorem of_tour (tour : Tour resolver seen lapses crew) : Followed resolver seen lapses crew := by
  induction tour with
  | start context first nothing there =>
    have idle : (Policy.tracing resolver seen lapses).Idle ⟨{}, context⟩ :=
      .begin rfl .nothing (by simp [first])
    exact rest nothing there idle.sound
  | step tour goes untouched there ih => exact ih.step tour goes untouched there
  | silence _ silence ih =>
    obtain ⟨now, session, before, strand, after, stuck, waits, awake⟩ := silence
    obtain ⟨_, manned⟩ := ih.manned
    exact ⟨ih.nothing, ih.there, _, (manned.expires ended_stable now stuck waits (.inr awake)).1⟩
  | lapse giveUp _ lapse ih =>
    obtain ⟨expiry⟩ := lapse
    obtain ⟨_, manned⟩ := ih.manned
    exact ⟨ih.nothing, ih.there, _, (manned.expiry ended_stable giveUp expiry).1⟩

end Followed

/-- Whenever a task fails with a circle, and it is not a handler that does, the list that it reports
is one: it has two entries at least, each value refers to the next key, and the last key is the first
one. Where tasks have been forked the last key may be missing from the rest, but it leads back to it.
Where waits for other tasks have been given up, a value may refer to the next key by way of others. -/
theorem circles_reported (tour : Tour resolver seen lapses crew)
    {strand : Strand (Except ReferenceError Unit)} (member : strand ∈ crew.strands)
    {cycle : List String} (fails : strand.program.result? = some (.error (.circular cycle))) :
    resolver.FailsWith seen (.circular cycle) ∨
      resolver.Circle seen lapses (0 < crew.session.shared.lastTask) cycle := by
  obtain ⟨_, manned⟩ := (Followed.of_tour tour).manned
  exact (manned.ended member fails).2 _ rfl cycle rfl

end Crew

/-- One handler that finds a value for every key, after a number of turns. -/
def Resolver.finding (value : String → Resolved) (turns : String → Nat) : Resolver where
  protocols := ⟨[{
    name := "finding"
    handles := fun _ => true
    answer := fun request =>
      { turns := turns request.uri.key, outcome? := some (.ok (value request.uri.key)) } }]⟩

namespace Resolver
variable {value : String → Resolved} {turns : String → Nat} {seen : Context → Prop}

private theorem answer?_finding {context : Context} {uri : Uri} {answer : Answer}
    (answers : (finding value turns).answer? context uri = some answer) :
    answer.outcome? = some (.ok (value uri.key)) := by
  cases answers
  rfl

theorem not_failsWith_finding (error : ReferenceError) :
    ¬ (finding value turns).FailsWith seen error := by
  rintro ⟨_, _, _, _, answers, fails⟩
  cases (answer?_finding answers).symm.trans fails

theorem mem_of_pointsTo_finding {key next : String}
    (refers : (finding value turns).PointsTo seen key next) :
    next ∈ (value key).opens.map Uri.key := by
  obtain ⟨_, uri, _, _, _, rfl, answers, found, other, inside, rfl⟩ := refers
  cases (answer?_finding answers).symm.trans found
  exact List.mem_map.mpr ⟨other, inside, rfl⟩

private def pointer (path : String) : Resolved :=
  .document { children := [.reference { protocol := "s", path }] }

/-- Two documents that refer to each other. -/
def twins : Resolver :=
  .finding (fun key => if key = "s:a" then pointer "b" else pointer "a") fun _ => 1

/-- An element with a child that refers to a document; the document refers to an element that extends
the first one. -/
def kin : Resolver :=
  .finding (fun key =>
      if key = "s:x" then .element { tag := "x", children := [.reference { protocol := "s", path := "r" }] }
      else if key = "s:r" then pointer "e"
      else .element { tag := "e", attributes := [("extends", .text "s:x")] })
    fun key => if key = "s:x" then 1 else if key = "s:r" then 2 else 0

end Resolver

namespace Crew
variable {resolver : Resolver} {seen : Context → Prop} {lapses : Prop} {crew : Crew}

theorem Tour.turns {next : Pool.State (Except ReferenceError Unit)}
    (tour : Tour resolver seen lapses crew) (turns : Pool.Turns crew.pool next) :
    Tour resolver seen lapses (crew.withPool next) := by
  have there := (Followed.of_tour tour).there
  induction turns with
  | refl => exact tour
  | tail _ turn ih => exact ih.step (.turn turn) (fun _ _ => rfl) there

/-- Tasks that are forked for some references, after a number of rounds. -/
def forked (resolver : Resolver) (uris : List Uri) (rounds : Nat) : Crew :=
  let errands := uris.map fun uri => ((fun _ => ()) <$> resolver.resolve uri).run
  let begun : Crew := ⟨⟨(Pool.fork {} errands {}).2, {}⟩, (Pool.fork {} errands {}).1⟩
  begun.withPool (Pool.afterRounds rounds begun.pool)

theorem tour_forked (uris : List Uri) (rounds : Nat) (there : seen {}) :
    Tour resolver seen lapses (forked resolver uris rounds) := by
  refine Tour.turns ?_ (Pool.turns_afterRounds rounds _)
  refine (Tour.start {} rfl rfl there).step (.fork {} fun program member => ?_)
    (fun _ _ => rfl) there
  obtain ⟨uri, _, rfl⟩ := List.mem_map.mp member
  exact .uri uri

/-- The first task gives up what it waits for, and all go on for a number of rounds. -/
def hurried (crew : Crew) (rounds : Nat) : Crew :=
  match crew.strands with
  | [] => crew
  | first :: rest =>
    let turned := first.expire.turn 0 crew.session.shared
    crew.withPool (Pool.afterRounds rounds ⟨turned.2, turned.1 :: rest⟩)

theorem Tour.hurried (tour : Tour resolver seen True crew) (rounds : Nat)
    (waits : crew.strands.head?.all fun first =>
      first.isStuck crew.session.shared && first.program.result?.isNone) :
    Tour resolver seen True (crew.hurried rounds) := by
  obtain ⟨session, strands⟩ := crew
  cases strands with
  | nil => exact tour
  | cons first rest =>
    simp only [List.head?_cons, Option.all_some, Bool.and_eq_true, Option.isNone_iff_eq_none] at waits
    have expiry : Pool.Expiry (pool ⟨session, first :: rest⟩) _ :=
      .mk 0 session.shared [] first rest waits.1 waits.2
    exact (tour.lapse trivial (.mk expiry)).turns (Pool.turns_afterRounds rounds _)

/-- Two tasks that resolve two documents which refer to each other, until one would have to wait for
itself. -/
def crossing : Crew := forked .twins [⟨"s", "a"⟩, ⟨"s", "b"⟩] 2

theorem results_crossing : crossing.strands.map (·.program.result?) =
    [none, some (.error (.circular ["s:b", "s:a"]))] := by decide +kernel

theorem circles_reported_crossing : ∃ strand ∈ crossing.strands,
    strand.program.result? = some (.error (.circular ["s:b", "s:a"])) ∧
      Resolver.twins.Circle (fun _ => True) False (0 < crossing.session.shared.lastTask) ["s:b", "s:a"] := by
  have reported : some (.error (.circular ["s:b", "s:a"])) ∈
      crossing.strands.map (·.program.result?) := by
    rw [results_crossing]
    simp
  obtain ⟨strand, member, fails⟩ := List.mem_map.mp reported
  have tour : Tour .twins (fun _ => True) False crossing := tour_forked _ _ trivial
  exact ⟨strand, member, fails,
    (circles_reported tour member fails).resolve_left (Resolver.not_failsWith_finding _)⟩

/-- Two tasks, one of which has waited too long for the other one. It leaves an element behind that the
other one inherits from. -/
def parting : Crew := (forked .kin [⟨"s", "x"⟩, ⟨"s", "r"⟩] 2).hurried 1

theorem results_parting : parting.strands.map (·.program.result?) =
    [some (.ok ()), some (.error (.circular ["s:r", "s:e", "s:r"]))] := by decide +kernel

/-- A circle through two tasks is reported without its end, and after a wait that was given up a list
is reported in which a value does not refer to the next key itself. -/
theorem circles_left_open :
    (Tour .twins (fun _ => True) False crossing ∧
      crossing.strands.map (·.program.result?) =
        [none, some (.error (.circular ["s:b", "s:a"]))] ∧
      ¬ Resolver.twins.FailsWith (fun _ => True) (.circular ["s:b", "s:a"]) ∧
      ["s:b", "s:a"].head? ≠ ["s:b", "s:a"].getLast?) ∧
    (Tour .kin (fun _ => True) True parting ∧
      parting.strands.map (·.program.result?) =
        [some (.ok ()), some (.error (.circular ["s:r", "s:e", "s:r"]))] ∧
      ¬ Resolver.kin.FailsWith (fun _ => True) (.circular ["s:r", "s:e", "s:r"]) ∧
      ¬ Resolver.kin.PointsTo (fun _ => True) "s:e" "s:r") := by
  refine ⟨⟨tour_forked _ _ trivial, results_crossing, Resolver.not_failsWith_finding _, by decide⟩,
    ?_, results_parting, Resolver.not_failsWith_finding _, fun refers => ?_⟩
  · exact (tour_forked _ _ trivial).hurried 1 (by decide +kernel)
  · have inside := Resolver.mem_of_pointsTo_finding refers
    exact absurd inside (by decide +kernel)

end Crew
end LinkedMarkup
