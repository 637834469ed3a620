import LinkedMarkup.Proofs.Resolution.Conclusion
import LinkedMarkup.Proofs.Resolution.Tracks
import Mathlib.Data.List.Chain
import Mathlib.Data.List.TakeWhile
/-! What the circles are made of that the resolver reports. The keys that a task resolves are a chain
in which each value refers to the next key, and so is the list that the task reports when it comes
back to a key of its own, or to one that others resolve who wait for it. -/
namespace LinkedMarkup
open Shared Relation

namespace Resolver
variable (resolver : Resolver) (seen : Context → Prop) (lapses forked : Prop)

/-- In surroundings that are seen, the handler of a reference with the first key finds a value in
which a reference or an ancestor with the second key is open. -/
def PointsTo (key next : String) : Prop :=
  ∃ context uri answer value, seen context ∧ uri.key = key ∧
    resolver.answer? context uri = some answer ∧ answer.outcome? = some (.ok value) ∧
    ∃ other ∈ value.opens, other.key = next

/-- One key refers to another one. Where waits for other tasks may be given up, it may do so by way of
children that are inherited as they are. -/
def Depends (key next : String) : Prop :=
  resolver.PointsTo seen key next ∨ lapses ∧ TransGen (resolver.PointsTo seen) key next

/-- The keys of a circle as it is reported. -/
structure Circle (cycle : List String) : Prop where
  long : 2 ≤ cycle.length
  chain : cycle.IsChain (resolver.Depends seen lapses)
  /-- The last key is the first one, or, where tasks have been forked, it is one that the list does not
  have before and that leads back into the list. -/
  returns : cycle.head? = cycle.getLast? ∨ forked ∧ ∃ last ∈ cycle.getLast?, last ∉ cycle.dropLast ∧
    ∃ earlier ∈ cycle.dropLast, TransGen (resolver.PointsTo seen) last earlier

def FailsWith (error : ReferenceError) : Prop :=
  ∃ context uri answer, seen context ∧ resolver.answer? context uri = some answer ∧
    answer.outcome? = some (.error error)

/-- A circle that is reported is one, unless a handler reports it. -/
def Honest (error : ReferenceError) : Prop :=
  ∀ cycle, error = .circular cycle →
    resolver.FailsWith seen error ∨ resolver.Circle seen lapses forked cycle

/-- A reference that the value of a key is left with: its outcome is there to stay or, where waits may
be given up, the key depends on it. -/
def Left (key : String) (shared : Shared) (next : Uri) : Prop :=
  (lapses → resolver.Depends seen lapses key next.key) ∧ (¬ lapses → shared.Settled next.key)

variable {resolver seen lapses forked} {key next last : String}

theorem Depends.transGen (depends : resolver.Depends seen lapses key next) :
    TransGen (resolver.PointsTo seen) key next :=
  depends.elim .single And.right

theorem transGen_pointsTo (path : TransGen (resolver.Depends seen lapses) key next) :
    TransGen (resolver.PointsTo seen) key next :=
  TransGen.closed (fun _ _ depends => depends.transGen) _ _ path

theorem Depends.trans (giveUp : lapses) (first : resolver.Depends seen lapses key next)
    (second : resolver.Depends seen lapses next last) : resolver.Depends seen lapses key last :=
  .inr ⟨giveUp, first.transGen.trans second.transGen⟩

theorem honest_of_ordinary {error : ReferenceError} (ordinary : error.isPathDependent = false) :
    resolver.Honest seen lapses forked error := by
  rintro cycle rfl
  cases ordinary

theorem Circle.honest {cycle : List String} (circle : resolver.Circle seen lapses forked cycle) :
    resolver.Honest seen lapses forked (.circular cycle) := by
  rintro other same
  cases same
  exact .inr circle

theorem Left.grows {before after : Shared} {uri : Uri}
    (left : resolver.Left seen lapses key before uri) (grows : before.Grows after) :
    resolver.Left seen lapses key after uri :=
  ⟨left.1, fun firm => grows.settled (left.2 firm)⟩

end Resolver

/-- The policy under which values are left with references that are settled, and a task waits only
for keys that its own ones lead to. -/
def Policy.tracing (resolver : Resolver) (seen : Context → Prop) (lapses : Prop) : Policy where
  start := {}
  handled uri := (resolver.protocols.find? uri.protocol).isSome
  ends uri outcome shared := ∀ value, outcome = .ok value →
    ∀ next ∈ value.opens, resolver.Left seen lapses uri.key shared next
  remains grows ends value same next member := (ends value same next member).grows grows
  above := TransGen (resolver.Depends seen lapses)
  expires := lapses
  silent := True

namespace Resolver

/-- How a task stands that may ask for a key: it owns the keys that it resolves, they are a chain, and
none of them is settled. -/
structure Standing (resolver : Resolver) (seen : Context → Prop) (lapses forked : Prop)
    (now : Session) : Prop where
  usual : ∃ context, seen context ∧ context.Fellow now.context
  fit : now.shared.Fit now.context.task
  alone : 0 < now.shared.lastTask → forked
  chain : now.context.resolving.IsChain (resolver.Depends seen lapses)
  owned : ∀ {key}, now.shared.owners.find? key = some now.context.task → key ∈ now.context.resolving
  held : ∀ {key}, key ∈ now.context.resolving → now.shared.owners.find? key = some now.context.task
  unsettled : ∀ {key}, key ∈ now.context.resolving → ¬ now.shared.Settled key

/-- The reference comes next on the chain that is resolved, or its outcome is known. -/
def Ahead (resolver : Resolver) (seen : Context → Prop) (lapses : Prop) (now : Session) (uri : Uri) :
    Prop :=
  (∀ last ∈ now.context.resolving.getLast?, resolver.Depends seen lapses last uri.key) ∨
    now.shared.Settled uri.key

/-- What is known of a reference when its resolution has ended. -/
def Told (resolver : Resolver) (seen : Context → Prop) (lapses forked : Prop) (uri : Uri)
    (outcome : Except ReferenceError Resolved) (later : Session) : Prop :=
  Meets (fun value => (∀ next ∈ value.opens, resolver.Left seen lapses uri.key later.shared next) ∧
      (lapses ∨ later.shared.Settled uri.key))
    (fun error => (error.isPathDependent = false → lapses ∨ later.shared.Settled uri.key) ∧
      resolver.Honest seen lapses forked error) outcome

/-- What is known of the fetch of a reference before its outcome is kept. -/
def Heard (resolver : Resolver) (seen : Context → Prop) (lapses forked : Prop) (uri : Uri)
    (outcome : Except ReferenceError Resolved) (later : Session) : Prop :=
  Meets (fun value => ∀ next ∈ value.opens, resolver.Left seen lapses uri.key later.shared next)
    (resolver.Honest seen lapses forked) outcome

variable {resolver : Resolver} {seen : Context → Prop} {lapses forked : Prop} {now later : Session}
  {uri : Uri}

/-- A chain that comes back to a key goes through that key. -/
theorem cycle?_eq_some {context : Context} {key : String} {cycle : List String}
    (closed : context.cycle? key = some cycle) :
    ∃ outer inner, context.resolving = outer ++ key :: inner ∧ cycle = key :: inner ++ [key] := by
  unfold Context.cycle? at closed
  have whole : context.resolving.takeWhile (· != key) ++ context.resolving.dropWhile (· != key) =
    context.resolving := List.takeWhile_append_dropWhile
  have stops (more : context.resolving.dropWhile (· != key) ≠ []) :=
    List.head_dropWhile_not (· != key) more
  split at closed
  · cases closed
  · rename_i chain nonempty
    cases closed
    cases found : context.resolving.dropWhile (· != key) with
    | nil => exact False.elim (nonempty found)
    | cons first inner =>
      have same : first = key := by simpa [found] using stops (by simp [found])
      rw [found, same] at whole
      exact ⟨_, inner, whole.symm, by rw [same]⟩

namespace Standing

theorem within (standing : resolver.Standing seen lapses forked now)
    (within : (Policy.tracing resolver seen lapses).Within now later) :
    resolver.Standing seen lapses forked later where
  usual := by
    obtain ⟨context, there, usual⟩ := standing.usual
    exact ⟨context, there, usual.trans within.context.fellow⟩
  fit := within.fit standing.fit
  alone many := standing.alone (within.kept.lastTask ▸ many)
  chain := within.resolving_eq ▸ standing.chain
  owned owns := by
    rw [within.resolving_eq]
    exact standing.owned (within.kept.bare (within.task_eq ▸ owns))
  held member := by
    have owns := standing.held (within.resolving_eq ▸ member)
    rw [(within.kept.owned owns).owner, within.task_eq, owns]
  unsettled member settled := by
    have before := within.resolving_eq ▸ member
    have same := within.kept.owned (standing.held before)
    exact standing.unsettled before (same.settled_iff.mp settled)

theorem chain_append (standing : resolver.Standing seen lapses forked now)
    (ahead : resolver.Ahead seen lapses now uri) (unsettled : ¬ now.shared.Settled uri.key) :
    (now.context.resolving ++ [uri.key]).IsChain (resolver.Depends seen lapses) := by
  refine standing.chain.append (.singleton _) fun last ends next first => ?_
  cases first
  exact ahead.resolve_right unsettled last ends

theorem above (standing : resolver.Standing seen lapses forked now)
    (ahead : resolver.Ahead seen lapses now uri) (unsettled : ¬ now.shared.Settled uri.key)
    {key : String} (owns : now.shared.owners.find? key = some now.context.task) :
    TransGen (resolver.Depends seen lapses) key uri.key := by
  have chain := (standing.chain_append ahead unsettled).imp fun _ _ => TransGen.single
  have pairs := List.pairwise_append.mp (List.isChain_iff_pairwise.mp chain)
  exact pairs.2.2 key (standing.owned owns) uri.key (by simp)

/-- A task that comes back to a key of its own has come round a circle. -/
theorem circle_of_chain (standing : resolver.Standing seen lapses forked now)
    (ahead : resolver.Ahead seen lapses now uri) {cycle : List String}
    (closed : now.context.cycle? uri.key = some cycle) :
    resolver.Circle seen lapses forked cycle := by
  obtain ⟨outer, inner, chain, rfl⟩ := cycle?_eq_some closed
  have unsettled : ¬ now.shared.Settled uri.key := standing.unsettled (by simp [chain])
  have whole := standing.chain_append ahead unsettled
  rw [chain, List.append_assoc] at whole
  exact {
    long := by simp
    chain := whole.right_of_append
    returns := .inl (by rw [List.getLast?_concat]; rfl) }

/-- A task that would wait for itself has come round a circle with others. -/
theorem circle_of_wait (standing : resolver.Standing seen lapses forked now)
    (ahead : resolver.Ahead seen lapses now uri)
    (sound : (Policy.tracing resolver seen lapses).Sound now.shared)
    (straight : now.context.cycle? uri.key = none) (unsettled : ¬ now.shared.Settled uri.key)
    (circular : now.shared.wouldCycle now.context.task uri.key = true) :
    resolver.Circle seen lapses forked (now.context.resolving ++ [uri.key]) := by
  obtain ⟨owner, owns, reached⟩ := wouldCycle_iff.mp circular
  obtain ⟨last, held, path⟩ := sound.owns_below owns reached
  have absent := Context.cycle?_eq_none_iff.mp straight
  have inside := standing.owned held
  have path : TransGen (resolver.Depends seen lapses) uri.key last := by
    rcases reflTransGen_iff_eq_or_transGen.mp path with same | path
    · exact False.elim (absent (same ▸ inside))
    · exact TransGen.closed (fun _ _ above => above) _ _ path
  have other : owner ≠ now.context.task :=
    fun same => absent (standing.owned (same ▸ owns))
  exact {
    long := by
      have some := List.length_pos_of_mem inside
      simp only [List.length_append, List.length_singleton]
      omega
    chain := standing.chain_append ahead unsettled
    returns := by
      rw [List.dropLast_concat, List.getLast?_concat]
      refine .inr ⟨standing.alone ?_, uri.key, rfl, absent, last, inside, ?_⟩
      · have known := standing.fit.known
        have also := sound.locked.ownersKnown owns
        omega
      · exact transGen_pointsTo path }

theorem enter (standing : resolver.Standing seen lapses forked now)
    (ahead : resolver.Ahead seen lapses now uri) {shared : Shared}
    (gained : Gained {} now.context.task uri.key now.shared shared)
    (fit : (asking now shared uri).shared.Fit now.context.task) :
    resolver.Standing seen lapses forked (asking now shared uri) where
  usual := by
    obtain ⟨context, there, usual⟩ := standing.usual
    exact ⟨context, there, usual.trans ⟨rfl, rfl, rfl, rfl⟩⟩
  fit := fit
  alone many := standing.alone (gained.lastTask ▸ many)
  chain := standing.chain_append ahead fun settled => gained.unsettled (gained.grows.settled settled)
  owned {key} owns := by
    by_cases same : key = uri.key
    · simp [Context.enter, same]
    · exact List.mem_append_left _ (standing.owned (gained.others same owns))
  held {key} member := by
    rcases List.mem_append.mp member with old | new
    · have owns := standing.held old
      exact (gained.owned owns).owner.trans owns
    · exact (List.mem_singleton.mp new) ▸ gained.owns
  unsettled {key} member := by
    rcases List.mem_append.mp member with old | new
    · exact fun settled => standing.unsettled old
        ((gained.owned (standing.held old)).settled_iff.mp settled)
    · exact (List.mem_singleton.mp new) ▸ gained.unsettled

end Standing

section Known
variable {shared : Shared} (sound : (Policy.tracing resolver seen lapses).Sound shared)
include sound

private theorem left_of_value {value : Resolved}
    (found : shared.results.find? uri.key = some value) :
    ∀ next ∈ value.opens, resolver.Left seen lapses uri.key shared next := by
  rcases sound.chronicle.value_iff.mp found with never | ⟨task, other, latest⟩
  · cases never
  · obtain ⟨member, same⟩ := mem_since_of_course latest
    exact same ▸ sound.ended member value rfl

private theorem ordinary_of_failure {error : ReferenceError} {key : String}
    (found : shared.failures.find? key = some error) : error.isPathDependent = false := by
  rcases sound.chronicle.failure_iff.mp found with never | ⟨ordinary, _⟩
  · cases never
  · exact ordinary

end Known

/-- Whoever stands on a chain may resolve what comes next. -/
def Tells (resolver : Resolver) (seen : Context → Prop) (lapses forked : Prop)
    (resolve : Uri → Resolving Resolved) : Prop :=
  ∀ {now uri}, resolver.Standing seen lapses forked now → resolver.Ahead seen lapses now uri →
    (Policy.tracing resolver seen lapses).Tracks now
      (fun later value => resolver.Told seen lapses forked uri (.ok value) later)
      (fun later error => resolver.Told seen lapses forked uri (.error error) later) (resolve uri)

/-- A reference that is met in the expansion of a value: it is in the value itself, or in children
that are inherited. -/
private structure Met (resolver : Resolver) (seen : Context → Prop) (lapses forked : Prop)
    (key : String) (value : Resolved) (now : Session) (next : Uri) : Prop where
  standing : resolver.Standing seen lapses forked now
  latest : now.context.resolving.getLast? = some key
  place : next ∈ value.opens ∨ resolver.Left seen lapses key now.shared next

private theorem Met.ahead {key : String} {value : Resolved} {next : Uri}
    (refers : ∀ next ∈ value.opens, resolver.Depends seen lapses key next.key)
    (met : Met resolver seen lapses forked key value now next) :
    resolver.Ahead seen lapses now next := by
  rcases met.place with inside | left
  · refine .inl fun last ends => ?_
    rw [met.latest] at ends
    exact Option.some.inj ends ▸ refers next inside
  · by_cases giveUp : lapses
    · refine .inl fun last ends => ?_
      rw [met.latest] at ends
      exact Option.some.inj ends ▸ left.1 giveUp
    · exact .inr (left.2 giveUp)

private theorem Met.left {key : String} {value : Resolved} {next other : Uri}
    (refers : ∀ next ∈ value.opens, resolver.Depends seen lapses key next.key)
    (met : Met resolver seen lapses forked key value now next)
    (left : resolver.Left seen lapses next.key later.shared other) :
    resolver.Left seen lapses key later.shared other := by
  refine ⟨fun giveUp => ?_, left.2⟩
  have first : resolver.Depends seen lapses key next.key :=
    met.place.elim (refers next) fun before => before.1 giveUp
  exact first.trans giveUp (left.1 giveUp)

private theorem expand_tracks {resolve : Uri → Resolving Resolved} {value : Resolved}
    (follows : resolver.Tells seen lapses forked resolve)
    (standing : resolver.Standing seen lapses forked now)
    (latest : now.context.resolving.getLast? = some uri.key)
    (refers : ∀ next ∈ value.opens, resolver.Depends seen lapses uri.key next.key) :
    (Policy.tracing resolver seen lapses).Tracks now
      (fun later after => resolver.Heard seen lapses forked uri (.ok after) later)
      (fun later error => resolver.Heard seen lapses forked uri (.error error) later)
      (resolver.expand resolve value) := by
  let policy := Policy.tracing resolver seen lapses
  let logic := policy.tracking now.context.mode (resolver.Honest seen lapses forked)
    honest_of_ordinary
  let passed : Session → Uri → Prop := fun later next => lapses ∨ later.shared.Settled next.key
  have lasting : logic.Lasting (Met resolver seen lapses forked uri.key value) passed := by
    constructor
    · intro now later next within met
      refine ⟨met.standing.within within, within.resolving_eq ▸ met.latest, met.place.imp_right ?_⟩
      exact fun left => left.grows within.kept.grows
    · exact fun within => Or.imp_right within.kept.grows.settled
  have agree : logic.Agree (Met resolver seen lapses forked uri.key value) passed resolve resolve := by
    intro now next met _
    refine (follows met.standing (met.ahead refers)).mono ?_ ?_
    · intro later after within told
      refine ⟨fun other inside => ?_, told.2⟩
      have left := met.left refers (told.1 other inside)
      exact ⟨met.standing.within within, within.resolving_eq ▸ met.latest, .inr left⟩
    · exact fun _ told => ⟨fun tolerated => told.1 tolerated.1, told.2⟩
  have met : ∀ next ∈ value.opens, Met resolver seen lapses forked uri.key value now next :=
    fun next inside => ⟨standing, latest, .inl inside⟩
  have expands := Tracking.expand lasting agree resolver met
  refine (expands rfl).mono ?_ fun _ fails => fails.2
  intro later after _ expands next inside
  rcases (expands.1 next inside).place with original | left
  · refine ⟨fun _ => refers next original, fun firm => ?_⟩
    exact (expands.2 next original).resolve_left firm
  · exact left

/-- A fetch by a task that stands on a chain tells what it may. -/
private theorem fetch_tells {resolve : Uri → Resolving Resolved}
    (follows : resolver.Tells seen lapses forked resolve)
    (standing : resolver.Standing seen lapses forked now)
    (ahead : resolver.Ahead seen lapses now uri) {shared : Shared}
    (sound : (Policy.tracing resolver seen lapses).Sound shared)
    (gained : Gained {} now.context.task uri.key now.shared shared) :
    Program.Safe (Policy.tracing resolver seen lapses) (fun outcome later =>
        Begun {} (Policy.tracing resolver seen lapses).handled now.context.task uri now.shared
          later.shared ∧
          (now.context.enter uri.key).Like later.context ∧
          (¬ (Policy.tracing resolver seen lapses).handled uri →
            outcome = .error (.unsupportedProtocol uri.protocol uri.key)) ∧
          resolver.Heard seen lapses forked uri outcome later)
      (resolver.fetch resolve uri).run ⟨shared, now.context.enter uri.key⟩ := by
  obtain ⟨context, there, usual⟩ := standing.usual
  refine fetch_safe (resolver.Heard seen lapses forked uri) Iff.rfl usual sound gained
    (fun _ _ => trivial) (fun _ => honest_of_ordinary rfl) (fun _ _ _ => honest_of_ordinary rfl) ?_ ?_
  · intro answer error later answers refused _ cycle same
    exact .inl ⟨context, uri, answer, there, answers, refused⟩
  · intro answer value later answers found begun sound resumes
    have within := (Policy.Within.refl _ _).resumes resumes
    have below := standing.enter ahead gained (begun.fit standing.fit)
    have latest : later.context.resolving.getLast? = some uri.key := by
      rw [within.resolving_eq]
      exact List.getLast?_concat
    have expands := expand_tracks follows (below.within within) latest fun next inside =>
      .inl ⟨context, uri, answer, value, there, rfl, answers, found, next, inside, rfl⟩
    refine (expands sound).mono sound fun {outcome last} _ kept => ⟨within.trans kept.1, ?_⟩
    cases outcome <;> exact kept.2

private theorem Heard.told {outcome : Except ReferenceError Resolved} {before : Shared}
    (heard : resolver.Heard seen lapses forked uri outcome later)
    (begun : Begun {} (Policy.tracing resolver seen lapses).handled later.context.task uri before
      later.shared) :
    resolver.Told seen lapses forked uri outcome (conclude uri outcome later) := by
  have clear : ¬ (later.shared.note (.ended later.context.task uri outcome)).Settled uri.key :=
    begun.unsettled
  have settled (lasts : (Event.ended later.context.task uri outcome).lasts = true) :
      (conclude uri outcome later).shared.Settled uri.key := settled_keep clear lasts
  cases outcome with
  | ok value =>
    exact ⟨fun next inside => (heard next inside).grows begun.touches_finished.grows,
      .inr (settled rfl)⟩
  | error error =>
    exact ⟨fun ordinary => .inr (settled (by simp [Event.lasts, ordinary])), heard⟩

private theorem resolveBy_tracks {fetch? : Option (Resolving Resolved)}
    (fetches : ∀ {fetch}, fetch? = some fetch → ∃ resolve, fetch = resolver.fetch resolve uri ∧
      resolver.Tells seen lapses forked resolve)
    (standing : resolver.Standing seen lapses forked now)
    (ahead : resolver.Ahead seen lapses now uri) :
    (Policy.tracing resolver seen lapses).Tracks now
      (fun later value => resolver.Told seen lapses forked uri (.ok value) later)
      (fun later error => resolver.Told seen lapses forked uri (.error error) later)
      (resolver.resolveBy uri fetch?) := by
  intro sound
  let policy := Policy.tracing resolver seen lapses
  have refl := Policy.Within.refl policy now
  refine resolveBy_safe sound standing.fit (standing.above ahead) ?_ ?_ ?_ ?_ ?_ ?_ ?_
  · intro value later resumes found
    have settled : later.shared.Settled uri.key := .inl (by simp [found])
    exact ⟨refl.resumes resumes, left_of_value resumes.sound found, .inr settled⟩
  · intro error later resumes _ found
    have settled : later.shared.Settled uri.key := .inr (by simp [found])
    have ordinary := ordinary_of_failure resumes.sound found
    exact ⟨refl.resumes resumes, fun _ => .inr settled, honest_of_ordinary ordinary⟩
  · intro cycle closed
    exact ⟨refl, fun ordinary => (by cases ordinary), (standing.circle_of_chain ahead closed).honest⟩
  · intro _
    refine ⟨refl, fun ordinary => (by cases ordinary), ?_⟩
    rintro cycle same
    cases same
  · intro straight unsettled circular
    have circle := standing.circle_of_wait ahead sound straight unsettled circular
    exact ⟨refl, fun ordinary => (by cases ordinary), circle.honest⟩
  · intro giveUp later resumes
    exact ⟨refl.resumes resumes, fun _ => .inl giveUp, honest_of_ordinary rfl⟩
  · rintro fetch ⟨shared, context⟩ given same sound gained
    cases same
    obtain ⟨resolve, rfl, follows⟩ := fetches given
    refine fetchOwned_safe now sound ?_
    refine (fetch_tells follows standing ahead sound gained).mono sound
      fun {outcome later} _ kept => ?_
    obtain ⟨begun, like, _, heard⟩ := kept
    have task : later.context.task = now.context.task := by rw [like]; rfl
    refine ⟨begun, like, ?_, fun ended => ⟨ended, ?_⟩⟩
    · rintro value rfl next inside
      exact (heard next inside).grows begun.touches_finished.grows
    · have told := heard.told (task ▸ begun)
      cases outcome <;> exact told

/-- However many references may be on the way, the circles that are reported are circles. -/
private theorem resolveWithin_tells (room : Nat) :
    resolver.Tells seen lapses forked (resolver.resolveWithin room) := by
  -- The induction is on the room; a reference without any room is not fetched.
  induction room with
  | zero => exact resolveBy_tracks fun given => by cases given
  | succ room ih =>
    exact resolveBy_tracks fun given => ⟨_, (Option.some.inj given).symm, ih⟩

theorem resolve_tells : resolver.Tells seen lapses forked resolver.resolve :=
  fun standing ahead sound => resolveWithin_tells _ standing ahead sound

end Resolver
end LinkedMarkup
