import LinkedMarkup.Proofs.Resolution.Fidelity

namespace LinkedMarkup
open Shared Relation

/-- Two sessions know the same, have asked handlers equally often, and have recorded the same
diagnostics in some order. -/
structure Session.Agrees (first second : Session) : Prop where
  values : ∀ key, first.shared.results.find? key = second.shared.results.find? key
  failures : ∀ key, first.shared.failures.find? key = second.shared.failures.find? key
  fetches : first.shared.fetches = second.shared.fetches
  diagnostics : first.context.diagnostics.Perm second.context.diagnostics
  context : first.context.Like second.context

namespace Event

theorem count_closed_course (events : List Event) (uri : Uri) :
    (closed events).count uri = (closed (events.filter (·.key == uri.key))).count uri := by
  induction events with
  | nil => rfl
  | cons event rest ih =>
    rw [List.filter_cons]
    cases event with
    | asked task other =>
      split
      · exact ih
      · exact ih
    | ended task other outcome =>
      have first (events : List Event) :
          closed (.ended task other outcome :: events) = other :: closed events := rfl
      split
      · rw [first, first, List.count_cons, List.count_cons, ih]
      · rename_i foreign
        have different : other ≠ uri := by
          rintro rfl
          exact foreign (beq_self_eq_true _)
        rw [first, List.count_cons_of_ne different, ih]

end Event

namespace Resolver
variable {resolver : Resolver} {session : Session} {others requests : List Uri} {uri : Uri}

/-- All requests are done, nobody resolves anything, and the accounts are in order. -/
structure Concluded (resolver : Resolver) (session : Session) (others requests : List Uri)
    (last : Session) : Prop where
  sound : (Policy.scripted resolver session others).Sound last.shared
  unowned : ∀ key, last.shared.owners.find? key = none
  done : ∀ uri ∈ requests, resolver.Done session last.shared uri
  balanced : resolver.Balanced session requests (session.shared.since last.shared)
  diagnostics : last.context.diagnostics.Perm (session.context.diagnostics ++
    (Event.closed (session.shared.since last.shared)).flatMap (resolver.remarks session))
  context : session.context.Like last.context

namespace Concluded
variable {last again : Session} {key : String}

private theorem ended (concluded : resolver.Concluded session others requests last) {task : Nat}
    {outcome : Except ReferenceError Resolved}
    (member : .ended task uri outcome ∈ session.shared.since last.shared) :
    resolver.InPlay session others uri ∧ outcome = resolver.outcome session uri :=
  have ends := concluded.sound.ended member
  ⟨ends.1, ends.2.1⟩

private theorem course_of_kept (untangled : resolver.Untangled session others)
    (concluded : resolver.Concluded session others requests last)
    (lasting : ¬ resolver.Fleeting session uri)
    (member : uri ∈ Event.closed (session.shared.since last.shared)) :
    (∃ task, (session.shared.course last.shared uri.key).head? =
        some (.ended task uri (resolver.outcome session uri))) ∧
      (Event.closed (session.shared.since last.shared)).count uri = 1 := by
  obtain ⟨task, outcome, there⟩ := Event.mem_closed.mp member
  obtain ⟨played, told⟩ := concluded.ended there
  have inside : .ended task uri outcome ∈ session.shared.course last.shared uri.key :=
    List.mem_filter.mpr ⟨there, beq_self_eq_true _⟩
  have fresh : ¬ session.shared.Settled uri.key := by
    intro settled
    have untouched : session.shared.course last.shared uri.key = [] :=
      concluded.sound.chronicle.untouched settled
    simp [untouched] at inside
  have whole {task' : Nat} {other : Uri} {outcome' : Except ReferenceError Resolved}
      (found : .ended task' other outcome' ∈ session.shared.course last.shared uri.key) :
      other = uri ∧ outcome' = resolver.outcome session uri := by
    obtain ⟨since, same⟩ := List.mem_filter.mp found
    obtain ⟨also, told⟩ := concluded.ended since
    cases untangled.keyed also played (beq_iff_eq.mp same)
    exact ⟨rfl, told⟩
  have single := (concluded.sound.chronicle.orderly uri.key).single
    (fun task other asked => by
      have owns := concluded.sound.chronicle.inFlight asked
      simp [concluded.unowned] at owns)
    (fun {task' other outcome'} found => by
      obtain ⟨rfl, rfl⟩ := whole found
      by_contra fades
      rw [Event.lasts_ended task' 0] at fades
      exact lasting ⟨fresh, by simpa using fades⟩)
  rw [Event.count_closed_course]
  show (∃ task, (session.shared.course last.shared uri.key).head? = _) ∧
    (Event.closed (session.shared.course last.shared uri.key)).count uri = 1
  have single : session.shared.course last.shared uri.key = [] ∨ ∃ task' other outcome',
      resolver.isHandled other ∧ session.shared.course last.shared uri.key =
          [.ended task' other outcome', .asked task' other] ∨
        ¬ resolver.isHandled other ∧
          session.shared.course last.shared uri.key = [.ended task' other outcome'] := single
  rcases single with none | ⟨task', other, outcome', ⟨_, course⟩ | ⟨_, course⟩⟩
  · simp [none] at inside
  · obtain ⟨rfl, rfl⟩ := whole (by rw [course]; exact List.mem_cons_self)
    rw [course]
    exact ⟨⟨task', rfl⟩, List.count_singleton_self⟩
  · obtain ⟨rfl, rfl⟩ := whole (by rw [course]; exact List.mem_cons_self)
    rw [course]
    exact ⟨⟨task', rfl⟩, List.count_singleton_self⟩

private theorem closed_of_done (untangled : resolver.Untangled session others)
    (concluded : resolver.Concluded session others requests last)
    (played : resolver.InPlay session others uri) (fresh : ¬ session.shared.Settled uri.key)
    (settled : last.shared.Settled uri.key) :
    uri ∈ Event.closed (session.shared.since last.shared) := by
  have close {task : Nat} {other : Uri} {outcome : Except ReferenceError Resolved}
      (latest : (session.shared.course last.shared uri.key).head? =
        some (.ended task other outcome)) :
      uri ∈ Event.closed (session.shared.since last.shared) := by
    obtain ⟨member, same⟩ := mem_since_of_course latest
    cases untangled.keyed (concluded.ended member).1 played same
    exact Event.mem_closed.mpr ⟨task, outcome, member⟩
  rcases settled with value | failure
  · obtain ⟨value, found⟩ := Option.ne_none_iff_exists'.mp value
    rcases concluded.sound.chronicle.value_iff.mp found with old | ⟨_, _, latest⟩
    · have old : session.shared.results.find? uri.key = some value := old
      exact False.elim (fresh (.inl (by simp [old])))
    · exact close latest
  · obtain ⟨error, found⟩ := Option.ne_none_iff_exists'.mp failure
    rcases concluded.sound.chronicle.failure_iff.mp found with old | ⟨_, _, _, latest⟩
    · have old : session.shared.failures.find? uri.key = some error := old
      exact False.elim (fresh (.inr (by simp [old])))
    · exact close latest

/-- The accounts are complete. -/
theorem complete (untangled : resolver.Untangled session others)
    (concluded : resolver.Concluded session others requests last)
    (played : ∀ uri ∈ requests, resolver.InPlay session others uri) :
    resolver.Complete session requests (Event.closed (session.shared.since last.shared)) where
  fleeting := concluded.balanced.fleeting
  shallow {uri} member := by
    obtain ⟨task, outcome, there⟩ := Event.mem_closed.mp member
    exact untangled.fits (concluded.ended there).1
  lasting {uri} lasting := by
    have absent (outside : uri ∉ Event.closed (session.shared.since last.shared)) :=
      List.count_eq_zero.mpr outside
    by_cases settled : session.shared.Settled uri.key
    · refine .inr ⟨absent fun member => ?_, .inr settled⟩
      obtain ⟨⟨task, latest⟩, _⟩ := concluded.course_of_kept untangled lasting member
      have untouched : session.shared.course last.shared uri.key = [] :=
        concluded.sound.chronicle.untouched settled
      simp [untouched] at latest
    by_cases wants : uri ∈ resolver.wanted session requests
        (Event.closed (session.shared.since last.shared))
    · have inside : resolver.InPlay session others uri ∧
          resolver.Done session last.shared uri := by
        rcases mem_wanted.mp wants with request | ⟨other, closed, asks⟩
        · exact ⟨played uri request, concluded.done uri request⟩
        · obtain ⟨task, outcome, there⟩ := Event.mem_closed.mp closed
          obtain ⟨also, _, done⟩ := concluded.sound.ended there
          exact ⟨also.below (demands_below (untangled.fits also) asks), done uri asks⟩
      have known := inside.2.resolve_right lasting
      have member := concluded.closed_of_done untangled inside.1 settled known
      exact .inl ⟨(concluded.course_of_kept untangled lasting member).2, wants, settled⟩
    · exact .inr ⟨absent fun member => wants (concluded.balanced.called member), .inl wants⟩

private theorem value_iff (untangled : resolver.Untangled session others)
    (concluded : resolver.Concluded session others requests last) {value : Resolved} :
    last.shared.results.find? key = some value ↔
      session.shared.results.find? key = some value ∨
        ∃ uri ∈ Event.closed (session.shared.since last.shared),
          uri.key = key ∧ resolver.outcome session uri = .ok value := by
  refine concluded.sound.chronicle.value_iff.trans (or_congr Iff.rfl ⟨?_, ?_⟩)
  · rintro ⟨task, uri, latest⟩
    obtain ⟨member, same⟩ := mem_since_of_course latest
    exact ⟨uri, Event.mem_closed.mpr ⟨_, _, member⟩, same, (concluded.ended member).2.symm⟩
  · rintro ⟨uri, member, rfl, told⟩
    have lasting : ¬ resolver.Fleeting session uri := by
      intro fleeting
      have fades := fleeting.2
      rw [told] at fades
      cases fades
    obtain ⟨⟨task, latest⟩, _⟩ := concluded.course_of_kept untangled lasting member
    exact ⟨task, uri, told ▸ latest⟩

private theorem failure_iff (untangled : resolver.Untangled session others)
    (concluded : resolver.Concluded session others requests last) {error : ReferenceError} :
    last.shared.failures.find? key = some error ↔
      session.shared.failures.find? key = some error ∨
        ∃ uri ∈ Event.closed (session.shared.since last.shared),
          uri.key = key ∧ resolver.outcome session uri = .error error ∧
            error.isPathDependent = false := by
  refine concluded.sound.chronicle.failure_iff.trans (or_congr Iff.rfl ⟨?_, ?_⟩)
  · rintro ⟨path, task, uri, latest⟩
    obtain ⟨member, same⟩ := mem_since_of_course latest
    exact ⟨uri, Event.mem_closed.mpr ⟨_, _, member⟩, same, (concluded.ended member).2.symm, path⟩
  · rintro ⟨uri, member, rfl, told, path⟩
    have lasting : ¬ resolver.Fleeting session uri := by
      intro fleeting
      have fades := fleeting.2
      rw [told] at fades
      simp [Event.lasts, path] at fades
    obtain ⟨⟨task, latest⟩, _⟩ := concluded.course_of_kept untangled lasting member
    exact ⟨path, task, uri, told ▸ latest⟩

private theorem fetches_eq (concluded : resolver.Concluded session others requests last) :
    last.shared.fetches = session.shared.fetches +
      (Event.closed (session.shared.since last.shared)).countP resolver.isHandled := by
  have grown : session.shared.history <:+ last.shared.history := concluded.sound.grown
  obtain ⟨recent, history⟩ := grown
  have since := since_of_history history.symm
  rw [← concluded.balanced.heard, since, fetches, fetches, asked, asked, ← history,
    List.filterMap_append, List.length_append, Nat.add_comm]

/-- Two states in which the same requests are done agree, whatever order has led to them. -/
theorem agrees (untangled : resolver.Untangled session others)
    (concluded : resolver.Concluded session others requests last)
    (also : resolver.Concluded session others requests again)
    (played : ∀ uri ∈ requests, resolver.InPlay session others uri) : last.Agrees again := by
  have perm := (concluded.complete untangled played).perm (also.complete untangled played)
  constructor
  · intro key
    apply Option.ext
    intro value
    rw [concluded.value_iff untangled, also.value_iff untangled]
    simp only [perm.mem_iff]
  · intro key
    apply Option.ext
    intro error
    rw [concluded.failure_iff untangled, also.failure_iff untangled]
    simp only [perm.mem_iff]
  · rw [concluded.fetches_eq, also.fetches_eq, perm.countP_eq]
  · refine concluded.diagnostics.trans (.trans ?_ also.diagnostics.symm)
    exact (perm.flatMap_right _).append_left _
  · rw [concluded.context, also.context]
    rfl

end Concluded

end Resolver
end LinkedMarkup
