import LinkedMarkup.Proofs.Tasks.Crew
import Mathlib.Algebra.BigOperators.Group.Finset.Piecewise

namespace LinkedMarkup

namespace Event

/-- No failure that belongs to a chain. -/
def isQuiet : Event → Bool
  | ended _ _ (.error error) => !error.isPathDependent
  | _ => true

/-- The end of a reference that no handler answers for. -/
def isUnhandled (protocols : Protocols) : Event → Bool
  | asked _ _ => false
  | ended _ uri _ => (protocols.find? uri.protocol).isNone

theorem countP_eq_sum (p : Event → Bool) {keys : Finset String} (events : List Event)
    (inside : ∀ event ∈ events, event.key ∈ keys) :
    events.countP p = ∑ key ∈ keys, (events.filter (·.key == key)).countP p := by
  induction events with
  | nil => simp
  | cons event rest ih =>
    have here := inside event (by simp)
    have first (key : String) : ((event :: rest).filter (·.key == key)).countP p =
        (rest.filter (·.key == key)).countP p +
          if event.key = key then (if p event then 1 else 0) else 0 := by
      rw [List.filter_cons]
      by_cases same : event.key = key <;> simp [same, List.countP_cons]
    simp only [first, Finset.sum_add_distrib, Finset.sum_ite_eq, if_pos here]
    rw [List.countP_cons, ih fun other member => inside other (by simp [member])]

/-- Counts of events add up if they do so for each key. -/
theorem countP_add_of_keys {p q r : Event → Bool} (events : List Event)
    (sum : ∀ key, (events.filter (·.key == key)).countP p +
      (events.filter (·.key == key)).countP q = (events.filter (·.key == key)).countP r) :
    events.countP p + events.countP q = events.countP r := by
  have inside : ∀ event ∈ events, event.key ∈ (events.map key).toFinset := fun event member =>
    List.mem_toFinset.mpr (List.mem_map.mpr ⟨event, member, rfl⟩)
  rw [countP_eq_sum p events inside, countP_eq_sum q events inside, countP_eq_sum r events inside,
    ← Finset.sum_add_distrib]
  exact Finset.sum_congr rfl fun key _ => sum key

/-- What is kept has been kept at ends that last. -/
theorem length_kept (events : List Event) :
    (events.filterMap value?).length + (events.filterMap failure?).length =
      events.countP lasts := by
  induction events with
  | nil => rfl
  | cons event rest ih =>
    have both : (value? event).toList.length + (failure? event).toList.length =
        if event.lasts then 1 else 0 := by
      match event with
      | .asked task uri => rfl
      | .ended task uri (.ok value) => rfl
      | .ended task uri (.error error) =>
        cases path : error.isPathDependent <;>
          simp [value?, failure?, keptFailure?, lasts, Except.toOption, path]
    rw [List.countP_cons, ← ih, ← both, Shared.filterMap_cons_toList,
      Shared.filterMap_cons_toList, List.length_append, List.length_append]
    omega

end Event

def Shared.unhandled (shared : Shared) (protocols : Protocols) : List String :=
  shared.failures.keys.filter fun key =>
    shared.history.any fun event => event.key == key && event.isUnhandled protocols

namespace Crew
open Shared

variable {resolver : Resolver} {crew next : Crew} {base : Shared}

/-- What is kept stays as it is at every step. -/
theorem Ordered.grows (ordered : Ordered resolver base crew) (moves : Moves resolver crew next) :
    crew.session.shared.Grows next.session.shared := by
  rcases moves with step | lapse
  · cases step with
    | tend session context same => exact .refl _
    | begin session errand => exact .refl _
    | fork session errands =>
      show session.shared.Grows (Pool.fork session _ session.shared).2
      rw [Pool.shared_fork]
      exact ⟨id, id⟩
    | turn turn =>
      obtain ⟨_, _, task, step⟩ := ordered.manned.turn (rested_stable resolver base) turn
      exact (step.aside (Nat.succ_ne_self task)).grows
    | finish session itself ended => exact .refl _
    | join session apart ended =>
      show session.shared.Grows (Pool.join session _ session.shared).2.shared
      rw [Pool.shared_join]
      exact ⟨id, id⟩
  · obtain ⟨expiry⟩ := lapse
    obtain ⟨_, _, task, step⟩ :=
      ordered.manned.expiry (rested_stable resolver base) trivial expiry
    exact (step.aside (Nat.succ_ne_self task)).grows

theorem Reachable.grows (reachable : Reachable resolver crew)
    (path : Relation.ReflTransGen (Moves resolver) crew next) :
    crew.session.shared.Grows next.session.shared := by
  induction path with
  | refl => exact .refl _
  | tail before step ih =>
    obtain ⟨context, first, start⟩ := reachable
    obtain ⟨base, ordered⟩ := Ordered.of_reachable ⟨context, first, start.trans before⟩
    exact ih.trans (ordered.grows step)

private theorem since_nothing (shared : Shared) : Shared.since {} shared = shared.history :=
  since_of_history (List.append_nil _).symm

private theorem single_of_quiet {shared : Shared} (sound : (Policy.lenient resolver).Sound shared)
    (quiet : shared.Quiet)
    (kept : ∀ {task uri outcome}, .ended task uri outcome ∈ shared.history →
      (Event.ended task uri outcome).lasts = true) (key : String) :
    shared.history.filter (·.key == key) = [] ∨ ∃ task uri outcome,
      (resolver.protocols.find? uri.protocol).isSome ∧ shared.history.filter (·.key == key) =
        [.ended task uri outcome, .asked task uri] ∨
      ¬ (resolver.protocols.find? uri.protocol).isSome ∧
        shared.history.filter (·.key == key) = [.ended task uri outcome] := by
  have since := since_nothing shared
  have orderly := sound.chronicle.orderly key
  have idle (task : Nat) (uri : Uri) :
      (Shared.course {} shared key).head? ≠ some (.asked task uri) := by
    intro asked
    have owner := sound.chronicle.inFlight asked
    simp [quiet.owners] at owner
  have course : Shared.course {} shared key = shared.history.filter (·.key == key) := by
    rw [Shared.course, since]
  have single := Event.Orderly.single orderly idle
    fun member => kept (since ▸ (List.mem_filter.mp member).1)
  exact course ▸ single

private theorem length_unhandled {shared : Shared}
    (sound : (Policy.lenient resolver).Sound shared) (quiet : shared.Quiet)
    (kept : ∀ {task uri outcome}, .ended task uri outcome ∈ shared.history →
      (Event.ended task uri outcome).lasts = true) :
    (shared.unhandled resolver.protocols).length =
      shared.history.countP (Event.isUnhandled resolver.protocols) := by
  have since := since_nothing shared
  have mistakes : shared.failures.Perm (shared.history.filterMap Event.failure?) := by
    have all := sound.chronicle.mistakes
    rw [show (Policy.lenient resolver).start = {} from rfl, since] at all
    simpa using all
  let ends (key : String) : Bool := shared.history.any fun event =>
    event.key == key && event.isUnhandled resolver.protocols
  have counted : (shared.unhandled resolver.protocols).length =
      shared.history.countP fun event =>
        (event.failure?.map fun entry => ends entry.1).getD false := by
    rw [Shared.unhandled, ← List.countP_eq_length_filter, Table.keys, List.countP_map,
      mistakes.countP_eq, List.countP_filterMap]
    rfl
  rw [counted]
  refine List.countP_congr fun event member => ?_
  match event with
  | .asked task uri => simp [Event.failure?, Event.isUnhandled]
  | .ended task uri outcome =>
    constructor
    · intro failed
      have unhandled : ends uri.key = true := by
        cases kept : Event.keptFailure? outcome <;>
          simp [Event.failure?, kept] at failed
        exact failed
      obtain ⟨other, there, matched⟩ := List.any_eq_true.mp unhandled
      obtain ⟨same, alone⟩ := Bool.and_eq_true_iff.mp matched
      have here : Event.ended task uri outcome ∈ shared.history.filter (·.key == uri.key) :=
        List.mem_filter.mpr ⟨member, by simp [Event.key]⟩
      have also : other ∈ shared.history.filter (·.key == uri.key) :=
        List.mem_filter.mpr ⟨there, same⟩
      rcases single_of_quiet sound quiet kept uri.key with
        none | ⟨_, again, _, ⟨answered, course⟩ | ⟨_, course⟩⟩
      · simp [none] at here
      · rw [course] at also
        have answers : (resolver.protocols.find? again.protocol).isNone = false := by
          simpa using answered
        rcases List.mem_pair.mp also with rfl | rfl
        · rw [Event.isUnhandled, answers] at alone
          cases alone
        · cases alone
      · rw [course, List.mem_singleton] at here also
        rw [here, ← also]
        exact alone
    · intro unhandled
      have none : resolver.protocols.find? uri.protocol = none := by
        simpa [Event.isUnhandled] using unhandled
      have same := sound.ended (since ▸ member) none
      subst same
      have ended : ends uri.key = true :=
        List.any_eq_true.mpr ⟨_, member, by simpa [Event.key] using unhandled⟩
      exact ended

/-- When nobody resolves anything and every outcome was kept, the requests to handlers are as many
as the keys with an outcome, but for those without a handler. -/
private theorem fetches_eq {shared : Shared} (sound : (Policy.lenient resolver).Sound shared)
    (quiet : shared.Quiet)
    (kept : ∀ {task uri outcome}, .ended task uri outcome ∈ shared.history →
      (Event.ended task uri outcome).lasts = true) :
    shared.fetches + (shared.unhandled resolver.protocols).length =
      shared.results.length + shared.failures.length := by
  have since := since_nothing shared
  have values := sound.chronicle.values.length_eq
  have mistakes := sound.chronicle.mistakes.length_eq
  rw [show (Policy.lenient resolver).start = {} from rfl, since] at values mistakes
  have asked : shared.fetches = shared.history.countP fun event => event.asked?.isSome := by
    rw [Shared.fetches, Shared.asked, List.length_filterMap_eq_countP]
  have sum : shared.history.countP (fun event => event.asked?.isSome) +
      shared.history.countP (Event.isUnhandled resolver.protocols) =
        shared.history.countP Event.lasts := by
    refine Event.countP_add_of_keys _ fun key => ?_
    rcases single_of_quiet sound quiet kept key with
      none | ⟨task, uri, outcome, ⟨answered, course⟩ | ⟨alone, course⟩⟩
    · rw [none]
      rfl
    · have member : Event.ended task uri outcome ∈ shared.history.filter (·.key == key) := by
        simp [course]
      have lasting := kept (List.mem_filter.mp member).1
      have answers : (resolver.protocols.find? uri.protocol).isNone = false := by
        simpa using answered
      have request : (Event.asked task uri).lasts = false := rfl
      simp [course, Event.asked?, Event.isUnhandled, lasting, answers, request]
    · have member : Event.ended task uri outcome ∈ shared.history.filter (·.key == key) := by
        simp [course]
      have lasting := kept (List.mem_filter.mp member).1
      have answers : (resolver.protocols.find? uri.protocol).isNone = true := by
        simpa using alone
      simp [course, Event.asked?, Event.isUnhandled, lasting, answers]
  rw [asked, length_unhandled sound quiet kept, sum, ← Event.length_kept]
  simpa using (congrArg₂ (· + ·) values mistakes).symm

/-- In every state that the tasks come to: between two requests for one key the first of them has
ended with a failure that belongs to its chain; no key has both a value and a failure; values and
failures stay whatever happens next; and when no task is at work and no failure that belongs to a
chain has occurred, the requests to handlers are as many as the keys with a value or a failure, but
for the failed keys without a handler. -/
theorem handled_once (reachable : Reachable resolver crew) :
    (∀ {later between earlier : List Event} {task other : Nat} {uri again : Uri},
      crew.session.shared.history =
        later ++ .asked task uri :: (between ++ .asked other again :: earlier) →
      uri.key = again.key →
      ∃ error, .ended other again (.error error) ∈ between ∧ error.isPathDependent = true) ∧
    (∀ key, crew.session.shared.results.find? key = none ∨
      crew.session.shared.failures.find? key = none) ∧
    (∀ {next}, Relation.ReflTransGen (Moves resolver) crew next →
      crew.session.shared.Grows next.session.shared) ∧
    ((∀ strand ∈ crew.strands, strand.program.result?.isSome) →
      (∀ {task uri error}, .ended task uri (.error error) ∈ crew.session.shared.history →
        error.isPathDependent = false) →
      crew.session.shared.fetches +
          (crew.session.shared.unhandled resolver.protocols).length =
        crew.session.shared.results.length + crew.session.shared.failures.length) := by
  obtain ⟨base, ordered⟩ := Ordered.of_reachable reachable
  have sound : (Policy.lenient resolver).Sound crew.session.shared := ordered.manned.sound
  refine ⟨?_, sound.chronicle.disjoint (fun _ => .inl rfl), fun path => reachable.grows path, ?_⟩
  · intro later between earlier task other uri again history same
    have since := since_nothing crew.session.shared
    have orderly := sound.chronicle.orderly again.key
    rw [show (Policy.lenient resolver).start = {} from rfl, course, since, history] at orderly
    simp only [List.filter_append, List.filter_cons, Event.key, same, beq_self_eq_true,
      if_true] at orderly
    obtain ⟨error, member, path⟩ := orderly.between
    exact ⟨error, (List.mem_filter.mp member).1, path⟩
  · intro ended kept
    refine fetches_eq sound (ordered.manned.quiet_of_finished ordered.closed ended)
      fun {task uri outcome} member => ?_
    cases outcome with
    | ok value => rfl
    | error error => simp [Event.lasts, kept member]

/-- Two tasks share what one of them has found, and ask for themselves if there is nothing to
share. -/
theorem handled_once_pair :
    let found := (pair .slow 3).session.shared
    let failed := (pair (.failed (.circular [])) 1).session.shared
    (found.fetches + (found.unhandled (Resolver.constant .slow).protocols).length =
      found.results.length + found.failures.length ∧ found.fetches = 1) ∧
    failed.fetches = 2 ∧ ∃ error, .ended 1 ⟨"s", "r"⟩ (.error error) ∈ failed.history ∧
      error.isPathDependent = true := by
  constructor
  · obtain ⟨_, _, _, counts⟩ := handled_once (reachable_pair .slow 3)
    have quiet : (pair .slow 3).session.shared.history.all Event.isQuiet = true := by
      decide +kernel
    refine ⟨counts (by decide +kernel) fun member => ?_, by decide +kernel⟩
    simpa [Event.isQuiet] using List.all_eq_true.mp quiet _ member
  · obtain ⟨once, _, _, _⟩ := handled_once (reachable_pair (.failed (.circular [])) 1)
    have course : (pair (.failed (.circular [])) 1).session.shared.history =
        [.ended 2 ⟨"s", "r"⟩ (.error (.circular []))] ++ .asked 2 ⟨"s", "r"⟩ ::
          ([.ended 1 ⟨"s", "r"⟩ (.error (.circular []))] ++ [.asked 1 ⟨"s", "r"⟩]) := rfl
    obtain ⟨error, member, path⟩ := once course rfl
    refine ⟨by decide +kernel, error, ?_, path⟩
    rw [course]
    exact List.mem_append_right _ (List.mem_cons_of_mem _ (List.mem_append_left _ member))

end Crew
end LinkedMarkup
