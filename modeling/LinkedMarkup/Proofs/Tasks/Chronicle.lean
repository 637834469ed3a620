import LinkedMarkup.Resolution.State
import Mathlib.Data.List.Infix

namespace LinkedMarkup

namespace Event

/-- The end of a resolution whose outcome is kept. -/
def lasts : Event → Bool
  | asked _ _ => false
  | ended _ _ (.ok _) => true
  | ended _ _ (.error error) => !error.isPathDependent

theorem lasts_ended (task other : Nat) {uri : Uri} {outcome : Except ReferenceError Resolved} :
    (ended task uri outcome).lasts = (ended other uri outcome).lasts := by
  cases outcome <;> rfl

/-- Nobody resolves the key, and no outcome is kept for it. The events are those of the key, the
latest first. -/
def Open : List Event → Prop
  | [] => True
  | asked _ _ :: _ => False
  | ended task uri outcome :: _ => (ended task uri outcome).lasts = false

/-- The events of one key in their order. A task asks a handler for an open key and ends what it has
asked for itself; a reference that no handler answers for ends unasked. -/
def Orderly (handled : Uri → Prop) : List Event → Prop
  | [] => True
  | asked _ uri :: earlier => handled uri ∧ Open earlier ∧ Orderly handled earlier
  | ended task uri _ :: earlier =>
    (handled uri → earlier.head? = some (asked task uri)) ∧ (¬ handled uri → Open earlier) ∧
      Orderly handled earlier

variable {handled : Uri → Prop} {events later earlier : List Event} {event : Event} {task : Nat}
  {uri : Uri} {outcome : Except ReferenceError Resolved}

theorem Orderly.of_append (orderly : Orderly handled (later ++ earlier)) :
    Orderly handled earlier := by
  induction later with
  | nil => exact orderly
  | cons event rest ih =>
    cases event with
    | asked task uri => exact ih orderly.2.2
    | ended task uri outcome => exact ih orderly.2.2

/-- Directly after a request its own task ends the key. -/
theorem Orderly.ends_asked (orderly : Orderly handled (event :: .asked task uri :: earlier)) :
    ∃ outcome, event = .ended task uri outcome := by
  cases event with
  | asked other again => exact False.elim orderly.2.1
  | ended other again outcome =>
    by_cases answered : handled again
    · have same := orderly.1 answered
      simp only [List.head?_cons, Option.some.injEq, asked.injEq] at same
      exact ⟨outcome, by rw [same.1, same.2]⟩
    · exact False.elim (orderly.2.1 answered)

/-- After an end of a key comes nothing more, unless the outcome is not kept. -/
theorem Orderly.not_lasts (orderly : Orderly handled (event :: .ended task uri outcome :: earlier)) :
    (ended task uri outcome).lasts = false := by
  cases event with
  | asked other again => exact orderly.2.1
  | ended other again result =>
    by_cases answered : handled again
    · cases orderly.1 answered
    · exact orderly.2.1 answered

theorem pathDependent_of_not_lasts (fleeting : (ended task uri outcome).lasts = false) :
    ∃ error, outcome = .error error ∧ error.isPathDependent = true := by
  cases outcome with
  | ok value => cases fleeting
  | error error => exact ⟨error, rfl, by simpa [lasts] using fleeting⟩

/-- Between two requests for a key the first of them has ended with a failure that is not kept. -/
theorem Orderly.between {other : Nat} {again : Uri} {between : List Event}
    (orderly : Orderly handled
      (later ++ .asked task uri :: (between ++ .asked other again :: earlier))) :
    ∃ error, .ended other again (.error error) ∈ between ∧ error.isPathDependent = true := by
  have recent := orderly.of_append
  -- The event directly after the first request is its end, and it is not the last one.
  rcases List.eq_nil_or_concat between with rfl | ⟨rest, first, rfl⟩
  · exact False.elim recent.2.1
  · have tail : Orderly handled (first :: .asked other again :: earlier) := by
      have below : Orderly handled
          ((.asked task uri :: rest) ++ (first :: .asked other again :: earlier)) := by
        simpa using recent
      exact below.of_append
    obtain ⟨outcome, rfl⟩ := tail.ends_asked
    obtain ⟨start, last, split⟩ : ∃ start last, .asked task uri :: rest = start ++ [last] :=
      ⟨_, _, (List.dropLast_append_getLast (List.cons_ne_nil _ _)).symm⟩
    have above : Orderly handled
        (last :: .ended other again outcome :: .asked other again :: earlier) := by
      have whole : Orderly handled ((.asked task uri :: rest) ++
          (.ended other again outcome :: .asked other again :: earlier)) := by
        simpa using recent
      rw [split, List.append_assoc] at whole
      exact whole.of_append
    obtain ⟨error, rfl, path⟩ := pathDependent_of_not_lasts above.not_lasts
    exact ⟨error, by simp, path⟩

/-- A key whose resolution is over, and each end of which is kept, has ended once. -/
theorem Orderly.single (orderly : Orderly handled events)
    (rests : ∀ task uri, events.head? ≠ some (.asked task uri))
    (kept : ∀ {task uri outcome}, .ended task uri outcome ∈ events →
      (ended task uri outcome).lasts = true) :
    events = [] ∨ ∃ task uri outcome,
      handled uri ∧ events = [.ended task uri outcome, .asked task uri] ∨
        ¬ handled uri ∧ events = [.ended task uri outcome] := by
  have closed {earlier : List Event} (part : earlier ⊆ events) (free : Open earlier) :
      earlier = [] := by
    match earlier with
    | [] => rfl
    | .asked _ _ :: _ => exact False.elim free
    | .ended task uri outcome :: _ =>
      have lasting := kept (part List.mem_cons_self)
      rw [Open, lasting] at free
      cases free
  match events, orderly with
  | [], _ => exact .inl rfl
  | .asked task uri :: _, _ => exact False.elim (rests task uri rfl)
  | .ended task uri outcome :: earlier, ⟨begun, ready, before⟩ =>
    refine .inr ⟨task, uri, outcome, ?_⟩
    by_cases answered : handled uri
    · match earlier, begun answered, before with
      | .asked _ _ :: first, rfl, ⟨_, free, _⟩ =>
        have none := closed (fun event member => by simp [member]) free
        exact .inl ⟨answered, by rw [none]⟩
    · have none := closed (List.subset_cons_self _ _) (ready answered)
      exact .inr ⟨answered, by rw [none]⟩

end Event

namespace Shared
variable {start shared : Shared} {key : String} {event : Event}

/-- What has happened since an earlier state, the latest first. -/
def since (start shared : Shared) : List Event :=
  shared.history.take (shared.history.length - start.history.length)

/-- What has happened to a key since an earlier state. -/
def course (start shared : Shared) (key : String) : List Event :=
  (start.since shared).filter (·.key == key)

theorem since_of_history {recent : List Event} (grown : shared.history = recent ++ start.history) :
    start.since shared = recent := by
  simp [since, grown]

theorem since_self (start : Shared) : start.since start = [] := since_of_history rfl

theorem since_note (grown : start.history <:+ shared.history) :
    start.since (shared.note event) = event :: start.since shared := by
  obtain ⟨recent, same⟩ := grown
  rw [since_of_history same.symm]
  exact since_of_history (by rw [note, ← same, List.cons_append])

theorem since_congr {after : Shared} (same : after.history = shared.history) :
    start.since after = start.since shared := by
  rw [since, since, same]

theorem course_congr {after : Shared} (same : after.history = shared.history) (key : String) :
    start.course after key = start.course shared key := by
  rw [course, since_congr same, course]

theorem course_note (grown : start.history <:+ shared.history) (name : String) :
    start.course (shared.note event) name =
      if event.key = name then event :: start.course shared name else start.course shared name := by
  rw [course, since_note grown, List.filter_cons]
  simp only [course, beq_iff_eq]

theorem mem_since_of_course (latest : (start.course shared key).head? = some event) :
    event ∈ start.since shared ∧ event.key = key := by
  have member := List.mem_of_mem_head? latest
  obtain ⟨inside, same⟩ := List.mem_filter.mp member
  exact ⟨inside, by simpa using same⟩

def Settled (shared : Shared) (key : String) : Prop :=
  shared.results.find? key ≠ none ∨ shared.failures.find? key ≠ none

theorem not_settled : ¬ shared.Settled key ↔
    shared.results.find? key = none ∧ shared.failures.find? key = none := by
  simp [Settled]

end Shared

namespace Event

def keptFailure? : Except ReferenceError Resolved → Option ReferenceError
  | .ok _ => none
  | .error error => if error.isPathDependent then none else some error

def value? : Event → Option (String × Resolved)
  | asked _ _ => none
  | ended _ uri outcome => outcome.toOption.map (uri.key, ·)

def failure? : Event → Option (String × ReferenceError)
  | asked _ _ => none
  | ended _ uri outcome => (keptFailure? outcome).map (uri.key, ·)

end Event

namespace Shared
variable {start shared : Shared} {key : String} {event : Event}

/-- The tables and the locks agree with what has happened since the start. -/
structure Chronicle (start : Shared) (handled : Uri → Prop) (shared : Shared) : Prop where
  grown : start.history <:+ shared.history
  orderly : ∀ key, Event.Orderly handled (start.course shared key)
  inFlight : ∀ {key task uri}, (start.course shared key).head? = some (.asked task uri) →
    shared.owners.find? key = some task
  value_iff : ∀ {key value}, shared.results.find? key = some value ↔
    start.results.find? key = some value ∨
      ∃ task uri, (start.course shared key).head? = some (.ended task uri (.ok value))
  failure_iff : ∀ {key error}, shared.failures.find? key = some error ↔
    start.failures.find? key = some error ∨
      error.isPathDependent = false ∧
        ∃ task uri, (start.course shared key).head? = some (.ended task uri (.error error))
  untouched : ∀ {key}, start.Settled key → start.course shared key = []
  values : shared.results.Perm ((start.since shared).filterMap Event.value? ++ start.results)
  mistakes : shared.failures.Perm
    ((start.since shared).filterMap Event.failure? ++ start.failures)

namespace Chronicle
variable {handled : Uri → Prop} {uri : Uri} {task : Nat}

theorem refl (start : Shared) (handled : Uri → Prop) : Chronicle start handled start := by
  have nothing := since_self start
  have quiet : ∀ key, start.course start key = [] := fun key => by rw [course, nothing]; rfl
  exact {
    grown := List.suffix_refl _
    orderly := fun key => by rw [quiet]; trivial
    inFlight := fun found => by simp [quiet] at found
    value_iff := by simp [quiet]
    failure_iff := by simp [quiet]
    untouched := fun _ => quiet _
    values := by simp [nothing]
    mistakes := by simp [nothing] }

/-- Locks may change hands, except those of keys that are being resolved. -/
theorem congr {after : Shared} (chronicle : Chronicle start handled shared)
    (history : after.history = shared.history) (results : after.results = shared.results)
    (failures : after.failures = shared.failures)
    (owners : ∀ {key task uri}, (start.course shared key).head? = some (.asked task uri) →
      after.owners.find? key = shared.owners.find? key) : Chronicle start handled after := by
  have since : start.since after = start.since shared := since_congr history
  have course : start.course after = start.course shared := funext (course_congr history)
  exact {
    grown := history ▸ chronicle.grown
    orderly := fun key => course ▸ chronicle.orderly key
    inFlight := fun found => by
      rw [course] at found
      rw [owners found, chronicle.inFlight found]
    value_iff := by rw [results, course]; exact chronicle.value_iff
    failure_iff := by rw [failures, course]; exact chronicle.failure_iff
    untouched := fun settled => course ▸ chronicle.untouched settled
    values := by rw [results, since]; exact chronicle.values
    mistakes := by rw [failures, since]; exact chronicle.mistakes }

theorem unsettled_at_start (chronicle : Chronicle start handled shared)
    (unsettled : ¬ shared.Settled key) : ¬ start.Settled key := by
  rintro (value | failure)
  · obtain ⟨value, found⟩ := Option.ne_none_iff_exists'.mp value
    exact unsettled (.inl (by simp [chronicle.value_iff.mpr (.inl found)]))
  · obtain ⟨error, found⟩ := Option.ne_none_iff_exists'.mp failure
    exact unsettled (.inr (by simp [chronicle.failure_iff.mpr (.inl found)]))

/-- A key without an outcome that nobody owns is open. -/
theorem open_of_unowned (chronicle : Chronicle start handled shared)
    (unowned : shared.owners.find? key = none) (unsettled : ¬ shared.Settled key) :
    Event.Open (start.course shared key) := by
  match course : start.course shared key with
  | [] => trivial
  | .asked task uri :: _ =>
    have owner : shared.owners.find? key = some task :=
      chronicle.inFlight (by rw [course]; rfl)
    simp [unowned] at owner
  | .ended task uri (.ok value) :: _ =>
    have found : shared.results.find? key = some value :=
      chronicle.value_iff.mpr (.inr ⟨task, uri, by rw [course]; rfl⟩)
    exact False.elim (unsettled (.inl (by simp [found])))
  | .ended task uri (.error error) :: _ =>
    by_cases lasting : error.isPathDependent
    · simp [Event.Open, Event.lasts, lasting]
    · have found : shared.failures.find? key = some error :=
        chronicle.failure_iff.mpr (.inr ⟨by simpa using lasting, task, uri, by rw [course]; rfl⟩)
      exact False.elim (unsettled (.inr (by simp [found])))

theorem not_inFlight_of_settled (chronicle : Chronicle start handled shared)
    (settled : shared.Settled key) (task : Nat) (uri : Uri) :
    (start.course shared key).head? ≠ some (.asked task uri) := by
  intro asked
  have fresh : ¬ start.Settled key := fun known => by simp [chronicle.untouched known] at asked
  rcases settled with value | failure
  · obtain ⟨value, found⟩ := Option.ne_none_iff_exists'.mp value
    rcases chronicle.value_iff.mp found with old | ⟨_, _, ended⟩
    · exact fresh (.inl (by simp [old]))
    · cases asked.symm.trans ended
  · obtain ⟨error, found⟩ := Option.ne_none_iff_exists'.mp failure
    rcases chronicle.failure_iff.mp found with old | ⟨_, _, _, ended⟩
    · exact fresh (.inr (by simp [old]))
    · cases asked.symm.trans ended

/-- The owner of an open key asks its handler. -/
theorem asked (chronicle : Chronicle start handled shared) (answered : handled uri)
    (owns : shared.owners.find? uri.key = some task) (unsettled : ¬ shared.Settled uri.key)
    (ready : Event.Open (start.course shared uri.key)) :
    Chronicle start handled (shared.note (.asked task uri)) where
  grown := chronicle.grown.trans (List.suffix_cons _ _)
  orderly name := by
    rw [course_note chronicle.grown]
    split
    · rename_i same
      have same : uri.key = name := same
      subst same
      exact ⟨answered, ready, chronicle.orderly uri.key⟩
    · exact chronicle.orderly name
  inFlight {name member other} found := by
    rw [course_note chronicle.grown] at found
    split at found
    · rename_i same
      cases found
      exact same ▸ owns
    · exact chronicle.inFlight found
  value_iff {name value} := by
    rw [course_note chronicle.grown]
    split
    · rename_i same
      have same : uri.key = name := same
      subst same
      have absent : ¬ shared.results.find? uri.key = some value :=
        fun found => unsettled (.inl (by simp [found]))
      have before : ¬ start.results.find? uri.key = some value :=
        fun found => chronicle.unsettled_at_start unsettled (.inl (by simp [found]))
      simp [note, absent, before]
    · exact chronicle.value_iff
  failure_iff {name error} := by
    rw [course_note chronicle.grown]
    split
    · rename_i same
      have same : uri.key = name := same
      subst same
      have absent : ¬ shared.failures.find? uri.key = some error :=
        fun found => unsettled (.inr (by simp [found]))
      have before : ¬ start.failures.find? uri.key = some error :=
        fun found => chronicle.unsettled_at_start unsettled (.inr (by simp [found]))
      simp [note, absent, before]
    · exact chronicle.failure_iff
  untouched {name} settled := by
    rw [course_note chronicle.grown, if_neg]
    · exact chronicle.untouched settled
    · rintro rfl
      exact chronicle.unsettled_at_start unsettled settled
  values := by
    rw [since_note chronicle.grown]
    exact chronicle.values
  mistakes := by
    rw [since_note chronicle.grown]
    exact chronicle.mistakes

end Chronicle

theorem keep_history (outcome : Except ReferenceError Resolved) :
    (shared.keep key outcome).history = shared.history := by
  cases outcome with
  | ok value => rfl
  | error error => simp only [keep, storeFailure]; split <;> rfl

theorem keep_owners (outcome : Except ReferenceError Resolved) :
    (shared.keep key outcome).owners = shared.owners := by
  cases outcome with
  | ok value => rfl
  | error error => simp only [keep, storeFailure]; split <;> rfl

theorem find?_results_keep (unsettled : ¬ shared.Settled key)
    (outcome : Except ReferenceError Resolved) (name : String) :
    (shared.keep key outcome).results.find? name =
      if name = key then outcome.toOption else shared.results.find? name := by
  have absent : shared.results.find? key = none :=
    by_contra fun found => unsettled (.inl found)
  cases outcome with
  | ok value => simp [keep, store, Table.find?_insertNew, absent, Except.toOption]
  | error error =>
    have same : (shared.keep key (.error error)).results = shared.results := by
      simp only [keep, storeFailure]; split <;> rfl
    rw [same]
    split
    · rename_i again
      rw [again, absent]
      rfl
    · rfl

theorem find?_failures_keep (unsettled : ¬ shared.Settled key)
    (outcome : Except ReferenceError Resolved) (name : String) :
    (shared.keep key outcome).failures.find? name =
      if name = key then Event.keptFailure? outcome else shared.failures.find? name := by
  have absent : shared.failures.find? key = none :=
    by_contra fun found => unsettled (.inr found)
  cases outcome with
  | ok value =>
    have same : (shared.keep key (.ok value)).failures = shared.failures := rfl
    rw [same]
    split
    · rename_i again
      rw [again, absent]
      rfl
    · rfl
  | error error =>
    by_cases path : error.isPathDependent
    · simp only [keep, storeFailure, Event.keptFailure?, if_pos path]
      split
      · rename_i again
        rw [again, absent]
      · rfl
    · simp [keep, storeFailure, Event.keptFailure?, path, Table.find?_insertNew, absent]

/-- An outcome that does not belong to the chain that led to its key settles the key. -/
theorem settled_keep (unsettled : ¬ shared.Settled key) {task : Nat} {uri : Uri}
    {outcome : Except ReferenceError Resolved}
    (lasts : (Event.ended task uri outcome).lasts = true) :
    (shared.keep key outcome).Settled key := by
  rw [Settled, find?_results_keep unsettled, find?_failures_keep unsettled, if_pos rfl, if_pos rfl]
  cases outcome with
  | ok value => exact .inl (by simp [Except.toOption])
  | error error =>
    have path : error.isPathDependent = false := by simpa [Event.lasts] using lasts
    exact .inr (by simp [Event.keptFailure?, path])

theorem filterMap_cons_toList {α β : Type} (f : α → Option β) (first : α)
    (rest : List α) : (first :: rest).filterMap f = (f first).toList ++ rest.filterMap f := by
  cases found : f first <;> simp [found]

theorem results_keep_perm (unsettled : ¬ shared.Settled key) (task : Nat) {uri : Uri}
    (same : uri.key = key) (outcome : Except ReferenceError Resolved) :
    (shared.keep key outcome).results.Perm
      ((Event.ended task uri outcome).value?.toList ++ shared.results) := by
  have absent : shared.results.find? key = none := by_contra fun found => unsettled (.inl found)
  cases outcome with
  | ok value =>
    simpa [keep, store, Event.value?, Except.toOption, same]
      using Table.insertNew_perm value absent
  | error error =>
    have unchanged : (shared.keep key (.error error)).results = shared.results := by
      simp only [keep, storeFailure]; split <;> rfl
    rw [unchanged]
    rfl

theorem failures_keep_perm (unsettled : ¬ shared.Settled key) (task : Nat) {uri : Uri}
    (same : uri.key = key) (outcome : Except ReferenceError Resolved) :
    (shared.keep key outcome).failures.Perm
      ((Event.ended task uri outcome).failure?.toList ++ shared.failures) := by
  have absent : shared.failures.find? key = none :=
    by_contra fun found => unsettled (.inr found)
  cases outcome with
  | ok value => exact .refl _
  | error error =>
    by_cases path : error.isPathDependent
    · simp [keep, storeFailure, Event.failure?, Event.keptFailure?, path]
    · simpa [keep, storeFailure, Event.failure?, Event.keptFailure?, path, same]
        using Table.insertNew_perm error absent

namespace Chronicle
variable {handled : Uri → Prop} {uri : Uri} {task : Nat}

/-- The owner of a key ends its resolution and keeps the outcome. -/
theorem ended (chronicle : Chronicle start handled shared) (unsettled : ¬ shared.Settled uri.key)
    (begun : handled uri → (start.course shared uri.key).head? = some (.asked task uri))
    (ready : ¬ handled uri → Event.Open (start.course shared uri.key))
    (outcome : Except ReferenceError Resolved) :
    Chronicle start handled ((shared.note (.ended task uri outcome)).keep uri.key outcome) := by
  have clear : ¬ (shared.note (.ended task uri outcome)).Settled uri.key := unsettled
  have since : start.since ((shared.note (.ended task uri outcome)).keep uri.key outcome) =
      .ended task uri outcome :: start.since shared := by
    rw [since_congr (keep_history outcome), since_note chronicle.grown]
  have course (name : String) :
      start.course ((shared.note (.ended task uri outcome)).keep uri.key outcome) name =
        if uri.key = name then .ended task uri outcome :: start.course shared name
        else start.course shared name := by
    rw [Shared.course, since, List.filter_cons]
    simp only [Shared.course, Event.key, beq_iff_eq]
  exact {
    grown := by
      rw [keep_history]
      exact chronicle.grown.trans (List.suffix_cons _ _)
    orderly := fun name => by
      rw [course]
      split
      · rename_i same
        subst same
        exact ⟨begun, ready, chronicle.orderly uri.key⟩
      · exact chronicle.orderly name
    inFlight := fun {name member other} found => by
      rw [course] at found
      rw [keep_owners]
      split at found
      · cases found
      · exact chronicle.inFlight found
    value_iff := fun {name value} => by
      rw [course, find?_results_keep clear]
      by_cases same : name = uri.key
      · subst same
        have before : ¬ start.results.find? uri.key = some value :=
          fun found => chronicle.unsettled_at_start unsettled (.inl (by simp [found]))
        cases outcome <;> simp [before, Except.toOption]
      · rw [if_neg same, if_neg (Ne.symm same)]
        exact chronicle.value_iff
    failure_iff := fun {name error} => by
      rw [course, find?_failures_keep clear]
      by_cases same : name = uri.key
      · subst same
        have before : ¬ start.failures.find? uri.key = some error :=
          fun found => chronicle.unsettled_at_start unsettled (.inr (by simp [found]))
        cases outcome with
        | ok value => simp [before, Event.keptFailure?]
        | error failure =>
          simp only [Event.keptFailure?, before]
          by_cases path : failure.isPathDependent <;> grind
      · rw [if_neg same, if_neg (Ne.symm same)]
        exact chronicle.failure_iff
    untouched := fun {name} settled => by
      rw [course, if_neg]
      · exact chronicle.untouched settled
      · rintro rfl
        exact chronicle.unsettled_at_start unsettled settled
    values := by
      rw [since, filterMap_cons_toList, List.append_assoc]
      exact (results_keep_perm clear task rfl outcome).trans (chronicle.values.append_left _)
    mistakes := by
      rw [since, filterMap_cons_toList, List.append_assoc]
      exact (failures_keep_perm clear task rfl outcome).trans (chronicle.mistakes.append_left _) }

/-- No key has both a value and a failure. -/
theorem disjoint (chronicle : Chronicle start handled shared)
    (apart : ∀ key, start.results.find? key = none ∨ start.failures.find? key = none)
    (key : String) : shared.results.find? key = none ∨ shared.failures.find? key = none := by
  by_contra both
  obtain ⟨hasValue, hasFailure⟩ := not_or.mp both
  obtain ⟨value, found⟩ := Option.ne_none_iff_exists'.mp hasValue
  obtain ⟨error, failed⟩ := Option.ne_none_iff_exists'.mp hasFailure
  rcases chronicle.value_iff.mp found with old | ⟨task, uri, ended⟩ <;>
    rcases chronicle.failure_iff.mp failed with also | ⟨_, other, second, failure⟩
  · rcases apart key with absent | absent
    · simp [absent] at old
    · simp [absent] at also
  · rw [chronicle.untouched (.inl (by simp [old]))] at failure
    cases failure
  · rw [chronicle.untouched (.inr (by simp [also]))] at ended
    cases ended
  · cases ended.symm.trans failure

end Chronicle

end Shared
end LinkedMarkup
