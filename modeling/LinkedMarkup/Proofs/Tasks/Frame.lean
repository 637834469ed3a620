import LinkedMarkup.Proofs.Tasks.Chronicle
/-! What a change of the shared state leaves as it is for a task. A task may count on the keys that
it owns: only the owner of a key settles it and adds to its events. -/
namespace LinkedMarkup.Shared
variable {start before after last : Shared} {task other : Nat} {key : String}

/-- Values and failures stay. -/
structure Grows (before after : Shared) : Prop where
  value : ∀ {key value}, before.results.find? key = some value →
    after.results.find? key = some value
  failure : ∀ {key error}, before.failures.find? key = some error →
    after.failures.find? key = some error

/-- A key has the same owner, the same outcome and the same events. -/
structure SameKey (start before after : Shared) (key : String) : Prop where
  owner : after.owners.find? key = before.owners.find? key
  value : after.results.find? key = before.results.find? key
  failure : after.failures.find? key = before.failures.find? key
  course : start.course after key = start.course before key

/-- Nothing is taken from a task. -/
structure Respects (start : Shared) (task : Nat) (before after : Shared) : Prop where
  grows : before.Grows after
  history : before.history <:+ after.history
  owned : ∀ {key}, before.owners.find? key = some task → SameKey start before after key
  forks : after.forks = before.forks
  lastTask : after.lastTask = before.lastTask

/-- The task owns the same keys and waits for the same keys before and after. -/
structure Kept (start : Shared) (task : Nat) (before after : Shared) : Prop
    extends Respects start task before after where
  bare : ∀ {key}, after.owners.find? key = some task → before.owners.find? key = some task
  waits : ∀ {key}, (task, key) ∈ after.waiting ↔ (task, key) ∈ before.waiting

/-- What a task has done since the start, the latest first. -/
def deeds (start shared : Shared) (task : Nat) : List Event :=
  (start.since shared).filter (·.task == task)

/-- The task itself has done nothing. -/
structure Aside (start : Shared) (task : Nat) (before after : Shared) : Prop
    extends Kept start task before after where
  deeds : start.deeds after task = start.deeds before task

/-- The task has come to own one more key, which is open, and has done nothing else. -/
structure Gained (start : Shared) (task : Nat) (key : String) (before after : Shared) : Prop
    extends Respects start task before after where
  foreign : before.owners.find? key ≠ some task
  owns : after.owners.find? key = some task
  others : ∀ {name}, name ≠ key → after.owners.find? name = some task →
    before.owners.find? name = some task
  waits : ∀ {key}, (task, key) ∈ after.waiting ↔ (task, key) ∈ before.waiting
  unsettled : ¬ after.Settled key
  ready : Event.Open (start.course after key)
  deeds : start.deeds after task = start.deeds before task

theorem deeds_congr (same : after.history = before.history) (task : Nat) :
    start.deeds after task = start.deeds before task := by
  rw [deeds, since_congr same, deeds]

theorem deeds_self (start : Shared) (task : Nat) : start.deeds start task = [] := by
  rw [deeds, since_self]
  rfl

theorem deeds_note {event : Event} (grown : start.history <:+ before.history) (task : Nat) :
    start.deeds (before.note event) task =
      if event.task = task then event :: start.deeds before task else start.deeds before task := by
  rw [deeds, since_note grown, List.filter_cons]
  simp only [deeds, beq_iff_eq]

namespace Grows

theorem refl (shared : Shared) : shared.Grows shared := ⟨id, id⟩

theorem trans (first : before.Grows after) (second : after.Grows last) : before.Grows last :=
  ⟨fun found => second.value (first.value found), fun found => second.failure (first.failure found)⟩

theorem settled (grows : before.Grows after) (settled : before.Settled key) : after.Settled key := by
  rcases settled with value | failure
  · obtain ⟨value, found⟩ := Option.ne_none_iff_exists'.mp value
    exact .inl (by simp [grows.value found])
  · obtain ⟨error, found⟩ := Option.ne_none_iff_exists'.mp failure
    exact .inr (by simp [grows.failure found])

end Grows

namespace SameKey

theorem refl (start shared : Shared) (key : String) : SameKey start shared shared key :=
  ⟨rfl, rfl, rfl, rfl⟩

theorem trans (first : SameKey start before after key) (second : SameKey start after last key) :
    SameKey start before last key :=
  ⟨second.owner.trans first.owner, second.value.trans first.value,
    second.failure.trans first.failure, second.course.trans first.course⟩

theorem settled_iff (same : SameKey start before after key) :
    after.Settled key ↔ before.Settled key := by
  rw [Settled, Settled, same.value, same.failure]

end SameKey

namespace Respects

theorem refl (start : Shared) (task : Nat) (shared : Shared) :
    Respects start task shared shared where
  grows := .refl shared
  history := List.suffix_refl _
  owned _ := .refl start shared _
  forks := rfl
  lastTask := rfl

theorem trans (first : Respects start task before after)
    (second : Respects start task after last) : Respects start task before last where
  grows := first.grows.trans second.grows
  history := first.history.trans second.history
  owned owns :=
    (first.owned owns).trans (second.owned ((first.owned owns).owner.trans owns))
  forks := second.forks.trans first.forks
  lastTask := second.lastTask.trans first.lastTask

end Respects

namespace Kept

theorem refl (start : Shared) (task : Nat) (shared : Shared) : Kept start task shared shared :=
  ⟨.refl start task shared, id, Iff.rfl⟩

theorem trans (first : Kept start task before after) (second : Kept start task after last) :
    Kept start task before last :=
  ⟨first.toRespects.trans second.toRespects, fun owns => first.bare (second.bare owns),
    second.waits.trans first.waits⟩

end Kept

namespace Aside

theorem refl (start : Shared) (task : Nat) (shared : Shared) : Aside start task shared shared :=
  ⟨.refl start task shared, rfl⟩

theorem trans (first : Aside start task before after) (second : Aside start task after last) :
    Aside start task before last :=
  ⟨first.toKept.trans second.toKept, second.deeds.trans first.deeds⟩

end Aside

/-- A change of a queue alone is nothing to a task that does not join or leave it. -/
theorem Aside.of_queue (history : after.history = before.history)
    (results : after.results = before.results) (failures : after.failures = before.failures)
    (owners : after.owners = before.owners) (forks : after.forks = before.forks)
    (lastTask : after.lastTask = before.lastTask)
    (waits : ∀ {key}, (task, key) ∈ after.waiting ↔ (task, key) ∈ before.waiting) :
    Aside start task before after where
  grows := ⟨fun found => results ▸ found, fun found => failures ▸ found⟩
  history := history ▸ List.suffix_refl _
  owned _ := ⟨by rw [owners], by rw [results], by rw [failures], course_congr history _⟩
  waits := waits
  forks := forks
  lastTask := lastTask
  bare owns := owners ▸ owns
  deeds := deeds_congr history task

/-- A step of a task that has to do with one key only. -/
structure Touches (task : Nat) (key : String) (before after : Shared) : Prop where
  grows : before.Grows after
  history : ∃ recent, after.history = recent ++ before.history ∧
    ∀ event ∈ recent, event.task = task ∧ event.key = key
  owners : ∀ {name}, name ≠ key → after.owners.find? name = before.owners.find? name
  results : ∀ {name}, name ≠ key → after.results.find? name = before.results.find? name
  failures : ∀ {name}, name ≠ key → after.failures.find? name = before.failures.find? name
  waits : ∀ {member name}, member ≠ task →
    ((member, name) ∈ after.waiting ↔ (member, name) ∈ before.waiting)
  forks : after.forks = before.forks
  lastTask : after.lastTask = before.lastTask

namespace Touches

theorem since_eq (grown : start.history <:+ before.history) {recent : List Event}
    (same : after.history = recent ++ before.history) :
    start.since after = recent ++ start.since before := by
  obtain ⟨old, split⟩ := grown
  rw [since_of_history split.symm]
  exact since_of_history (by rw [same, ← split, List.append_assoc])

theorem sameKey (touches : Touches task key before after)
    (grown : start.history <:+ before.history) {name : String} (different : name ≠ key) :
    SameKey start before after name where
  owner := touches.owners different
  value := touches.results different
  failure := touches.failures different
  course := by
    obtain ⟨recent, same, mine⟩ := touches.history
    rw [course, since_eq grown same, List.filter_append, course]
    have none : recent.filter (·.key == name) = [] := by
      refine List.filter_eq_nil_iff.mpr fun event member matched => different ?_
      rw [← (mine event member).2]
      exact (beq_iff_eq.mp matched).symm
    rw [none, List.nil_append]

theorem trans (first : Touches task key before after) (second : Touches task key after last) :
    Touches task key before last where
  grows := first.grows.trans second.grows
  history := by
    obtain ⟨recent, same, mine⟩ := first.history
    obtain ⟨latest, again, also⟩ := second.history
    refine ⟨latest ++ recent, by rw [again, same, List.append_assoc], fun event member => ?_⟩
    exact (List.mem_append.mp member).elim (also event) (mine event)
  owners different := (second.owners different).trans (first.owners different)
  results different := (second.results different).trans (first.results different)
  failures different := (second.failures different).trans (first.failures different)
  waits different := (second.waits different).trans (first.waits different)
  forks := second.forks.trans first.forks
  lastTask := second.lastTask.trans first.lastTask

/-- A step with a key that another task does not own leaves that task alone. -/
theorem aside (touches : Touches task key before after)
    (grown : start.history <:+ before.history) (different : other ≠ task)
    (foreign : before.owners.find? key ≠ some other)
    (still : after.owners.find? key ≠ some other) : Aside start other before after where
  grows := touches.grows
  history := by
    obtain ⟨recent, same, _⟩ := touches.history
    exact ⟨recent, same.symm⟩
  owned {name} owns := touches.sameKey grown fun same => foreign (same ▸ owns)
  waits := touches.waits different
  forks := touches.forks
  lastTask := touches.lastTask
  bare {name} owns := by
    by_cases same : name = key
    · exact False.elim (still (same ▸ owns))
    · rwa [touches.owners same] at owns
  deeds := by
    obtain ⟨recent, same, mine⟩ := touches.history
    rw [Shared.deeds, since_eq grown same, List.filter_append, Shared.deeds]
    have none : recent.filter (·.task == other) = [] := by
      refine List.filter_eq_nil_iff.mpr fun event member matched => different ?_
      rw [← (mine event member).1]
      exact (beq_iff_eq.mp matched).symm
    rw [none, List.nil_append]

/-- For the task itself nothing changes but a key that it did not own to begin with. -/
theorem respects (touches : Touches task key before after) {first : Shared}
    (sofar : Respects start task first before) (grown : start.history <:+ before.history)
    (foreign : first.owners.find? key ≠ some task) : Respects start task first after where
  grows := sofar.grows.trans touches.grows
  history := by
    obtain ⟨recent, same, _⟩ := touches.history
    exact sofar.history.trans ⟨recent, same.symm⟩
  owned {name} owns :=
    (sofar.owned owns).trans (touches.sameKey grown fun same => foreign (same ▸ owns))
  forks := touches.forks.trans sofar.forks
  lastTask := touches.lastTask.trans sofar.lastTask

end Touches
end LinkedMarkup.Shared
