import LinkedMarkup.Proofs.Tasks.Frame
import LinkedMarkup.Proofs.Tasks.Locks

namespace LinkedMarkup
open Shared

namespace Shared
variable {shared : Shared} {key : String}

theorem touches_take (task : Nat) (key : String) (shared : Shared) :
    Touches task key shared (shared.take task key) where
  grows := ⟨id, id⟩
  history := ⟨[], rfl, by simp⟩
  owners different := by rw [find?_owners_take, if_neg different]
  results _ := rfl
  failures _ := rfl
  waits _ := Iff.rfl
  forks := rfl
  lastTask := rfl

theorem touches_receive (task : Nat) (key : String) (shared : Shared) :
    Touches task key shared (shared.receive task key) where
  grows := ⟨id, id⟩
  history := ⟨[], rfl, by simp⟩
  owners different := by rw [find?_owners_receive, if_neg different]
  results _ := rfl
  failures _ := rfl
  waits different := mem_waiting_stopWaiting.trans (and_iff_left different)
  forks := rfl
  lastTask := rfl

theorem touches_giveUp (task : Nat) (key : String) (shared : Shared) :
    Touches task key shared (shared.giveUp task key) where
  grows := ⟨id, id⟩
  history := ⟨[], rfl, by simp⟩
  owners _ := rfl
  results _ := rfl
  failures _ := rfl
  waits different := mem_waiting_stopWaiting.trans (and_iff_left different)
  forks := rfl
  lastTask := rfl

theorem touches_release (task : Nat) (key : String) (shared : Shared) :
    Touches task key shared (shared.release key) where
  grows := ⟨id, id⟩
  history := ⟨[], rfl, by simp⟩
  owners different := by rw [find?_owners_release, if_neg different]
  results _ := rfl
  failures _ := rfl
  waits _ := Iff.rfl
  forks := rfl
  lastTask := rfl

theorem touches_asked (task : Nat) (uri : Uri) (shared : Shared) :
    Touches task uri.key shared (shared.note (.asked task uri)) where
  grows := ⟨id, id⟩
  history := ⟨[.asked task uri], rfl, by simp [Event.task, Event.key]⟩
  owners _ := rfl
  results _ := rfl
  failures _ := rfl
  waits _ := Iff.rfl
  forks := rfl
  lastTask := rfl

theorem keep_locks (shared : Shared) (key : String) (outcome : Except ReferenceError Resolved) :
    (shared.keep key outcome).locks = shared.locks ∧
      (shared.keep key outcome).waiting = shared.waiting ∧
      (shared.keep key outcome).forks = shared.forks ∧
      (shared.keep key outcome).lastTask = shared.lastTask := by
  cases outcome with
  | ok value => exact ⟨rfl, rfl, rfl, rfl⟩
  | error error => simp only [keep, storeFailure]; split <;> exact ⟨rfl, rfl, rfl, rfl⟩

theorem touches_ended (task : Nat) {uri : Uri} (unsettled : ¬ shared.Settled uri.key)
    (outcome : Except ReferenceError Resolved) :
    Touches task uri.key shared
      ((shared.note (.ended task uri outcome)).keep uri.key outcome) := by
  have clear : ¬ (shared.note (.ended task uri outcome)).Settled uri.key := unsettled
  obtain ⟨_, waiting, forks, lastTask⟩ :=
    keep_locks (shared.note (.ended task uri outcome)) uri.key outcome
  exact {
    grows := by
      constructor
      · intro name value found
        have different : name ≠ uri.key := fun same => unsettled (.inl (by simp [← same, found]))
        rw [find?_results_keep clear, if_neg different]
        exact found
      · intro name error found
        have different : name ≠ uri.key := fun same => unsettled (.inr (by simp [← same, found]))
        rw [find?_failures_keep clear, if_neg different]
        exact found
    history := ⟨[.ended task uri outcome], by rw [keep_history]; rfl,
      by simp [Event.task, Event.key]⟩
    owners := fun _ => by rw [keep_owners]; rfl
    results := fun different => by rw [find?_results_keep clear, if_neg different]; rfl
    failures := fun different => by rw [find?_failures_keep clear, if_neg different]; rfl
    waits := fun _ => by rw [waiting]; rfl
    forks := forks
    lastTask := lastTask }

end Shared

/-- What tasks hold each other to. -/
structure Policy where
  /-- The state before the tasks began. -/
  start : Shared
  /-- A handler answers for the reference. -/
  handled : Uri → Prop
  /-- How the resolution of a reference may end, and what is known then. -/
  ends : Uri → Except ReferenceError Resolved → Shared → Prop
  remains : ∀ {uri outcome} {before after : Shared}, before.Grows after →
    ends uri outcome before → ends uri outcome after
  /-- A task that owns the first key may wait for the second one. -/
  above : String → String → Prop
  /-- A wait for another task may be given up. -/
  expires : Prop
  /-- A handler may fail to answer. -/
  silent : Prop

namespace Policy

structure Sound (policy : Policy) (shared : Shared) : Prop where
  locked : shared.Locked
  unknotted : shared.Unknotted
  chronicle : Chronicle policy.start policy.handled shared
  ended : ∀ {task uri outcome}, .ended task uri outcome ∈ policy.start.since shared →
    policy.ends uri outcome shared
  ranked : ∀ {task key other}, (task, key) ∈ shared.waiting →
    shared.owners.find? other = some task → policy.above other key

/-- A step of a task keeps the state sound and leaves the other tasks alone. -/
structure Step (policy : Policy) (task : Nat) (before after : Shared) : Prop where
  sound : policy.Sound after
  aside : ∀ {other}, other ≠ task → Aside policy.start other before after

end Policy

theorem Policy.Step.trans {policy : Policy} {task : Nat} {before after last : Shared}
    (first : policy.Step task before after) (second : policy.Step task after last) :
    policy.Step task before last :=
  ⟨second.sound, fun different => (first.aside different).trans (second.aside different)⟩

/-- A task may ask for a key: it waits for nothing and has forked no other task. -/
structure Shared.Fit (shared : Shared) (task : Nat) : Prop where
  awake : shared.Awake task
  leaf : ∀ child, (child, task) ∉ shared.forks
  known : task ≤ shared.lastTask

namespace Policy.Sound
variable {policy : Policy} {shared : Shared} {task : Nat} {key : String} {lock : Lock}

theorem grown (sound : policy.Sound shared) : policy.start.history <:+ shared.history :=
  sound.chronicle.grown

private theorem ended_of_grows (sound : policy.Sound shared) (after : Shared)
    (grows : shared.Grows after) (history : after.history = shared.history) {task uri outcome}
    (member : .ended task uri outcome ∈ policy.start.since after) :
    policy.ends uri outcome after := by
  rw [since_congr history] at member
  exact policy.remains grows (sound.ended member)

theorem unowned_of_free (sound : policy.Sound shared) (free : shared.locks.find? key = none) :
    shared.owners.find? key = none := by
  cases owner : shared.owners.find? key with
  | none => rfl
  | some task =>
    obtain ⟨lock, found, _⟩ := sound.locked.owned owner
    simp [free] at found

/-- A task that waits for a lock and holds it has been handed it. -/
theorem unowned_of_handed (sound : policy.Sound shared)
    (found : shared.locks.find? key = some lock) (waits : (lock.holder, key) ∈ shared.waiting) :
    shared.owners.find? key = none := by
  obtain ⟨held, same, place⟩ := sound.locked.awaited waits
  cases found.symm.trans same
  rcases place with queued | ⟨_, unknown⟩
  · exact False.elim ((sound.locked.queued found queued).2 rfl)
  · exact unknown

theorem take (sound : policy.Sound shared) (fit : shared.Fit task)
    (free : shared.locks.find? key = none) : policy.Step task shared (shared.take task key) := by
  have unowned := sound.unowned_of_free free
  have touches := touches_take task key shared
  refine ⟨{
    locked := sound.locked.take fit.known fit.leaf free
    unknotted := sound.unknotted.take task key
    chronicle := sound.chronicle.congr rfl rfl rfl fun {name member uri} asked => ?_
    ended := sound.ended_of_grows _ touches.grows rfl
    ranked := fun {member name other} waits owns => ?_ }, fun different => ?_⟩
  · refine touches.owners ?_
    rintro rfl
    simp [sound.chronicle.inFlight asked] at unowned
  · rw [find?_owners_take] at owns
    split at owns
    · cases owns; exact False.elim (fit.awake _ waits)
    · exact sound.ranked waits owns
  · refine touches.aside sound.grown different (by simp [unowned]) ?_
    rw [find?_owners_take, if_pos rfl]
    exact fun same => different (Option.some.inj same).symm

open Relation in
/-- A task that the owner of a key waits for owns a key further down. -/
theorem owns_below (sound : policy.Sound shared) {owner : Nat}
    (owns : shared.owners.find? key = some owner)
    (path : ReflTransGen shared.Recorded owner task) :
    ∃ last, shared.owners.find? last = some task ∧ ReflTransGen policy.above key last := by
  induction path with
  | refl => exact ⟨key, owns, .refl⟩
  | tail _ edge ih =>
    obtain ⟨last, holds, path⟩ := ih
    rcases recorded_iff.mp edge with ⟨name, waits, owned⟩ | fork
    · exact ⟨name, owned, path.tail (sound.ranked (mem_waiting_of_lookup waits) holds)⟩
    · exact False.elim (sound.locked.ownersChildless holds fork)

/-- A key that the task may not wait for is one that it owns, or one that waits for the task. -/
theorem holder_ne (sound : policy.Sound shared) (fit : shared.Fit task)
    (found : shared.locks.find? key = some lock) (safe : shared.wouldCycle task key = false) :
    lock.holder ≠ task := by
  rintro rfl
  cases owner : shared.owners.find? key with
  | none => exact fit.awake key (sound.locked.handed found owner)
  | some member =>
    have holds := sound.locked.holder_of_owner owner found
    have reached : shared.reaches member lock.holder = true :=
      reaches_iff.mpr (holds ▸ .refl)
    simp [wouldCycle, owner, reached] at safe

theorem enqueue (sound : policy.Sound shared) (fit : shared.Fit task)
    (found : shared.locks.find? key = some lock) (safe : shared.wouldCycle task key = false)
    (upper : ∀ {other}, shared.owners.find? other = some task → policy.above other key) :
    policy.Step task shared (shared.enqueue task key) := by
  have apart := sound.holder_ne fit found safe
  refine ⟨{
    locked := sound.locked.enqueue fit.awake fit.known found apart fit.leaf
    unknotted := sound.unknotted.enqueue sound.locked fit.awake found apart safe
    chronicle := sound.chronicle.congr rfl rfl rfl fun _ => rfl
    ended := sound.ended_of_grows (shared.enqueue task key) ⟨id, id⟩ rfl
    ranked := fun {member name other} waits owns => ?_ }, fun {other} different => ?_⟩
  · rcases mem_waiting_enqueue.mp waits with old | ⟨rfl, rfl⟩
    · exact sound.ranked old owns
    · exact upper owns
  · refine .of_queue rfl rfl rfl rfl rfl rfl fun {name} => ?_
    rw [mem_waiting_enqueue]
    exact or_iff_left fun same => different same.1

theorem giveUp (sound : policy.Sound shared) (found : shared.locks.find? key = some lock)
    (queued : task ∈ lock.queue) : policy.Step task shared (shared.giveUp task key) := by
  refine ⟨{
    locked := sound.locked.giveUp found queued
    unknotted := sound.unknotted.giveUp found task
    chronicle := sound.chronicle.congr rfl rfl rfl fun _ => rfl
    ended := sound.ended_of_grows (shared.giveUp task key) ⟨id, id⟩ rfl
    ranked := fun {member name other} waits owns => ?_ }, fun {other} different => ?_⟩
  · exact sound.ranked (mem_waiting_stopWaiting.mp waits).1 owns
  · refine .of_queue rfl rfl rfl rfl rfl rfl fun {name} => ?_
    exact mem_waiting_stopWaiting.trans (and_iff_left different)

theorem receive (sound : policy.Sound shared) (found : shared.locks.find? key = some lock)
    (waits : (lock.holder, key) ∈ shared.waiting) :
    policy.Step lock.holder shared (shared.receive lock.holder key) := by
  have unowned := sound.unowned_of_handed found waits
  have touches := touches_receive lock.holder key shared
  refine ⟨{
    locked := sound.locked.receive found waits
    unknotted := sound.unknotted.congr rfl rfl
    chronicle := sound.chronicle.congr rfl rfl rfl fun {name member uri} asked => ?_
    ended := sound.ended_of_grows _ touches.grows rfl
    ranked := fun {member name other} waiting owns => ?_ }, fun {other} different => ?_⟩
  · refine touches.owners ?_
    rintro rfl
    simp [sound.chronicle.inFlight asked] at unowned
  · obtain ⟨old, apart⟩ := mem_waiting_stopWaiting.mp waiting
    rw [find?_owners_receive] at owns
    split at owns
    · exact False.elim (apart (Option.some.inj owns).symm)
    · exact sound.ranked old owns
  · refine touches.aside sound.grown different (by simp [unowned]) ?_
    rw [find?_owners_receive, if_pos rfl]
    exact fun same => different (Option.some.inj same).symm

/-- A task releases a key that it does not resolve. -/
theorem release (sound : policy.Sound shared) (owns : shared.owners.find? key = some task)
    (idle : ∀ member uri, (policy.start.course shared key).head? ≠ some (.asked member uri)) :
    policy.Step task shared (shared.release key) := by
  have touches := touches_release task key shared
  refine ⟨{
    locked := sound.locked.release owns
    unknotted := sound.unknotted.release sound.locked owns
    chronicle := sound.chronicle.congr rfl rfl rfl fun {name member uri} asked => ?_
    ended := sound.ended_of_grows _ touches.grows rfl
    ranked := fun {member name other} waits known => ?_ }, fun {other} different => ?_⟩
  · refine touches.owners ?_
    rintro rfl
    exact idle member uri asked
  · rw [find?_owners_release] at known
    split at known
    · cases known
    · exact sound.ranked waits known
  · refine touches.aside sound.grown different ?_ ?_
    · rw [owns]
      exact fun same => different (Option.some.inj same).symm
    · simp [find?_owners_release]

/-- The owner of a key asks its handler. -/
theorem asked (sound : policy.Sound shared) {uri : Uri} (answered : policy.handled uri)
    (owns : shared.owners.find? uri.key = some task) (unsettled : ¬ shared.Settled uri.key)
    (ready : Event.Open (policy.start.course shared uri.key)) :
    policy.Step task shared (shared.note (.asked task uri)) := by
  have touches := touches_asked task uri shared
  refine ⟨{
    locked := sound.locked.congr rfl rfl rfl rfl rfl
    unknotted := sound.unknotted.congr rfl rfl
    chronicle := sound.chronicle.asked answered owns unsettled ready
    ended := fun {member other outcome} found => ?_
    ranked := sound.ranked }, fun different => ?_⟩
  · rw [since_note sound.grown] at found
    rcases List.mem_cons.mp found with same | old
    · cases same
    · exact policy.remains touches.grows (sound.ended old)
  · have foreign := fun same => different (Option.some.inj (owns.symm.trans same)).symm
    exact touches.aside sound.grown different foreign foreign

theorem ended_step (sound : policy.Sound shared) {uri : Uri}
    {outcome : Except ReferenceError Resolved}
    (owns : shared.owners.find? uri.key = some task) (unsettled : ¬ shared.Settled uri.key)
    (begun : policy.handled uri →
      (policy.start.course shared uri.key).head? = some (.asked task uri))
    (ready : ¬ policy.handled uri → Event.Open (policy.start.course shared uri.key))
    (good : policy.ends uri outcome
      ((shared.note (.ended task uri outcome)).keep uri.key outcome)) :
    policy.Step task shared ((shared.note (.ended task uri outcome)).keep uri.key outcome) := by
  have touches := touches_ended task unsettled outcome
  obtain ⟨locks, waiting, forks, lastTask⟩ :=
    keep_locks (shared.note (.ended task uri outcome)) uri.key outcome
  have owners : ((shared.note (.ended task uri outcome)).keep uri.key outcome).owners =
      shared.owners := keep_owners outcome
  refine ⟨{
    locked := sound.locked.congr locks owners waiting forks lastTask
    unknotted := sound.unknotted.congr locks forks
    chronicle := sound.chronicle.ended unsettled begun ready outcome
    ended := fun {member other result} found => ?_
    ranked := fun waits owned => ?_ }, fun different => ?_⟩
  · rw [since_congr (keep_history outcome), since_note sound.grown] at found
    rcases List.mem_cons.mp found with same | old
    · cases same; exact good
    · exact policy.remains touches.grows (sound.ended old)
  · rw [waiting] at waits
    rw [owners] at owned
    exact sound.ranked waits owned
  · have foreign := fun same => different (Option.some.inj (owns.symm.trans same)).symm
    refine touches.aside sound.grown different foreign ?_
    rw [owners]
    exact foreign

theorem cutOff (sound : policy.Sound shared) (task : Nat) :
    policy.Step task shared { shared with cutOff := true } := by
  refine ⟨{
    locked := sound.locked.congr rfl rfl rfl rfl rfl
    unknotted := sound.unknotted.congr rfl rfl
    chronicle := sound.chronicle.congr rfl rfl rfl fun _ => rfl
    ended := sound.ended_of_grows { shared with cutOff := true } ⟨id, id⟩ rfl
    ranked := sound.ranked }, fun _ => .of_queue rfl rfl rfl rfl rfl rfl Iff.rfl⟩

end Policy.Sound
end LinkedMarkup
