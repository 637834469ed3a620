import LinkedMarkup.Proofs.Tasks.WaitGraph
import Mathlib.Data.List.Nodup
/-! What the locks of keys, the waits for them and the forks of tasks have to do with each other, and
that no step brings a cycle of needs about. A lock that was handed on has no known owner until its
holder has a turn; the holder needs nothing in the meantime, which is why waits behind it may be
added unseen. -/
namespace LinkedMarkup.Shared
open Relation
variable {shared : Shared} {task other : Nat} {key : String} {lock : Lock}

/-- A task cannot go on before another one: it stands in the queue behind the holder of a lock, or
it has forked the other one. -/
def Needs (shared : Shared) (task other : Nat) : Prop :=
  (∃ key lock, shared.locks.find? key = some lock ∧ task ∈ lock.queue ∧ lock.holder = other) ∨
    (other, task) ∈ shared.forks

/-- The bookkeeping of locks is in order. -/
structure Locked (shared : Shared) : Prop where
  owned : ∀ {key task}, shared.owners.find? key = some task →
    ∃ lock, shared.locks.find? key = some lock ∧ lock.holder = task
  handed : ∀ {key lock}, shared.locks.find? key = some lock → shared.owners.find? key = none →
    (lock.holder, key) ∈ shared.waiting
  queued : ∀ {key lock task}, shared.locks.find? key = some lock → task ∈ lock.queue →
    (task, key) ∈ shared.waiting ∧ task ≠ lock.holder
  inOrder : ∀ {key lock}, shared.locks.find? key = some lock → lock.queue.Nodup
  awaited : ∀ {task key}, (task, key) ∈ shared.waiting → ∃ lock, shared.locks.find? key = some lock ∧
    (task ∈ lock.queue ∨ lock.holder = task ∧ shared.owners.find? key = none)
  single : ∀ {task key other}, (task, key) ∈ shared.waiting → (task, other) ∈ shared.waiting →
    other = key
  childless : ∀ {task key child}, (task, key) ∈ shared.waiting → (child, task) ∉ shared.forks
  forked : ∀ {child parent}, (child, parent) ∈ shared.forks →
    parent < child ∧ child ≤ shared.lastTask
  ownersChildless : ∀ {key task child}, shared.owners.find? key = some task →
    (child, task) ∉ shared.forks
  waitsKnown : ∀ {task key}, (task, key) ∈ shared.waiting → task ≤ shared.lastTask
  ownersKnown : ∀ {key task}, shared.owners.find? key = some task → task ≤ shared.lastTask

def Awake (shared : Shared) (task : Nat) : Prop := ∀ key, (task, key) ∉ shared.waiting

/-- No task holds a lock, waits for one or has forked another task. -/
structure Resting (shared : Shared) : Prop where
  locks : shared.locks = []
  owners : shared.owners = []
  waiting : shared.waiting = []
  forks : shared.forks = []

theorem Resting.nothing : Resting {} := ⟨rfl, rfl, rfl, rfl⟩

theorem Resting.locked (resting : shared.Resting) : shared.Locked where
  owned found := by simp [resting.owners, Table.find?] at found
  handed found := by simp [resting.locks, Table.find?] at found
  queued found := by simp [resting.locks, Table.find?] at found
  inOrder found := by simp [resting.locks, Table.find?] at found
  awaited member := by simp [resting.waiting] at member
  single member := by simp [resting.waiting] at member
  childless member := by simp [resting.waiting] at member
  forked member := by simp [resting.forks] at member
  ownersChildless found := by simp [resting.owners, Table.find?] at found
  waitsKnown member := by simp [resting.waiting] at member
  ownersKnown found := by simp [resting.owners, Table.find?] at found

namespace Locked

/-- Values, failures and the history have no part in it. -/
theorem congr {after : Shared} (locked : shared.Locked) (locks : after.locks = shared.locks)
    (owners : after.owners = shared.owners) (waiting : after.waiting = shared.waiting)
    (forks : after.forks = shared.forks) (lastTask : after.lastTask = shared.lastTask) :
    after.Locked := by
  cases shared
  cases after
  cases locks; cases owners; cases waiting; cases forks; cases lastTask
  exact ⟨locked.owned, locked.handed, locked.queued, locked.inOrder, locked.awaited, locked.single,
    locked.childless, locked.forked, locked.ownersChildless, locked.waitsKnown, locked.ownersKnown⟩

theorem lookup_waiting (locked : shared.Locked) (member : (task, key) ∈ shared.waiting) :
    shared.waiting.lookup task = some key := by
  have listed : (shared.waiting.lookup task).isSome :=
    List.lookup_isSome_iff.mpr ⟨(task, key), member, by simp⟩
  obtain ⟨found, same⟩ := Option.isSome_iff_exists.mp listed
  rw [same, locked.single member (mem_waiting_of_lookup same)]

theorem holder_of_owner (locked : shared.Locked) {owner : Nat}
    (owns : shared.owners.find? key = some owner) (found : shared.locks.find? key = some lock) :
    lock.holder = owner := by
  obtain ⟨_, same, holds⟩ := locked.owned owns
  cases found.symm.trans same
  exact holds

/-- The waits that the search goes by are needs. -/
theorem needs_of_recorded (locked : shared.Locked) (edge : shared.Recorded task other) :
    shared.Needs task other := by
  rcases recorded_iff.mp edge with ⟨key, waits, owner⟩ | fork
  · obtain ⟨lock, found, place⟩ := locked.awaited (mem_waiting_of_lookup waits)
    rcases place with queued | ⟨_, unknown⟩
    · exact .inl ⟨key, lock, found, queued, locked.holder_of_owner owner found⟩
    · simp [unknown] at owner
  · exact .inr fork

/-- A need that is not recorded is for a task that has been handed a lock and had no turn since. -/
theorem recorded_or_handed (locked : shared.Locked) (need : shared.Needs task other) :
    shared.Recorded task other ∨ ∃ key lock, shared.locks.find? key = some lock ∧
      lock.holder = other ∧ (other, key) ∈ shared.waiting := by
  rcases need with ⟨key, lock, found, queued, rfl⟩ | fork
  · cases owner : shared.owners.find? key with
    | none => exact .inr ⟨key, lock, found, rfl, locked.handed found owner⟩
    | some owns =>
      have holds := locked.holder_of_owner owner found
      have waits := locked.lookup_waiting (locked.queued found queued).1
      exact .inl (recorded_iff.mpr (.inl ⟨key, waits, holds ▸ owner⟩))
  · exact .inl (recorded_iff.mpr (.inr fork))

/-- A task that waits for a lock and holds it already needs nothing. -/
theorem handed_needs_nothing (locked : shared.Locked) (found : shared.locks.find? key = some lock)
    (waits : (lock.holder, key) ∈ shared.waiting) : ¬ shared.Needs lock.holder other := by
  rintro (⟨second, behind, same, queued, rfl⟩ | fork)
  · obtain ⟨also, apart⟩ := locked.queued same queued
    cases locked.single waits also
    cases found.symm.trans same
    exact apart rfl
  · exact locked.childless waits fork

/-- A chain of needs that ends at a task that waits for nothing is recorded all along. -/
theorem recorded_chain (locked : shared.Locked) (awake : shared.Awake other)
    (chain : ReflTransGen shared.Needs task other) : ReflTransGen shared.Recorded task other := by
  induction chain using ReflTransGen.head_induction_on with
  | refl => exact .refl
  | head need rest ih =>
    rcases locked.recorded_or_handed need with edge | ⟨key, lock, found, rfl, waits⟩
    · exact .head edge ih
    · rcases rest.cases_head with same | ⟨_, need, _⟩
      · exact False.elim (awake key (same ▸ waits))
      · exact False.elim (locked.handed_needs_nothing found waits need)

end Locked

theorem find?_locks_take (name : String) : (shared.take task key).locks.find? name =
    if name = key then some { holder := task } else shared.locks.find? name :=
  Table.find?_insert _ _ _ _

theorem find?_owners_take (name : String) : (shared.take task key).owners.find? name =
    if name = key then some task else shared.owners.find? name :=
  Table.find?_insert _ _ _ _

theorem find?_locks_enqueue (found : shared.locks.find? key = some lock) (name : String) :
    (shared.enqueue task key).locks.find? name =
      if name = key then some { lock with queue := lock.queue ++ [task] }
      else shared.locks.find? name := by
  simp only [enqueue, found]
  exact Table.find?_insert _ _ _ _

theorem mem_waiting_enqueue {name : String} : (other, name) ∈ (shared.enqueue task key).waiting ↔
    (other, name) ∈ shared.waiting ∨ other = task ∧ name = key := by
  simp [enqueue]

theorem mem_waiting_stopWaiting {name : String} :
    (other, name) ∈ (shared.stopWaiting task).waiting ↔
      (other, name) ∈ shared.waiting ∧ other ≠ task := by
  simp [stopWaiting]

theorem find?_owners_receive (name : String) : (shared.receive task key).owners.find? name =
    if name = key then some task else shared.owners.find? name :=
  Table.find?_insert _ _ _ _

theorem find?_locks_giveUp (found : shared.locks.find? key = some lock) (name : String) :
    (shared.giveUp task key).locks.find? name =
      if name = key then some { lock with queue := lock.queue.filter (· != task) }
      else shared.locks.find? name := by
  have same : (shared.stopWaiting task).locks.find? key = some lock := found
  simp only [giveUp, same]
  exact Table.find?_insert _ _ _ _

theorem find?_owners_release (name : String) : (shared.release key).owners.find? name =
    if name = key then none else shared.owners.find? name :=
  Table.find?_erase _ _ _

theorem find?_locks_release (found : shared.locks.find? key = some lock) (name : String) :
    (shared.release key).locks.find? name =
      if name = key then lock.queue.head?.map (Lock.mk · lock.queue.tail)
      else shared.locks.find? name := by
  obtain ⟨holder, queue⟩ := lock
  cases queue <;> simp [release, found, Table.find?_insert, Table.find?_erase]

/-- The lock that is left after a release has gone to the first of the queue. -/
theorem find?_locks_release_same (found : shared.locks.find? key = some lock) {next : Lock}
    (left : (shared.release key).locks.find? key = some next) :
    lock.queue = next.holder :: next.queue := by
  rw [find?_locks_release found, if_pos rfl, Option.map_eq_some_iff] at left
  obtain ⟨first, head, rfl⟩ := left
  exact List.eq_cons_of_mem_head? head

theorem find?_locks_release_other {name : String} (other : name ≠ key) :
    (shared.release key).locks.find? name = shared.locks.find? name := by
  unfold release
  split <;> simp [Table.find?_insert, Table.find?_erase, other]

theorem mem_forks_fork {child parent new : Nat} : (child, parent) ∈ (shared.fork new).forks ↔
    (child, parent) ∈ shared.forks ∨ child = shared.lastTask + 1 ∧ parent = new := by
  simp [fork]

namespace Locked

theorem take (locked : shared.Locked) (known : task ≤ shared.lastTask)
    (leaf : ∀ child, (child, task) ∉ shared.forks) (free : shared.locks.find? key = none) : (shared.take task key).Locked where
  owned {name owner} owns := by
    rw [find?_owners_take] at owns
    rw [find?_locks_take]
    split at owns
    · exact ⟨_, if_pos ‹_›, by simpa using owns⟩
    · simpa [*] using locked.owned owns
  handed {name lock} found unknown := by
    rw [find?_locks_take] at found
    rw [find?_owners_take] at unknown
    split at found
    · simp [*] at unknown
    · exact locked.handed found (by simpa [*] using unknown)
  queued {name lock member} found queued := by
    rw [find?_locks_take] at found
    split at found
    · cases found; simp at queued
    · exact locked.queued found queued
  inOrder {name lock} found := by
    rw [find?_locks_take] at found
    split at found
    · cases found; exact List.nodup_nil
    · exact locked.inOrder found
  awaited {member name} waits := by
    obtain ⟨lock, found, place⟩ := locked.awaited waits
    have other : name ≠ key := fun same => by simp [← same, found] at free
    refine ⟨lock, by simpa [find?_locks_take, other] using found, ?_⟩
    simpa [find?_owners_take, other] using place
  single := locked.single
  childless := locked.childless
  forked := locked.forked
  ownersChildless {name owner child} owns := by
    rw [find?_owners_take] at owns
    split at owns
    · cases owns; exact leaf child
    · exact locked.ownersChildless owns
  waitsKnown := locked.waitsKnown
  ownersKnown {name owner} owns := by
    rw [find?_owners_take] at owns
    split at owns
    · cases owns; exact known
    · exact locked.ownersKnown owns

theorem enqueue (locked : shared.Locked) (awake : shared.Awake task)
    (known : task ≤ shared.lastTask) (found : shared.locks.find? key = some lock)
    (apart : lock.holder ≠ task) (leaf : ∀ child, (child, task) ∉ shared.forks) :
    (shared.enqueue task key).Locked where
  owned {name owner} owns := by
    obtain ⟨old, same, holds⟩ := locked.owned (show shared.owners.find? name = some owner from owns)
    rw [find?_locks_enqueue found]
    split
    · rename_i again
      cases found.symm.trans (again ▸ same)
      exact ⟨_, rfl, holds⟩
    · exact ⟨old, same, holds⟩
  handed {name held} same unknown := by
    rw [find?_locks_enqueue found] at same
    refine mem_waiting_enqueue.mpr (.inl ?_)
    split at same
    · rename_i again
      cases same
      have old := locked.handed found (again ▸ unknown)
      exact again ▸ old
    · exact locked.handed same unknown
  queued {name held member} same queued := by
    rw [find?_locks_enqueue found] at same
    split at same
    · rename_i again
      cases same
      rcases List.mem_append.mp queued with old | new
      · exact ⟨mem_waiting_enqueue.mpr (.inl (again ▸ (locked.queued found old).1)),
          (locked.queued found old).2⟩
      · have itself : member = task := by simpa using new
        exact ⟨mem_waiting_enqueue.mpr (.inr ⟨itself, again⟩), itself ▸ apart.symm⟩
    · exact ⟨mem_waiting_enqueue.mpr (.inl (locked.queued same queued).1),
        (locked.queued same queued).2⟩
  inOrder {name held} same := by
    rw [find?_locks_enqueue found] at same
    split at same
    · cases same
      have absent : task ∉ lock.queue := fun member => awake _ (locked.queued found member).1
      simpa [List.nodup_append] using ⟨locked.inOrder found, fun _ member same => absent (same ▸ member)⟩
    · exact locked.inOrder same
  awaited {member name} waits := by
    rw [find?_locks_enqueue found]
    rcases mem_waiting_enqueue.mp waits with old | ⟨rfl, rfl⟩
    · obtain ⟨held, same, place⟩ := locked.awaited old
      split
      · rename_i again
        cases found.symm.trans (again ▸ same)
        exact ⟨_, rfl, place.imp (List.mem_append_left _) id⟩
      · exact ⟨held, same, place⟩
    · exact ⟨_, if_pos rfl, .inl (by simp)⟩
  single {member name second} first next := by
    rcases mem_waiting_enqueue.mp first with old | ⟨rfl, rfl⟩ <;>
      rcases mem_waiting_enqueue.mp next with also | ⟨again, rfl⟩
    · exact locked.single old also
    · exact False.elim (awake _ (again ▸ old))
    · exact False.elim (awake _ also)
    · rfl
  childless {member name child} waits := by
    rcases mem_waiting_enqueue.mp waits with old | ⟨rfl, _⟩
    · exact locked.childless old
    · exact leaf child
  forked := locked.forked
  ownersChildless := locked.ownersChildless
  waitsKnown {member name} waits := by
    rcases mem_waiting_enqueue.mp waits with old | ⟨rfl, _⟩
    · exact locked.waitsKnown old
    · exact known
  ownersKnown := locked.ownersKnown

theorem receive (locked : shared.Locked) (found : shared.locks.find? key = some lock)
    (waits : (lock.holder, key) ∈ shared.waiting) :
    (shared.receive lock.holder key).Locked where
  owned {name owner} owns := by
    rw [find?_owners_receive] at owns
    split at owns
    · rename_i same
      exact ⟨lock, same ▸ found, by simpa using owns⟩
    · exact locked.owned owns
  handed {name held} same unknown := by
    rw [find?_owners_receive] at unknown
    split at unknown
    · cases unknown
    · rename_i other
      have old := locked.handed same unknown
      refine mem_waiting_stopWaiting.mpr ⟨old, fun again => other ?_⟩
      exact locked.single waits (again ▸ old)
  queued {name held member} same queued := by
    obtain ⟨old, apart⟩ := locked.queued same queued
    refine ⟨mem_waiting_stopWaiting.mpr ⟨old, fun again => ?_⟩, apart⟩
    cases locked.single waits (again ▸ old)
    cases found.symm.trans same
    exact apart again
  inOrder := locked.inOrder
  awaited {member name} waiting := by
    obtain ⟨old, other⟩ := mem_waiting_stopWaiting.mp waiting
    obtain ⟨held, same, place⟩ := locked.awaited old
    refine ⟨held, same, place.imp id fun ⟨holds, unknown⟩ => ⟨holds, ?_⟩⟩
    rw [find?_owners_receive, if_neg]
    · exact unknown
    · rintro rfl
      cases found.symm.trans same
      exact other holds.symm
  single first next :=
    locked.single (mem_waiting_stopWaiting.mp first).1 (mem_waiting_stopWaiting.mp next).1
  childless waiting := locked.childless (mem_waiting_stopWaiting.mp waiting).1
  forked := locked.forked
  ownersChildless {name owner child} owns := by
    rw [find?_owners_receive] at owns
    split at owns
    · cases owns; exact locked.childless waits
    · exact locked.ownersChildless owns
  waitsKnown waiting := locked.waitsKnown (mem_waiting_stopWaiting.mp waiting).1
  ownersKnown {name owner} owns := by
    rw [find?_owners_receive] at owns
    split at owns
    · cases owns; exact locked.waitsKnown waits
    · exact locked.ownersKnown owns

theorem giveUp (locked : shared.Locked) (found : shared.locks.find? key = some lock)
    (queued : task ∈ lock.queue) : (shared.giveUp task key).Locked where
  owned {name owner} owns := by
    obtain ⟨old, same, holds⟩ := locked.owned (show shared.owners.find? name = some owner from owns)
    rw [find?_locks_giveUp found]
    split
    · rename_i again
      cases found.symm.trans (again ▸ same)
      exact ⟨_, rfl, holds⟩
    · exact ⟨old, same, holds⟩
  handed {name held} same unknown := by
    have waits := (locked.queued found queued).1
    rw [find?_locks_giveUp found] at same
    refine mem_waiting_stopWaiting.mpr ?_
    split at same
    · rename_i again
      cases same
      have old := locked.handed found (again ▸ unknown)
      exact ⟨again ▸ old, (locked.queued found queued).2.symm⟩
    · rename_i other
      have old := locked.handed same unknown
      exact ⟨old, fun again => other (locked.single waits (again ▸ old))⟩
  queued {name held member} same behind := by
    have waits := (locked.queued found queued).1
    rw [find?_locks_giveUp found] at same
    split at same
    · rename_i again
      cases same
      obtain ⟨old, other⟩ : member ∈ lock.queue ∧ member ≠ task := by simpa using behind
      exact ⟨mem_waiting_stopWaiting.mpr ⟨again ▸ (locked.queued found old).1, other⟩,
        (locked.queued found old).2⟩
    · rename_i other
      obtain ⟨old, apart⟩ := locked.queued same behind
      exact ⟨mem_waiting_stopWaiting.mpr
        ⟨old, fun again => other (locked.single waits (again ▸ old))⟩, apart⟩
  inOrder {name held} same := by
    rw [find?_locks_giveUp found] at same
    split at same
    · cases same; exact (locked.inOrder found).filter _
    · exact locked.inOrder same
  awaited {member name} waiting := by
    obtain ⟨old, other⟩ := mem_waiting_stopWaiting.mp waiting
    obtain ⟨held, same, place⟩ := locked.awaited old
    rw [find?_locks_giveUp found]
    split
    · rename_i again
      cases found.symm.trans (again ▸ same)
      exact ⟨_, rfl, place.imp (fun behind => by simpa using ⟨behind, other⟩) id⟩
    · exact ⟨held, same, place⟩
  single first next :=
    locked.single (mem_waiting_stopWaiting.mp first).1 (mem_waiting_stopWaiting.mp next).1
  childless waiting := locked.childless (mem_waiting_stopWaiting.mp waiting).1
  forked := locked.forked
  ownersChildless := locked.ownersChildless
  waitsKnown waiting := locked.waitsKnown (mem_waiting_stopWaiting.mp waiting).1
  ownersKnown := locked.ownersKnown

theorem release (locked : shared.Locked) (owns : shared.owners.find? key = some task) :
    (shared.release key).Locked where
  owned {name owner} known := by
    rw [find?_owners_release] at known
    split at known
    · cases known
    · rename_i other
      simpa [find?_locks_release_other other] using locked.owned known
  handed {name next} same unknown := by
    obtain ⟨lock, found, _⟩ := locked.owned owns
    by_cases again : name = key
    · subst again
      have queue := find?_locks_release_same found same
      exact (locked.queued found (by simp [queue])).1
    · rw [find?_locks_release_other again] at same
      rw [find?_owners_release, if_neg again] at unknown
      exact locked.handed same unknown
  queued {name next member} same behind := by
    obtain ⟨lock, found, _⟩ := locked.owned owns
    by_cases again : name = key
    · subst again
      have queue := find?_locks_release_same found same
      have order := locked.inOrder found
      rw [queue, List.nodup_cons] at order
      exact ⟨(locked.queued found (by simp [queue, behind])).1,
        fun itself => order.1 (itself ▸ behind)⟩
    · rw [find?_locks_release_other again] at same
      exact locked.queued same behind
  inOrder {name next} same := by
    obtain ⟨lock, found, _⟩ := locked.owned owns
    by_cases again : name = key
    · subst again
      have order := locked.inOrder found
      rw [find?_locks_release_same found same, List.nodup_cons] at order
      exact order.2
    · rw [find?_locks_release_other again] at same
      exact locked.inOrder same
  awaited {member name} waiting := by
    obtain ⟨held, same, place⟩ := locked.awaited waiting
    by_cases again : name = key
    · subst again
      rcases place with queued | ⟨_, unknown⟩
      · rw [find?_locks_release same, if_pos rfl, find?_owners_release, if_pos rfl]
        obtain ⟨next, queue, split⟩ := List.exists_cons_of_ne_nil (List.ne_nil_of_mem queued)
        rw [split] at queued
        refine ⟨⟨next, queue⟩, by simp [split], ?_⟩
        rcases List.mem_cons.mp queued with first | later
        · exact .inr ⟨first.symm, rfl⟩
        · exact .inl later
      · simp [unknown] at owns
    · rw [find?_locks_release_other again, find?_owners_release, if_neg again]
      exact ⟨held, same, place⟩
  single := locked.single
  childless := locked.childless
  forked := locked.forked
  ownersChildless {name owner child} known := by
    rw [find?_owners_release] at known
    split at known
    · cases known
    · exact locked.ownersChildless known
  waitsKnown := locked.waitsKnown
  ownersKnown {name owner} known := by
    rw [find?_owners_release] at known
    split at known
    · cases known
    · exact locked.ownersKnown known

theorem fork (locked : shared.Locked) (awake : shared.Awake task)
    (bare : ∀ key, shared.owners.find? key ≠ some task) (known : task ≤ shared.lastTask) :
    (shared.fork task).Locked where
  owned := locked.owned
  handed := locked.handed
  queued := locked.queued
  inOrder := locked.inOrder
  awaited := locked.awaited
  single := locked.single
  childless waits member := by
    rcases mem_forks_fork.mp member with old | ⟨_, rfl⟩
    · exact locked.childless waits old
    · exact awake _ waits
  forked member := by
    rcases mem_forks_fork.mp member with old | ⟨rfl, rfl⟩
    · exact ⟨(locked.forked old).1, Nat.le_succ_of_le (locked.forked old).2⟩
    · exact ⟨Nat.lt_succ_of_le known, Nat.le_refl _⟩
  ownersChildless owns member := by
    rcases mem_forks_fork.mp member with old | ⟨_, rfl⟩
    · exact locked.ownersChildless owns old
    · exact bare _ owns
  waitsKnown waits := Nat.le_succ_of_le (locked.waitsKnown waits)
  ownersKnown owns := Nat.le_succ_of_le (locked.ownersKnown owns)

/-- Forked tasks come to their end. -/
theorem fewerForks (locked : shared.Locked) {forks : List (Nat × Nat)}
    (fewer : forks ⊆ shared.forks) : Locked { shared with forks } where
  owned := locked.owned
  handed := locked.handed
  queued := locked.queued
  inOrder := locked.inOrder
  awaited := locked.awaited
  single := locked.single
  childless waits member := locked.childless waits (fewer member)
  forked member := locked.forked (fewer member)
  ownersChildless owns member := locked.ownersChildless owns (fewer member)
  waitsKnown := locked.waitsKnown
  ownersKnown := locked.ownersKnown

end Locked

section Cycles

/-- No chain of needs leads back to its start. -/
abbrev Unknotted (shared : Shared) : Prop := Acyclic shared.Needs

theorem Resting.unknotted (resting : shared.Resting) : shared.Unknotted := by
  intro task cycle
  obtain ⟨other, need, _⟩ := TransGen.head'_iff.mp cycle
  rcases need with ⟨_, _, found, _⟩ | fork
  · simp [resting.locks, Table.find?] at found
  · simp [resting.forks] at fork

theorem Unknotted.congr {after : Shared} (unknotted : shared.Unknotted)
    (locks : after.locks = shared.locks) (forks : after.forks = shared.forks) :
    after.Unknotted := by
  refine Acyclic.mono unknotted fun first next need => ?_
  rwa [Needs, locks, forks] at need

theorem Unknotted.take (unknotted : shared.Unknotted) (task : Nat) (key : String) :
    (shared.take task key).Unknotted := by
  refine Acyclic.mono unknotted fun first next need => ?_
  rcases need with ⟨name, lock, found, queued, holds⟩ | fork
  · rw [find?_locks_take] at found
    split at found
    · cases found; simp at queued
    · exact .inl ⟨name, lock, found, queued, holds⟩
  · exact .inr fork

/-- The search lets a task wait only where the wait closes no cycle. -/
theorem Unknotted.enqueue (unknotted : shared.Unknotted) (locked : shared.Locked)
    (awake : shared.Awake task) (found : shared.locks.find? key = some lock)
    (apart : lock.holder ≠ task) (safe : shared.wouldCycle task key = false) :
    (shared.enqueue task key).Unknotted := by
  have away : ¬ ReflTransGen shared.Needs lock.holder task := by
    intro chain
    cases owner : shared.owners.find? key with
    | some owns =>
      have holds := locked.holder_of_owner owner found
      have reached := reaches_iff.mpr (locked.recorded_chain awake (holds ▸ chain))
      simp [wouldCycle, owner, reached] at safe
    | none =>
      rcases chain.cases_head with same | ⟨_, need, _⟩
      · exact apart same
      · exact locked.handed_needs_nothing found (locked.handed found owner) need
  refine Acyclic.new_edge unknotted (fun first next need => ?_) away
  rcases need with ⟨name, held, same, queued, rfl⟩ | fork
  · rw [find?_locks_enqueue found] at same
    split at same
    · rename_i again
      cases same
      rcases List.mem_append.mp queued with old | new
      · exact .inl (.inl ⟨key, lock, found, old, rfl⟩)
      · exact .inr ⟨by simpa using new, rfl⟩
    · exact .inl (.inl ⟨name, held, same, queued, rfl⟩)
  · exact .inl (.inr fork)

theorem Unknotted.giveUp (unknotted : shared.Unknotted)
    (found : shared.locks.find? key = some lock) (task : Nat) :
    (shared.giveUp task key).Unknotted := by
  refine Acyclic.mono unknotted fun first next need => ?_
  rcases need with ⟨name, held, same, queued, rfl⟩ | fork
  · rw [find?_locks_giveUp found] at same
    split at same
    · cases same
      exact .inl ⟨key, lock, found, (List.mem_filter.mp queued).1, rfl⟩
    · exact .inl ⟨name, held, same, queued, rfl⟩
  · exact .inr fork

/-- A released lock goes to a task that needs nothing from then on. -/
theorem Unknotted.release (unknotted : shared.Unknotted) (locked : shared.Locked)
    (owns : shared.owners.find? key = some task) : (shared.release key).Unknotted := by
  obtain ⟨lock, found, _⟩ := locked.owned owns
  cases left : (shared.release key).locks.find? key with
  | none =>
    refine Acyclic.mono unknotted fun first next need => ?_
    rcases need with ⟨name, held, same, queued, rfl⟩ | fork
    · have other : name ≠ key := fun again => by simp [again, left] at same
      rw [find?_locks_release_other other] at same
      exact .inl ⟨name, held, same, queued, rfl⟩
    · exact .inr fork
  | some next =>
    have after := locked.release owns
    have waits := after.handed left (by rw [find?_owners_release, if_pos rfl])
    refine Acyclic.into_sink unknotted next.holder (fun first second need => ?_)
      fun _ => after.handed_needs_nothing left waits
    rcases need with ⟨name, held, same, queued, rfl⟩ | fork
    · by_cases again : name = key
      · cases left.symm.trans (again ▸ same)
        exact .inr rfl
      · rw [find?_locks_release_other again] at same
        exact .inl (.inl ⟨name, held, same, queued, rfl⟩)
    · exact .inl (.inr fork)

/-- A new task needs nothing. -/
theorem Unknotted.fork (unknotted : shared.Unknotted) (locked : shared.Locked)
    (known : task ≤ shared.lastTask) : (shared.fork task).Unknotted := by
  refine Acyclic.into_sink unknotted (shared.lastTask + 1)
    (fun first next need => ?_) fun next need => ?_
  · rcases need with wait | member
    · exact .inl (.inl wait)
    · rcases mem_forks_fork.mp member with old | ⟨rfl, _⟩
      · exact .inl (.inr old)
      · exact .inr rfl
  · rcases need with ⟨name, lock, found, queued, _⟩ | member
    · have old := locked.waitsKnown (locked.queued found queued).1
      omega
    · rcases mem_forks_fork.mp member with old | ⟨_, same⟩
      · have below := locked.forked old
        omega
      · omega

theorem Unknotted.fewerForks (unknotted : shared.Unknotted) {forks : List (Nat × Nat)}
    (fewer : forks ⊆ shared.forks) : Unknotted { shared with forks } :=
  Acyclic.mono unknotted fun _ _ need => need.imp id fun member => fewer member

end Cycles
end LinkedMarkup.Shared
