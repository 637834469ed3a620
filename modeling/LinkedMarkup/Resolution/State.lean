import LinkedMarkup.Context
/-! What all tasks of one document share: the values and failures of references, who resolves which
key, and who waits for whom. Values and failures are never replaced. -/
namespace LinkedMarkup

/-- The right to resolve one key. The tasks behind the holder get it in their order. -/
structure Lock where
  holder : Nat
  queue : List Nat := []
  deriving DecidableEq, Repr

/-- What happened to a reference: a task asked its handler, or ended its resolution. -/
inductive Event where
  | asked (task : Nat) (uri : Uri)
  | ended (task : Nat) (uri : Uri) (outcome : Except ReferenceError Resolved)

namespace Event

def task : Event → Nat
  | asked task _ => task
  | ended task _ _ => task

def key : Event → String
  | asked _ uri => uri.key
  | ended _ uri _ => uri.key

def asked? : Event → Option Uri
  | asked _ uri => some uri
  | ended _ _ _ => none

end Event

structure Shared where
  /-- Values by key. -/
  results : Table Resolved := []
  /-- Failures by key. -/
  failures : Table ReferenceError := []
  locks : Table Lock := []
  /-- The task that is known to resolve a key. A lock that was handed on has no owner here until
  its new holder has a turn. -/
  owners : Table Nat := []
  /-- Tasks that wait for a key. -/
  waiting : List (Nat × String) := []
  /-- Forked tasks with the tasks that forked them. -/
  forks : List (Nat × Nat) := []
  /-- The greatest number of a task. -/
  lastTask : Nat := 0
  /-- What has happened so far, the latest first. Nothing is decided by it. -/
  history : List Event := []
  /-- Inherited children were nested too deeply to be expanded. -/
  cutOff : Bool := false

namespace Shared

/-- The references that handlers were asked for, the latest first. -/
def asked (shared : Shared) : List Uri := shared.history.filterMap Event.asked?

/-- How often a handler was asked. -/
def fetches (shared : Shared) : Nat := shared.asked.length

def note (shared : Shared) (event : Event) : Shared :=
  { shared with history := event :: shared.history }

def store (shared : Shared) (key : String) (value : Resolved) : Shared :=
  { shared with results := shared.results.insertNew key value }

/-- Remember a failure, unless it belongs to the chain that led to the key. -/
def storeFailure (shared : Shared) (key : String) (error : ReferenceError) : Shared :=
  if error.isPathDependent then shared
  else { shared with failures := shared.failures.insertNew key error }

/-- Keep how the resolution of a key ended. -/
def keep (shared : Shared) (key : String) : Except ReferenceError Resolved → Shared
  | .ok value => shared.store key value
  | .error error => shared.storeFailure key error

/-- The tasks that a task needs to go on: the owner of the key it waits for, and its forks. -/
def needs (shared : Shared) (task : Nat) : List Nat :=
  ((shared.waiting.lookup task).bind shared.owners.find?).toList
    ++ (shared.forks.filter (·.2 == task)).map (·.1)

/-- Close a list of tasks under `needs` in a number of rounds. -/
def closure (shared : Shared) : Nat → List Nat → List Nat
  | 0, tasks => tasks
  | rounds + 1, tasks =>
    closure shared rounds (tasks ++ (tasks.flatMap shared.needs).filter (!tasks.contains ·))

/-- `target` is needed by `start`, perhaps by way of other tasks. Every task on the way waits or is
a fork, which bounds the rounds. -/
def reaches (shared : Shared) (start target : Nat) : Bool :=
  (shared.closure (shared.waiting.length + shared.forks.length) [start]).contains target

/-- The chain of waits would come back to the task if it waited for the key. -/
def wouldCycle (shared : Shared) (task : Nat) (key : String) : Bool :=
  (shared.owners.find? key).any fun owner => shared.reaches owner task

def isFree (shared : Shared) (key : String) : Bool := (shared.locks.find? key).isNone

def isHolder (shared : Shared) (task : Nat) (key : String) : Bool :=
  (shared.locks.find? key).any (·.holder == task)

/-- Take a free lock. -/
def take (shared : Shared) (task : Nat) (key : String) : Shared :=
  { shared with
    locks := shared.locks.insert key { holder := task }
    owners := shared.owners.insert key task }

/-- Wait for a lock behind all others that wait for it. -/
def enqueue (shared : Shared) (task : Nat) (key : String) : Shared :=
  { shared with
    locks := match shared.locks.find? key with
      | some lock => shared.locks.insert key { lock with queue := lock.queue ++ [task] }
      | none => shared.locks
    waiting := shared.waiting ++ [(task, key)] }

def stopWaiting (shared : Shared) (task : Nat) : Shared :=
  { shared with waiting := shared.waiting.filter (·.1 != task) }

/-- The task has a turn again and holds the lock that it waited for. -/
def receive (shared : Shared) (task : Nat) (key : String) : Shared :=
  let shared := shared.stopWaiting task
  { shared with owners := shared.owners.insert key task }

/-- The task no longer waits for the lock. -/
def giveUp (shared : Shared) (task : Nat) (key : String) : Shared :=
  let shared := shared.stopWaiting task
  { shared with
    locks := match shared.locks.find? key with
      | some lock => shared.locks.insert key { lock with queue := lock.queue.filter (· != task) }
      | none => shared.locks }

/-- Hand a lock on to the first task that waits for it, or set it free. -/
def release (shared : Shared) (key : String) : Shared :=
  { shared with
    owners := shared.owners.erase key
    locks := match shared.locks.find? key with
      | some ⟨_, next :: queue⟩ => shared.locks.insert key ⟨next, queue⟩
      | _ => shared.locks.erase key }

/-- Number a new task that is forked by `parent`. -/
def fork (shared : Shared) (parent : Nat) : Shared :=
  { shared with
    lastTask := shared.lastTask + 1
    forks := shared.forks ++ [(shared.lastTask + 1, parent)] }

/-- A forked task has come to its end. -/
def endFork (shared : Shared) (task : Nat) : Shared :=
  { shared with forks := shared.forks.filter (·.1 != task) }

end Shared

/-- What a task works on: the state it shares with others, and its own context. -/
structure Session where
  shared : Shared := {}
  context : Context := {}

namespace Session

def ofDocument (d : Document) : Session := { context := .ofDocument d }

def onShared (update : Shared → Shared) (session : Session) : Session :=
  { session with shared := update session.shared }

def note (session : Session) (event : Event) : Session := session.onShared (·.note event)

def onContext (update : Context → Context) (session : Session) : Session :=
  { session with context := update session.context }

end Session
end LinkedMarkup
