import LinkedMarkup.Proofs.Resolution.Rehearsal
import LinkedMarkup.Proofs.Tasks.Conduct
import Mathlib.Data.List.Perm.Basic
/-! Which resolutions a run owes to what has been asked of it. Each request for a reference whose
outcome is not kept costs a resolution of its own, and all requests for any other one cost a single
resolution. So what was resolved, and how often, follows from the first requests. -/
namespace LinkedMarkup

namespace Event

def ended? : Event → Option Uri
  | asked _ _ => none
  | ended _ uri _ => some uri

def closed (events : List Event) : List Uri := events.filterMap ended?

theorem closed_append (first second : List Event) :
    closed (first ++ second) = closed first ++ closed second := List.filterMap_append

theorem closed_perm {first second : List Event} (same : first.Perm second) :
    (closed first).Perm (closed second) := same.filterMap _

theorem mem_closed {events : List Event} {uri : Uri} :
    uri ∈ closed events ↔ ∃ task outcome, .ended task uri outcome ∈ events := by
  constructor
  · intro member
    obtain ⟨event, there, same⟩ := List.mem_filterMap.mp member
    cases event with
    | asked task other => cases same
    | ended task other outcome => cases same; exact ⟨task, outcome, there⟩
  · rintro ⟨task, outcome, there⟩
    exact List.mem_filterMap.mpr ⟨_, there, rfl⟩

end Event

namespace Resolver
variable {resolver : Resolver} {session : Session} {uri : Uri} {requests others : List Uri}
  {events more : List Event}

/-- The outcome of the reference is not known yet and will not be kept. -/
def Fleeting (resolver : Resolver) (session : Session) (uri : Uri) : Prop :=
  ¬ session.shared.Settled uri.key ∧
    (Event.ended 0 uri (resolver.outcome session uri)).lasts = false

/-- The reference has an outcome that is kept, or it has one that cannot be kept. -/
def Done (resolver : Resolver) (session : Session) (shared : Shared) (uri : Uri) : Prop :=
  shared.Settled uri.key ∨ resolver.Fleeting session uri

theorem Done.grows {before after : Shared} (done : resolver.Done session before uri)
    (grows : before.Grows after) : resolver.Done session after uri :=
  done.imp_left grows.settled

/-- The references that are asked for when those first requested and those closed are. -/
def wanted (resolver : Resolver) (session : Session) (requests closed : List Uri) : List Uri :=
  requests ++ closed.flatMap (resolver.demands session)

theorem count_wanted (requests closed : List Uri) (uri : Uri) :
    (resolver.wanted session requests closed).count uri =
      requests.count uri + (closed.flatMap (resolver.demands session)).count uri :=
  List.count_append

theorem mem_wanted {closed : List Uri} : uri ∈ resolver.wanted session requests closed ↔
    uri ∈ requests ∨ ∃ other ∈ closed, uri ∈ resolver.demands session other := by
  rw [wanted, List.mem_append, List.mem_flatMap]

abbrev isHandled (resolver : Resolver) (uri : Uri) : Bool :=
  (resolver.protocols.find? uri.protocol).isSome

/-- Events that some requests have led to: every request for a reference whose outcome is not kept
has its own resolution, nothing is resolved that was not asked for, and nothing is asked of a handler
but for a resolution. -/
structure Balanced (resolver : Resolver) (session : Session) (requests : List Uri)
    (events : List Event) : Prop where
  fleeting : ∀ {uri}, resolver.Fleeting session uri → (Event.closed events).count uri =
    (resolver.wanted session requests (Event.closed events)).count uri
  called : ∀ {uri}, uri ∈ Event.closed events →
    uri ∈ resolver.wanted session requests (Event.closed events)
  heard : (events.filterMap Event.asked?).length =
    (Event.closed events).countP resolver.isHandled

namespace Balanced

/-- Requests for what is known lead to nothing. -/
theorem nothing (lasting : ∀ uri ∈ requests, ¬ resolver.Fleeting session uri) :
    resolver.Balanced session requests [] where
  fleeting {uri} fleeting := by
    have absent : uri ∉ requests := fun member => lasting uri member fleeting
    rw [count_wanted, List.count_eq_zero.mpr absent]
    rfl
  called member := absurd member List.not_mem_nil
  heard := rfl

theorem append (first : resolver.Balanced session requests events)
    (second : resolver.Balanced session others more) :
    resolver.Balanced session (requests ++ others) (more ++ events) where
  fleeting {uri} fleeting := by
    have early := first.fleeting fleeting
    have late := second.fleeting fleeting
    rw [count_wanted] at early late ⊢
    simp only [Event.closed_append, List.flatMap_append, List.count_append] at early late ⊢
    omega
  called {uri} member := by
    rw [Event.closed_append] at member ⊢
    rw [mem_wanted]
    rcases List.mem_append.mp member with late | early
    · rcases mem_wanted.mp (second.called late) with request | ⟨other, there, asks⟩
      · exact .inl (List.mem_append_right _ request)
      · exact .inr ⟨other, List.mem_append_left _ there, asks⟩
    · rcases mem_wanted.mp (first.called early) with request | ⟨other, there, asks⟩
      · exact .inl (List.mem_append_left _ request)
      · exact .inr ⟨other, List.mem_append_right _ there, asks⟩
  heard := by
    have early := first.heard
    have late := second.heard
    rw [Event.closed_append, List.filterMap_append, List.length_append, List.countP_append]
    omega

theorem perm (balanced : resolver.Balanced session requests events) (asks : requests.Perm others)
    (same : events.Perm more) : resolver.Balanced session others more where
  fleeting {uri} fleeting := by
    have closed := Event.closed_perm same
    have counts := balanced.fleeting fleeting
    rw [count_wanted] at counts ⊢
    rw [← closed.count_eq, ← (closed.flatMap_right _).count_eq, ← asks.count_eq, counts]
  called {uri} member := by
    have closed := Event.closed_perm same
    rcases mem_wanted.mp (balanced.called (closed.mem_iff.mpr member)) with
      request | ⟨other, there, wants⟩
    · exact mem_wanted.mpr (.inl (asks.mem_iff.mp request))
    · exact mem_wanted.mpr (.inr ⟨other, closed.mem_iff.mp there, wants⟩)
  heard := by
    rw [← (same.filterMap Event.asked?).length_eq, ← (Event.closed_perm same).countP_eq,
      balanced.heard]

/-- What a reference asks for in its turn is what its own resolution leads to. -/
theorem close (balanced : resolver.Balanced session (resolver.demands session uri) events)
    {opening : List Event} (opens : Event.closed opening = [])
    (heard : (opening.filterMap Event.asked?).length = if resolver.isHandled uri then 1 else 0)
    (task : Nat) (outcome : Except ReferenceError Resolved) :
    resolver.Balanced session [uri] (.ended task uri outcome :: (events ++ opening)) := by
  have closed : Event.closed (.ended task uri outcome :: (events ++ opening)) =
      uri :: Event.closed events := by
    have first : Event.closed (.ended task uri outcome :: (events ++ opening)) =
        uri :: Event.closed (events ++ opening) := rfl
    rw [first, Event.closed_append, opens, List.append_nil]
  constructor
  · intro other fleeting
    have counts := balanced.fleeting fleeting
    rw [count_wanted] at counts
    rw [closed, count_wanted, List.flatMap_cons, List.count_append, List.count_cons,
      List.count_cons, counts, List.count_nil]
    omega
  · intro other member
    rw [closed] at member ⊢
    rw [mem_wanted]
    rcases List.mem_cons.mp member with same | below
    · exact .inl (by simp [same])
    · rcases mem_wanted.mp (balanced.called below) with request | ⟨last, there, asks⟩
      · exact .inr ⟨uri, List.mem_cons_self, request⟩
      · exact .inr ⟨last, List.mem_cons_of_mem _ there, asks⟩
  · have silent : (Event.ended task uri outcome).asked? = none := rfl
    rw [closed, List.countP_cons, List.filterMap_cons_none silent, List.filterMap_append,
      List.length_append, balanced.heard, heard]

end Balanced

/-- What a task has done and recorded between two sessions: it was asked for some references, and
has recorded remarks of its own and those of all resolutions that it has closed. -/
structure Ledger (resolver : Resolver) (session now later : Session) (requests : List Uri)
    (own : List Diagnostic) : Prop where
  task : later.context.task = now.context.task
  done : ∀ uri ∈ requests, resolver.Done session later.shared uri
  entries : ∃ events,
    session.shared.deeds later.shared now.context.task =
      events ++ session.shared.deeds now.shared now.context.task ∧
    resolver.Balanced session requests events ∧
    later.context.diagnostics.Perm (now.context.diagnostics ++
      (own ++ (Event.closed events).flatMap (resolver.remarks session)))

namespace Ledger
variable {now mid later : Session} {own notes : List Diagnostic}

/-- Nothing was done, for nothing was asked that is not known. -/
theorem still (task : later.context.task = now.context.task)
    (deeds : session.shared.deeds later.shared now.context.task =
      session.shared.deeds now.shared now.context.task)
    (diagnostics : later.context.diagnostics = now.context.diagnostics ++ own)
    (done : ∀ uri ∈ requests, resolver.Done session later.shared uri)
    (lasting : ∀ uri ∈ requests, ¬ resolver.Fleeting session uri) :
    resolver.Ledger session now later requests own where
  task := task
  done := done
  entries := ⟨[], deeds, .nothing lasting, by simp [diagnostics, Event.closed]⟩

theorem trans (first : resolver.Ledger session now mid requests own)
    (second : resolver.Ledger session mid later others notes)
    (grows : mid.shared.Grows later.shared) :
    resolver.Ledger session now later (requests ++ others) (own ++ notes) where
  task := second.task.trans first.task
  done uri member := by
    rcases List.mem_append.mp member with early | late
    · exact (first.done uri early).grows grows
    · exact second.done uri late
  entries := by
    obtain ⟨events, deeds, balanced, recorded⟩ := first.entries
    obtain ⟨more, deeds', balanced', recorded'⟩ := second.entries
    refine ⟨more ++ events, ?_, balanced.append balanced', ?_⟩
    · rw [first.task, deeds, ← List.append_assoc] at deeds'
      exact deeds'
    · refine recorded'.trans ((recorded.append_right _).trans ?_)
      rw [Event.closed_append, List.flatMap_append]
      classical
      apply List.perm_iff_count.mpr
      intro diagnostic
      simp only [List.count_append]
      omega

theorem reorder (ledger : resolver.Ledger session now later requests own)
    (same : requests.Perm others) : resolver.Ledger session now later others own where
  task := ledger.task
  done uri member := ledger.done uri (same.mem_iff.mpr member)
  entries := by
    obtain ⟨events, deeds, balanced, recorded⟩ := ledger.entries
    exact ⟨events, deeds, balanced.perm same (.refl _), recorded⟩

/-- What other tasks do in the meantime is not entered. -/
theorem resumes {policy : Policy} (ledger : resolver.Ledger session now mid requests own)
    (start : policy.start = session.shared) (resumes : policy.Resumes mid later) :
    resolver.Ledger session now later requests own where
  task := (congrArg Context.task resumes.context).trans ledger.task
  done uri member := (ledger.done uri member).grows resumes.aside.grows
  entries := by
    obtain ⟨events, deeds, balanced, recorded⟩ := ledger.entries
    have same := resumes.aside.deeds
    rw [start, ledger.task] at same
    exact ⟨events, same.trans deeds, balanced, resumes.context ▸ recorded⟩

end Ledger

/-- All that was asked for is done: nothing was resolved twice unless its outcome is not kept, and
only what was asked for and not known before. -/
structure Complete (resolver : Resolver) (session : Session) (requests closed : List Uri) :
    Prop where
  fleeting : ∀ {uri}, resolver.Fleeting session uri →
    closed.count uri = (resolver.wanted session requests closed).count uri
  lasting : ∀ {uri}, ¬ resolver.Fleeting session uri →
    (closed.count uri = 1 ∧ uri ∈ resolver.wanted session requests closed ∧
        ¬ session.shared.Settled uri.key) ∨
      (closed.count uri = 0 ∧ (uri ∉ resolver.wanted session requests closed ∨
        session.shared.Settled uri.key))
  shallow : ∀ {uri}, uri ∈ closed → resolver.Shallow session resolver.maxDepth uri

namespace Complete
variable {closed again : List Uri}

private theorem count_eq_of_wanted (first : resolver.Complete session requests closed)
    (second : resolver.Complete session requests again)
    (same : (resolver.wanted session requests closed).count uri =
      (resolver.wanted session requests again).count uri) :
    closed.count uri = again.count uri := by
  by_cases fleeting : resolver.Fleeting session uri
  · rw [first.fleeting fleeting, second.fleeting fleeting, same]
  · have member : uri ∈ resolver.wanted session requests closed ↔
        uri ∈ resolver.wanted session requests again := by
      rw [← List.count_pos_iff, ← List.count_pos_iff, same]
    rcases first.lasting fleeting with ⟨one, asked, unknown⟩ | ⟨none, idle⟩ <;>
      rcases second.lasting fleeting with ⟨also, asked', unknown'⟩ | ⟨also, idle'⟩
    · rw [one, also]
    · exact False.elim (idle'.elim (fun absent => absent (member.mp asked)) unknown)
    · exact False.elim (idle.elim (fun absent => absent (member.mpr asked')) unknown')
    · rw [none, also]

private theorem count_flatMap_eq
    (same : ∀ other, uri ∈ resolver.demands session other →
      closed.count other = again.count other) :
    (closed.flatMap (resolver.demands session)).count uri =
      (again.flatMap (resolver.demands session)).count uri := by
  let asks (other : Uri) : Bool := uri ∈ resolver.demands session other
  have only (list : List Uri) : (list.flatMap (resolver.demands session)).count uri =
      ((list.filter asks).flatMap (resolver.demands session)).count uri := by
    induction list with
    | nil => rfl
    | cons first rest ih =>
      by_cases member : uri ∈ resolver.demands session first
      · rw [List.filter_cons_of_pos (by simpa [asks] using member)]
        rw [List.flatMap_cons, List.flatMap_cons, List.count_append, List.count_append, ih]
      · rw [List.filter_cons_of_neg (by simpa [asks] using member)]
        rw [List.flatMap_cons, List.count_append, List.count_eq_zero.mpr member, ih, Nat.zero_add]
  have perm : (closed.filter asks).Perm (again.filter asks) := by
    apply List.perm_iff_count.mpr
    intro other
    by_cases member : uri ∈ resolver.demands session other
    · rw [List.count_filter (by simpa [asks] using member),
        List.count_filter (by simpa [asks] using member), same other member]
    · have absent (list : List Uri) : other ∉ list.filter asks := by
        intro there
        exact member (by simpa [asks] using (List.mem_filter.mp there).2)
      rw [List.count_eq_zero.mpr (absent _), List.count_eq_zero.mpr (absent _)]
  rw [only closed, only again]
  exact (perm.flatMap_right _).count_eq uri

/-- The induction goes down from the references that nothing else leads to: a reference with long
chains below it has only short ones above. -/
private theorem count_eq (first : resolver.Complete session requests closed)
    (second : resolver.Complete session requests again) (rounds : Nat) {room : Nat} {uri : Uri}
    (enough : resolver.maxDepth ≤ room + rounds) (deep : ¬ resolver.Shallow session room uri) :
    closed.count uri = again.count uri := by
  induction rounds generalizing room uri with
  | zero =>
    have absent {list : List Uri} (complete : resolver.Complete session requests list) :
        uri ∉ list := fun member => deep ((complete.shallow member).mono enough)
    rw [List.count_eq_zero.mpr (absent first), List.count_eq_zero.mpr (absent second)]
  | succ rounds ih =>
    refine count_eq_of_wanted first second ?_
    rw [count_wanted, count_wanted, count_flatMap_eq fun other asks => ?_]
    have above (shallow : resolver.Shallow session resolver.maxDepth other) :
        closed.count other = again.count other := by
      have path := demands_below shallow asks
      have enough : resolver.maxDepth ≤ room + 1 + rounds := by omega
      exact ih enough fun fits => deep (fits.below path)
    by_cases here : other ∈ closed
    · exact above (first.shallow here)
    · by_cases there : other ∈ again
      · exact above (second.shallow there)
      · rw [List.count_eq_zero.mpr here, List.count_eq_zero.mpr there]

/-- Whatever the order of the steps was, the same references were resolved equally often. -/
theorem perm (first : resolver.Complete session requests closed)
    (second : resolver.Complete session requests again) : closed.Perm again := by
  apply List.perm_iff_count.mpr
  intro uri
  have enough : resolver.maxDepth ≤ 0 + resolver.maxDepth := by omega
  exact count_eq first second resolver.maxDepth enough id

end Complete

end Resolver
end LinkedMarkup
