import LinkedMarkup.Proofs.Tasks.Siblings

namespace LinkedMarkup
open Shared

namespace Resolver

/-- A document that is processed from the start in loose mode, where handlers answer in time, and
references that share a key have the same value. -/
structure Fresh (resolver : Resolver) (session : Session) (others : List Uri) : Prop where
  shared : session.shared = {}
  task : session.context.task = 0
  loose : session.context.mode = .loose
  prompt : resolver.Prompt session.context
  agree : ∀ {first second}, resolver.InPlay session others first →
    resolver.InPlay session others second → first.key = second.key →
    resolver.found? session first = resolver.found? session second

/-- A reference that leads to a cycle fails with a failure of a chain, and a value leads only to
references that are in play. -/
structure Dooms (resolver : Resolver) (session : Session) (others : List Uri) (uri : Uri)
    (outcome : Except ReferenceError Resolved) : Prop where
  fails : resolver.Doomed session uri →
    ∃ error, outcome = .error error ∧ error.isPathDependent = true
  opens : ∀ {value}, outcome = .ok value → ∀ next ∈ value.opens,
    resolver.InPlay session others next

variable {resolver : Resolver} {session : Session} {others : List Uri} {uri other : Uri}

theorem Dooms.of_error {error : ReferenceError} (path : error.isPathDependent = true) :
    resolver.Dooms session others uri (.error error) :=
  ⟨fun _ => ⟨error, rfl, path⟩, fun same => by cases same⟩

namespace Fresh

theorem found?_eq (fresh : resolver.Fresh session others) (uri : Uri) :
    resolver.found? session uri = (resolver.answer? session.context uri).bind fun answer =>
      answer.outcome?.bind Except.toOption := by
  rw [found?, fresh.shared]
  rfl

theorem leads (fresh : resolver.Fresh session others) {answer : Answer} {value : Resolved}
    {next : Uri} (answers : resolver.answer? session.context uri = some answer)
    (found : answer.outcome? = some (.ok value)) (opens : next ∈ value.opens) :
    resolver.Leads session uri next := by
  refine ⟨value, ?_, opens⟩
  rw [fresh.found?_eq, answers, Option.bind_some, found]
  rfl

/-- Only a reference that its handler finds a value for can be doomed. -/
theorem not_doomed (fresh : resolver.Fresh session others)
    (nothing : ∀ {answer value}, resolver.answer? session.context uri = some answer →
      answer.outcome? ≠ some (.ok value)) : ¬ resolver.Doomed session uri := by
  intro doomed
  obtain ⟨next, ⟨value, found, _⟩, _⟩ := doomed.leads
  rw [fresh.found?_eq] at found
  obtain ⟨answer, answers, found⟩ := Option.bind_eq_some_iff.mp found
  obtain ⟨outcome, same, found⟩ := Option.bind_eq_some_iff.mp found
  cases outcome with
  | ok value => exact nothing answers same
  | error error => cases found

theorem doomed_of_key (fresh : resolver.Fresh session others)
    (played : resolver.InPlay session others uri) (also : resolver.InPlay session others other)
    (same : uri.key = other.key) (doomed : resolver.Doomed session uri) :
    resolver.Doomed session other := by
  obtain ⟨next, ⟨value, found, opens⟩, again, path, cycle⟩ := doomed.leads
  have leads : resolver.Leads session other next :=
    ⟨value, (fresh.agree played also same) ▸ found, opens⟩
  exact ⟨again, .head leads path, cycle⟩

end Fresh

end Resolver

def Policy.dooming (resolver : Resolver) (session : Session) (others : List Uri) : Policy where
  start := session.shared
  handled uri := (resolver.protocols.find? uri.protocol).isSome
  ends uri outcome _ := resolver.InPlay session others uri ∧
    resolver.Dooms session others uri outcome
  remains _ holds := holds
  above _ _ := True
  expires := False
  silent := False

namespace Resolver
variable {resolver : Resolver} {session : Session} {others : List Uri} {uri : Uri}

namespace Fresh

private theorem dooms_of_ended (fresh : resolver.Fresh session others) {shared : Shared}
    (sound : (Policy.dooming resolver session others).Sound shared)
    (played : resolver.InPlay session others uri) {task : Nat} {other : Uri}
    {outcome : Except ReferenceError Resolved}
    (ended : (session.shared.course shared uri.key).head? = some (.ended task other outcome)) :
    resolver.Dooms session others uri outcome := by
  obtain ⟨member, same⟩ := mem_since_of_course ended
  obtain ⟨also, dooms⟩ := sound.ended member
  exact ⟨fun doomed => dooms.fails (fresh.doomed_of_key played also same.symm doomed),
    dooms.opens⟩

/-- Doomed references end as they must. -/
theorem fate (fresh : resolver.Fresh session others) :
    Fate resolver (.dooming resolver session others) session.context
      (resolver.InPlay session others) (resolver.Dooms session others) where
  handled_iff := Iff.rfl
  above _ _ := trivial
  ends played dooms _ := ⟨played, dooms⟩
  value {uri value shared} played sound found := by
    rcases sound.chronicle.value_iff.mp found with old | ⟨task, other, ended⟩
    · rw [show (Policy.dooming resolver session others).start = {} from fresh.shared] at old
      cases old
    · exact fresh.dooms_of_ended sound played ended
  failure {uri error shared} played sound found := by
    rcases sound.chronicle.failure_iff.mp found with old | ⟨_, task, other, ended⟩
    · rw [show (Policy.dooming resolver session others).start = {} from fresh.shared] at old
      cases old
    · exact fresh.dooms_of_ended sound played ended
  opens _ dooms := dooms.opens rfl
  circular _ _ := .of_error rfl
  deep _ _ := .of_error rfl
  wait _ expires := False.elim expires
  silent answers nothing := fresh.prompt.answers answers nothing
  late {uri answer} _ answers late := by
    rcases late with nothing | ⟨hurried, turns⟩
    · exact False.elim (fresh.prompt.answers answers nothing)
    · have none := fresh.prompt.inTime answers hurried
      omega
  unsupported {uri} _ none := by
    refine ⟨fun doomed => False.elim (fresh.not_doomed (fun answers => ?_) doomed),
      fun same => by cases same⟩
    cases none.symm.trans answers
  refused {uri answer error} _ answers refused := by
    refine ⟨fun doomed => False.elim (fresh.not_doomed (fun again found => ?_) doomed),
      fun same => by cases same⟩
    cases answers.symm.trans again
    cases refused.symm.trans found
  leads played answers found next opens := played.leads (fresh.leads answers found opens)
  expanded {uri answer value after} played answers found passed known := by
    refine ⟨fun doomed => ?_, fun same => by cases same; exact known⟩
    obtain ⟨next, ⟨found', same, opens⟩, again⟩ := doomed.leads
    rw [fresh.found?_eq, answers, Option.bind_some, found] at same
    cases same
    obtain ⟨outcome, dooms, passes⟩ := passed next opens
    obtain ⟨error, rfl, path⟩ := dooms.fails again
    cases path.symm.trans passes.1
  broken {uri answer value error} _ _ _ fatal := by
    cases path : error.isPathDependent with
    | true => exact .of_error path
    | false => exact False.elim (fatal ⟨path, fresh.loose⟩)

end Fresh

/-- Between any two steps of the processing the main task is idle, in the surroundings in which the
processing began. -/
def Going (resolver : Resolver) (session : Session) (others : List Uri) (now : Session) : Prop :=
  (Policy.dooming resolver session others).Idle now ∧ session.context.Fellow now.context

/-- A doomed reference among siblings fails with a failure of a chain, and a resolved one has
nothing open. -/
def Judged (resolver : Resolver) (session : Session) (r : Reference)
    (result : Except ReferenceError Reference) : Prop :=
  (resolver.Doomed session r.uri → ∃ error, result = .error error ∧ error.isPathDependent = true) ∧
    ∀ {after}, result = .ok after → after.opens = []

namespace Fresh

theorem going (fresh : resolver.Fresh session others) :
    resolver.Going session others session := by
  exact ⟨.begin rfl (fresh.shared ▸ .nothing) (by simp [fresh.task]), .refl _⟩

variable {now base : Session}

theorem stored (fresh : resolver.Fresh session others)
    (going : resolver.Going session others now) (played : resolver.InPlay session others uri)
    (doomed : resolver.Doomed session uri) : now.shared.results.find? uri.key = none := by
  cases found : now.shared.results.find? uri.key with
  | none => rfl
  | some value =>
    obtain ⟨error, same, _⟩ := (fresh.fate.value played going.1.sound found).fails doomed
    cases same

private theorem resolution_safe (fresh : resolver.Fresh session others) {r : Reference}
    (unresolved : r.isResolved = false) (played : resolver.InPlay session others r.uri)
    (sound : (Policy.dooming resolver session others).Sound now.shared)
    (fit : now.shared.Fit now.context.task) (fellow : session.context.Fellow now.context) :
    Program.Safe (.dooming resolver session others)
      (fun result later => (Policy.dooming resolver session others).Within now later ∧
        resolver.Judged session r result) (resolver.resolution r) now := by
  have resolves := fresh.fate.resolve played fellow fit
  have keeps : (Policy.dooming resolver session others).Keeps now
      (fun after : Reference => resolver.Judged session r (.ok after))
      (fun error => resolver.Judged session r (.error error))
      (resolveReference resolver.resolve r) := by
    unfold resolveReference
    rw [if_neg (by simp [unresolved])]
    refine Policy.Keeps.bind (resolves.mono id fun {error} dooms => ?_) fun {value} dooms =>
      Policy.Keeps.pure ⟨fun doomed => ?_, fun same => ?_⟩
    · refine ⟨fun doomed => ?_, fun same => by cases same⟩
      obtain ⟨_, same, path⟩ := dooms.fails doomed
      cases same
      exact ⟨error, rfl, path⟩
    · obtain ⟨error, same, _⟩ := dooms.fails doomed
      cases same
    · cases same
      exact Reference.opens_resolveTo value
  refine (keeps now sound (.refl _ _)).mono sound fun {result later} _ ⟨within, meets⟩ =>
    ⟨within, ?_⟩
  cases result <;> exact meets

private theorem work (fresh : resolver.Fresh session others)
    (going : resolver.Going session others now) {references : List Reference}
    (unresolved : ∀ r ∈ references, r.isResolved = false ∧ resolver.InPlay session others r.uri) :
    resolver.Work (.dooming resolver session others) now references
      fun r _ result _ => resolver.Judged session r result where
  idle := going.1
  answers silent := silent
  does member sound fit _ fellow _ := by
    obtain ⟨itself, played⟩ := unresolved _ member
    exact fresh.resolution_safe itself played sound fit (going.2.trans fellow)
  stays judged _ := judged

private theorem inTurn_judged (fresh : resolver.Fresh session others) {references : List Reference}
    (unresolved : ∀ r ∈ references, r.isResolved = false ∧ resolver.InPlay session others r.uri)
    (going : resolver.Going session others now) :
    List.Forall₂ (resolver.Judged session) references (resolver.resolveInTurn references now).1 ∧
      resolver.Going session others (resolver.resolveInTurn references now).2 := by
  induction references generalizing now with
  | nil => exact ⟨.nil, going⟩
  | cons r rest ih =>
    obtain ⟨judged, like, _, others⟩ := (fresh.work going unresolved).alone
    obtain ⟨below, ends⟩ := ih (fun r member => unresolved r (by simp [member]))
      ⟨others.idle, going.2.trans like.fellow⟩
    exact ⟨.cons judged below, ends⟩

/-- Siblings are judged alike in whatever order they are resolved. -/
theorem siblings_judged (fresh : resolver.Fresh session others) {siblings : Visitor.Siblings}
    (orders : resolver.Orders siblings) {references : List Reference}
    (unresolved : ∀ r ∈ references, r.isResolved = false ∧ resolver.InPlay session others r.uri)
    (going : resolver.Going session others now) :
    List.Forall₂ (resolver.Judged session) references (siblings references now).1 ∧
      resolver.Going session others (siblings references now).2 := by
  have work := fresh.work going unresolved
  rcases orders references now (fun turns stuck => work.finished_of_stuck turns stuck) with
    inTurn | ⟨state, turns, finished, joined⟩
  · rw [inTurn]
    exact fresh.inTurn_judged unresolved going
  · obtain ⟨idle, like⟩ := work.joined turns finished
    rw [joined]
    refine ⟨?_, idle, going.2.trans like.fellow⟩
    refine (Pool.filterMap_result _ (work.ended turns finished)).imp fun r result found => ?_
    obtain ⟨_, _, _, _, judged⟩ := found
    exact judged

/-- An element inherits only from what leads to no cycle. -/
theorem inherit_judged (fresh : resolver.Fresh session others) {e : Element}
    (played : ∀ uri ∈ e.ancestor?.toList, resolver.InPlay session others uri)
    (going : resolver.Going session others now) :
    resolver.Going session others ((resolver.inherit e).run.alone now).2 ∧
      Meets (fun merged : Element =>
          (∀ uri ∈ e.ancestor?.toList, ¬ resolver.Doomed session uri) ∧
            ∃ inherited, merged.children = inherited ++ e.children ∧
              ∀ uri ∈ Node.opensOf inherited, resolver.InPlay session others uri)
        (fun error => error.isPathDependent = false →
          ∀ uri ∈ e.ancestor?.toList, ¬ resolver.Doomed session uri)
        ((resolver.inherit e).run.alone now).1 := by
  let policy := Policy.dooming resolver session others
  have fit := going.1.fit
  have loose : now.context.mode = .loose := going.2.mode.trans fresh.loose
  have agree : (policy.keeping now).Agree (resolver.InPlay session others)
      (fun uri => ¬ resolver.Doomed session uri) resolver.resolve resolver.resolve := by
    intro uri played
    refine (fresh.fate.resolve played going.2 fit).mono (fun {value} dooms => ?_)
      fun {error} dooms tolerated doomed => ?_
    · refine ⟨dooms.opens rfl, fun doomed => ?_⟩
      obtain ⟨error, same, _⟩ := dooms.fails doomed
      cases same
    · obtain ⟨_, same, path⟩ := dooms.fails doomed
      cases same
      cases path.symm.trans tolerated.1
  have keeps : policy.Keeps now (fun merged : Element =>
        (∀ uri ∈ e.ancestor?.toList, ¬ resolver.Doomed session uri) ∧
          ∃ inherited, merged.children = inherited ++ e.children ∧
            ∀ uri ∈ Node.opensOf inherited, resolver.InPlay session others uri)
      (fun error => error.isPathDependent = false →
        ∀ uri ∈ e.ancestor?.toList, ¬ resolver.Doomed session uri)
      (resolver.inherit e) := by
    unfold inherit
    split
    · rename_i alone
      have nothing : e.ancestor? = none := by simp [Element.ancestor?, alone]
      exact Policy.Keeps.pure ⟨by simp [nothing], [], rfl, by simp [Node.opensOf]⟩
    · rename_i target names
      have found := ancestor_rel (policy.keeping now) agree names played
      refine Policy.Keeps.bind (found.mono id fun {error} failed stays => ?_) fun {a} expands => ?_
      · exact failed ⟨stays, loose⟩
      · have warned := warnDiscarded_rel (policy.keeping now) resolver e a
        refine Policy.Keeps.bind (warned.mono id fun {error} fatal stays => ?_) fun _ => ?_
        · exact False.elim (fatal ⟨stays, loose⟩)
        · refine Policy.Keeps.pure ⟨expands.2, _, rfl, fun uri opens => ?_⟩
          exact expands.1 uri (Inheritance.opensOf_children_subset _ _ opens)
  have safe := keeps now going.1.sound (.refl _ _)
  obtain ⟨idle, like, _, meets⟩ := going.1.alone id safe
  exact ⟨⟨idle, going.2.trans like.fellow⟩, meets⟩

end Fresh

end Resolver
end LinkedMarkup
