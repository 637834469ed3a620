import LinkedMarkup.Proofs.Resolution.Conclusion
/-! A judgement on how references end that is right for one reference if it is right for those that
its value leads to, is right for every resolution by any task. -/
namespace LinkedMarkup
open Shared

/-- An outcome with which a tree that contains the reference is expanded to its end. -/
def Passes (mode : Mode) : Except ReferenceError Resolved → Prop
  | .ok _ => True
  | .error error => Resolver.Tolerated mode error

/-- A judgement `good` on the outcomes of the references in play, and what makes it right in the
surroundings of a context. -/
structure Fate (resolver : Resolver) (policy : Policy) (context : Context) (known : Uri → Prop)
    (good : Uri → Except ReferenceError Resolved → Prop) : Prop where
  handled_iff : ∀ {uri}, policy.handled uri ↔ (resolver.protocols.find? uri.protocol).isSome
  above : ∀ first second, policy.above first second
  ends : ∀ {uri outcome shared}, known uri → good uri outcome →
    (¬ policy.handled uri → outcome = .error (.unsupportedProtocol uri.protocol uri.key)) →
    policy.ends uri outcome shared
  value : ∀ {uri value shared}, known uri → policy.Sound shared →
    shared.results.find? uri.key = some value → good uri (.ok value)
  failure : ∀ {uri error shared}, known uri → policy.Sound shared →
    shared.failures.find? uri.key = some error → good uri (.error error)
  opens : ∀ {uri value}, known uri → good uri (.ok value) → ∀ next ∈ value.opens, known next
  circular : ∀ {uri} cycle, known uri → good uri (.error (.circular cycle))
  deep : ∀ {uri} limit, known uri → good uri (.error (.depthExceeded uri.key limit))
  wait : ∀ {uri} limit, policy.expires → known uri → good uri (.error (.timeout uri.key limit))
  silent : ∀ {uri answer}, resolver.answer? context uri = some answer → answer.outcome? = none →
    policy.silent
  late : ∀ {uri answer}, known uri → resolver.answer? context uri = some answer →
    resolver.IsLate answer → good uri (.error (.timeout uri.key resolver.timeout))
  unsupported : ∀ {uri}, known uri → resolver.answer? context uri = none →
    good uri (.error (.unsupportedProtocol uri.protocol uri.key))
  refused : ∀ {uri answer error}, known uri → resolver.answer? context uri = some answer →
    answer.outcome? = some (.error error) → good uri (.error error)
  leads : ∀ {uri answer value}, known uri → resolver.answer? context uri = some answer →
    answer.outcome? = some (.ok value) → ∀ next ∈ value.opens, known next
  /-- A value that was expanded to its end. -/
  expanded : ∀ {uri answer value after}, known uri → resolver.answer? context uri = some answer →
    answer.outcome? = some (.ok value) →
    (∀ next ∈ value.opens, ∃ outcome, good next outcome ∧ Passes context.mode outcome) →
    (∀ next ∈ after.opens, known next) → good uri (.ok after)
  /-- An expansion that was broken off. -/
  broken : ∀ {uri answer value error}, known uri → resolver.answer? context uri = some answer →
    answer.outcome? = some (.ok value) → ¬ Resolver.Tolerated context.mode error →
    good uri (.error error)

namespace Fate
variable {resolver : Resolver} {policy : Policy} {context : Context} {known : Uri → Prop}
  {good : Uri → Except ReferenceError Resolved → Prop} {uri : Uri}

/-- The references that are in play end as they are judged, whoever resolves them. -/
def Governs (policy : Policy) (context : Context) (known : Uri → Prop)
    (good : Uri → Except ReferenceError Resolved → Prop) (resolve : Uri → Resolving Resolved) :
    Prop :=
  ∀ {uri}, known uri → ∀ {base : Session}, context.Fellow base.context →
    base.shared.Fit base.context.task →
    policy.Keeps base (fun value => good uri (.ok value)) (fun error => good uri (.error error))
      (resolve uri)

private theorem fetch_safe (fate : Fate resolver policy context known good)
    {resolve : Uri → Resolving Resolved} (governs : Governs policy context known good resolve)
    (member : known uri) {before : Session} {shared : Shared}
    (usual : context.Fellow before.context) (fit : before.shared.Fit before.context.task)
    (sound : policy.Sound shared)
    (gained : Gained policy.start before.context.task uri.key before.shared shared) :
    Program.Safe policy (fun outcome later =>
        Begun policy.start policy.handled before.context.task uri before.shared later.shared ∧
          (before.context.enter uri.key).Like later.context ∧
          (¬ policy.handled uri →
            outcome = .error (.unsupportedProtocol uri.protocol uri.key)) ∧ good uri outcome)
      (resolver.fetch resolve uri).run ⟨shared, before.context.enter uri.key⟩ := by
  refine Resolver.fetch_safe (fun outcome _ => good uri outcome) fate.handled_iff usual sound gained
    fate.silent (fate.unsupported member) (fun answers late _ => fate.late member answers late)
    (fun answers refused _ => fate.refused member answers refused) ?_
  intro answer value later answers found begun sound resumes
  let base := Resolver.asking before shared uri
  have within := (Policy.Within.refl policy base).resumes resumes
  have fellow : context.Fellow base.context := usual.trans ⟨rfl, rfl, rfl, rfl⟩
  have agree : (policy.keeping base).Agree known
      (fun next => ∃ outcome, good next outcome ∧ Passes context.mode outcome) resolve resolve := by
    intro next played
    have nested : policy.Keeps base (fun value => good next (.ok value))
        (fun error => good next (.error error)) (resolve next) :=
      governs played fellow (begun.fit fit)
    refine nested.mono (fun {after} holds => ?_) fun {cause} holds tolerated => ?_
    · exact ⟨fate.opens played holds, _, holds, trivial⟩
    · exact ⟨_, holds, fellow.mode ▸ tolerated⟩
  have expands := Resolver.expand_rel (policy.keeping base) agree resolver
    (fate.leads member answers found)
  refine (expands later sound within).mono sound fun {outcome last} _ kept => ?_
  obtain ⟨within, meets⟩ := kept
  cases outcome with
  | ok after => exact ⟨within, fate.expanded member answers found meets.2 meets.1⟩
  | error error => exact ⟨within, fate.broken member answers found (fellow.mode ▸ meets)⟩

private theorem resolveBy_keeps (fate : Fate resolver policy context known good)
    {fetch? : Option (Resolving Resolved)}
    (fetches : ∀ {fetch}, fetch? = some fetch → ∃ resolve, fetch = resolver.fetch resolve uri ∧
      Governs policy context known good resolve)
    (member : known uri) {base : Session} (usual : context.Fellow base.context)
    (fit : base.shared.Fit base.context.task) :
    policy.Keeps base (fun value => good uri (.ok value)) (fun error => good uri (.error error))
      (resolver.resolveBy uri fetch?) := by
  intro now sound within
  have there := within.fit fit
  refine Resolver.resolveBy_safe sound there (fun _ {_} _ => fate.above _ _) ?_ ?_ ?_ ?_ ?_ ?_ ?_
  · intro value later resumes found
    exact ⟨within.resumes resumes, fate.value member resumes.sound found⟩
  · intro error later resumes _ found
    exact ⟨within.resumes resumes, fate.failure member resumes.sound found⟩
  · intro cycle _
    exact ⟨within, fate.circular cycle member⟩
  · intro _
    exact ⟨within, fate.deep _ member⟩
  · intro _ _ _
    exact ⟨within, fate.circular _ member⟩
  · intro expires later resumes
    exact ⟨within.resumes resumes, fate.wait _ expires member⟩
  · rintro fetch ⟨shared, context⟩ given same sound gained
    cases same
    obtain ⟨resolve, rfl, governs⟩ := fetches given
    refine Resolver.fetchOwned_safe now sound ?_
    refine (fate.fetch_safe governs member (usual.trans within.context.fellow) there sound gained).mono
      sound fun {outcome later} _ kept => ?_
    obtain ⟨begun, like, unhandled, holds⟩ := kept
    refine ⟨begun, like, fate.ends member holds unhandled, fun ended => ⟨within.trans ended, ?_⟩⟩
    cases outcome <;> exact holds

/-- However many references may be on the way, they end as they are judged. -/
theorem resolveWithin (fate : Fate resolver policy context known good) (room : Nat) :
    Governs policy context known good (resolver.resolveWithin room) := by
  -- The induction is on the room; a resolution without any room fails as too deep.
  induction room with
  | zero => exact fun member _ => fate.resolveBy_keeps (fun given => by cases given) member
  | succ room ih =>
    intro uri member base
    refine fate.resolveBy_keeps (fun given => ?_) member
    exact ⟨_, (Option.some.inj given).symm, ih⟩

theorem resolve (fate : Fate resolver policy context known good) :
    Governs policy context known good resolver.resolve :=
  fun member _ usual fit now sound within =>
    fate.resolveWithin _ member usual fit now sound within

end Fate
end LinkedMarkup
