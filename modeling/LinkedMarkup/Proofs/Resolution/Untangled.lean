import LinkedMarkup.Proofs.Resolution.Conclusion
import LinkedMarkup.Proofs.Resolution.Ledger

namespace LinkedMarkup
open Shared Relation

namespace Resolver

/-- Handlers answer in time, a key stands for one reference, and no chain is too long. -/
structure Untangled (resolver : Resolver) (session : Session) (others : List Uri) : Prop where
  prompt : resolver.Prompt session.context
  keyed : ∀ {first second}, resolver.InPlay session others first →
    resolver.InPlay session others second → first.key = second.key → first = second
  shallow : ∀ {uri}, uri ∈ others → resolver.Shallow session resolver.maxDepth uri

variable {resolver : Resolver} {session : Session} {others : List Uri} {uri next : Uri}

theorem InPlay.below (played : resolver.InPlay session others uri)
    (path : TransGen (resolver.Leads session) uri next) : resolver.InPlay session others next := by
  obtain ⟨first, member, above⟩ := played
  exact ⟨first, member, above.trans path.to_reflTransGen⟩

/-- The reference with the first key leads to the one with the second key. -/
def Above (resolver : Resolver) (session : Session) (others : List Uri) (first second : String) :
    Prop :=
  ∃ upper lower, resolver.InPlay session others upper ∧ upper.key = first ∧ lower.key = second ∧
    TransGen (resolver.Leads session) upper lower

namespace Untangled
variable (untangled : resolver.Untangled session others)
include untangled

theorem fits (played : resolver.InPlay session others uri) :
    resolver.Shallow session resolver.maxDepth uri := by
  obtain ⟨first, member, path⟩ := played
  have shallow := untangled.shallow member
  rcases reflTransGen_iff_eq_or_transGen.mp path with rfl | below
  · exact shallow
  · exact (shallow.succ.below below)

theorem above_trans {first second third : String}
    (one : resolver.Above session others first second)
    (other : resolver.Above session others second third) :
    resolver.Above session others first third := by
  obtain ⟨upper, middle, played, rfl, rfl, path⟩ := one
  obtain ⟨again, lower, also, same, rfl, rest⟩ := other
  cases untangled.keyed (played.below path) also same.symm
  exact ⟨upper, lower, played, rfl, rfl, path.trans rest⟩

theorem not_above_itself (key : String) : ¬ resolver.Above session others key key := by
  rintro ⟨upper, lower, played, same, again, path⟩
  cases untangled.keyed played (played.below path) (same.trans again.symm)
  exact (untangled.fits played).acyclic path

theorem not_above_closed (key : String) :
    ¬ TransGen (resolver.Above session others) key key := by
  intro cycle
  have once {first second : String} (path : TransGen (resolver.Above session others) first second) :
      resolver.Above session others first second := by
    induction path with
    | single above => exact above
    | tail _ above ih => exact untangled.above_trans ih above
  exact untangled.not_above_itself key (once cycle)

end Untangled

end Resolver

def Policy.scripted (resolver : Resolver) (session : Session) (others : List Uri) : Policy where
  start := session.shared
  handled uri := resolver.isHandled uri
  ends uri outcome shared := resolver.InPlay session others uri ∧
    outcome = resolver.outcome session uri ∧
    ∀ next ∈ resolver.demands session uri, resolver.Done session shared next
  remains grows ends :=
    ⟨ends.1, ends.2.1, fun next member => (ends.2.2 next member).grows grows⟩
  above := resolver.Above session others
  expires := False
  silent := False

namespace Policy.Sound
variable {policy : Policy} {shared : Shared} {task : Nat} {key : String}

/-- Where keys do not lead back to themselves no wait is taken for a circle. -/
theorem not_wouldCycle (sound : policy.Sound shared)
    (straight : ∀ key, ¬ TransGen policy.above key key)
    (upper : ∀ {other}, shared.owners.find? other = some task → policy.above other key) :
    shared.wouldCycle task key = false := by
  cases owner : shared.owners.find? key with
  | none => simp [wouldCycle, owner]
  | some holder =>
    rw [wouldCycle, owner, Option.any_some]
    by_contra reached
    obtain ⟨last, holds, path⟩ := sound.owns_below owner (reaches_iff.mp (by simpa using reached))
    exact straight key (TransGen.tail' path (upper holds))

end Policy.Sound

namespace Resolver.Untangled
variable {resolver : Resolver} {session : Session} {others : List Uri} {uri : Uri}
  {shared : Shared}

private theorem of_ended (untangled : resolver.Untangled session others)
    (played : resolver.InPlay session others uri)
    (sound : (Policy.scripted resolver session others).Sound shared) {task : Nat} {other : Uri}
    {outcome : Except ReferenceError Resolved}
    (latest : (session.shared.course shared uri.key).head? = some (.ended task other outcome))
    (lasts : (Event.ended task other outcome).lasts = true) :
    outcome = resolver.outcome session uri ∧ ¬ resolver.Fleeting session uri := by
  obtain ⟨member, same⟩ := mem_since_of_course latest
  obtain ⟨also, told, _⟩ := sound.ended member
  cases untangled.keyed also played same
  refine ⟨told, fun fleeting => ?_⟩
  have fades := fleeting.2
  rw [← told] at fades
  cases outcome with
  | ok value => cases fades
  | error error => cases fades.symm.trans lasts

theorem value (untangled : resolver.Untangled session others)
    (played : resolver.InPlay session others uri)
    (sound : (Policy.scripted resolver session others).Sound shared) {value : Resolved}
    (found : shared.results.find? uri.key = some value) :
    .ok value = resolver.outcome session uri ∧ ¬ resolver.Fleeting session uri := by
  rcases sound.chronicle.value_iff.mp found with old | ⟨task, other, latest⟩
  · have old : session.shared.results.find? uri.key = some value := old
    rw [outcome_eq (untangled.fits played), script_of_value old]
    exact ⟨rfl, fun fleeting => fleeting.1 (.inl (by simp [old]))⟩
  · exact untangled.of_ended played sound latest rfl

theorem failure (untangled : resolver.Untangled session others)
    (played : resolver.InPlay session others uri)
    (sound : (Policy.scripted resolver session others).Sound shared) {error : ReferenceError}
    (unknown : shared.results.find? uri.key = none)
    (found : shared.failures.find? uri.key = some error) :
    .error error = resolver.outcome session uri ∧ ¬ resolver.Fleeting session uri := by
  rcases sound.chronicle.failure_iff.mp found with old | ⟨path, task, other, latest⟩
  · have old : session.shared.failures.find? uri.key = some error := old
    have never : session.shared.results.find? uri.key = none := by
      cases before : session.shared.results.find? uri.key with
      | none => rfl
      | some value =>
        cases unknown.symm.trans (sound.chronicle.value_iff.mpr (.inl before))
    rw [outcome_eq (untangled.fits played), script_of_failure never old]
    exact ⟨rfl, fun fleeting => fleeting.1 (.inr (by simp [old]))⟩
  · exact untangled.of_ended played sound latest (by simp [Event.lasts, path])

end Resolver.Untangled
end LinkedMarkup
