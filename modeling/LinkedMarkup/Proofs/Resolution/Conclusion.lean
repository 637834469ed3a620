import LinkedMarkup.Proofs.Resolution.Keeping

namespace LinkedMarkup
open Shared

/-- The task owns a key that it did not own before, and resolves the reference: it has asked the
handler if there is one. -/
structure Shared.Begun (start : Shared) (handled : Uri → Prop) (task : Nat) (uri : Uri)
    (before after : Shared) : Prop extends Respects start task before after where
  foreign : before.owners.find? uri.key ≠ some task
  owns : after.owners.find? uri.key = some task
  others : ∀ {name}, name ≠ uri.key → after.owners.find? name = some task →
    before.owners.find? name = some task
  waits : ∀ {key}, (task, key) ∈ after.waiting ↔ (task, key) ∈ before.waiting
  unsettled : ¬ after.Settled uri.key
  asked : handled uri → (start.course after uri.key).head? = some (.asked task uri)
  ready : ¬ handled uri → Event.Open (start.course after uri.key)

namespace Shared.Gained
variable {start before after : Shared} {handled : Uri → Prop} {task : Nat} {uri : Uri}

theorem unhandled (gained : Gained start task uri.key before after) (alone : ¬ handled uri) :
    Begun start handled task uri before after where
  toRespects := gained.toRespects
  foreign := gained.foreign
  owns := gained.owns
  others := gained.others
  waits := gained.waits
  unsettled := gained.unsettled
  asked answered := False.elim (alone answered)
  ready _ := gained.ready

theorem asks (gained : Gained start task uri.key before after) (answered : handled uri)
    (grown : start.history <:+ after.history) :
    Begun start handled task uri before (after.note (.asked task uri)) where
  toRespects := (touches_asked task uri after).respects gained.toRespects grown gained.foreign
  foreign := gained.foreign
  owns := gained.owns
  others := gained.others
  waits := gained.waits
  unsettled := gained.unsettled
  asked _ := by
    rw [course_note grown, if_pos (by rfl)]
    rfl
  ready alone := False.elim (alone answered)

end Shared.Gained

namespace Shared.Begun
variable {start before after later : Shared} {handled : Uri → Prop} {task : Nat} {uri : Uri}

/-- What a task has begun stays so while it owns the same keys. -/
theorem kept (begun : Begun start handled task uri before after)
    (kept : Kept start task after later) : Begun start handled task uri before later where
  toRespects := begun.toRespects.trans kept.toRespects
  foreign := begun.foreign
  owns := (kept.owned begun.owns).owner.trans begun.owns
  others different owns := begun.others different (kept.bare owns)
  waits := kept.waits.trans begun.waits
  unsettled settled := begun.unsettled ((kept.owned begun.owns).settled_iff.mp settled)
  asked answered := by rw [(kept.owned begun.owns).course]; exact begun.asked answered
  ready alone := by rw [(kept.owned begun.owns).course]; exact begun.ready alone

variable {outcome : Except ReferenceError Resolved}

abbrev finished (shared : Shared) (task : Nat) (uri : Uri)
    (outcome : Except ReferenceError Resolved) : Shared :=
  ((shared.note (.ended task uri outcome)).keep uri.key outcome).release uri.key

theorem touches_finished (begun : Begun start handled task uri before after) :
    Touches task uri.key after (finished after task uri outcome) :=
  (touches_ended task begun.unsettled outcome).trans (touches_release task uri.key _)

theorem fit (begun : Begun start handled task uri before after) (fit : before.Fit task) :
    after.Fit task where
  awake key waits := fit.awake key (begun.waits.mp waits)
  leaf child fork := fit.leaf child (begun.forks ▸ fork)
  known := begun.lastTask ▸ fit.known

/-- A finished resolution leaves the task with the keys that it owned before. -/
theorem finish (begun : Begun start handled task uri before after)
    (grown : start.history <:+ after.history) :
    Kept start task before (finished after task uri outcome) where
  toRespects := begun.touches_finished.respects begun.toRespects grown begun.foreign
  bare {name} owns := by
    by_cases same : name = uri.key
    · simp [finished, find?_owners_release, same] at owns
    · rw [begun.touches_finished.owners same] at owns
      exact begun.others same owns
  waits {key} := by
    have waiting := (keep_locks (after.note (.ended task uri outcome)) uri.key outcome).2.1
    show (task, key) ∈ ((after.note (.ended task uri outcome)).keep uri.key outcome).waiting ↔ _
    rw [waiting]
    exact begun.waits

end Shared.Begun

namespace Context

theorem beforeLast_append (key : String) (chain : List String) :
    beforeLast key (chain ++ [key]) = chain := by
  simp [beforeLast]

theorem leave_enter {context later : Context} {key : String}
    (like : (context.enter key).Like later) : context.Like (later.leave key) := by
  rw [Like] at like ⊢
  rw [like]
  simp [leave, enter, beforeLast_append]

end Context

theorem Policy.Sound.finish {policy : Policy} {before shared : Shared} {task : Nat} {uri : Uri}
    {outcome : Except ReferenceError Resolved} (sound : policy.Sound shared)
    (begun : Begun policy.start policy.handled task uri before shared)
    (good : policy.ends uri outcome (Begun.finished shared task uri outcome)) :
    policy.Step task shared (Begun.finished shared task uri outcome) := by
  have owners : ((shared.note (.ended task uri outcome)).keep uri.key outcome).owners.find?
      uri.key = some task := by rw [keep_owners]; exact begun.owns
  have grows : (Begun.finished shared task uri outcome).Grows
      ((shared.note (.ended task uri outcome)).keep uri.key outcome) := ⟨id, id⟩
  have ended := sound.ended_step begun.owns begun.unsettled begun.asked begun.ready
    (policy.remains grows good)
  refine ended.trans (ended.sound.release owners fun member other asked => ?_)
  rw [course_congr (keep_history outcome), course_note sound.grown, if_pos (by rfl)] at asked
  cases asked

namespace Resolver
variable {policy : Policy} {resolver : Resolver} {session : Session} {uri : Uri}
  {post : Except ReferenceError Resolved → Session → Prop}

/-- The answer of a handler is too late: it never comes, or it does not come at once and nobody
waits. -/
def IsLate (resolver : Resolver) (answer : Answer) : Prop :=
  answer.outcome? = none ∨ resolver.timeout = 0 ∧ 0 < answer.turns

/-- A task that asks a handler goes on with its answer or, if that is too late, with a failure. -/
theorem ask_safe (handler : Handler) (sound : policy.Sound session.shared)
    (silence : (handler.answer (request session uri)).outcome? = none → policy.silent)
    (late : resolver.IsLate (handler.answer (request session uri)) →
      ∀ {later}, policy.Resumes session later →
        post (.error (.timeout uri.key resolver.timeout)) later)
    (answered : ∀ {outcome}, (handler.answer (request session uri)).outcome? = some outcome →
      ∀ {later}, policy.Resumes session later → post outcome later) :
    Program.Safe policy post (resolver.ask handler uri).run session := by
  unfold ask ExceptT.run ExceptT.mk
  rw [Program.Safe]
  dsimp only
  cases found : (handler.answer (request session uri)).outcome? with
  | none =>
    refine Program.Safe.pauses sound fun {later} resumes => ?_
    intro last again
    refine ⟨fun holds => absurd holds Bool.false_ne_true, fun _ => ⟨.inl (silence found), fun _ => ?_⟩⟩
    exact late (.inl found) (resumes.trans again)
  | some outcome =>
    by_cases hurried : resolver.timeout = 0 ∧ 0 < (handler.answer (request session uri)).turns
    · have hurry : (resolver.timeout == 0 &&
          decide ((handler.answer (request session uri)).turns > 0)) = true := by
        simpa using hurried
      simp only [hurry, if_true]
      intro later resumes
      exact late (.inr hurried) resumes
    · have patient : (resolver.timeout == 0 &&
          decide ((handler.answer (request session uri)).turns > 0)) = false := by
        simpa using hurried
      simp only [patient, Bool.false_eq_true, if_false]
      exact Program.Safe.pauses sound fun resumes => answered found resumes

abbrev asking (before : Session) (shared : Shared) (uri : Uri) : Session :=
  ⟨shared.note (.asked before.context.task uri), before.context.enter uri.key⟩

/-- A fetch by a task that has gained the key ends as it is unsupported, late or refused, or as the
expansion of the value that is found. -/
theorem fetch_safe {before : Session} {shared : Shared} {context : Context}
    {resolve : Uri → Resolving Resolved} (holds : Except ReferenceError Resolved → Session → Prop)
    (handled_iff : policy.handled uri ↔ (resolver.protocols.find? uri.protocol).isSome)
    (usual : context.Fellow before.context) (sound : policy.Sound shared)
    (gained : Gained policy.start before.context.task uri.key before.shared shared)
    (silent : ∀ {answer}, resolver.answer? context uri = some answer → answer.outcome? = none →
      policy.silent)
    (unsupported : resolver.answer? context uri = none →
      holds (.error (.unsupportedProtocol uri.protocol uri.key)) ⟨shared, before.context.enter uri.key⟩)
    (late : ∀ {answer later}, resolver.answer? context uri = some answer → resolver.IsLate answer →
      policy.Resumes (asking before shared uri) later →
      holds (.error (.timeout uri.key resolver.timeout)) later)
    (refused : ∀ {answer error later}, resolver.answer? context uri = some answer →
      answer.outcome? = some (.error error) → policy.Resumes (asking before shared uri) later →
      holds (.error error) later)
    (found : ∀ {answer value later}, resolver.answer? context uri = some answer →
      answer.outcome? = some (.ok value) →
      Begun policy.start policy.handled before.context.task uri before.shared
        (asking before shared uri).shared →
      policy.Sound later.shared → policy.Resumes (asking before shared uri) later →
      Program.Safe policy (fun outcome last =>
        policy.Within (asking before shared uri) last ∧ holds outcome last)
        (resolver.expand resolve value).run later) :
    Program.Safe policy (fun outcome later =>
        Begun policy.start policy.handled before.context.task uri before.shared later.shared ∧
          (before.context.enter uri.key).Like later.context ∧
          (¬ policy.handled uri →
            outcome = .error (.unsupportedProtocol uri.protocol uri.key)) ∧
          holds outcome later)
      (resolver.fetch resolve uri).run ⟨shared, before.context.enter uri.key⟩ := by
  unfold Resolver.fetch
  cases answers : resolver.protocols.find? uri.protocol with
  | none =>
    have alone : ¬ policy.handled uri := by simp [handled_iff, answers]
    have unsupported := unsupported (Resolver.answer?_eq_none.mpr answers)
    exact ⟨gained.unhandled alone, rfl, fun _ => rfl, unsupported⟩
  | some handler =>
    have answered : policy.handled uri := by simp [handled_iff, answers]
    have begun := gained.asks answered sound.grown
    have step := sound.asked answered gained.owns gained.unsettled gained.ready
    let base := asking before shared uri
    have fellow : context.Fellow base.context := usual.trans ⟨rfl, rfl, rfl, rfl⟩
    have answers := Resolver.answer?_of_find answers fellow
    -- The key is still the task's own at the end, since it has been so at the base.
    have ends {outcome : Except ReferenceError Resolved} {later : Session}
        (within : policy.Within base later) (ends : holds outcome later) :
        Begun policy.start policy.handled before.context.task uri before.shared later.shared ∧
          (before.context.enter uri.key).Like later.context ∧
          (¬ policy.handled uri →
            outcome = .error (.unsupportedProtocol uri.protocol uri.key)) ∧
          holds outcome later :=
      ⟨begun.kept within.kept, within.context, fun alone => False.elim (alone answered), ends⟩
    have asks : Program.Safe policy (fun outcome later => policy.Resumes base later ∧
        (holds outcome later ∧ (∃ error, outcome = .error error) ∨
          (handler.answer (Resolver.request base uri)).outcome? = some outcome))
        (resolver.ask handler uri).run base :=
      Resolver.ask_safe handler step.sound (silent answers)
        (fun isLate _ resumes => ⟨resumes, .inl ⟨late answers isLate resumes, _, rfl⟩⟩)
        fun found _ resumes => ⟨resumes, .inr found⟩
    refine ⟨rfl, step, ?_⟩
    show Program.Safe policy _
      (resolver.ask handler uri >>= fun value => resolver.expand resolve value).run base
    refine Program.Safe.bind asks step.sound fun {outcome later} sound kept => ?_
    obtain ⟨resumes, heard⟩ := kept
    have within := (Policy.Within.refl policy base).resumes resumes
    rcases heard with ⟨failed, error, rfl⟩ | heard
    · exact ends within failed
    cases outcome with
    | error error => exact ends within (refused answers heard resumes)
    | ok value =>
      exact (found answers heard begun sound resumes).mono sound fun _ kept => ends kept.1 kept.2

/-- A task that has asked for a key has the outcome of its reference, or it has come to own the
key. -/
def Got (post : Except ReferenceError Resolved → Session → Prop) (gained : Session → Prop) :
    Except ReferenceError Acquired → Session → Prop
  | .error error, later => post (.error error) later
  | .ok (.value value), later => post (.ok value) later
  | .ok .owned, later => gained later

/-- A reference is resolved from what is known of its key, or by the task that gains the key; on a
circle or too far down the chain it is not resolved at all. -/
theorem resolveBy_safe {fetch? : Option (Resolving Resolved)} (sound : policy.Sound session.shared)
    (fit : session.shared.Fit session.context.task)
    (upper : ¬ session.shared.Settled uri.key →
      ∀ {other}, session.shared.owners.find? other = some session.context.task →
        policy.above other uri.key)
    (known : ∀ {value later}, policy.Resumes session later →
      later.shared.results.find? uri.key = some value → post (.ok value) later)
    (failed : ∀ {error later}, policy.Resumes session later →
      later.shared.results.find? uri.key = none →
      later.shared.failures.find? uri.key = some error → post (.error error) later)
    (chained : ∀ {cycle}, session.context.cycle? uri.key = some cycle →
      post (.error (.circular cycle)) session)
    (deep : fetch? = none → post (.error (.depthExceeded uri.key resolver.maxDepth)) session)
    (circular : session.context.cycle? uri.key = none → ¬ session.shared.Settled uri.key →
      session.shared.wouldCycle session.context.task uri.key = true →
        post (.error (.circular (session.context.resolving ++ [uri.key]))) session)
    (late : policy.expires → ∀ {later}, policy.Resumes session later →
      post (.error (.timeout uri.key resolver.timeout)) later)
    (gained : ∀ {fetch later}, fetch? = some fetch → later.context = session.context →
      policy.Sound later.shared →
      Gained policy.start session.context.task uri.key session.shared later.shared →
      Program.Safe policy post (fetchOwned uri fetch).run later) :
    Program.Safe policy post (resolver.resolveBy uri fetch?).run session := by
  unfold resolveBy ExceptT.run ExceptT.mk
  rw [Program.Safe]
  split
  · exact known (.refl sound) ‹_›
  · exact chained ‹_›
  · exact deep rfl
  · rename_i fetch _ unchained
    have acquires : Program.Safe policy (Got post fun later => later.context = session.context ∧
          Gained policy.start session.context.task uri.key session.shared later.shared)
        (acquire resolver.timeout uri.key).run session :=
      Policy.acquire_safe resolver.timeout sound fit upper known failed (circular unchained) late
        fun same _ gained => ⟨same, gained⟩
    refine acquires.bind sound fun {outcome later} sound holds => ?_
    rcases outcome with error | value | _
    · exact holds
    · exact holds
    · exact gained rfl holds.1 sound holds.2

/-- A fetch that ends with the key still in the hands of its task leaves the task as it was before
it had the key. -/
theorem fetchOwned_safe (before : Session) {fetch : Resolving Resolved}
    (sound : policy.Sound session.shared)
    (fetches : Program.Safe policy (fun outcome later =>
        Begun policy.start policy.handled before.context.task uri before.shared later.shared ∧
          (before.context.enter uri.key).Like later.context ∧
          policy.ends uri outcome
            (Begun.finished later.shared before.context.task uri outcome) ∧
          (policy.Within before (conclude uri outcome later) →
            post outcome (conclude uri outcome later)))
      fetch.run (session.onContext (·.enter uri.key))) :
    Program.Safe policy post (fetchOwned uri fetch).run session := by
  refine ⟨rfl, .refl sound _, ?_⟩
  refine fetches.bind sound fun {outcome later} sound ⟨begun, like, good, holds⟩ => ?_
  have task : later.context.task = before.context.task := by rw [like]; rfl
  have step := sound.finish begun good
  have concluded : (conclude uri outcome later).shared =
      Begun.finished later.shared before.context.task uri outcome := by rw [← task]; rfl
  refine ⟨rfl, by rw [concluded, task]; exact step, holds ⟨Context.leave_enter like, ?_⟩⟩
  rw [concluded]
  exact begun.finish sound.grown

end Resolver
end LinkedMarkup
