import LinkedMarkup.Proofs.Resolution.Mirror

namespace LinkedMarkup
open Shared Relation

namespace Resolver
variable {resolver : Resolver} {session : Session} {others : List Uri} {uri next : Uri}

/-- The reference lies below all keys that the task owns or resolves. -/
structure Beneath (resolver : Resolver) (session : Session) (others : List Uri) (base : Session)
    (uri : Uri) : Prop where
  owned : ∀ {key}, base.shared.owners.find? key = some base.context.task →
    resolver.Above session others key uri.key
  chained : ∀ {key}, key ∈ base.context.resolving → resolver.Above session others key uri.key

theorem Beneath.within {base now : Session} (beneath : resolver.Beneath session others base uri)
    (within : (Policy.scripted resolver session others).Within base now) :
    resolver.Beneath session others now uri where
  owned owns := beneath.owned (within.kept.bare (within.task_eq ▸ owns))
  chained member := beneath.chained (within.resolving_eq ▸ member)

/-- Below a reference whose key the task has come to own. -/
theorem Beneath.enter (untangled : resolver.Untangled session others) {base : Session}
    {shared : Shared} (beneath : resolver.Beneath session others base uri)
    (played : resolver.InPlay session others uri)
    (gained : ∀ {name}, name ≠ uri.key → shared.owners.find? name = some base.context.task →
      base.shared.owners.find? name = some base.context.task)
    (path : TransGen (resolver.Leads session) uri next) :
    resolver.Beneath session others ⟨shared, base.context.enter uri.key⟩ next := by
  have step : resolver.Above session others uri.key next.key := ⟨uri, next, played, rfl, rfl, path⟩
  constructor
  · intro key owns
    by_cases same : key = uri.key
    · exact same ▸ step
    · exact untangled.above_trans (beneath.owned (gained same owns)) step
  · intro key member
    rcases List.mem_append.mp member with before | itself
    · exact untangled.above_trans (beneath.chained before) step
    · exact (List.mem_singleton.mp itself) ▸ step

theorem Done.of_kept {later : Session} {outcome : Except ReferenceError Resolved}
    (unsettled : ¬ session.shared.Settled uri.key) (clear : ¬ later.shared.Settled uri.key)
    (same : outcome = resolver.outcome session uri) :
    resolver.Done session (conclude uri outcome later).shared uri := by
  let noted := later.shared.note (.ended later.context.task uri outcome)
  have clear : ¬ noted.Settled uri.key := clear
  have kept : (conclude uri outcome later).shared.Settled uri.key ↔
      (noted.keep uri.key outcome).Settled uri.key := Iff.rfl
  by_cases lasts : (Event.ended 0 uri outcome).lasts
  · exact .inl (kept.mpr (settled_keep clear lasts))
  · exact .inr ⟨unsettled, by rw [← same]; simpa using lasts⟩

/-- What a fetch has done for its key by the time that it ends. -/
structure Fetched (resolver : Resolver) (session now : Session) (uri : Uri)
    (outcome : Except ReferenceError Resolved) (later : Session) : Prop where
  same : outcome = resolver.outcome session uri
  done : ∀ next ∈ resolver.demands session uri, resolver.Done session later.shared next
  entries : ∃ events opening,
    session.shared.deeds later.shared now.context.task =
      (events ++ opening) ++ session.shared.deeds now.shared now.context.task ∧
    Event.closed opening = [] ∧
    (opening.filterMap Event.asked?).length = (if resolver.isHandled uri then 1 else 0) ∧
    resolver.Balanced session (resolver.demands session uri) events ∧
    later.context.diagnostics.Perm (now.context.diagnostics ++ (resolver.remarks session uri ++
      (Event.closed events).flatMap (resolver.remarks session)))

namespace Fetched
variable {now later : Session} {outcome : Except ReferenceError Resolved}

/-- A fetch that finds no value asks for nothing else. -/
theorem still {opening : List Event}
    (shallow : resolver.Shallow session resolver.maxDepth uri)
    (script : resolver.script session (resolver.outcome session) uri = (outcome, stage session))
    (deeds : session.shared.deeds later.shared now.context.task =
      opening ++ session.shared.deeds now.shared now.context.task)
    (opens : Event.closed opening = [])
    (heard : (opening.filterMap Event.asked?).length = if resolver.isHandled uri then 1 else 0)
    (diagnostics : later.context.diagnostics = now.context.diagnostics) :
    resolver.Fetched session now uri outcome later := by
  have demands : resolver.demands session uri = [] := by rw [Resolver.demands, script]; rfl
  have remarks : resolver.remarks session uri = [] := by rw [Resolver.remarks, script]; rfl
  constructor
  · rw [outcome_eq shallow, script]
  · simp [demands]
  · refine ⟨[], opening, deeds, opens, heard, demands ▸ .nothing (by simp), ?_⟩
    rw [remarks, diagnostics]
    simp [Event.closed]

theorem expanded {mid : Session} {value : Resolved} {opening : List Event}
    (shallow : resolver.Shallow session resolver.maxDepth uri)
    (script : resolver.script session (resolver.outcome session) uri =
      (resolver.expand (echo (resolver.outcome session)) value).run.alone (stage session))
    (same : outcome =
      ((resolver.expand (echo (resolver.outcome session)) value).run.alone (stage session)).1)
    (reflects : resolver.Reflects session mid later (stage session)
      ((resolver.expand (echo (resolver.outcome session)) value).run.alone (stage session)).2)
    (task : mid.context.task = now.context.task)
    (deeds : session.shared.deeds mid.shared now.context.task =
      opening ++ session.shared.deeds now.shared now.context.task)
    (opens : Event.closed opening = [])
    (heard : (opening.filterMap Event.asked?).length = if resolver.isHandled uri then 1 else 0)
    (diagnostics : mid.context.diagnostics = now.context.diagnostics) :
    resolver.Fetched session now uri outcome later := by
  obtain ⟨_, requests, own, asked, recorded, ledger⟩ := reflects
  obtain ⟨events, did, balanced, perm⟩ := ledger.entries
  have demands : resolver.demands session uri = requests := by
    rw [Resolver.demands, script, asked]
    exact List.append_nil requests
  have remarks : resolver.remarks session uri = own := by
    rw [Resolver.remarks, script, recorded]
    rfl
  constructor
  · rw [outcome_eq shallow, script, same]
  · rw [demands]
    exact ledger.done
  · refine ⟨events, opening, ?_, opens, heard, demands ▸ balanced, ?_⟩
    · rw [task, deeds, ← List.append_assoc] at did
      exact did
    · rw [remarks, ← diagnostics]
      exact perm

theorem conclude (fetched : resolver.Fetched session now uri outcome later)
    (grown : session.shared.history <:+ later.shared.history)
    (task : later.context.task = now.context.task)
    (done : resolver.Done session (conclude uri outcome later).shared uri) :
    resolver.Ledger session now (conclude uri outcome later) [uri] [] := by
  obtain ⟨_, _, events, opening, deeds, opens, heard, balanced, recorded⟩ := fetched
  refine ⟨task, by simpa using done, _, ?_, balanced.close opens heard later.context.task outcome, ?_⟩
  · have mine : (Event.ended later.context.task uri outcome).task = now.context.task := task
    have history : (Resolver.conclude uri outcome later).shared.history =
        (later.shared.note (.ended later.context.task uri outcome)).history := keep_history outcome
    rw [deeds_congr history, deeds_note grown, if_pos mine, deeds]
    rfl
  · have closed : Event.closed (.ended later.context.task uri outcome :: (events ++ opening)) =
        uri :: Event.closed events := by
      show uri :: Event.closed (events ++ opening) = _
      rw [Event.closed_append, opens, List.append_nil]
    rw [closed, List.flatMap_cons]
    exact recorded

end Fetched

namespace Untangled

/-- The task stands as before, the reference has the outcome that its script tells, and the ledger
charges its resolution to one request. -/
def Performed (resolver : Resolver) (session : Session) (others : List Uri) (now : Session)
    (uri : Uri) (outcome : Except ReferenceError Resolved) (later : Session) : Prop :=
  (Policy.scripted resolver session others).Within now later ∧
    outcome = resolver.outcome session uri ∧ resolver.Ledger session now later [uri] []

/-- References that are in play and have short enough chains are resolved as their scripts tell. -/
def Performs (resolver : Resolver) (session : Session) (others : List Uri) (room : Nat)
    (resolve : Uri → Resolving Resolved) : Prop :=
  ∀ {uri}, resolver.InPlay session others uri → resolver.Shallow session room uri →
    ∀ {now : Session}, (Policy.scripted resolver session others).Sound now.shared →
      session.context.Fellow now.context → now.shared.Fit now.context.task →
      resolver.Beneath session others now uri →
      Program.Safe (.scripted resolver session others) (Performed resolver session others now uri)
        (resolve uri).run now

private theorem Performs.mirrors {room : Nat} {resolve : Uri → Resolving Resolved}
    (performs : Performs resolver session others room resolve)
    (played : resolver.InPlay session others uri)
    (shallow : resolver.Shallow session room uri) {base : Session}
    (usual : session.context.Fellow base.context) (fit : base.shared.Fit base.context.task)
    (beneath : resolver.Beneath session others base uri) :
    resolver.Mirrors session others base (fun value => resolver.outcome session uri = .ok value)
      (fun error => resolver.outcome session uri = .error error)
      (resolve uri) (echo (resolver.outcome session) uri) := by
  intro now sound within mirror fellow
  have safe := performs played shallow sound (usual.trans within.context.fellow) (within.fit fit)
    (beneath.within within)
  refine safe.mono sound fun {outcome later} _ ⟨inside, told, ledger⟩ => ?_
  refine ⟨inside, ?_, told, ⟨fellow, [uri], [], rfl, (List.append_nil _).symm, ledger⟩⟩
  cases outcome <;> exact told.symm

private theorem not_late (untangled : resolver.Untangled session others) {answer : Answer}
    (answers : resolver.answer? session.context uri = some answer) : ¬ resolver.IsLate answer := by
  rintro (nothing | ⟨hurried, turns⟩)
  · exact untangled.prompt.answers answers nothing
  · have none := untangled.prompt.inTime answers hurried
    omega

private theorem asked_of_answer {answer : Answer} {context : Context}
    (answers : resolver.answer? context uri = some answer) (task : Nat) :
    ([Event.asked task uri].filterMap Event.asked?).length =
      if resolver.isHandled uri then 1 else 0 := by
  have answered : resolver.isHandled uri = true := by
    rw [isHandled, ← Option.isSome_map, ← answer?, answers]
    rfl
  rw [if_pos answered]
  rfl

private theorem deeds_asking {now later : Session} {shared : Shared}
    (sound : (Policy.scripted resolver session others).Sound shared)
    (gained : Gained session.shared now.context.task uri.key now.shared shared)
    (resumes : (Policy.scripted resolver session others).Resumes (asking now shared uri) later) :
    session.shared.deeds later.shared now.context.task =
      [.asked now.context.task uri] ++ session.shared.deeds now.shared now.context.task := by
  have mine : (Event.asked now.context.task uri).task = (asking now shared uri).context.task := rfl
  refine resumes.aside.deeds.trans ((deeds_note sound.grown _).trans ?_)
  rw [if_pos mine]
  exact congrArg (_ :: ·) gained.deeds

private theorem agrees_below (untangled : resolver.Untangled session others) {room : Nat}
    {resolve : Uri → Resolving Resolved} (performs : Performs resolver session others room resolve)
    (played : resolver.InPlay session others uri)
    (shallow : resolver.Shallow session (room + 1) uri) {base : Session}
    (fellow : session.context.Fellow base.context) (fit : base.shared.Fit base.context.task)
    (beneath : ∀ {next}, TransGen (resolver.Leads session) uri next →
      resolver.Beneath session others base next) :
    (mirroring resolver session others fellow).Agree (TransGen (resolver.Leads session) uri)
      (fun _ => True) resolve (echo (resolver.outcome session)) := by
  intro next path
  have mirrors := performs.mirrors (played.below path) (shallow.below path) fellow fit (beneath path)
  refine mirrors.mono (fun {after} told => ?_) fun _ _ => trivial
  refine ⟨fun other opens => path.trans ?_, trivial⟩
  exact opens_outcome (untangled.fits (played.below path)) told opens

private theorem fetch_safe (untangled : resolver.Untangled session others) {room : Nat}
    {resolve : Uri → Resolving Resolved} (performs : Performs resolver session others room resolve)
    (played : resolver.InPlay session others uri)
    (shallow : resolver.Shallow session (room + 1) uri) {now : Session} {shared : Shared}
    (usual : session.context.Fellow now.context) (fit : now.shared.Fit now.context.task)
    (beneath : resolver.Beneath session others now uri)
    (sound : (Policy.scripted resolver session others).Sound shared)
    (gained : Gained session.shared now.context.task uri.key now.shared shared) :
    Program.Safe (.scripted resolver session others) (fun outcome later =>
        Begun session.shared (resolver.isHandled ·) now.context.task uri now.shared later.shared ∧
          (now.context.enter uri.key).Like later.context ∧
          (¬ resolver.isHandled uri → outcome = .error (.unsupportedProtocol uri.protocol uri.key)) ∧
          resolver.Fetched session now uri outcome later)
      (resolver.fetch resolve uri).run ⟨shared, now.context.enter uri.key⟩ := by
  have fits := untangled.fits played
  have unsettled := sound.chronicle.unsettled_at_start gained.unsettled
  have diagnostics {later : Session}
      (resumes : (Policy.scripted resolver session others).Resumes (asking now shared uri) later) :
      later.context.diagnostics = now.context.diagnostics := by
    rw [resumes.context]
    rfl
  refine Resolver.fetch_safe (resolver.Fetched session now uri) Iff.rfl usual sound gained
    (fun answers nothing => False.elim (untangled.prompt.answers answers nothing)) ?_
    (fun answers isLate _ => False.elim (untangled.not_late answers isLate)) ?_ ?_
  · intro unanswered
    have alone : resolver.isHandled uri = false := by
      rw [isHandled, answer?_eq_none.mp unanswered]
      rfl
    have deeds : session.shared.deeds shared now.context.task =
        [] ++ session.shared.deeds now.shared now.context.task := gained.deeds
    exact .still fits (script_of_unanswered unsettled unanswered) deeds rfl (by simp [alone]) rfl
  · intro answer error later answers refused resumes
    exact .still fits (script_of_refusal unsettled answers refused) (deeds_asking sound gained resumes)
      rfl (asked_of_answer answers _) (diagnostics resumes)
  · intro answer value later answers found begun sound' resumes
    have within := (Policy.Within.refl _ _).resumes resumes
    have fellow : session.context.Fellow (asking now shared uri).context :=
      usual.trans ⟨rfl, rfl, rfl, rfl⟩
    have below {next : Uri} (path : TransGen (resolver.Leads session) uri next) :
        resolver.Beneath session others (asking now shared uri) next :=
      beneath.enter untangled played (fun different owns => gained.others different owns) path
    have expands := expand_rel (mirroring resolver session others fellow)
      (untangled.agrees_below performs played shallow fellow (begun.fit fit) below) resolver
      fun next opens => .single (leads_of_found unsettled answers found opens)
    refine (expands later sound' within (stage session) ⟨rfl, rfl, rfl, rfl⟩).mono sound'
      fun {outcome last} _ ⟨inside, _, same, reflects⟩ => ⟨within.trans inside, ?_⟩
    have task : later.context.task = now.context.task := by rw [resumes.context]; rfl
    exact .expanded fits (script_of_found unsettled answers found) same reflects task
      (deeds_asking sound gained resumes) rfl (asked_of_answer answers _) (diagnostics resumes)

private theorem known {now later : Session} {outcome : Except ReferenceError Resolved}
    (told : outcome = resolver.outcome session uri ∧ ¬ resolver.Fleeting session uri)
    (resumes : (Policy.scripted resolver session others).Resumes now later)
    (settled : later.shared.Settled uri.key) :
    Performed resolver session others now uri outcome later := by
  refine ⟨(Policy.Within.refl _ _).resumes resumes, told.1, ?_⟩
  refine .still (congrArg Context.task resumes.context) resumes.aside.deeds ?_ ?_ ?_
  · rw [resumes.context, List.append_nil]
  · exact fun _ member => (List.mem_singleton.mp member) ▸ .inl settled
  · exact fun _ member => (List.mem_singleton.mp member) ▸ told.2

/-- However many references may be on the way, those in play follow their scripts. -/
theorem performs (untangled : resolver.Untangled session others) (room : Nat) :
    Performs resolver session others room (resolver.resolveWithin room) := by
  -- The induction is on the room; a reference that has none left is not in question.
  induction room with
  | zero => exact fun _ shallow => False.elim shallow
  | succ room ih =>
    intro uri played shallow now sound usual fit beneath
    refine resolveBy_safe sound fit (fun _ => beneath.owned) ?_ ?_ ?_ ?_ ?_ ?_ ?_
    · intro value later resumes found
      exact known (untangled.value played resumes.sound found) resumes (.inl (by simp [found]))
    · intro error later resumes unknown found
      exact known (untangled.failure played resumes.sound unknown found) resumes
        (.inr (by simp [found]))
    · intro cycle closed
      have outside : uri.key ∉ now.context.resolving :=
        fun member => untangled.not_above_itself _ (beneath.chained member)
      rw [Context.cycle?_eq_none_iff.mpr outside] at closed
      cases closed
    · exact fun none => nomatch none
    · intro _ _ circle
      rw [sound.not_wouldCycle untangled.not_above_closed beneath.owned] at circle
      cases circle
    · exact fun expires => False.elim expires
    · rintro fetch ⟨shared, context⟩ given same sound gained
      cases same
      cases given
      refine fetchOwned_safe now sound ?_
      refine (untangled.fetch_safe ih played shallow usual fit beneath sound gained).mono sound
        fun {outcome later} sound ⟨begun, like, _, fetched⟩ => ?_
      have task : later.context.task = now.context.task := by rw [like]; rfl
      have unsettled := sound.chronicle.unsettled_at_start begun.unsettled
      refine ⟨begun, like, ⟨played, fetched.same, fun next member => ?_⟩, fun ended => ?_⟩
      · exact (fetched.done next member).grows begun.touches_finished.grows
      · exact ⟨ended, fetched.same, fetched.conclude sound.grown task
          (.of_kept unsettled begun.unsettled fetched.same)⟩

end Untangled

end Resolver
end LinkedMarkup
