import LinkedMarkup.Proofs.Resolution.Dependencies
import LinkedMarkup.Proofs.Resolution.Expansion
import LinkedMarkup.Proofs.Tasks.Chronicle
/-! What references resolve to when no chain of them is too long or comes back to itself. The value
of a reference is expanded as in a rehearsal, where an oracle says at once what each reference in it
resolves to. -/
namespace LinkedMarkup

theorem Program.alone_bind {σ α β : Type} (f : α → Program σ β) (program : Program σ α) (s : σ) :
    (program.bind f).alone s = (f (program.alone s).1).alone (program.alone s).2 := by
  induction program generalizing s with
  | done a => rfl
  | read next ih => exact ih s s
  | change update next ih => exact ih (update s)
  | pause next ih => exact ih s
  | await ready limit next late ihNext ihLate =>
    simp only [bind, alone]
    split
    · exact ihNext s
    · exact ihLate s

namespace Resolving
variable {α β : Type}

theorem alone_bind (first : Resolving α) (next : α → Resolving β) (s : Session) :
    (first >>= next).run.alone s = match first.run.alone s with
      | (.ok result, later) => (next result).run.alone later
      | (.error cause, later) => (.error cause, later) := by
  refine (Program.alone_bind _ first.run s).trans ?_
  rcases first.run.alone s with ⟨outcome, later⟩
  cases outcome <;> rfl

theorem alone_map (f : α → β) (first : Resolving α) (s : Session) :
    (f <$> first).run.alone s = ((first.run.alone s).1.map f, (first.run.alone s).2) := by
  refine (Program.alone_bind _ first.run s).trans ?_
  rcases first.run.alone s with ⟨outcome, later⟩
  cases outcome <;> rfl

theorem alone_tryCatch (first : Resolving α) (handle : ReferenceError → Resolving α)
    (s : Session) :
    (tryCatch first handle).run.alone s = match first.run.alone s with
      | (.ok result, later) => (.ok result, later)
      | (.error cause, later) => (handle cause).run.alone later := by
  refine (Program.alone_bind _ first.run s).trans ?_
  rcases first.run.alone s with ⟨outcome, later⟩
  cases outcome <;> rfl

theorem alone_tolerate (error : ReferenceError) (position : Span) (s : Session) :
    (tolerate error position).run.alone s =
      match s.context.report ((Diagnostic.ofReference error).placedAt position) with
      | .ok context => (.ok (), { s with context })
      | .error _ => (.error error, s) := by
  refine (Program.alone.eq_2 _ _).trans ?_
  cases s.context.report ((Diagnostic.ofReference error).placedAt position) <;> rfl

end Resolving

namespace Resolver
variable {resolver : Resolver} {session : Session} {uri next : Uri} {room : Nat}

/-- No chain of references from here has more than so many keys. -/
def Shallow (resolver : Resolver) (session : Session) : Nat → Uri → Prop
  | 0, _ => False
  | room + 1, uri => ∀ next, resolver.Leads session uri next → Shallow resolver session room next

theorem Shallow.succ (shallow : resolver.Shallow session room uri) :
    resolver.Shallow session (room + 1) uri := by
  induction room generalizing uri with
  | zero => exact False.elim shallow
  | succ room ih => exact fun next leads => ih (shallow next leads)

theorem Shallow.mono {more : Nat} (shallow : resolver.Shallow session room uri)
    (le : room ≤ more) : resolver.Shallow session more uri := by
  induction le with
  | refl => exact shallow
  | step _ ih => exact ih.succ

theorem Shallow.below (shallow : resolver.Shallow session (room + 1) uri)
    (below : Relation.TransGen (resolver.Leads session) uri next) :
    resolver.Shallow session room next := by
  induction below with
  | single leads => exact shallow _ leads
  | tail _ leads ih =>
    cases room with
    | zero => exact False.elim ih
    | succ room => exact (ih _ leads).succ

/-- A chain that is bounded does not come back to itself. -/
theorem Shallow.acyclic (shallow : resolver.Shallow session room uri) :
    ¬ Relation.TransGen (resolver.Leads session) uri uri := by
  intro cycle
  induction room with
  | zero => exact shallow
  | succ room ih => exact ih (shallow.below cycle)

/-- Note that the reference was asked for, and give what the oracle says. -/
def echo (oracle : Uri → Except ReferenceError Resolved) (uri : Uri) : Resolving Resolved :=
  ExceptT.mk (.change (·.note (.asked 0 uri)) (.done (oracle uri)))

def stage (session : Session) : Session := ⟨{}, { session.context with diagnostics := [] }⟩

/-- What a reference resolves to when an oracle says what other references resolve to, and the
session of the rehearsal, which tells what was asked for and recorded in it. -/
def script (resolver : Resolver) (session : Session) (oracle : Uri → Except ReferenceError Resolved)
    (uri : Uri) : Except ReferenceError Resolved × Session :=
  match session.shared.results.find? uri.key, session.shared.failures.find? uri.key with
  | some value, _ => (.ok value, stage session)
  | none, some error => (.error error, stage session)
  | none, none =>
    match resolver.answer? session.context uri with
    | none => (.error (.unsupportedProtocol uri.protocol uri.key), stage session)
    | some answer =>
      match answer.outcome? with
      | none => (.error (.timeout uri.key resolver.timeout), stage session)
      | some (.error error) => (.error error, stage session)
      | some (.ok value) => (resolver.expand (echo oracle) value).run.alone (stage session)

/-- What a reference resolves to if no chain from it has more than so many keys. -/
def outcomeWithin (resolver : Resolver) (session : Session) :
    Nat → Uri → Except ReferenceError Resolved
  | 0, uri => .error (.depthExceeded uri.key resolver.maxDepth)
  | room + 1, uri => (resolver.script session (outcomeWithin resolver session room) uri).1

/-- What a reference resolves to if no chain from it is too long. -/
def outcome (resolver : Resolver) (session : Session) : Uri → Except ReferenceError Resolved :=
  resolver.outcomeWithin session resolver.maxDepth

/-- The references that the resolution of a reference asks for in its turn. -/
def demands (resolver : Resolver) (session : Session) (uri : Uri) : List Uri :=
  (resolver.script session (resolver.outcome session) uri).2.shared.asked

/-- The diagnostics that the resolution of a reference records itself. -/
def remarks (resolver : Resolver) (session : Session) (uri : Uri) : List Diagnostic :=
  (resolver.script session (resolver.outcome session) uri).2.context.diagnostics

/-- A rehearsal goes on in its mode and asks for known references only. -/
structure Follows (mode : Mode) (known : Uri → Prop) (before after : Session) : Prop where
  mode : after.context.mode = mode
  asks : ∀ uri ∈ after.shared.asked, uri ∈ before.shared.asked ∨ known uri

theorem Follows.refl {mode : Mode} {known : Uri → Prop} {s : Session}
    (usual : s.context.mode = mode) : Follows mode known s s :=
  ⟨usual, fun _ => .inl⟩

theorem Follows.trans {mode : Mode} {known : Uri → Prop} {before after last : Session}
    (first : Follows mode known before after) (second : Follows mode known after last) :
    Follows mode known before last :=
  ⟨second.mode, fun uri member => (second.asks uri member).elim (first.asks uri) .inr⟩

/-- Two resolutions do the same in the mode of a document when they run alone. -/
def Echoes (mode : Mode) (known : Uri → Prop) {α : Type} (ok : α → Prop)
    (error : ReferenceError → Prop) (first second : Resolving α) : Prop :=
  ∀ s : Session, s.context.mode = mode → first.run.alone s = second.run.alone s ∧
    Follows mode known s (first.run.alone s).2 ∧ Meets ok error (first.run.alone s).1

namespace Echoes
variable {mode : Mode} {known : Uri → Prop} {α β : Type} {ok mid : α → Prop} {last : β → Prop}
  {error fails : ReferenceError → Prop} {first second : Resolving α}

private theorem bind {next following : α → Resolving β}
    (echoes : Echoes mode known mid error first second)
    (rest : ∀ {result}, mid result →
      Echoes mode known last error (next result) (following result)) :
    Echoes mode known last error (first >>= next) (second >>= following) := by
  intro s usual
  obtain ⟨same, follows, meets⟩ := echoes s usual
  rw [Resolving.alone_bind, Resolving.alone_bind, ← same]
  generalize first.run.alone s = ran at follows meets
  obtain ⟨outcome, later⟩ := ran
  cases outcome with
  | ok result =>
    obtain ⟨again, goesOn, ends⟩ := rest meets later follows.mode
    exact ⟨again, follows.trans goesOn, ends⟩
  | error cause => exact ⟨rfl, follows, meets⟩

private theorem tryCatch {handle cope : ReferenceError → Resolving α}
    (echoes : Echoes mode known ok fails first second)
    (copes : ∀ {cause}, fails cause →
      Echoes mode known ok error (handle cause) (cope cause)) :
    Echoes mode known ok error (tryCatch first handle) (tryCatch second cope) := by
  intro s usual
  obtain ⟨same, follows, meets⟩ := echoes s usual
  rw [Resolving.alone_tryCatch, Resolving.alone_tryCatch, ← same]
  generalize first.run.alone s = ran at follows meets
  obtain ⟨outcome, later⟩ := ran
  cases outcome with
  | ok result => exact ⟨rfl, follows, meets⟩
  | error cause =>
    obtain ⟨again, goesOn, ends⟩ := copes meets later follows.mode
    exact ⟨again, follows.trans goesOn, ends⟩

private theorem tolerate (cause : ReferenceError) (position : Span) :
    Echoes mode known (fun _ => Tolerated mode cause) (fun error => ¬ Tolerated mode error)
      (Resolving.tolerate cause position) (Resolving.tolerate cause position) := by
  intro s usual
  refine ⟨rfl, ?_⟩
  rw [Resolving.alone_tolerate, ← usual]
  rcases s.context.report_ofReference cause position with
    ⟨tolerated, reported⟩ | ⟨fatal, stop, reported⟩
  · rw [reported]
    exact ⟨⟨rfl, fun _ => .inl⟩, tolerated⟩
  · rw [reported]
    exact ⟨.refl rfl, fatal⟩

end Echoes

def echoing (mode : Mode) (known : Uri → Prop) : Congruence mode where
  rel := Echoes mode known
  mono echoes weaker s usual := by
    obtain ⟨same, follows, meets⟩ := echoes s usual
    exact ⟨same, follows, meets.imp weaker id⟩
  pure holds s usual := ⟨rfl, .refl usual, holds⟩
  throw holds s usual := ⟨rfl, .refl usual, holds⟩
  bind := Echoes.bind
  tryCatch := Echoes.tryCatch
  tolerate := Echoes.tolerate
  warn _ s usual := ⟨rfl, ⟨usual, fun _ => .inl⟩, trivial⟩
  cutOff := by
    intro ok error nodes holds s usual
    rw [cutOff]
    split
    · exact ⟨rfl, ⟨usual, fun _ => .inl⟩, holds⟩
    · exact ⟨rfl, .refl usual, holds⟩

section Scripts
variable {oracle again : Uri → Except ReferenceError Resolved} {value : Resolved}
  {error : ReferenceError} {answer : Answer}

theorem script_of_value (known : session.shared.results.find? uri.key = some value) :
    resolver.script session oracle uri = (.ok value, stage session) := by
  simp only [script, known]

theorem script_of_failure (unknown : session.shared.results.find? uri.key = none)
    (failed : session.shared.failures.find? uri.key = some error) :
    resolver.script session oracle uri = (.error error, stage session) := by
  simp only [script, unknown, failed]

variable (unsettled : ¬ session.shared.Settled uri.key)
include unsettled

theorem script_of_unanswered (nobody : resolver.answer? session.context uri = none) :
    resolver.script session oracle uri =
      (.error (.unsupportedProtocol uri.protocol uri.key), stage session) := by
  obtain ⟨unknown, sound⟩ := Shared.not_settled.mp unsettled
  simp only [script, unknown, sound, nobody]

variable (answers : resolver.answer? session.context uri = some answer)
include answers

theorem script_of_silence (nothing : answer.outcome? = none) :
    resolver.script session oracle uri =
      (.error (.timeout uri.key resolver.timeout), stage session) := by
  obtain ⟨unknown, sound⟩ := Shared.not_settled.mp unsettled
  simp only [script, unknown, sound, answers]
  rw [nothing]

theorem script_of_refusal (refused : answer.outcome? = some (.error error)) :
    resolver.script session oracle uri = (.error error, stage session) := by
  obtain ⟨unknown, sound⟩ := Shared.not_settled.mp unsettled
  simp only [script, unknown, sound, answers]
  rw [refused]

theorem script_of_found (found : answer.outcome? = some (.ok value)) :
    resolver.script session oracle uri =
      (resolver.expand (echo oracle) value).run.alone (stage session) := by
  obtain ⟨unknown, sound⟩ := Shared.not_settled.mp unsettled
  simp only [script, unknown, sound, answers]
  rw [found]

theorem leads_of_found (found : answer.outcome? = some (.ok value)) (opens : next ∈ value.opens) :
    resolver.Leads session uri next := by
  obtain ⟨unknown, sound⟩ := Shared.not_settled.mp unsettled
  refine ⟨value, ?_, opens⟩
  simp only [found?, unknown, sound, answers, Option.bind_some, found]
  rfl

end Scripts

variable {oracle again : Uri → Except ReferenceError Resolved}

private def AgreeBelow (resolver : Resolver) (session : Session) (uri : Uri)
    (again oracle : Uri → Except ReferenceError Resolved) : Prop :=
  ∀ {next}, Relation.TransGen (resolver.Leads session) uri next →
    again next = oracle next ∧ ∀ {value}, oracle next = .ok value →
      ∀ other ∈ value.opens, Relation.TransGen (resolver.Leads session) next other

private def AsksBelow (resolver : Resolver) (session : Session) (uri : Uri)
    (ran : Except ReferenceError Resolved × Session) : Prop :=
  (∀ {value}, ran.1 = .ok value →
    ∀ next ∈ value.opens, Relation.TransGen (resolver.Leads session) uri next) ∧
  ∀ next ∈ ran.2.shared.asked, Relation.TransGen (resolver.Leads session) uri next

private theorem expand_congr (agree : resolver.AgreeBelow session uri again oracle)
    {value : Resolved}
    (leads : ∀ next ∈ value.opens, Relation.TransGen (resolver.Leads session) uri next) :
    (resolver.expand (echo again) value).run.alone (stage session) =
        (resolver.expand (echo oracle) value).run.alone (stage session) ∧
      resolver.AsksBelow session uri
        ((resolver.expand (echo oracle) value).run.alone (stage session)) := by
  let below := Relation.TransGen (resolver.Leads session) uri
  have echoes : (echoing session.context.mode below).Agree below (fun _ => True)
      (echo again) (echo oracle) := by
    intro next path s usual
    obtain ⟨same, opens⟩ := agree path
    refine ⟨?_, ⟨usual, fun other member => ?_⟩, ?_⟩
    · show (again next, s.note _) = (oracle next, s.note _)
      rw [same]
    · rcases List.mem_cons.mp member with here | before
      · exact .inr (here ▸ path)
      · exact .inl before
    · show Meets _ _ (again next)
      rw [same]
      cases told : oracle next with
      | error cause => exact fun _ => trivial
      | ok value => exact ⟨fun other member => path.trans (opens told other member), trivial⟩
  obtain ⟨same, follows, meets⟩ := expand_rel _ echoes resolver leads (stage session) rfl
  refine ⟨same, fun {after} told => ?_, fun next member => ?_⟩
  · rw [same, told] at meets
    exact meets.1
  · rw [← same] at member
    exact (follows.asks next member).resolve_left List.not_mem_nil

private theorem script_congr (agree : resolver.AgreeBelow session uri again oracle) :
    resolver.script session again uri = resolver.script session oracle uri ∧
      resolver.AsksBelow session uri (resolver.script session oracle uri) := by
  have silent : ∀ next ∈ (stage session).shared.asked,
      Relation.TransGen (resolver.Leads session) uri next :=
    fun _ member => absurd member List.not_mem_nil
  have still (error : ReferenceError) :
      resolver.AsksBelow session uri (.error error, stage session) :=
    ⟨(nomatch ·), silent⟩
  cases known : session.shared.results.find? uri.key with
  | some value =>
    rw [script_of_value known, script_of_value known]
    refine ⟨rfl, fun same next opens => .single ⟨value, ?_, ?_⟩, silent⟩
    · simp only [found?, known]
    · cases same
      exact opens
  | none =>
    cases failed : session.shared.failures.find? uri.key with
    | some error =>
      rw [script_of_failure known failed, script_of_failure known failed]
      exact ⟨rfl, still _⟩
    | none =>
      have unsettled := Shared.not_settled.mpr ⟨known, failed⟩
      cases answers : resolver.answer? session.context uri with
      | none =>
        rw [script_of_unanswered unsettled answers, script_of_unanswered unsettled answers]
        exact ⟨rfl, still _⟩
      | some answer =>
        cases found : answer.outcome? with
        | none =>
          rw [script_of_silence unsettled answers found, script_of_silence unsettled answers found]
          exact ⟨rfl, still _⟩
        | some outcome =>
          cases outcome with
          | error error =>
            rw [script_of_refusal unsettled answers found,
              script_of_refusal unsettled answers found]
            exact ⟨rfl, still _⟩
          | ok value =>
            rw [script_of_found unsettled answers found, script_of_found unsettled answers found]
            exact expand_congr agree fun next opens =>
              .single (leads_of_found unsettled answers found opens)

/-- More room makes no difference to a reference whose chains fit in. -/
private theorem outcomeWithin_stable (shallow : resolver.Shallow session room uri) :
    (∀ {more}, room ≤ more →
      resolver.outcomeWithin session more uri = resolver.outcomeWithin session room uri) ∧
      ∀ {value}, resolver.outcomeWithin session room uri = .ok value →
        ∀ next ∈ value.opens, Relation.TransGen (resolver.Leads session) uri next := by
  induction room generalizing uri with
  | zero => exact False.elim shallow
  | succ room ih =>
    constructor
    · intro more le
      obtain ⟨more, rfl⟩ : ∃ some, more = some + 1 := ⟨more - 1, by omega⟩
      have agree : resolver.AgreeBelow session uri (resolver.outcomeWithin session more)
          (resolver.outcomeWithin session room) := by
        intro next path
        obtain ⟨stable, opens⟩ := ih (shallow.below path)
        exact ⟨stable (by omega), opens⟩
      exact congrArg Prod.fst (script_congr agree).1
    · intro value told
      have agree : resolver.AgreeBelow session uri (resolver.outcomeWithin session room)
          (resolver.outcomeWithin session room) :=
        fun path => ⟨rfl, (ih (shallow.below path)).2⟩
      exact (script_congr agree).2.1 told

/-- Below a reference whose chains are not too long the outcomes are their own oracle. -/
private theorem agreeBelow_outcome (shallow : resolver.Shallow session (room + 1) uri)
    (le : room ≤ resolver.maxDepth) :
    resolver.AgreeBelow session uri (resolver.outcome session)
      (resolver.outcomeWithin session room) := by
  intro next path
  obtain ⟨stable, opens⟩ := outcomeWithin_stable (shallow.below path)
  exact ⟨stable le, opens⟩

variable (shallow : resolver.Shallow session resolver.maxDepth uri)
include shallow

private theorem depth_of_shallow : ∃ room, resolver.maxDepth = room + 1 := by
  cases depth : resolver.maxDepth with
  | zero =>
    rw [depth] at shallow
    exact False.elim shallow
  | succ room => exact ⟨room, rfl⟩

/-- What a reference resolves to is told by its script. -/
theorem outcome_eq : resolver.outcome session uri =
    (resolver.script session (resolver.outcome session) uri).1 := by
  obtain ⟨room, depth⟩ := depth_of_shallow shallow
  rw [depth] at shallow
  rw [(script_congr (agreeBelow_outcome shallow (by omega))).1, outcome, depth]
  rfl

/-- The value of a reference leads on only to what the reference leads to. -/
theorem opens_outcome {value : Resolved} (told : resolver.outcome session uri = .ok value)
    (opens : next ∈ value.opens) : Relation.TransGen (resolver.Leads session) uri next := by
  exact (outcomeWithin_stable shallow).2 told next opens

/-- A reference asks only for what it leads to. -/
theorem demands_below (member : next ∈ resolver.demands session uri) :
    Relation.TransGen (resolver.Leads session) uri next := by
  obtain ⟨room, depth⟩ := depth_of_shallow shallow
  rw [depth] at shallow
  obtain ⟨same, _, asks⟩ := script_congr (agreeBelow_outcome shallow (by omega))
  rw [demands, same] at member
  exact asks next member

end Resolver
end LinkedMarkup
