import LinkedMarkup.Proofs.Resolution.Growth
import LinkedMarkup.Proofs.Resolution.Restoration
/-! Resolutions whose outcomes are good as long as the outcomes that others leave behind are good.
Nothing is asked of locks: a task may find any lock held, and wait in vain. -/
namespace LinkedMarkup
open Shared

theorem Shared.cutOff_keep (shared : Shared) (key : String)
    (outcome : Except ReferenceError Resolved) : (shared.keep key outcome).cutOff = shared.cutOff := by
  cases outcome with
  | ok value => rfl
  | error error => simp only [keep, storeFailure]; split <;> rfl

/-- Diagnostics have only been added in the mode of the document, and a cut stays noted. -/
structure Session.Adds (before after : Session) : Prop where
  mode : after.context.mode = before.context.mode
  diagnostics : before.context.diagnostics ⊆ after.context.diagnostics
  cutOff : before.shared.cutOff = true → after.shared.cutOff = true

namespace Session.Adds
variable {before after last : Session}

theorem refl (session : Session) : Adds session session := ⟨rfl, List.Subset.refl _, id⟩

theorem trans (first : Adds before after) (second : Adds after last) : Adds before last :=
  ⟨second.mode.trans first.mode, fun _ member => second.diagnostics (first.diagnostics member),
    second.cutOff ∘ first.cutOff⟩

end Session.Adds

/-- What tasks take care of: the outcomes that they leave behind for known references are good. A
task that has come to a session that counts as lost need not care any more. -/
structure Care where
  known : Uri → Prop
  good : Uri → Except ReferenceError Resolved → Prop
  /-- The key has had an outcome from the start. -/
  settled : String → Prop
  lost : Session → Prop
  /-- A wait may be given up. -/
  expires : Prop

namespace Care

/-- All outcomes that are kept are good, and those from the start are still there. -/
structure Calm (care : Care) (shared : Shared) : Prop where
  settled : ∀ {key}, care.settled key → shared.Settled key
  value : ∀ {uri value}, care.known uri → shared.results.find? uri.key = some value →
    care.good uri (.ok value)
  failure : ∀ {uri error}, care.known uri → shared.results.find? uri.key = none →
    shared.failures.find? uri.key = some error → care.good uri (.error error)

theorem Calm.congr {care : Care} {before after : Shared} (calm : care.Calm before)
    (results : after.results = before.results) (failures : after.failures = before.failures) :
    care.Calm after where
  settled before := by
    rw [Settled, results, failures]
    exact calm.settled before
  value known found := calm.value known (results ▸ found)
  failure known unknown found := calm.failure known (results ▸ unknown) (failures ▸ found)

/-- A failure inside a tree may be passed over and leave nothing lost. -/
def Passes (care : Care) (mode : Mode) (error : ReferenceError) : Prop :=
  Resolver.Tolerated mode error ∧ ∃ (session : Session) (position : Span),
    session.context.mode = mode ∧
      ¬ care.lost (session.onContext fun context =>
        context.record (context.passedOver error position))

/-- Inherited children may be left as they are and leave nothing lost. -/
def Cuts (care : Care) : Prop :=
  ∃ session : Session, ¬ care.lost (session.onShared fun shared => { shared with cutOff := true })

/-- A known reference whose outcome has to be found. -/
structure Asks (care : Care) (uri : Uri) : Prop where
  known : care.known uri
  unsettled : ¬ care.settled uri.key

def outlook (care : Care) (resolver : Resolver) (mode : Mode) : Outlook where
  means := care.good
  passes := care.Passes mode
  tags := resolver.tags
  cuts := care.Cuts

end Care

namespace Program
variable {α β : Type} {care : Care} {post mid : α → Session → Prop} {program : Program Session α}
  {session : Session}

/-- Amid tasks that take care the program takes care as well, and ends with a result and a session
for which `post` holds. -/
def Amid (care : Care) (post : α → Session → Prop) : Program Session α → Session → Prop
  | done result, session => post result session
  | read next, session => Amid care post (next session) session
  | change update next, session => session.Adds (update session) ∧
      (care.lost (update session) ∨
        care.Calm (update session).shared ∧ Amid care post next (update session))
  | pause next, session => ∀ {shared}, care.Calm shared → Amid care post next ⟨shared, session.context⟩
  | await _ _ next late, session => ∀ {shared}, care.Calm shared →
      Amid care post next ⟨shared, session.context⟩ ∧
        (care.expires → Amid care post late ⟨shared, session.context⟩)

namespace Amid

theorem bind {f : α → Program Session β} {last : β → Session → Prop}
    (amid : Amid care mid program session)
    (rest : ∀ {result later}, mid result later → Amid care last (f result) later) :
    Amid care last (program.bind f) session := by
  induction program generalizing session with
  | done result => exact rest amid
  | read next ih => exact ih session amid
  | change update next ih => exact ⟨amid.1, amid.2.imp_right fun ⟨calm, goesOn⟩ => ⟨calm, ih goesOn⟩⟩
  | pause next ih => exact fun calm => ih (amid calm)
  | await ready limit next late ihNext ihLate =>
    exact fun calm => ⟨ihNext (amid calm).1, fun expires => ihLate ((amid calm).2 expires)⟩

theorem mono (amid : Amid care mid program session)
    (weaker : ∀ {result later}, mid result later → post result later) :
    Amid care post program session := by
  induction program generalizing session with
  | done result => exact weaker amid
  | read next ih => exact ih session amid
  | change update next ih => exact ⟨amid.1, amid.2.imp_right fun ⟨calm, goesOn⟩ => ⟨calm, ih goesOn⟩⟩
  | pause next ih => exact fun calm => ih (amid calm)
  | await ready limit next late ihNext ihLate =>
    exact fun calm => ⟨ihNext (amid calm).1, fun expires => ihLate ((amid calm).2 expires)⟩

theorem pauses {turns : Nat} (calm : care.Calm session.shared)
    (rest : ∀ {shared}, care.Calm shared → Amid care post program ⟨shared, session.context⟩) :
    Amid care post (pauses program turns) session := by
  induction turns generalizing session with
  | zero => exact rest calm
  | succ turns ih => exact fun calm => ih calm rest

end Amid
end Program

namespace Care
variable {care : Care} {base : Context} {α β : Type}

/-- A resolution that begins in a context like the base takes care amid other tasks that do, and its
context is like the base again in the end. -/
def Keeps (care : Care) (base : Context) (ok : α → Prop) (error : ReferenceError → Prop)
    (resolution : Resolving α) : Prop :=
  ∀ session, base.Like session.context → care.Calm session.shared →
    Program.Amid care (fun outcome later => base.Like later.context ∧ care.Calm later.shared ∧
      Meets ok error outcome) resolution.run session

namespace Keeps
variable {ok mid : α → Prop} {error : ReferenceError → Prop} {resolution : Resolving α}

theorem pure {result : α} (holds : ok result) : care.Keeps base ok error (Pure.pure result) :=
  fun _ like calm => ⟨like, calm, holds⟩

theorem throw {cause : ReferenceError} (holds : error cause) :
    care.Keeps base ok error (MonadExcept.throw cause : Resolving α) :=
  fun _ like calm => ⟨like, calm, holds⟩

theorem mono {fails : ReferenceError → Prop} (keeps : care.Keeps base mid fails resolution)
    (weaker : ∀ {result}, mid result → ok result) (softer : ∀ {cause}, fails cause → error cause) :
    care.Keeps base ok error resolution :=
  fun session like calm => (keeps session like calm).mono fun ⟨after, quiet, meets⟩ =>
    ⟨after, quiet, meets.imp weaker softer⟩

theorem bind {last : β → Prop} {next : α → Resolving β} (keeps : care.Keeps base mid error resolution)
    (rest : ∀ {result}, mid result → care.Keeps base last error (next result)) :
    care.Keeps base last error (resolution >>= next) :=
  fun session like calm => Program.Amid.bind (keeps session like calm)
    fun {outcome later} ⟨after, quiet, meets⟩ => by
      cases outcome with
      | ok result => exact rest meets later after quiet
      | error cause => exact ⟨after, quiet, meets⟩

theorem tryCatch {fails : ReferenceError → Prop} {handle : ReferenceError → Resolving α}
    (keeps : care.Keeps base ok fails resolution)
    (copes : ∀ {cause}, fails cause → care.Keeps base ok error (handle cause)) :
    care.Keeps base ok error (MonadExcept.tryCatch resolution handle) :=
  fun session like calm => Program.Amid.bind (keeps session like calm)
    fun {outcome later} ⟨after, quiet, meets⟩ => by
      cases outcome with
      | ok result => exact ⟨after, quiet, meets⟩
      | error cause => exact copes meets later after quiet

theorem tolerate (cause : ReferenceError) (position : Span) :
    care.Keeps base (fun _ => care.Passes base.mode cause)
      (fun error => ¬ Resolver.Tolerated base.mode error) (Resolving.tolerate cause position) := by
  intro session like calm
  have mode : session.context.mode = base.mode := by rw [like]
  unfold Resolving.tolerate ExceptT.run ExceptT.mk
  rw [Program.Amid]
  rcases session.context.report_ofReference cause position with ⟨tolerated, same⟩ | ⟨ends, stop, same⟩
  · rw [same]
    refine ⟨⟨rfl, List.subset_append_left _ _, id⟩, ?_⟩
    by_cases lost : care.lost (session.onContext fun context =>
        context.record (context.passedOver cause position))
    · exact .inl lost
    · exact .inr ⟨calm, like.trans rfl, calm, mode ▸ tolerated, session, position, mode, lost⟩
  · rw [same]
    exact ⟨like, calm, mode ▸ ends⟩

theorem warn (code : Code) (message : String) :
    care.Keeps base (fun _ => True) error (Resolving.warn code message) :=
  fun _ like calm => ⟨⟨rfl, List.subset_append_left _ _, id⟩, .inr ⟨calm, like.trans rfl, calm, trivial⟩⟩

theorem cutOff (nodes : List Node) :
    care.Keeps base (fun after => after = nodes ∧ (nodes = [] ∨ care.Cuts)) error
      (Resolver.cutOff nodes) := by
  have marks : care.Keeps base (fun _ => care.Cuts) error
      (Resolving.update (Session.onShared fun shared => { shared with cutOff := true })) := by
    refine fun session like calm => ⟨⟨rfl, List.Subset.refl _, fun _ => rfl⟩, ?_⟩
    by_cases lost : care.lost (session.onShared fun shared => { shared with cutOff := true })
    · exact .inl lost
    · exact .inr ⟨calm.congr rfl rfl, like, calm.congr rfl rfl, session, lost⟩
  unfold Resolver.cutOff
  split
  · exact bind marks fun cuts => pure ⟨rfl, .inr cuts⟩
  · rename_i empty
    exact pure ⟨rfl, .inl (by simpa using empty)⟩

end Keeps

def rules (care : Care) (base : Context) :
    Resolver.Rules (care.Passes base.mode) fun error => ¬ Resolver.Tolerated base.mode error where
  holds := care.Keeps base
  mono := Keeps.mono
  pure := Keeps.pure
  throw := Keeps.throw
  bind := Keeps.bind
  tryCatch := Keeps.tryCatch
  tolerate := Keeps.tolerate
  warn := Keeps.warn

/-- What makes outcomes good: those that the resolution itself tells are, and so are the expansions of
what handlers find. -/
structure Serves (care : Care) (resolver : Resolver) (context : Context) : Prop where
  keyed : ∀ {first second outcome}, care.known first → care.known second →
    first.key = second.key → care.good first outcome → care.good second outcome
  circular : ∀ {uri} chain, care.known uri → care.good uri (.error (.circular chain))
  deep : ∀ {uri} limit, care.known uri → care.good uri (.error (.depthExceeded uri.key limit))
  wait : ∀ {uri}, care.expires → care.Asks uri →
    care.good uri (.error (.timeout uri.key resolver.timeout))
  late : ∀ {uri answer}, care.Asks uri → resolver.answer? context uri = some answer →
    resolver.IsLate answer → care.good uri (.error (.timeout uri.key resolver.timeout))
  unsupported : ∀ {uri}, care.Asks uri → resolver.answer? context uri = none →
    care.good uri (.error (.unsupportedProtocol uri.protocol uri.key))
  refused : ∀ {uri answer error}, care.Asks uri → resolver.answer? context uri = some answer →
    answer.outcome? = some (.error error) → care.good uri (.error error)
  leads : ∀ {uri answer value}, care.Asks uri → resolver.answer? context uri = some answer →
    answer.outcome? = some (.ok value) → ∀ next ∈ value.opens, care.known next
  opens : ∀ {uri value}, care.known uri → care.good uri (.ok value) →
    ∀ next ∈ value.opens, care.known next
  expanded : ∀ {uri answer value after}, care.Asks uri →
    resolver.answer? context uri = some answer → answer.outcome? = some (.ok value) →
    (care.outlook resolver context.mode).ExpandsTo value after → care.good uri (.ok after)
  broken : ∀ {uri answer value error}, care.Asks uri → resolver.answer? context uri = some answer →
    answer.outcome? = some (.ok value) → ¬ Resolver.Tolerated context.mode error →
    care.good uri (.error error)

variable {resolver : Resolver} {context : Context} {uri : Uri}

private def Acquires (care : Care) (uri : Uri) : Acquired → Prop
  | .value value => care.good uri (.ok value)
  | .owned => care.Asks uri

private theorem acquire_keeps (serves : care.Serves resolver context) (known : care.known uri)
    (base : Context) :
    care.Keeps base (care.Acquires uri) (fun error => care.good uri (.error error))
      (acquire resolver.timeout uri.key) := by
  intro session like calm
  have asks {shared : Shared} (calm : care.Calm shared)
      (value : shared.results.find? uri.key = none) (failure : shared.failures.find? uri.key = none) :
      care.Asks uri :=
    ⟨known, fun before => not_settled.mpr ⟨value, failure⟩ (calm.settled before)⟩
  unfold acquire ExceptT.run ExceptT.mk
  rw [Program.Amid]
  dsimp only
  split
  · rename_i found
    exact ⟨like, calm, calm.value known found⟩
  · rename_i unknown found
    exact ⟨like, calm, calm.failure known unknown found⟩
  rename_i value failure
  have asks' := asks calm value failure
  split
  · exact ⟨⟨rfl, List.Subset.refl _, id⟩, .inr ⟨calm.congr rfl rfl, like, calm.congr rfl rfl, asks'⟩⟩
  split
  · exact ⟨like, calm, serves.circular _ known⟩
  refine ⟨⟨rfl, List.Subset.refl _, id⟩, .inr ⟨calm.congr rfl rfl, fun {shared} calm => ⟨?_, fun expires => ?_⟩⟩⟩
  · refine ⟨⟨rfl, List.Subset.refl _, id⟩, .inr ⟨calm.congr rfl rfl, ?_⟩⟩
    unfold recheck ExceptT.mk
    rw [Program.Amid]
    split
    · rename_i found
      refine ⟨⟨rfl, List.Subset.refl _, id⟩, .inr ⟨calm.congr rfl rfl, like, calm.congr rfl rfl, ?_⟩⟩
      exact calm.value known found
    · rename_i unknown found
      refine ⟨⟨rfl, List.Subset.refl _, id⟩, .inr ⟨calm.congr rfl rfl, like, calm.congr rfl rfl, ?_⟩⟩
      exact calm.failure known unknown found
    · exact ⟨like, calm.congr rfl rfl, asks'⟩
  · refine ⟨⟨rfl, List.Subset.refl _, id⟩, .inr ⟨calm.congr rfl rfl, like, calm.congr rfl rfl, ?_⟩⟩
    exact serves.wait expires asks'

private theorem ask_keeps {handler : Handler} {base : Context} (asks : care.Asks uri)
    (serves : care.Serves resolver context)
    (found : resolver.protocols.find? uri.protocol = some handler) (fellow : context.Fellow base) :
    care.Keeps base (fun value => ∃ answer, resolver.answer? context uri = some answer ∧
        answer.outcome? = some (.ok value))
      (fun error => care.good uri (.error error)) (resolver.ask handler uri) := by
  intro session like calm
  have answers : resolver.answer? context uri =
      some (handler.answer (Resolver.request session uri)) :=
    Resolver.answer?_of_find found (fellow.trans like.fellow)
  unfold Resolver.ask ExceptT.run ExceptT.mk
  rw [Program.Amid]
  dsimp only
  split
  · rename_i silent
    have late := serves.late asks answers (.inl silent)
    refine .pauses calm fun calm => ?_
    exact fun {shared} calm => ⟨⟨like, calm, late⟩, fun _ => ⟨like, calm, late⟩⟩
  · rename_i outcome answered
    split
    · rename_i hurried
      have late := serves.late asks answers (.inr (by simpa using hurried))
      exact fun {shared} calm => ⟨like, calm, late⟩
    · refine .pauses calm fun calm => ⟨like, calm, ?_⟩
      cases outcome with
      | ok value => exact ⟨_, answers, answered⟩
      | error error => exact serves.refused asks answers answered

private theorem Calm.conclude (serves : care.Serves resolver context) (known : care.known uri)
    {session : Session} (calm : care.Calm session.shared)
    {outcome : Except ReferenceError Resolved} (good : care.good uri outcome) :
    care.Calm (Resolver.conclude uri outcome session).shared := by
  let noted := session.shared.note (.ended session.context.task uri outcome)
  have noted' : care.Calm noted := calm.congr rfl rfl
  suffices kept : care.Calm (noted.keep uri.key outcome) from kept.congr rfl rfl
  -- An outcome that is there already stays, and the other references with the key share the new one.
  cases outcome with
  | ok value =>
    have stored (name : String) := find?_results_store noted uri.key value name
    refine ⟨fun {key} before => (noted'.settled before).imp_left fun found => ?_,
      fun {other found} member here => ?_, fun {other error} member unknown here => ?_⟩
    · show (noted.store uri.key value).results.find? key ≠ none
      rw [stored]
      split
      · simp
      · exact found
    · have here : (noted.store uri.key value).results.find? other.key = some found := here
      rw [stored] at here
      split at here
      · rename_i same
        cases old : noted.results.find? uri.key with
        | some before =>
          rw [old] at here
          cases here
          exact noted'.value member (same ▸ old)
        | none =>
          rw [old] at here
          cases here
          exact serves.keyed known member same.symm good
      · exact noted'.value member here
    · have unknown : (noted.store uri.key value).results.find? other.key = none := unknown
      rw [stored] at unknown
      split at unknown
      · cases unknown
      · exact noted'.failure member unknown here
  | error error =>
    have results := results_storeFailure noted uri.key error
    refine ⟨fun before => (noted'.settled before).imp (fun found => results ▸ found) fun found => ?_,
      fun member here => noted'.value member (results ▸ here), ?_⟩
    · rw [keep, storeFailure]
      split
      · exact found
      · rw [Table.find?_insertNew]
        split
        · simp
        · exact found
    intro other cause member unknown here
    have unknown : (noted.storeFailure uri.key error).results.find? other.key = none := unknown
    have here : (noted.storeFailure uri.key error).failures.find? other.key = some cause := here
    rw [results] at unknown
    rw [storeFailure] at here
    split at here
    · exact noted'.failure member unknown here
    · rw [Table.find?_insertNew] at here
      split at here
      · rename_i same
        cases old : noted.failures.find? uri.key with
        | some before =>
          rw [old] at here
          cases here
          exact noted'.failure member unknown (same ▸ old)
        | none =>
          rw [old] at here
          cases here
          exact serves.keyed known member same.symm good
      · exact noted'.failure member unknown here

def Governs (care : Care) (context : Context) (resolve : Uri → Resolving Resolved) : Prop :=
  ∀ {uri}, care.known uri → ∀ {base : Context}, context.Fellow base →
    care.Keeps base (fun value => care.good uri (.ok value)) (fun error => care.good uri (.error error))
      (resolve uri)

namespace Serves
variable (serves : care.Serves resolver context)
include serves

theorem resolves {resolve : Uri → Resolving Resolved} (governs : care.Governs context resolve)
    {base : Context} (fellow : context.Fellow base) :
    (care.rules base).Resolves (care.outlook resolver base.mode) care.known resolve where
  resolve known := governs known fellow
  leads := serves.opens
  passes := rfl
  cutOff := Keeps.cutOff

private theorem fetch_keeps {resolve : Uri → Resolving Resolved}
    (governs : care.Governs context resolve) (asks : care.Asks uri) {base : Context}
    (fellow : context.Fellow base) :
    care.Keeps base (fun value => care.good uri (.ok value)) (fun error => care.good uri (.error error))
      (resolver.fetch resolve uri) := by
  unfold Resolver.fetch
  split
  · rename_i nobody
    exact Keeps.throw (serves.unsupported asks (Resolver.answer?_eq_none.mpr nobody))
  · rename_i handler found
    have notes : care.Keeps base (fun _ => True) (fun error => care.good uri (.error error))
        (Resolving.update fun session => session.note (.asked session.context.task uri)) :=
      fun session like calm => ⟨⟨rfl, List.Subset.refl _, id⟩,
        .inr ⟨calm.congr rfl rfl, like, calm.congr rfl rfl, trivial⟩⟩
    refine notes.bind fun _ => (ask_keeps asks serves found fellow).bind
      fun {value} ⟨answer, answers, answered⟩ => ?_
    have expands : care.Keeps base ((care.outlook resolver base.mode).ExpandsTo value)
        (fun error => ¬ Resolver.Tolerated base.mode error) (resolver.expand resolve value) :=
      Resolver.expand_grows (serves.resolves governs fellow) rfl (serves.leads asks answers answered)
    refine Keeps.mono expands (fun {after} grown => ?_) fun {error} ends => ?_
    · exact serves.expanded asks answers answered (fellow.mode ▸ grown)
    · exact serves.broken asks answers answered (fellow.mode ▸ ends)

private theorem fetchOwned_keeps {fetch : Resolving Resolved} (known : care.known uri)
    {base : Context}
    (fetches : care.Keeps (base.enter uri.key) (fun value => care.good uri (.ok value))
      (fun error => care.good uri (.error error)) fetch) :
    care.Keeps base (fun value => care.good uri (.ok value)) (fun error => care.good uri (.error error))
      (Resolver.fetchOwned uri fetch) := by
  intro session like calm
  have entered : (base.enter uri.key).Like (session.onContext (·.enter uri.key)).context := by
    rw [Context.Like] at like
    rw [Session.onContext, like]
    rfl
  refine ⟨⟨rfl, List.Subset.refl _, id⟩, .inr ⟨calm, ?_⟩⟩
  refine (fetches _ entered calm).bind fun {outcome later} kept => ?_
  obtain ⟨after, quiet, meets⟩ := kept
  have good : care.good uri outcome := by cases outcome <;> exact meets
  have concluded := quiet.conclude serves known good
  have cuts := cutOff_keep (later.shared.note (.ended later.context.task uri outcome)) uri.key outcome
  exact ⟨⟨rfl, List.Subset.refl _, fun cut => cuts.trans cut⟩,
    .inr ⟨concluded, Context.leave_enter after, concluded, meets⟩⟩

private theorem resolveBy_keeps {fetch? : Option (Resolving Resolved)} (known : care.known uri)
    {base : Context}
    (fetches : ∀ fetch ∈ fetch?, care.Asks uri → care.Keeps (base.enter uri.key)
      (fun value => care.good uri (.ok value)) (fun error => care.good uri (.error error)) fetch) :
    care.Keeps base (fun value => care.good uri (.ok value)) (fun error => care.good uri (.error error))
      (resolver.resolveBy uri fetch?) := by
  intro session like calm
  unfold Resolver.resolveBy ExceptT.run ExceptT.mk
  rw [Program.Amid]
  split
  · rename_i found _ _
    exact ⟨like, calm, calm.value known ‹_›⟩
  · exact ⟨like, calm, serves.circular _ known⟩
  · exact ⟨like, calm, serves.deep _ known⟩
  · rename_i fetch _ _
    refine (acquire_keeps serves known base session like calm).bind
      fun {outcome later} ⟨after, quiet, meets⟩ => ?_
    match outcome, meets with
    | .error error, good => exact ⟨after, quiet, good⟩
    | .ok (.value value), good => exact ⟨after, quiet, good⟩
    | .ok .owned, asks => exact serves.fetchOwned_keeps known (fetches fetch rfl asks) later after quiet

/-- Whoever takes care comes to good outcomes and leaves good outcomes behind. -/
theorem resolve_keeps : care.Governs context resolver.resolve := by
  have within (room : Nat) : care.Governs context (resolver.resolveWithin room) := by
    -- The induction is on the room; what is found leads to references that are resolved in less.
    induction room with
    | zero => exact fun known _ _ => serves.resolveBy_keeps known (by simp)
    | succ room ih =>
      intro uri known base fellow
      refine serves.resolveBy_keeps known fun fetch given asks => ?_
      cases Option.mem_some.mp given
      exact serves.fetch_keeps ih asks (fellow.trans ⟨rfl, rfl, rfl, rfl⟩)
  exact fun {uri} known {base} fellow session => within _ known fellow session

end Serves
/-- What tasks take care of that leave behind values of one kind for all references. -/
def ofValues (good : Resolved → Prop) (lost : Session → Prop) : Care where
  known _ := True
  good _ outcome := ∀ value, outcome = .ok value → good value
  settled _ := False
  lost := lost
  expires := True

/-- Values are of the kind if what handlers find comes to be so when it is expanded. -/
theorem serves_of_values {good : Resolved → Prop} {lost : Session → Prop} {resolver : Resolver}
    {context : Context}
    (expanded : ∀ {uri answer value after}, resolver.answer? context uri = some answer →
      answer.outcome? = some (.ok value) →
      ((ofValues good lost).outlook resolver context.mode).ExpandsTo value after → good after) :
    (ofValues good lost).Serves resolver context where
  keyed _ _ _ good := good
  circular _ _ := nofun
  deep _ _ := nofun
  wait _ _ := nofun
  late _ _ _ := nofun
  unsupported _ _ := nofun
  refused _ _ _ := nofun
  leads _ _ _ _ _ := trivial
  opens _ _ _ _ := trivial
  expanded _ answers found expands _ same := by
    cases same
    exact expanded answers found expands
  broken _ _ _ _ := nofun

end Care
end LinkedMarkup
