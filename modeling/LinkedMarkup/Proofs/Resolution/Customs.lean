import LinkedMarkup.Proofs.Resolution.Courses
import LinkedMarkup.Resolution.Pool

namespace LinkedMarkup
open Program Session Shared

/-- A warning that a resolution leaves behind: of a failure that it has passed over, or of children
that an element did not accept. -/
def Diagnostic.Aside (diagnostic : Diagnostic) : Prop :=
  diagnostic.severity = .warning ∧
    ((∃ error, diagnostic.cause = some (.reference error) ∧ diagnostic.code = error.code) ∨
      diagnostic.cause = none ∧ diagnostic.code = .inheritedChildrenDiscarded)

/-- The mode is the same, and only diagnostics of a kind have been recorded. -/
structure Context.Records (kind : Diagnostic → Prop) (before after : Context) : Prop where
  mode : after.mode = before.mode
  added : ∃ new, after.diagnostics = before.diagnostics ++ new ∧ ∀ diagnostic ∈ new, kind diagnostic

namespace Context.Records
variable {kind : Diagnostic → Prop} {first second third : Context}

theorem refl (context : Context) : Records kind context context :=
  ⟨rfl, [], by simp, by simp⟩

theorem of_same (mode : second.mode = first.mode)
    (diagnostics : second.diagnostics = first.diagnostics) : Records kind first second :=
  ⟨mode, [], by simp [diagnostics], by simp⟩

theorem trans (one : Records kind first second) (two : Records kind second third) :
    Records kind first third := by
  obtain ⟨new, added, all⟩ := one.added
  obtain ⟨more, added', all'⟩ := two.added
  refine ⟨two.mode.trans one.mode, new ++ more, ?_, List.forall_mem_append.mpr ⟨all, all'⟩⟩
  rw [added', added, List.append_assoc]

theorem record (context : Context) {diagnostic : Diagnostic} (holds : kind diagnostic) :
    Records kind context (context.record diagnostic) :=
  ⟨rfl, [diagnostic], rfl, by simpa using holds⟩

end Context.Records

namespace Context
variable (context : Context)

theorem located_eq (diagnostic : Diagnostic) :
    ∃ file, context.located diagnostic = { diagnostic with file } := by
  rw [located]
  split
  · exact ⟨context.file, rfl⟩
  · exact ⟨diagnostic.file, rfl⟩

theorem aside_passedOver (error : ReferenceError) (position : Span) :
    (context.passedOver error position).Aside := by
  obtain ⟨file, same⟩ := context.located_eq ((Diagnostic.ofReference error).placedAt position)
  refine ⟨rfl, .inl ⟨error, ?_⟩⟩
  rw [passedOver, same]
  unfold Diagnostic.placedAt
  split <;> exact ⟨rfl, rfl⟩

theorem records_warn (message : String) :
    context.Records Diagnostic.Aside (context.warn .inheritedChildrenDiscarded message) := by
  obtain ⟨file, same⟩ := context.located_eq (.warning .inheritedChildrenDiscarded message)
  refine .record context ?_
  rw [same]
  exact ⟨rfl, .inr ⟨rfl, rfl⟩⟩

end Context

/-- However a resolution goes that begins in a context like the base, its context is like the base
again, and it has made allowed changes only. -/
def Resolving.Restores {α : Type} (allowed : Session × Session → Prop) (base : Context)
    (ok : α → Prop) (error : ReferenceError → Prop) (resolution : Resolving α) : Prop :=
  ∀ session, base.Like session.context → Abides allowed
    (fun outcome context => base.Like context ∧ Meets ok error outcome) resolution.run session

/-- It is allowed to change anything but values, and to record asides in the context. -/
def Context.Permits (base : Context) (allowed : Session × Session → Prop) : Prop :=
  ∀ {before after : Session}, base.Like before.context → base.Like after.context →
    before.context.Records Diagnostic.Aside after.context →
    after.shared.results = before.shared.results → allowed (before, after)

namespace Resolving.Restores
variable {allowed : Session × Session → Prop} {base : Context} {α β : Type} {ok mid : α → Prop}
  {error : ReferenceError → Prop} {resolution : Resolving α}

theorem pure {result : α} (holds : ok result) : Restores allowed base ok error (Pure.pure result) :=
  fun _ like => ⟨like, holds⟩

theorem throw {cause : ReferenceError} (holds : error cause) :
    Restores allowed base ok error (MonadExcept.throw cause : Resolving α) :=
  fun _ like => ⟨like, holds⟩

theorem mono {fails : ReferenceError → Prop} (restores : Restores allowed base mid fails resolution)
    (weaker : ∀ {result}, mid result → ok result) (softer : ∀ {cause}, fails cause → error cause) :
    Restores allowed base ok error resolution :=
  fun session like => (restores session like).mono fun ⟨after, meets⟩ =>
    ⟨after, meets.imp weaker softer⟩

private theorem followed {fails : ReferenceError → Prop} {last : β → Prop}
    {next : Except ReferenceError α → Program Session (Except ReferenceError β)}
    (restores : Restores allowed base mid fails resolution)
    (rest : ∀ {outcome}, Meets mid fails outcome →
      Restores allowed base last error (ExceptT.mk (next outcome))) :
    Restores allowed base last error (ExceptT.mk (resolution.run.bind next)) :=
  fun session like => (restores session like).bind fun {_ later} ⟨after, meets⟩ =>
    rest meets later after

theorem bind {last : β → Prop} {next : α → Resolving β}
    (restores : Restores allowed base mid error resolution)
    (rest : ∀ {result}, mid result → Restores allowed base last error (next result)) :
    Restores allowed base last error (resolution >>= next) :=
  restores.followed fun {outcome} meets => by
    cases outcome with
    | ok result => exact rest meets
    | error cause => exact throw meets

theorem tryCatch {fails : ReferenceError → Prop} {handle : ReferenceError → Resolving α}
    (restores : Restores allowed base ok fails resolution)
    (copes : ∀ {cause}, fails cause → Restores allowed base ok error (handle cause)) :
    Restores allowed base ok error (MonadExcept.tryCatch resolution handle) :=
  restores.followed fun {outcome} meets => by
    cases outcome with
    | ok result => exact pure meets
    | error cause => exact copes meets

section
variable (permits : base.Permits allowed)
include permits

theorem update {change : Session → Session}
    (context : ∀ session, Context.Like session.context (change session).context)
    (records : ∀ session, Context.Records Diagnostic.Aside session.context (change session).context)
    (results : ∀ session, (change session).shared.results = session.shared.results) :
    Restores allowed base (fun _ => True) error (Resolving.update change) := by
  intro session like
  have after := like.trans (context session)
  exact ⟨permits like after (records session) (results session), after, trivial⟩

theorem tolerate (cause : ReferenceError) (position : Span) :
    Restores allowed base (fun _ => Resolver.Tolerated base.mode cause)
      (fun error => ¬ Resolver.Tolerated base.mode error) (Resolving.tolerate cause position) := by
  intro session like
  have mode : session.context.mode = base.mode := by rw [like]
  unfold Resolving.tolerate ExceptT.run ExceptT.mk
  rw [Abides]
  rcases session.context.report_ofReference cause position with ⟨passes, same⟩ | ⟨ends, stop, same⟩
  · rw [same]
    have after : base.Like (session.context.record (session.context.passedOver cause position)) :=
      like.trans rfl
    exact ⟨permits like after (.record _ (session.context.aside_passedOver cause position)) rfl,
      after, mode ▸ passes⟩
  · rw [same]
    exact ⟨like, mode ▸ ends⟩

theorem cutOff {ok : List Node → Prop} {nodes : List Node} (holds : ok nodes) :
    Restores allowed base ok error (Resolver.cutOff nodes) := by
  unfold Resolver.cutOff
  split
  · exact bind (update permits (fun _ => rfl) (fun _ => .refl _) fun _ => rfl) fun _ => pure holds
  · exact pure holds

end
end Resolving.Restores

open Resolving

def Context.Permits.restoring {base : Context} {allowed : Session × Session → Prop}
    (permits : base.Permits allowed) : Resolver.Congruence base.mode where
  rel ok error resolution _ := Restores allowed base ok error resolution
  mono restores weaker := restores.mono weaker id
  pure := Restores.pure
  throw := Restores.throw
  bind := Restores.bind
  tryCatch := Restores.tryCatch
  tolerate := Restores.tolerate permits
  warn message := Restores.update permits (fun _ => rfl) (·.context.records_warn message) fun _ => rfl
  cutOff := Restores.cutOff permits

namespace Resolver
variable {resolver : Resolver} {uri : Uri} {allowed : Session × Session → Prop}

/-- It is allowed to change anything but values and the context. -/
def Spare (allowed : Session × Session → Prop) : Prop :=
  ∀ {before after : Session}, after.context = before.context →
    after.shared.results = before.shared.results → allowed (before, after)

theorem acquire_abides (spare : Spare allowed) (timeout : Nat) (key : String) (session : Session) :
    Abides allowed (fun _ context => context = session.context) (acquire timeout key).run session := by
  have rechecks (before : Session) :
      Abides allowed (fun _ context => context = before.context) (recheck key).run before := by
    unfold recheck ExceptT.run ExceptT.mk
    rw [Abides]
    split
    · exact ⟨spare rfl rfl, rfl⟩
    · exact ⟨spare rfl rfl, rfl⟩
    · exact rfl
  unfold acquire ExceptT.run ExceptT.mk
  rw [Abides]
  dsimp only
  split
  · exact rfl
  · exact rfl
  split
  · exact ⟨spare rfl rfl, rfl⟩
  split
  · exact rfl
  refine ⟨spare rfl rfl, fun shared => ⟨⟨spare rfl rfl, ?_⟩, spare rfl rfl, rfl⟩⟩
  exact rechecks (Session.onShared _ ⟨shared, session.context⟩)

theorem ask_abides (handler : Handler) (uri : Uri) (session : Session) :
    Abides allowed (fun _ context => context = session.context) (resolver.ask handler uri).run
      session := by
  unfold ask ExceptT.run ExceptT.mk
  rw [Abides]
  dsimp only
  split
  · exact .pauses fun shared => fun shared => ⟨rfl, rfl⟩
  split
  · exact fun shared => rfl
  · exact .pauses fun shared => rfl

/-- A reference is fetched by allowed changes if those that it leads to are resolved so. -/
theorem fetch_restores {base : Context} (permits : base.Permits allowed)
    {resolve : Uri → Resolving Resolved}
    (resolves : ∀ uri, Restores allowed base (fun _ => True) (fun _ => True) (resolve uri)) :
    Restores allowed base (fun _ => True) (fun _ => True) (resolver.fetch resolve uri) := by
  unfold fetch
  split
  · exact Restores.throw trivial
  · refine Restores.bind (Restores.update permits (fun _ => rfl) (fun _ => .refl _) fun _ => rfl)
      fun _ => ?_
    have asks (handler : Handler) : Restores allowed base (fun _ => True) (fun _ => True)
        (resolver.ask handler uri) := by
      refine fun session like => (ask_abides handler uri session).mono fun {outcome _} context => ?_
      exact ⟨context ▸ like, by cases outcome <;> trivial⟩
    refine Restores.bind (asks _) fun {value} _ => ?_
    have agree : permits.restoring.Agree (fun _ => True) (fun _ => True) resolve resolve :=
      fun {uri} _ => (resolves uri).mono (fun _ => ⟨fun _ _ => trivial, trivial⟩) fun _ _ => trivial
    exact (expand_rel permits.restoring agree resolver fun _ _ => trivial).mono
      (fun _ => trivial) fun _ => trivial

/-- What is allowed to a task that begins in the base, when at most `limit` keys may be resolved at
once: to change anything but values and the context, to record asides, to enter a key that is not
being resolved, and to end the resolution of one that the base does not resolve. -/
structure Customs (base : Context) (limit : Nat) (allowed : Session × Session → Prop) : Prop where
  mild : ∀ {before after : Session}, before.context.Like after.context →
    before.context.Records Diagnostic.Aside after.context →
    after.shared.results = before.shared.results → allowed (before, after)
  enter : ∀ {session : Session} {key}, key ∉ session.context.resolving →
    session.context.resolving.length < limit → allowed (session, session.onContext (·.enter key))
  conclude : ∀ {session : Session} {uri : Uri} (outcome), uri.key ∉ base.resolving →
    allowed (session, conclude uri outcome session)

namespace Customs
variable {base now : Context} {limit : Nat}

theorem permits (customs : Customs base limit allowed) (context : Context) :
    context.Permits allowed := by
  intro before after first second records results
  refine customs.mild ?_ records results
  rw [Context.Like, second, first]

theorem spare (customs : Customs base limit allowed) : Spare allowed := by
  intro before after context results
  refine customs.mild (context ▸ rfl) (.of_same ?_ ?_) results
  · rw [context]
  · rw [context]

private theorem fetchOwned_restores (customs : Customs base limit allowed)
    (above : base.resolving ⊆ now.resolving) (outside : uri.key ∉ now.resolving)
    (fits : now.resolving.length < limit) {fetch : Resolving Resolved}
    (restores : Restores allowed (now.enter uri.key) (fun _ => True) (fun _ => True) fetch) :
    Restores allowed now (fun _ => True) (fun _ => True) (fetchOwned uri fetch) := by
  intro session like
  have same : session.context.resolving = now.resolving := by rw [like]
  have entered : (now.enter uri.key).Like (session.onContext (·.enter uri.key)).context := by
    rw [Context.Like] at like
    rw [Session.onContext, like]
    rfl
  refine ⟨customs.enter (same ▸ outside) (same ▸ fits), ?_⟩
  refine (restores _ entered).bind fun {outcome later} kept => ?_
  have after := kept.1
  refine ⟨customs.conclude outcome fun member => outside (above member), ?_, ?_⟩
  · exact Context.leave_enter after
  · cases outcome <;> trivial

private theorem resolveBy_restores (customs : Customs base limit allowed)
    (above : base.resolving ⊆ now.resolving) {fetch? : Option (Resolving Resolved)}
    (restores : ∀ fetch ∈ fetch?, uri.key ∉ now.resolving → now.resolving.length < limit ∧
      Restores allowed (now.enter uri.key) (fun _ => True) (fun _ => True) fetch) :
    Restores allowed now (fun _ => True) (fun _ => True) (resolver.resolveBy uri fetch?) := by
  intro session like
  unfold resolveBy ExceptT.run ExceptT.mk
  rw [Abides]
  split
  · exact ⟨like, trivial⟩
  · exact ⟨like, trivial⟩
  · exact ⟨like, trivial⟩
  · rename_i fetch _ noCycle
    have outside : uri.key ∉ now.resolving := by
      have here := Context.cycle?_eq_none_iff.mp noCycle
      rw [like] at here
      exact here
    obtain ⟨fits, fetches⟩ := restores fetch rfl outside
    refine (acquire_abides customs.spare resolver.timeout uri.key session).bind
      fun {outcome later} context => ?_
    have still : now.Like later.context := context ▸ like
    match outcome with
    | .error error => exact ⟨still, trivial⟩
    | .ok (.value value) => exact ⟨still, trivial⟩
    | .ok .owned => exact fetchOwned_restores customs above outside fits fetches later still

/-- Within its customs a task resolves references, as deep as they lead. -/
theorem resolveWithin_restores (customs : Customs base limit allowed) (room : Nat) (uri : Uri)
    (above : base.resolving ⊆ now.resolving) (fits : now.resolving.length + room ≤ limit) :
    Restores allowed now (fun _ => True) (fun _ => True) (resolver.resolveWithin room uri) := by
  -- The induction is on the room; each reference on the way takes one place of it.
  induction room generalizing now uri with
  | zero => exact customs.resolveBy_restores above (by simp)
  | succ room ih =>
    refine customs.resolveBy_restores above fun fetch given _ => ⟨by omega, ?_⟩
    cases Option.mem_some.mp given
    refine fetch_restores (customs.permits _) fun next => ih next ?_ ?_
    · exact fun key member => List.mem_append_left _ (above member)
    · simp only [Context.enter, List.length_append, List.length_singleton]
      omega

variable (customs : Customs base limit allowed) (depth : resolver.maxDepth ≤ limit)
  (above : base.resolving ⊆ now.resolving) (fits : now.resolving.length ≤ limit)
include customs depth above fits

theorem resolve_restores (uri : Uri) :
    Restores allowed now (fun _ => True) (fun _ => True) (resolver.resolve uri) := by
  intro session like
  have same : session.context.resolving = now.resolving := by rw [like]
  have room : now.resolving.length + (resolver.maxDepth - session.context.resolving.length) ≤ limit := by
    rw [same]
    omega
  exact customs.resolveWithin_restores _ uri above room session like

theorem resolution_restores (r : Reference) :
    Restores allowed now (fun _ => True) (fun _ => True) (ExceptT.mk (resolver.resolution r)) := by
  unfold resolution resolveReference
  split
  · exact Restores.pure trivial
  · exact Restores.bind (customs.resolve_restores depth above fits r.uri) fun _ => Restores.pure trivial

theorem expandNodes_restores (nodes : List Node) :
    Restores allowed now (fun _ => True) (fun _ => True) (resolver.expandNodes nodes) := by
  have permits : now.Permits allowed := customs.permits now
  have agree : permits.restoring.Agree (fun _ => True) (fun _ => True) resolver.resolve
      resolver.resolve :=
    fun {uri} _ => (customs.resolve_restores depth above fits uri).mono
      (fun _ => ⟨fun _ _ => trivial, trivial⟩) fun _ _ => trivial
  exact (expandNodes_rel permits.restoring agree resolver fun _ _ => trivial).mono
    (fun _ => trivial) fun _ => trivial

theorem inherit_restores (e : Element) :
    Restores allowed now (fun _ => True) (fun _ => True) (resolver.inherit e) := by
  unfold inherit
  split
  · exact Restores.pure trivial
  rename_i target _
  have finds : Restores allowed now (fun _ => True) (fun _ => True)
      (ancestor resolver.resolve target) := by
    unfold ancestor
    split
    · exact Restores.throw trivial
    · rename_i uri _
      refine Restores.bind (customs.resolve_restores depth above fits uri) fun {value} _ => ?_
      cases ancestorOf uri value with
      | ok a => exact Restores.pure trivial
      | error cause => exact Restores.throw trivial
  refine Restores.bind finds fun {a} _ => ?_
  have warns : Restores allowed now (fun _ => True) (fun _ => True) (resolver.warnDiscarded e a) := by
    unfold warnDiscarded
    split
    · exact Restores.update (customs.permits now) (fun _ => rfl) (·.context.records_warn _)
        fun _ => rfl
    · exact Restores.pure trivial
  exact Restores.bind warns fun _ => Restores.pure trivial

end Customs

end Resolver
end LinkedMarkup
