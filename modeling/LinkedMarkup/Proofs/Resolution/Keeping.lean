import LinkedMarkup.Proofs.Resolution.Dependencies
import LinkedMarkup.Proofs.Resolution.Expansion
import LinkedMarkup.Proofs.Tasks.Acquisition

namespace LinkedMarkup
open Shared

/-- Two contexts differ at most in the diagnostics that they have recorded. -/
def Context.Like (first second : Context) : Prop :=
  second = { first with diagnostics := second.diagnostics }

theorem Context.Like.trans {first second third : Context} (one : first.Like second)
    (other : second.Like third) : first.Like third := by
  rw [Like] at one other ⊢
  rw [other, one]

theorem Context.Like.fellow {first second : Context} (like : first.Like second) :
    first.Fellow second := by
  rw [like]
  exact ⟨rfl, rfl, rfl, rfl⟩

/-- Since `base` the task has only recorded diagnostics, and it owns the same keys again. -/
structure Policy.Within (policy : Policy) (base now : Session) : Prop where
  context : base.context.Like now.context
  kept : Kept policy.start base.context.task base.shared now.shared

namespace Policy.Within
variable {policy : Policy} {base now later : Session}

theorem refl (policy : Policy) (session : Session) : policy.Within session session :=
  ⟨rfl, .refl _ _ _⟩

theorem task_eq (within : policy.Within base now) : now.context.task = base.context.task := by
  rw [within.context]

theorem mode_eq (within : policy.Within base now) : now.context.mode = base.context.mode := by
  rw [within.context]

theorem resolving_eq (within : policy.Within base now) :
    now.context.resolving = base.context.resolving := by
  rw [within.context]

theorem trans (first : policy.Within base now) (second : policy.Within now later) :
    policy.Within base later where
  context := first.context.trans second.context
  kept := first.kept.trans (first.task_eq ▸ second.kept)

theorem resumes (within : policy.Within base now) (resumes : policy.Resumes now later) :
    policy.Within base later where
  context := by rw [resumes.context]; exact within.context
  kept := within.kept.trans (within.task_eq ▸ resumes.aside.toKept)

theorem fit (within : policy.Within base now) (fit : base.shared.Fit base.context.task) :
    now.shared.Fit now.context.task where
  awake key waits := fit.awake key (within.kept.waits.mp (within.task_eq ▸ waits))
  leaf child fork := by
    rw [within.kept.forks, within.task_eq] at fork
    exact fit.leaf child fork
  known := by rw [within.kept.lastTask, within.task_eq]; exact fit.known

end Policy.Within

/-- A resolution that starts when its task stands as at `base` leaves it so, with the result or the
error that is told. -/
def Policy.Keeps (policy : Policy) (base : Session) {α : Type} (ok : α → Prop)
    (error : ReferenceError → Prop) (resolution : Resolving α) : Prop :=
  ∀ now, policy.Sound now.shared → policy.Within base now →
    Program.Safe policy (fun outcome later => policy.Within base later ∧ Meets ok error outcome)
      resolution.run now

namespace Policy.Keeps
variable {policy : Policy} {base : Session} {α β : Type} {ok mid : α → Prop}
  {error : ReferenceError → Prop} {resolution : Resolving α}

theorem pure {result : α} (holds : ok result) :
    policy.Keeps base ok error (Pure.pure result) :=
  fun _ _ within => ⟨within, holds⟩

theorem throw {cause : ReferenceError} (holds : error cause) :
    policy.Keeps base ok error (MonadExcept.throw cause : Resolving α) :=
  fun _ _ within => ⟨within, holds⟩

theorem mono {fails : ReferenceError → Prop} (keeps : policy.Keeps base mid fails resolution)
    (weaker : ∀ {result}, mid result → ok result) (softer : ∀ {cause}, fails cause → error cause) :
    policy.Keeps base ok error resolution :=
  fun now sound within => (keeps now sound within).mono sound fun {outcome _} _ kept =>
    ⟨kept.1, by cases outcome with
      | ok result => exact weaker kept.2
      | error cause => exact softer kept.2⟩

theorem bind {last : β → Prop} {next : α → Resolving β}
    (keeps : policy.Keeps base mid error resolution)
    (rest : ∀ {result}, mid result → policy.Keeps base last error (next result)) :
    policy.Keeps base last error (resolution >>= next) :=
  fun now sound within => Program.Safe.bind (keeps now sound within) sound fun {outcome later} sound kept => by
    cases outcome with
    | ok result => exact rest kept.2 later sound kept.1
    | error cause => exact kept

theorem map {last : β → Prop} {f : α → β} (keeps : policy.Keeps base mid error resolution)
    (rest : ∀ {result}, mid result → last (f result)) :
    policy.Keeps base last error (f <$> resolution) :=
  keeps.bind fun meets => pure (rest meets)

theorem tryCatch {fails : ReferenceError → Prop} {handle : ReferenceError → Resolving α}
    (keeps : policy.Keeps base ok fails resolution)
    (copes : ∀ {cause}, fails cause → policy.Keeps base ok error (handle cause)) :
    policy.Keeps base ok error (MonadExcept.tryCatch resolution handle) :=
  fun now sound within => Program.Safe.bind (keeps now sound within) sound fun {outcome later} sound kept => by
    cases outcome with
    | ok result => exact kept
    | error cause => exact copes kept.2 later sound kept.1

/-- A change of the recorded diagnostics is nobody else's concern. -/
theorem diagnose {ok : Unit → Prop} {update : Context → Context} (holds : ok ())
    (same : ∀ context : Context, context.Like (update context)) :
    policy.Keeps base ok error (Resolving.update (Session.onContext update)) := by
  intro now sound within
  have task : (update now.context).task = now.context.task := by rw [same]
  exact ⟨task, .refl sound _, ⟨within.context.trans (same now.context), within.kept⟩, holds⟩

theorem warn {ok : Unit → Prop} (holds : ok ()) (code : Code) (message : String) :
    policy.Keeps base ok error (Resolving.warn code message) := by
  unfold Resolving.warn
  exact diagnose holds fun context => (rfl : context.Like (context.warn code message))

theorem tolerate (cause : ReferenceError) (position : Span) :
    policy.Keeps base (fun _ => Resolver.Tolerated base.context.mode cause)
      (fun error => error = cause ∧ ¬ Resolver.Tolerated base.context.mode error)
      (Resolving.tolerate cause position) := by
  intro now sound within
  unfold Resolving.tolerate ExceptT.run ExceptT.mk
  rw [Program.Safe, ← within.mode_eq]
  rcases now.context.report_ofReference cause position with
    ⟨tolerated, same⟩ | ⟨fatal, stop, same⟩
  · rw [same]
    exact ⟨rfl, .refl sound _, ⟨within.context.trans rfl, within.kept⟩, tolerated⟩
  · rw [same]
    exact ⟨within, rfl, fatal⟩

theorem cutOff {ok : List Node → Prop} {nodes : List Node} (holds : ok nodes) :
    policy.Keeps base ok error (Resolver.cutOff nodes) := by
  have marks : policy.Keeps base (fun _ => True) error
      (Resolving.update (Session.onShared fun shared => { shared with cutOff := true })) := by
    intro now sound within
    have step := sound.cutOff now.context.task
    refine ⟨rfl, step, ⟨within.context, within.kept.trans ?_⟩, trivial⟩
    have aside : Aside policy.start base.context.task now.shared
        { now.shared with cutOff := true } := .of_queue rfl rfl rfl rfl rfl rfl Iff.rfl
    exact aside.toKept
  unfold Resolver.cutOff
  split
  · exact bind marks fun _ => pure holds
  · exact pure holds

end Policy.Keeps

def Policy.keeping (policy : Policy) (base : Session) :
    Resolver.Congruence base.context.mode where
  rel ok error resolution _ := policy.Keeps base ok error resolution
  mono keeps weaker := Keeps.mono keeps weaker fun failed => failed
  pure := Keeps.pure
  throw := Keeps.throw
  bind := Keeps.bind
  tryCatch := Keeps.tryCatch
  tolerate cause position := (Keeps.tolerate cause position).mono id And.right
  warn := Keeps.warn trivial _
  cutOff := Keeps.cutOff

end LinkedMarkup
