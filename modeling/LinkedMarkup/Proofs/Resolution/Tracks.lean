import LinkedMarkup.Proofs.Resolution.Keeping

namespace LinkedMarkup
open Shared

/-- A resolution that starts now leaves its task as it stands now, with a result or an error that fits
the session in which it ends. -/
def Policy.Tracks (policy : Policy) (now : Session) {α : Type} (ok : Session → α → Prop)
    (error : Session → ReferenceError → Prop) (resolution : Resolving α) : Prop :=
  policy.Sound now.shared → Program.Safe policy (fun outcome later =>
    policy.Within now later ∧ Meets (ok later) (error later) outcome) resolution.run now

namespace Policy.Tracks
variable {policy : Policy} {now : Session} {α β : Type} {ok mid : Session → α → Prop}
  {error : Session → ReferenceError → Prop} {resolution : Resolving α}

theorem pure {result : α} (holds : ok now result) :
    policy.Tracks now ok error (Pure.pure result) :=
  fun _ => ⟨.refl policy now, holds⟩

theorem throw {cause : ReferenceError} (holds : error now cause) :
    policy.Tracks now ok error (MonadExcept.throw cause : Resolving α) :=
  fun _ => ⟨.refl policy now, holds⟩

theorem of_keeps {ok : α → Prop} {error : ReferenceError → Prop}
    (keeps : policy.Keeps now ok error resolution) :
    policy.Tracks now (fun _ => ok) (fun _ => error) resolution :=
  fun sound => keeps now sound (.refl policy now)

theorem mono {fails : Session → ReferenceError → Prop} (tracks : policy.Tracks now mid fails resolution)
    (weaker : ∀ {later result}, policy.Within now later → mid later result → ok later result)
    (softer : ∀ {later cause}, policy.Within now later → fails later cause → error later cause) :
    policy.Tracks now ok error resolution :=
  fun sound => (tracks sound).mono sound fun {outcome _} _ kept => ⟨kept.1, by
    cases outcome with
    | ok result => exact weaker kept.1 kept.2
    | error cause => exact softer kept.1 kept.2⟩

theorem of_sure {ok : α → Prop} (keeps : policy.Keeps now ok (fun _ => False) resolution) :
    policy.Tracks now (fun _ => ok) error resolution :=
  (of_keeps keeps).mono (fun _ holds => holds) fun _ never => False.elim never

private theorem after {later : Session} {γ : Type} {last : Session → γ → Prop}
    {fails : Session → ReferenceError → Prop} {next : Resolving γ} (within : policy.Within now later)
    (tracks : policy.Tracks later last fails next) (sound : policy.Sound later.shared) :
    Program.Safe policy (fun outcome final =>
      policy.Within now final ∧ Meets (last final) (fails final) outcome) next.run later :=
  (tracks sound).mono sound fun _ kept => ⟨within.trans kept.1, kept.2⟩

theorem bind {last : Session → β → Prop} {next : α → Resolving β}
    (tracks : policy.Tracks now mid error resolution)
    (rest : ∀ {later result}, policy.Within now later → mid later result →
      policy.Tracks later last error (next result)) :
    policy.Tracks now last error (resolution >>= next) :=
  fun sound => Program.Safe.bind (tracks sound) sound fun {outcome later} sound kept => by
    cases outcome with
    | ok result => exact after kept.1 (rest kept.1 kept.2) sound
    | error cause => exact kept

theorem map {last : Session → β → Prop} {f : α → β} (tracks : policy.Tracks now mid error resolution)
    (rest : ∀ {later result}, policy.Within now later → mid later result → last later (f result)) :
    policy.Tracks now last error (f <$> resolution) :=
  tracks.bind fun within meets => .pure (rest within meets)

theorem tryCatch {fails : Session → ReferenceError → Prop} {handle : ReferenceError → Resolving α}
    (tracks : policy.Tracks now ok fails resolution)
    (copes : ∀ {later cause}, policy.Within now later → fails later cause →
      policy.Tracks later ok error (handle cause)) :
    policy.Tracks now ok error (MonadExcept.tryCatch resolution handle) :=
  fun sound => Program.Safe.bind (tracks sound) sound fun {outcome later} sound kept => by
    cases outcome with
    | ok result => exact kept
    | error cause => exact after kept.1 (copes kept.1 kept.2) sound

end Policy.Tracks

def Policy.tracking (policy : Policy) (mode : Mode) (bad : ReferenceError → Prop)
    (ordinary : ∀ {error : ReferenceError}, error.isPathDependent = false → bad error) :
    Resolver.Tracking mode where
  Moment := Session
  le now later := policy.Within now later
  trans first second := first.trans second
  bad := bad
  ordinary := ordinary
  rel now ok error resolution _ := now.context.mode = mode → policy.Tracks now ok error resolution
  mono tracks weaker same := (tracks same).mono weaker fun _ holds => holds
  pure holds _ := .pure holds
  throw holds _ := .throw holds
  bind tracks rest same := (tracks same).bind fun within meets =>
    rest within meets (within.mode_eq.trans same)
  tryCatch tracks copes same := (tracks same).tryCatch fun within fails =>
    copes within fails (within.mode_eq.trans same)
  tolerate {now cause} position known same := by
    refine (Policy.Tracks.of_keeps (same ▸ Policy.Keeps.tolerate cause position)).mono ?_ ?_
    · exact fun _ tolerated => tolerated
    · rintro _ _ _ ⟨rfl, fatal⟩
      exact ⟨fatal, known⟩
  warn message _ := .of_sure (.warn trivial _ message)
  cutOff _ _ := .of_sure (.cutOff rfl)

end LinkedMarkup
