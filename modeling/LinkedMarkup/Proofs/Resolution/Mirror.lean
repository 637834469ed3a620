import LinkedMarkup.Proofs.Resolution.Untangled

namespace LinkedMarkup
open Shared

namespace Context.Fellow
variable {first second : Context}

theorem located (fellow : first.Fellow second) (diagnostic : Diagnostic) :
    second.located diagnostic = first.located diagnostic := by
  rw [Context.located, fellow.file, Context.located]

theorem passedOver (fellow : first.Fellow second) (error : ReferenceError) (position : Span) :
    second.passedOver error position = first.passedOver error position := by
  rw [Context.passedOver, fellow.located, Context.passedOver]

end Context.Fellow

namespace Resolver

/-- Between two sessions a task has done what a rehearsal asks for, and has recorded what the
rehearsal records. -/
structure Reflects (resolver : Resolver) (session now later mirror reflected : Session) : Prop where
  fellow : session.context.Fellow reflected.context
  ledger : ∃ requests own, reflected.shared.asked = requests ++ mirror.shared.asked ∧
    reflected.context.diagnostics = mirror.context.diagnostics ++ own ∧
    resolver.Ledger session now later requests own

variable {resolver : Resolver} {session : Session} {others : List Uri}

namespace Reflects
variable {now mid later mirror first last : Session}

/-- Own remarks alone ask for nothing. -/
theorem remark {own : List Diagnostic} (fellow : session.context.Fellow last.context)
    (task : later.context.task = now.context.task)
    (deeds : session.shared.deeds later.shared now.context.task =
      session.shared.deeds now.shared now.context.task)
    (diagnostics : later.context.diagnostics = now.context.diagnostics ++ own)
    (asked : last.shared.asked = mirror.shared.asked)
    (reflected : last.context.diagnostics = mirror.context.diagnostics ++ own) :
    resolver.Reflects session now later mirror last where
  fellow := fellow
  ledger := ⟨[], own, asked, reflected, .still task deeds diagnostics (by simp) (by simp)⟩

theorem refl (fellow : session.context.Fellow mirror.context) :
    resolver.Reflects session now now mirror mirror :=
  .remark fellow rfl rfl (List.append_nil _).symm rfl (List.append_nil _).symm

theorem trans (one : resolver.Reflects session now mid mirror first)
    (other : resolver.Reflects session mid later first last)
    (grows : mid.shared.Grows later.shared) :
    resolver.Reflects session now later mirror last where
  fellow := other.fellow
  ledger := by
    obtain ⟨requests, own, asked, recorded, ledger⟩ := one.ledger
    obtain ⟨more, notes, asked', recorded', ledger'⟩ := other.ledger
    refine ⟨more ++ requests, own ++ notes, ?_, ?_, ?_⟩
    · rw [asked', asked, List.append_assoc]
    · rw [recorded', recorded, List.append_assoc]
    · exact (ledger.trans ledger' grows).reorder List.perm_append_comm

end Reflects

/-- The first resolution, begun when its task stands as at `base`, ends as the second one does that
runs alone, and reflects it. -/
def Mirrors (resolver : Resolver) (session : Session) (others : List Uri) (base : Session)
    {α : Type} (ok : α → Prop) (error : ReferenceError → Prop) (first second : Resolving α) :
    Prop :=
  ∀ now, (Policy.scripted resolver session others).Sound now.shared →
    (Policy.scripted resolver session others).Within base now →
    ∀ mirror : Session, session.context.Fellow mirror.context →
      Program.Safe (.scripted resolver session others) (fun outcome later =>
          (Policy.scripted resolver session others).Within now later ∧ Meets ok error outcome ∧
            outcome = (second.run.alone mirror).1 ∧
            resolver.Reflects session now later mirror (second.run.alone mirror).2)
        first.run now

namespace Mirrors
variable {base : Session} {α β : Type} {ok mid : α → Prop} {last : β → Prop}
  {error fails : ReferenceError → Prop} {first second : Resolving α}

theorem mono (mirrors : resolver.Mirrors session others base mid fails first second)
    (weaker : ∀ {result}, mid result → ok result) (softer : ∀ {cause}, fails cause → error cause) :
    resolver.Mirrors session others base ok error first second := by
  intro now sound within mirror fellow
  refine (mirrors now sound within mirror fellow).mono sound fun {outcome later} _ holds => ?_
  exact ⟨holds.1, holds.2.1.imp weaker softer, holds.2.2⟩

private theorem pure {result : α} (holds : ok result) :
    resolver.Mirrors session others base ok error (Pure.pure result) (Pure.pure result) :=
  fun _ _ _ _ fellow => ⟨.refl _ _, holds, rfl, .refl fellow⟩

private theorem throw {cause : ReferenceError} (holds : error cause) :
    resolver.Mirrors session others base ok error
      (MonadExcept.throw cause : Resolving α) (MonadExcept.throw cause : Resolving α) :=
  fun _ _ _ _ fellow => ⟨.refl _ _, holds, rfl, .refl fellow⟩

private theorem bind {next following : α → Resolving β}
    (mirrors : resolver.Mirrors session others base mid error first second)
    (rest : ∀ {result}, mid result →
      resolver.Mirrors session others base last error (next result) (following result)) :
    resolver.Mirrors session others base last error (first >>= next) (second >>= following) := by
  intro now sound within mirror fellow
  refine Program.Safe.bind (mirrors now sound within mirror fellow) sound
    fun {outcome later} sound ⟨inside, meets, same, reflects⟩ => ?_
  rw [Resolving.alone_bind]
  generalize second.run.alone mirror = ran at same reflects
  obtain ⟨told, reflected⟩ := ran
  cases same
  cases told with
  | ok result =>
    refine (rest meets later sound (within.trans inside) reflected reflects.fellow).mono sound
      fun {_ _} _ ⟨goesOn, meets, same, also⟩ => ?_
    exact ⟨inside.trans goesOn, meets, same, reflects.trans also goesOn.kept.grows⟩
  | error cause => exact ⟨inside, meets, rfl, reflects⟩

private theorem tryCatch {handle cope : ReferenceError → Resolving α}
    (mirrors : resolver.Mirrors session others base ok fails first second)
    (copes : ∀ {cause}, fails cause →
      resolver.Mirrors session others base ok error (handle cause) (cope cause)) :
    resolver.Mirrors session others base ok error (tryCatch first handle) (tryCatch second cope) := by
  intro now sound within mirror fellow
  refine Program.Safe.bind (mirrors now sound within mirror fellow) sound
    fun {outcome later} sound ⟨inside, meets, same, reflects⟩ => ?_
  rw [Resolving.alone_tryCatch]
  generalize second.run.alone mirror = ran at same reflects
  obtain ⟨told, reflected⟩ := ran
  cases same
  cases told with
  | ok result => exact ⟨inside, meets, rfl, reflects⟩
  | error cause =>
    refine (copes meets later sound (within.trans inside) reflected reflects.fellow).mono sound
      fun {_ _} _ ⟨goesOn, meets, same, also⟩ => ?_
    exact ⟨inside.trans goesOn, meets, same, reflects.trans also goesOn.kept.grows⟩

variable (usual : session.context.Fellow base.context)
include usual

private theorem tolerate (cause : ReferenceError) (position : Span) :
    resolver.Mirrors session others base (fun _ => Tolerated session.context.mode cause)
      (fun error => ¬ Tolerated session.context.mode error)
      (Resolving.tolerate cause position) (Resolving.tolerate cause position) := by
  intro now sound within mirror fellow
  have same : session.context.Fellow now.context := usual.trans within.context.fellow
  rw [Resolving.alone_tolerate]
  unfold Resolving.tolerate ExceptT.run ExceptT.mk
  rw [Program.Safe]
  rcases now.context.report_ofReference cause position with
    ⟨tolerated, reported⟩ | ⟨fatal, stop, reported⟩ <;>
    rcases mirror.context.report_ofReference cause position with
      ⟨tolerated', reported'⟩ | ⟨fatal', stop', reported'⟩
  · rw [reported, reported']
    refine ⟨rfl, .refl sound _, ⟨rfl, .refl _ _ _⟩, same.mode ▸ tolerated, rfl, ?_⟩
    refine .remark (fellow.trans ⟨rfl, rfl, rfl, rfl⟩) rfl rfl rfl rfl ?_
    show _ ++ [mirror.context.passedOver cause position] = _
    rw [fellow.passedOver, ← same.passedOver]
  · exact False.elim (fatal' (fellow.mode ▸ same.mode ▸ tolerated))
  · exact False.elim (fatal (same.mode ▸ fellow.mode ▸ tolerated'))
  · rw [reported, reported']
    exact ⟨.refl _ _, same.mode ▸ fatal, rfl, .refl fellow⟩

private theorem warn (code : Code) (message : String) :
    resolver.Mirrors session others base (fun _ => True) error
      (Resolving.warn code message) (Resolving.warn code message) := by
  intro now sound within mirror fellow
  have same : session.context.Fellow now.context := usual.trans within.context.fellow
  refine ⟨rfl, .refl sound _, ⟨rfl, .refl _ _ _⟩, trivial, rfl, ?_⟩
  refine .remark (fellow.trans ⟨rfl, rfl, rfl, rfl⟩) rfl rfl rfl rfl ?_
  show _ ++ [mirror.context.located _] = _
  rw [fellow.located, ← same.located]

omit usual

private theorem cutOff {ok : List Node → Prop} {nodes : List Node} (holds : ok nodes) :
    resolver.Mirrors session others base ok error (Resolver.cutOff nodes)
      (Resolver.cutOff nodes) := by
  unfold Resolver.cutOff
  split
  · intro now sound within mirror fellow
    have step := sound.cutOff now.context.task
    have aside : Aside session.shared now.context.task now.shared
        { now.shared with cutOff := true } := .of_queue rfl rfl rfl rfl rfl rfl Iff.rfl
    refine ⟨rfl, step, ⟨rfl, aside.toKept⟩, holds, rfl, ?_⟩
    have still (list : List Diagnostic) : list = list ++ [] := (List.append_nil list).symm
    exact .remark fellow rfl aside.deeds (still _) rfl (still _)
  · exact pure holds

end Mirrors

def mirroring (resolver : Resolver) (session : Session) (others : List Uri) {base : Session}
    (usual : session.context.Fellow base.context) : Congruence session.context.mode where
  rel := resolver.Mirrors session others base
  mono mirrors weaker := mirrors.mono weaker id
  pure := Mirrors.pure
  throw := Mirrors.throw
  bind := Mirrors.bind
  tryCatch := Mirrors.tryCatch
  tolerate := Mirrors.tolerate usual
  warn := Mirrors.warn usual _
  cutOff := Mirrors.cutOff

end Resolver
end LinkedMarkup
