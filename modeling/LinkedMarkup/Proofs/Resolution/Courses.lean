import LinkedMarkup.Proofs.Resolution.Conclusion

namespace LinkedMarkup

namespace Program
variable {α β : Type}

/-- A program comes from a session to its result and its last session. The list holds the changes
that it makes itself, each with the sessions before and after it; at a pause or a wait others may have
changed the shared state at will. -/
inductive Course : {α : Type} → Program Session α → Session → List (Session × Session) → α →
    Session → Prop where
  | done {α : Type} (result : α) (session : Session) : Course (.done result) session [] result session
  | read {α : Type} {next : Session → Program Session α} {session last : Session}
    {changes : List (Session × Session)} {result : α}
    (rest : Course (next session) session changes result last) :
    Course (.read next) session changes result last
  | change {α : Type} {update : Session → Session} {next : Program Session α}
    {session last : Session} {changes : List (Session × Session)} {result : α}
    (rest : Course next (update session) changes result last) :
    Course (.change update next) session ((session, update session) :: changes)
      result last
  | pause {α : Type} {next : Program Session α} {session last : Session} (shared : Shared)
    {changes : List (Session × Session)} {result : α}
    (rest : Course next ⟨shared, session.context⟩ changes result last) :
    Course (.pause next) session changes result last
  | goesOn {α : Type} {ready : Session → Bool} {limit : Nat} {next late : Program Session α}
    {session last : Session} (shared : Shared) {changes : List (Session × Session)} {result : α}
    (holds : ready ⟨shared, session.context⟩ = true)
    (rest : Course next ⟨shared, session.context⟩ changes result last) :
    Course (.await ready limit next late) session changes result last
  | expires {α : Type} {ready : Session → Bool} {limit : Nat} {next late : Program Session α}
    {session last : Session} (shared : Shared) {changes : List (Session × Session)} {result : α}
    (fails : ready ⟨shared, session.context⟩ = false)
    (rest : Course late ⟨shared, session.context⟩ changes result last) :
    Course (.await ready limit next late) session changes result last

/-- A program that no other task disturbs takes one of its courses. -/
theorem course_alone (program : Program Session α) (session : Session) :
    ∃ changes, Course program session changes (program.alone session).1
      (program.alone session).2 := by
  induction program generalizing session with
  | done result => exact ⟨[], .done result session⟩
  | read next ih =>
    obtain ⟨changes, rest⟩ := ih session session
    exact ⟨changes, .read rest⟩
  | change update next ih =>
    obtain ⟨changes, rest⟩ := ih (update session)
    exact ⟨_, .change rest⟩
  | pause next ih =>
    obtain ⟨changes, rest⟩ := ih session
    exact ⟨changes, .pause session.shared rest⟩
  | await ready limit next late ihNext ihLate =>
    rw [alone]
    split
    · rename_i holds
      obtain ⟨changes, rest⟩ := ihNext session
      exact ⟨changes, .goesOn session.shared holds rest⟩
    · rename_i fails
      obtain ⟨changes, rest⟩ := ihLate session
      exact ⟨changes, .expires session.shared (by simpa using fails) rest⟩

/-- What is true of every course of a program from a session on. -/
def Always (program : Program Session α) (session : Session)
    (holds : List (Session × Session) → α → Session → Prop) : Prop :=
  ∀ changes result last, Course program session changes result last → holds changes result last

namespace Always
variable {program : Program Session α} {session : Session}
  {holds : List (Session × Session) → α → Session → Prop}

theorem done {result : α} (itself : holds [] result session) :
    Always (.done result) session holds := by
  rintro _ _ _ ⟨⟩
  exact itself

theorem read {next : Session → Program Session α} (rest : Always (next session) session holds) :
    Always (.read next) session holds := by
  rintro _ _ _ (_ | course)
  exact rest _ _ _ course

theorem change {update : Session → Session} {next : Program Session α}
    (rest : Always next (update session) fun changes result last =>
      holds ((session, update session) :: changes) result last) :
    Always (.change update next) session holds := by
  rintro _ _ _ (_ | _ | course)
  exact rest _ _ _ course

theorem pause {next : Program Session α}
    (rest : ∀ shared, Always next ⟨shared, session.context⟩ holds) :
    Always (.pause next) session holds := by
  rintro _ _ _ (_ | _ | _ | ⟨shared, course⟩)
  exact rest shared _ _ _ course

theorem await {ready : Session → Bool} {limit : Nat} {next late : Program Session α}
    (rest : ∀ shared, ready ⟨shared, session.context⟩ = true →
      Always next ⟨shared, session.context⟩ holds)
    (otherwise : ∀ shared, ready ⟨shared, session.context⟩ = false →
      Always late ⟨shared, session.context⟩ holds) :
    Always (.await ready limit next late) session holds := by
  rintro _ _ _ (_ | _ | _ | _ | ⟨shared, ready, course⟩ | ⟨shared, fails, course⟩)
  · exact rest shared ready _ _ _ course
  · exact otherwise shared fails _ _ _ course

theorem mono {weaker : List (Session × Session) → α → Session → Prop}
    (always : Always program session holds)
    (weakens : ∀ {changes result last}, holds changes result last → weaker changes result last) :
    Always program session weaker :=
  fun _ _ _ course => weakens (always _ _ _ course)

theorem bind {f : α → Program Session β} {ends : List (Session × Session) → β → Session → Prop}
    (first : Always program session holds)
    (rest : ∀ {changes result last}, holds changes result last →
      Always (f result) last fun more final final' => ends (changes ++ more) final final') :
    Always (program.bind f) session ends := by
  induction program generalizing session holds ends with
  | done result => exact rest (first _ _ _ (.done result session))
  | read next ih => exact read (ih session (fun _ _ _ course => first _ _ _ (.read course)) rest)
  | change update next ih =>
    exact change (ih (fun _ _ _ course => first _ _ _ (.change course)) rest)
  | pause next ih =>
    exact pause fun shared => ih (fun _ _ _ course => first _ _ _ (.pause shared course)) rest
  | await ready limit next late ihNext ihLate =>
    rintro _ _ _ (_ | _ | _ | _ | ⟨shared, holds, course⟩ | ⟨shared, fails, course⟩)
    · exact ihNext (fun _ _ _ course => first _ _ _ (.goesOn shared holds course)) rest _ _ _ course
    · exact ihLate (fun _ _ _ course => first _ _ _ (.expires shared fails course)) rest _ _ _ course

/-- What is true of the result and the last context of a program is true of its rest after a turn,
when others have had theirs. -/
theorem turn {holds : α → Context → Prop}
    (always : Always program session fun _ result last => holds result last.context)
    (shared : Shared) :
    Always (program.turn session).1 ⟨shared, (program.turn session).2.context⟩
      fun _ result last => holds result last.context := by
  induction program generalizing session with
  | done result =>
    have itself := always _ _ _ (.done result session)
    exact .done itself
  | read next ih => exact ih session fun _ _ _ course => always _ _ _ (.read course)
  | change update next ih => exact ih fun _ _ _ course => always _ _ _ (.change course)
  | pause next ih => exact fun _ _ _ course => always _ _ _ (.pause shared course)
  | await ready limit next late ihNext ihLate =>
    rw [Program.turn]
    split
    · rename_i ready
      exact ihNext fun _ _ _ course => always _ _ _ (.goesOn session.shared ready course)
    · refine await (fun later holds => ?_) fun later fails => ?_
      · exact fun _ _ _ course => always _ _ _ (.goesOn later holds course)
      · exact fun _ _ _ course => always _ _ _ (.expires later fails course)

end Always

/-- Whatever becomes of the shared state at pauses and waits, and whichever waits are given up, the
program makes allowed changes only and ends as is told. -/
def Abides (allowed : Session × Session → Prop) (ends : α → Context → Prop) :
    Program Session α → Session → Prop
  | done result, session => ends result session.context
  | read next, session => Abides allowed ends (next session) session
  | change update next, session =>
    allowed (session, update session) ∧ Abides allowed ends next (update session)
  | pause next, session => ∀ shared, Abides allowed ends next ⟨shared, session.context⟩
  | await _ _ next late, session => ∀ shared, Abides allowed ends next ⟨shared, session.context⟩ ∧
      Abides allowed ends late ⟨shared, session.context⟩

/-- What allowed changes do to the context of their task, one after another. -/
structure Carries (allowed : Session × Session → Prop) (step : Context → Context → Prop) : Prop where
  refl : ∀ context, step context context
  trans : ∀ {first second third}, step first second → step second third → step first third
  change : ∀ {before after}, allowed (before, after) → step before.context after.context

namespace Abides
variable {program : Program Session α} {session : Session} {allowed : Session × Session → Prop}
  {ends : α → Context → Prop}

theorem mono {weaker : α → Context → Prop} (abides : Abides allowed ends program session)
    (weakens : ∀ {result context}, ends result context → weaker result context) :
    Abides allowed weaker program session := by
  induction program generalizing session with
  | done result => exact weakens abides
  | read next ih => exact ih session abides
  | change update next ih => exact ⟨abides.1, ih abides.2⟩
  | pause next ih => exact fun shared => ih (abides shared)
  | await ready limit next late ihNext ihLate =>
    exact fun shared => ⟨ihNext (abides shared).1, ihLate (abides shared).2⟩

theorem bind {last : β → Context → Prop} {f : α → Program Session β}
    (abides : Abides allowed ends program session)
    (rest : ∀ {result later}, ends result later.context → Abides allowed last (f result) later) :
    Abides allowed last (program.bind f) session := by
  induction program generalizing session with
  | done result => exact rest abides
  | read next ih => exact ih session abides
  | change update next ih => exact ⟨abides.1, ih abides.2⟩
  | pause next ih => exact fun shared => ih (abides shared)
  | await ready limit next late ihNext ihLate =>
    exact fun shared => ⟨ihNext (abides shared).1, ihLate (abides shared).2⟩

theorem pauses {turns : Nat}
    (rest : ∀ shared, Abides allowed ends program ⟨shared, session.context⟩) :
    Abides allowed ends (pauses program turns) session := by
  induction turns generalizing session with
  | zero => exact rest session.shared
  | succ turns ih => exact fun shared => ih rest

theorem always (abides : Abides allowed ends program session) :
    Always program session fun changes result last =>
      (∀ change ∈ changes, allowed change) ∧ ends result last.context := by
  induction program generalizing session with
  | done result => exact .done ⟨by simp, abides⟩
  | read next ih => exact .read (ih session abides)
  | change update next ih =>
    refine .change ((ih abides.2).mono fun {changes result last} ⟨all, meets⟩ => ⟨?_, meets⟩)
    exact List.forall_mem_cons.mpr ⟨abides.1, all⟩
  | pause next ih => exact .pause fun shared => ih (abides shared)
  | await ready limit next late ihNext ihLate =>
    exact .await (fun shared _ => ihNext (abides shared).1) fun shared _ => ihLate (abides shared).2

/-- What the changes of a program leave true of its context is true all along. -/
theorem invariant (holds : Context → Prop)
    (abides : Abides (fun change => holds change.1.context → holds change.2.context) ends program
      session) (begins : holds session.context) :
    Abides (fun change => holds change.1.context ∧ holds change.2.context) ends program session := by
  induction program generalizing session with
  | done result => exact abides
  | read next ih => exact ih session abides begins
  | change update next ih =>
    exact ⟨⟨begins, abides.1 begins⟩, ih abides.2 (abides.1 begins)⟩
  | pause next ih => exact fun shared => ih (abides shared) begins
  | await ready limit next late ihNext ihLate =>
    exact fun shared => ⟨ihNext (abides shared).1 begins, ihLate (abides shared).2 begins⟩

variable {step : Context → Context → Prop}

theorem turn (carries : Carries allowed step) (abides : Abides allowed ends program session) :
    step session.context (program.turn session).2.context ∧ ∀ shared,
      Abides allowed ends (program.turn session).1 ⟨shared, (program.turn session).2.context⟩ := by
  induction program generalizing session with
  | done result => exact ⟨carries.refl _, fun _ => abides⟩
  | read next ih => exact ih session abides
  | change update next ih =>
    obtain ⟨others, rest⟩ := ih abides.2
    exact ⟨carries.trans (carries.change abides.1) others, rest⟩
  | pause next ih => exact ⟨carries.refl _, abides⟩
  | await ready limit next late ihNext ihLate =>
    rw [Program.turn]
    split
    · exact ihNext (abides session.shared).1
    · exact ⟨carries.refl _, fun shared => abides⟩

theorem alone (carries : Carries allowed step) (abides : Abides allowed ends program session) :
    step session.context (program.alone session).2.context ∧
      ends (program.alone session).1 (program.alone session).2.context := by
  induction program generalizing session with
  | done result => exact ⟨carries.refl _, abides⟩
  | read next ih => exact ih session abides
  | change update next ih =>
    obtain ⟨others, meets⟩ := ih abides.2
    exact ⟨carries.trans (carries.change abides.1) others, meets⟩
  | pause next ih => exact ih (abides session.shared)
  | await ready limit next late ihNext ihLate =>
    rw [Program.alone]
    split
    · exact ihNext (abides session.shared).1
    · exact ihLate (abides session.shared).2

end Abides
end Program

/-- No change gives a key a value or takes one from it. -/
def Session.Spares (key : String) (changes : List (Session × Session)) : Prop :=
  ∀ change ∈ changes, change.2.shared.results.find? key = change.1.shared.results.find? key

namespace Session.Spares
variable {key : String} {changes more : List (Session × Session)}

@[simp] theorem nil : Spares key [] := by simp [Spares]

theorem cons {before after : Session} :
    Spares key ((before, after) :: changes) ↔
      after.shared.results.find? key = before.shared.results.find? key ∧ Spares key changes := by
  simp [Spares]

theorem append : Spares key (changes ++ more) ↔ Spares key changes ∧ Spares key more := by
  simp [Spares, or_imp, forall_and]

end Session.Spares
/-- All that the changes do to the value of a key is to give it one of a kind where it had none. -/
def Session.StoresOnly (key : String) (kind : Resolved → Prop) (changes : List (Session × Session)) :
    Prop :=
  ∀ change ∈ changes, change.2.shared.results.find? key = change.1.shared.results.find? key ∨
    ∃ value, kind value ∧ change.1.shared.results.find? key = none ∧
      change.2.shared.results.find? key = some value

namespace Session.StoresOnly
variable {key : String} {kind other : Resolved → Prop} {changes more : List (Session × Session)}

theorem of_spares (spares : Spares key changes) : StoresOnly key kind changes :=
  fun change member => .inl (spares change member)

theorem append (first : StoresOnly key kind changes) (second : StoresOnly key kind more) :
    StoresOnly key kind (changes ++ more) :=
  fun change member => (List.mem_append.mp member).elim (first change) (second change)

theorem mono (stores : StoresOnly key kind changes) (wider : ∀ {value}, kind value → other value) :
    StoresOnly key other changes :=
  fun change member => (stores change member).imp_right fun ⟨value, holds, stored⟩ =>
    ⟨value, wider holds, stored⟩

theorem spares (stores : StoresOnly key kind changes) (never : ∀ value, ¬ kind value) :
    Spares key changes :=
  fun change member => (stores change member).resolve_right fun ⟨value, holds, _⟩ =>
    never value holds

end Session.StoresOnly

end LinkedMarkup
