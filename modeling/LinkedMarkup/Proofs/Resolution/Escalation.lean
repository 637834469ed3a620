import LinkedMarkup.Proofs.Visitor.Passes
/-! Failures that end the processing, raised inside of resolutions. A resolution is watched by one that
does the same and puts down each such failure in its notes as soon as it is raised, at whatever depth. Every
course of the resolution is one of the watched resolution but for the notes, and all that is put down
is the failure with which the resolution as a whole ends. -/
namespace LinkedMarkup
open Program

def Session.noted (session : Session) (notes : List Value) : Session :=
  { session with context := { session.context with notes } }

/-- Put down a failure if it ends the processing. -/
def Context.observe (context : Context) (error : ReferenceError) : Context :=
  if context.stopsAt error.severity then
    { context with notes := context.notes ++ [.text error.message] }
  else context

theorem Context.stopsAt_severity (context : Context) (error : ReferenceError) :
    context.stopsAt error.severity = true ↔ ¬ Resolver.Tolerated context.mode error := by
  rw [ReferenceError.severity, Resolver.Tolerated]
  cases error.isPathDependent <;> cases mode : context.mode <;> simp [stopsAt, mode]

/-- The same resolution, which puts down its own failure if that ends the processing. -/
def Resolving.observed {α : Type} (resolution : Resolving α) : Resolving α :=
  tryCatch resolution fun error => do
    update (Session.onContext (·.observe error))
    throw error

namespace Resolver
variable (resolver : Resolver) (watch : {α : Type} → Resolving α → Resolving α)

/-- `expandReference` with a watch over the resolution. -/
def watchReference (resolve : Uri → Resolving Resolved) (r : Reference) : Resolving Reference :=
  tryCatch (watch (resolveReference resolve r)) fun error => do
    Resolving.tolerate error r.position
    return r

/-- `expandHead` with a watch over the resolution of the ancestor. -/
def watchHead (resolve : Uri → Resolving Resolved) (again : List Node → Resolving (List Node))
    (e : Element) : Resolving (Element × List Node) :=
  match e.extends? with
  | none => pure ({ e with children := [] }, [])
  | some target => do
    let found ← tryCatch (some <$> watch (ancestor resolve target)) fun error => do
      Resolving.tolerate error e.position
      return none
    match found with
    | none => return ({ e with children := [] }, [])
    | some a =>
      resolver.warnDiscarded e a
      let inherited ← again (Inheritance.children (resolver.tags.model e.tag) a)
      return (Inheritance.head e a, inherited)

def watchExpansion (resolve : Uri → Resolving Resolved) : Nat → Expansion
  | 0 => ⟨watchReference watch resolve, watchHead resolver watch resolve cutOff⟩
  | levels + 1 =>
    ⟨watchReference watch resolve,
      watchHead resolver watch resolve (watchExpansion resolve levels).nodes⟩

def watchExpand (resolve : Uri → Resolving Resolved) (value : Resolved) : Resolving Resolved :=
  let expansion := watchExpansion resolver watch resolve resolver.nesting
  match value with
  | .element e => Resolved.element <$> expansion.element e
  | .document d => do
    let children ← expansion.nodes d.children
    return .document { d with children }
  | value => pure value

def watchFetch (resolve : Uri → Resolving Resolved) (uri : Uri) : Resolving Resolved :=
  match resolver.protocols.find? uri.protocol with
  | none => throw (.unsupportedProtocol uri.protocol uri.key)
  | some handler => do
    Resolving.update fun session => session.note (.asked session.context.task uri)
    let value ← resolver.ask handler uri
    watchExpand resolver watch resolve value

def watchWithin : Nat → Uri → Resolving Resolved
  | 0, uri => resolver.resolveBy uri none
  | room + 1, uri => resolver.resolveBy uri (some (watchFetch resolver watch (watchWithin room) uri))

def watchResolve (uri : Uri) : Resolving Resolved :=
  ExceptT.mk <| .read fun session =>
    (watchWithin resolver watch (resolver.maxDepth - session.context.resolving.length) uri).run

def watchResolution (r : Reference) : Program Session (Except ReferenceError Reference) :=
  (watch (resolveReference (watchResolve resolver watch) r)).run

def watchInherit (e : Element) : Resolving Element :=
  match e.extends? with
  | none => pure e
  | some target => do
    let found ← watch (ancestor (watchResolve resolver watch) target)
    resolver.mergeAncestor e found

def watchNodes (nodes : List Node) : Resolving (List Node) :=
  (watchExpansion resolver watch (watchResolve resolver watch) resolver.nesting).nodes nodes

private theorem watchExpansion_id (resolve : Uri → Resolving Resolved) (levels : Nat) :
    watchExpansion resolver (fun resolution => resolution) resolve levels =
      resolver.expansion resolve levels := by
  induction levels with
  | zero => rfl
  | succ levels ih =>
    rw [watchExpansion, ih]
    rfl

private theorem watchWithin_id (room : Nat) (uri : Uri) :
    watchWithin resolver (fun resolution => resolution) room uri = resolver.resolveWithin room uri := by
  induction room generalizing uri with
  | zero => rfl
  | succ room ih =>
    have below : watchWithin resolver (fun resolution => resolution) room =
        resolver.resolveWithin room := funext ih
    have expands (resolve : Uri → Resolving Resolved) :
        watchExpand resolver (fun resolution => resolution) resolve = resolver.expand resolve := by
      funext value
      unfold watchExpand
      rw [watchExpansion_id]
      rfl
    rw [watchWithin, below, watchFetch, expands]
    rfl

/-- What is watched is the resolver itself. -/
theorem watch_id :
    watchResolve resolver (fun resolution => resolution) = resolver.resolve ∧
      watchResolution resolver (fun resolution => resolution) = resolver.resolution ∧
      watchInherit resolver (fun resolution => resolution) = resolver.inherit ∧
      watchNodes resolver (fun resolution => resolution) = resolver.expandNodes := by
  have resolves : watchResolve resolver (fun resolution => resolution) = resolver.resolve := by
    funext uri
    simp only [watchResolve, watchWithin_id]
    rfl
  refine ⟨resolves, ?_, ?_, ?_⟩
  · funext r
    rw [watchResolution, resolves]
    rfl
  · funext e
    unfold watchInherit
    rw [resolves]
    rfl
  · funext nodes
    rw [watchNodes, resolves, watchExpansion_id]
    rfl

end Resolver

/-- The same changes, but for what is put down in notes. -/
inductive Retraced : List (Session × Session) → List (Session × Session) → Prop where
  | nil : Retraced [] []
  | change (before after : Session) (notes : List Value) {changes watched : List (Session × Session)}
    (rest : Retraced changes watched) :
    Retraced ((before, after) :: changes) ((before.noted notes, after.noted notes) :: watched)
  | note (session : Session) (notes more : List Value) {changes watched : List (Session × Session)}
    (rest : Retraced changes watched) :
    Retraced changes ((session.noted notes, session.noted more) :: watched)

theorem Retraced.append {changes watched more others : List (Session × Session)}
    (one : Retraced changes watched) (two : Retraced more others) :
    Retraced (changes ++ more) (watched ++ others) := by
  induction one with
  | nil => exact two
  | change before after notes _ ih => exact .change before after notes ih
  | note session notes more _ ih => exact .note session notes more ih

namespace Program
variable {α β : Type}

/-- A program that comes to its end, and another one that goes on from there. -/
theorem Course.bind {program : Program Session α} {f : α → Program Session β}
    {session middle last : Session} {changes more : List (Session × Session)} {result : α} {final : β}
    (first : Course program session changes result middle)
    (rest : Course (f result) middle more final last) :
    Course (program.bind f) session (changes ++ more) final last := by
  induction first with
  | done => exact rest
  | read _ ih => exact .read (ih rest)
  | change _ ih => exact .change (ih rest)
  | pause shared _ ih => exact .pause shared (ih rest)
  | goesOn shared holds _ ih => exact .goesOn shared holds (ih rest)
  | expires shared fails _ ih => exact .expires shared fails (ih rest)

/-- Every course of a program from a session is one of the watched program but for the notes, and
what is put down on the way is good. -/
def Shadowed (good : α → List Value → Prop) (program watched : Program Session α) (session : Session)
    (notes : List Value) : Prop :=
  Always program session fun changes result last => last.context.mode = session.context.mode ∧
    ∃ retraced seen, Course watched (session.noted notes) retraced result (last.noted (notes ++ seen)) ∧
      Retraced changes retraced ∧ good result seen

namespace Shadowed
variable {program watched : Program Session α} {session : Session} {notes : List Value}
  {good : α → List Value → Prop}

theorem done {result : α} (holds : good result []) :
    Shadowed good (.done result) (.done result) session notes := by
  refine Always.done ⟨rfl, [], [], ?_, .nil, holds⟩
  rw [List.append_nil]
  exact .done result _

theorem read {next following : Session → Program Session α}
    (rest : Shadowed good (next session) (following (session.noted notes)) session notes) :
    Shadowed good (.read next) (.read following) session notes :=
  Always.read <| Always.mono rest fun ⟨mode, retraced, seen, course, same, holds⟩ =>
    ⟨mode, retraced, seen, .read course, same, holds⟩

theorem change {update following : Session → Session}
    (mode : (update session).context.mode = session.context.mode)
    (blind : following (session.noted notes) = (update session).noted notes)
    (rest : Shadowed good program watched (update session) notes) :
    Shadowed good (.change update program) (.change following watched) session notes := by
  refine Always.change (Always.mono rest fun ⟨mode', retraced, seen, course, same, holds⟩ => ?_)
  refine ⟨mode'.trans mode, _, seen, .change (blind ▸ course), ?_, holds⟩
  rw [blind]
  exact .change session _ notes same

theorem mono {better : α → List Value → Prop}
    (shadowed : Shadowed good program watched session notes)
    (weaker : ∀ {result seen}, good result seen → better result seen) :
    Shadowed better program watched session notes :=
  Always.mono shadowed fun ⟨mode, retraced, seen, course, same, holds⟩ =>
    ⟨mode, retraced, seen, course, same, weaker holds⟩

theorem bind {last : β → List Value → Prop} {f g : α → Program Session β}
    (first : Shadowed good program watched session notes)
    (rest : ∀ {result seen later}, good result seen → later.context.mode = session.context.mode →
      Shadowed (fun final more => last final (seen ++ more)) (f result) (g result) later
        (notes ++ seen)) :
    Shadowed last (program.bind f) (watched.bind g) session notes := by
  refine Always.bind first fun {changes result middle} ⟨mode, retraced, seen, course, same, holds⟩ => ?_
  refine Always.mono (rest holds mode) fun ⟨mode', others, more, course', same', holds'⟩ => ?_
  rw [List.append_assoc] at course'
  exact ⟨mode'.trans mode, _, seen ++ more, course.bind course', same.append same', holds'⟩

end Shadowed

/-- A program that does not look at the notes, and leaves them and the mode alone. -/
def Blind : Program Session α → Prop
  | done _ => True
  | read next => ∀ session, Blind (next session) ∧ ∀ notes, next (session.noted notes) = next session
  | change update next => Blind next ∧ ∀ session, (update session).context.mode = session.context.mode ∧
      ∀ notes, update (session.noted notes) = (update session).noted notes
  | pause next => Blind next
  | await ready _ next late =>
    (∀ session notes, ready (Session.noted session notes) = ready session) ∧ Blind next ∧ Blind late

theorem Blind.shadowed {program : Program Session α} (blind : Blind program) (session : Session)
    (notes : List Value) :
    Shadowed (fun _ seen => seen = []) program program session notes := by
  induction program generalizing session with
  | done result => exact .done rfl
  | read next ih =>
    obtain ⟨rest, same⟩ := blind session
    exact .read (same notes ▸ ih session rest session)
  | change update next ih =>
    obtain ⟨mode, same⟩ := blind.2 session
    exact .change mode (same notes) (ih blind.1 _)
  | pause next ih =>
    refine Always.pause fun shared => Always.mono (ih blind ⟨shared, session.context⟩) ?_
    rintro changes result last ⟨mode, retraced, seen, course, same, holds⟩
    exact ⟨mode, retraced, seen, .pause shared course, same, holds⟩
  | await ready limit next late ihNext ihLate =>
    obtain ⟨same, goesOn, expires⟩ := blind
    refine Always.await (fun shared holds => ?_) fun shared fails => ?_
    · refine Always.mono (ihNext goesOn ⟨shared, session.context⟩) ?_
      rintro changes result last ⟨mode, retraced, seen, course, traced, quiet⟩
      exact ⟨mode, retraced, seen, .goesOn shared ((same _ _).trans holds) course, traced, quiet⟩
    · refine Always.mono (ihLate expires ⟨shared, session.context⟩) ?_
      rintro changes result last ⟨mode, retraced, seen, course, traced, quiet⟩
      exact ⟨mode, retraced, seen, .expires shared ((same _ _).trans fails) course, traced, quiet⟩

theorem Blind.pauses {program : Program Session α} (blind : Blind program) (turns : Nat) :
    Blind (pauses program turns) := by
  induction turns with
  | zero => exact blind
  | succ turns ih => exact ih

end Program

namespace Resolving
variable {α β : Type}

/-- All that is put down is the failure with which the resolution ends. -/
def Raised (context : Context) (outcome : Except ReferenceError α) (seen : List Value) : Prop :=
  ∀ note ∈ seen, ∃ error, outcome = .error error ∧ context.stopsAt error.severity = true ∧
    note = .text error.message

theorem Raised.nil_of_ok {context : Context} {result : α} {seen : List Value}
    (raised : Raised context (.ok result) seen) : seen = [] :=
  List.eq_nil_iff_forall_not_mem.mpr fun note member => by
    obtain ⟨error, wrong, _⟩ := raised note member
    cases wrong

def Watched (resolution watched : Resolving α) : Prop :=
  ∀ session notes, Shadowed (Raised session.context) resolution.run watched.run session notes

namespace Watched
variable {first second : Resolving α}

theorem of_blind (blind : Blind first.run) : Watched first first :=
  fun session notes => (blind.shadowed session notes).mono fun quiet => by simp [quiet, Raised]

theorem pure (result : α) : Watched (Pure.pure result) (Pure.pure result) := of_blind trivial

theorem throw (error : ReferenceError) :
    Watched (MonadExcept.throw error : Resolving α) (MonadExcept.throw error) := of_blind trivial

theorem bind {next following : α → Resolving β} (watched : Watched first second)
    (rest : ∀ result, Watched (next result) (following result)) :
    Watched (first >>= next) (second >>= following) := by
  intro session notes
  refine Shadowed.bind (watched session notes) fun {outcome seen later} raised mode => ?_
  cases outcome with
  | ok result =>
    cases raised.nil_of_ok
    rw [List.append_nil]
    refine (rest result later notes).mono fun {final more} holds note member => ?_
    obtain ⟨error, same, stops, text⟩ := holds note member
    exact ⟨error, same, (Context.stopsAt_congr mode _).symm.trans stops, text⟩
  | error error =>
    refine Shadowed.done fun note member => ?_
    rw [List.append_nil] at member
    obtain ⟨cause, same, rest⟩ := raised note member
    cases same
    exact ⟨error, rfl, rest⟩

theorem map (f : α → β) (watched : Watched first second) : Watched (f <$> first) (f <$> second) :=
  watched.bind fun result => pure (f result)

/-- A failure that is put down is the failure of the whole. -/
theorem observed (watched : Watched first second) : Watched first second.observed := by
  intro session notes
  refine Always.mono (watched session notes) ?_
  rintro changes outcome last ⟨mode, retraced, seen, course, same, raised⟩
  cases outcome with
  | ok result =>
    refine ⟨mode, _, seen, course.bind (.done _ _), ?_, ?_⟩
    · rw [List.append_nil]
      exact same
    · exact raised
  | error error =>
    have stops : (last.noted (notes ++ seen)).context.stopsAt error.severity =
        session.context.stopsAt error.severity := Context.stopsAt_congr mode _
    have puts : ∃ more, Session.onContext (·.observe error) (last.noted (notes ++ seen)) =
        last.noted (notes ++ more) ∧
          Raised session.context (.error error : Except ReferenceError α) more := by
      by_cases grave : session.context.stopsAt error.severity = true
      · refine ⟨seen ++ [.text error.message], ?_, ?_⟩
        · rw [Session.onContext, Context.observe, if_pos (stops.trans grave), ← List.append_assoc]
          rfl
        · refine List.forall_mem_append.mpr ⟨raised, fun note member => ?_⟩
          exact ⟨error, rfl, grave, List.mem_singleton.mp member⟩
      · refine ⟨seen, ?_, raised⟩
        rw [Session.onContext, Context.observe, if_neg (stops ▸ grave)]
    obtain ⟨more, noted, holds⟩ := puts
    have tells : Course (.change (Session.onContext (·.observe error)) (.done (.error error)))
        (last.noted (notes ++ seen)) [(last.noted (notes ++ seen), last.noted (notes ++ more))]
        (.error error : Except ReferenceError α) (last.noted (notes ++ more)) := by
      rw [← noted]
      exact .change (.done _ _)
    refine ⟨mode, _, more, course.bind tells, ?_, holds⟩
    exact List.append_nil changes ▸ same.append (.note last _ _ .nil)

/-- A resolution inside of a tree, whose failures are passed over unless they end the processing. -/
theorem attempt (watched : Watched first second) (position : Span) (instead : α) :
    Watched
      (tryCatch first fun error => do Resolving.tolerate error position; return instead)
      (tryCatch second fun error => do Resolving.tolerate error position; return instead) := by
  intro session notes
  refine Shadowed.bind (watched session notes) fun {outcome seen later} raised mode => ?_
  cases outcome with
  | ok result =>
    refine Shadowed.done fun note member => ?_
    rw [List.append_nil] at member
    exact raised note member
  | error error =>
    have here := later.context.report_ofReference error position
    have there := (later.noted (notes ++ seen)).context.report_ofReference error position
    have modes : (later.noted (notes ++ seen)).context.mode = later.context.mode := rfl
    rw [modes] at there
    refine Shadowed.read ?_
    rcases here with ⟨tolerated, passes⟩ | ⟨ends, stop, same⟩
    · -- The failure is passed over: nothing has been put down, and the resolution goes on.
      have passes' := (there.resolve_right fun ⟨ends, _⟩ => ends tolerated).2
      have quiet : seen = [] := List.eq_nil_iff_forall_not_mem.mpr fun note member => by
        obtain ⟨cause, told, stops, _⟩ := raised note member
        cases told
        rw [← Context.stopsAt_congr mode, Context.stopsAt_severity] at stops
        exact absurd tolerated stops
      simp only [passes, passes']
      refine Shadowed.change rfl ?_ (Shadowed.done ?_)
      · rfl
      · simp [quiet, Raised]
    · obtain ⟨_, stop', same'⟩ := there.resolve_left fun ⟨tolerated, _⟩ => ends tolerated
      simp only [same, same']
      refine Shadowed.done fun note member => ?_
      rw [List.append_nil] at member
      obtain ⟨cause, told, rest⟩ := raised note member
      cases told
      exact ⟨error, rfl, rest⟩

end Watched
end Resolving

namespace Resolver
open Resolving
variable {resolver : Resolver} {first second : Uri → Resolving Resolved}

/-- The parts of an expansion are watched by those of another one. -/
structure Expansion.Watched (plain watched : Expansion) : Prop where
  reference : ∀ r, Resolving.Watched (plain.reference r) (watched.reference r)
  inherit : ∀ e, Resolving.Watched (plain.inherit e) (watched.inherit e)

mutual
private theorem node_watched {plain watched : Expansion} (parts : plain.Watched watched) :
    ∀ node : Node, Watched (plain.node node) (watched.node node)
  | .element e => (element_watched parts e).map _
  | .reference r => (parts.reference r).map _
  | .content _ => .pure _
private theorem nodes_watched {plain watched : Expansion} (parts : plain.Watched watched) :
    ∀ nodes : List Node, Watched (plain.nodes nodes) (watched.nodes nodes)
  | [] => .pure _
  | node :: rest =>
    (node_watched parts node).bind fun first =>
      (nodes_watched parts rest).bind fun others => .pure (first :: others)
private theorem element_watched {plain watched : Expansion} (parts : plain.Watched watched) :
    ∀ e : Element, Watched (plain.element e) (watched.element e)
  | ⟨tag, attributes, children, metadata, position⟩ =>
    (parts.inherit ⟨tag, attributes, children, metadata, position⟩).bind fun (head, inherited) =>
      (nodes_watched parts children).bind fun own =>
        .pure { head with children := inherited ++ own }
end

private theorem warnDiscarded_watched (e a : Element) :
    Watched (resolver.warnDiscarded e a) (resolver.warnDiscarded e a) := by
  unfold warnDiscarded
  split
  · exact .of_blind ⟨trivial, fun _ => ⟨rfl, fun _ => rfl⟩⟩
  · exact .pure ()

private theorem cutOff_watched (nodes : List Node) : Watched (cutOff nodes) (cutOff nodes) := by
  unfold cutOff
  split
  · exact .of_blind ⟨trivial, fun _ => ⟨rfl, fun _ => rfl⟩⟩
  · exact .pure nodes

private theorem ask_blind (handler : Handler) (uri : Uri) : Blind (resolver.ask handler uri).run := by
  intro session
  refine ⟨?_, fun _ => rfl⟩
  dsimp only
  have late (error : ReferenceError) : Blind (.elapse resolver.timeout
      (.done (.error error : Except ReferenceError Resolved))) := ⟨fun _ _ => rfl, trivial, trivial⟩
  have answers (outcome : Except ReferenceError Resolved) : Blind (.done outcome) := trivial
  split
  · exact (late _).pauses _
  split
  · trivial
  · exact (answers _).pauses _

section
variable (watched : ∀ uri, Watched (first uri) (second uri))
include watched

private theorem resolveReference_watched (r : Reference) :
    Watched (resolveReference first r) (resolveReference second r) := by
  unfold resolveReference
  split
  · exact .pure r
  · exact (watched r.uri).bind fun value => .pure (r.resolveTo value)

private theorem ancestor_watched (target : String) :
    Watched (ancestor first target) (ancestor second target) := by
  unfold ancestor
  split
  · exact .throw _
  · exact (watched _).bind fun value => .of_blind trivial

private theorem watchReference_watched (r : Reference) :
    Watched (expandReference first r) (watchReference observed second r) :=
  (resolveReference_watched watched r).observed.attempt r.position r

private theorem watchHead_watched {again once : List Node → Resolving (List Node)}
    (inherits : ∀ nodes, Watched (again nodes) (once nodes)) (e : Element) :
    Watched (expandHead resolver first again e) (watchHead resolver observed second once e) := by
  unfold expandHead watchHead
  cases e.extends? with
  | none => exact .pure _
  | some target =>
  refine (((ancestor_watched watched target).observed.map some).attempt e.position none).bind
    fun found => ?_
  cases found with
  | none => exact .pure _
  | some a =>
    exact (warnDiscarded_watched e a).bind fun _ => (inherits _).bind fun inherited => .pure (Inheritance.head e a, inherited)

private theorem watchExpansion_watched (levels : Nat) :
    (resolver.expansion first levels).Watched (watchExpansion resolver observed second levels) := by
  induction levels with
  | zero => exact ⟨watchReference_watched watched, watchHead_watched watched cutOff_watched⟩
  | succ levels ih =>
    exact ⟨watchReference_watched watched, watchHead_watched watched (nodes_watched ih)⟩

private theorem watchExpand_watched (value : Resolved) :
    Watched (resolver.expand first value) (watchExpand resolver observed second value) := by
  have parts : (resolver.expansion first resolver.nesting).Watched
      (watchExpansion resolver observed second resolver.nesting) :=
    watchExpansion_watched watched resolver.nesting
  cases value with
  | element e => exact (element_watched parts e).map _
  | document d => exact (nodes_watched parts d.children).bind fun children => .pure _
  | data value => exact .pure _
  | text text => exact .pure _

private theorem watchFetch_watched (uri : Uri) :
    Watched (resolver.fetch first uri) (watchFetch resolver observed second uri) := by
  unfold fetch watchFetch
  cases resolver.protocols.find? uri.protocol with
  | none => exact .throw _
  | some handler =>
    have notes : Watched (Resolving.update fun session => session.note (.asked session.context.task uri))
        (Resolving.update fun session => session.note (.asked session.context.task uri)) :=
      .of_blind ⟨trivial, fun _ => ⟨rfl, fun _ => rfl⟩⟩
    exact notes.bind fun _ => (Watched.of_blind (ask_blind handler uri)).bind fun value =>
      watchExpand_watched watched value

end

private theorem acquire_blind (timeout : Nat) (key : String) : Blind (acquire timeout key).run := by
  intro session
  refine ⟨?_, fun _ => rfl⟩
  dsimp only
  split
  · trivial
  · trivial
  split
  · exact ⟨trivial, fun _ => ⟨rfl, fun _ => rfl⟩⟩
  split
  · trivial
  refine ⟨⟨fun _ _ => rfl, ⟨fun session => ⟨?_, fun _ => rfl⟩, fun _ => ⟨rfl, fun _ => rfl⟩⟩, trivial,
    fun _ => ⟨rfl, fun _ => rfl⟩⟩, fun _ => ⟨rfl, fun _ => rfl⟩⟩
  dsimp only
  split
  · exact ⟨trivial, fun _ => ⟨rfl, fun _ => rfl⟩⟩
  · exact ⟨trivial, fun _ => ⟨rfl, fun _ => rfl⟩⟩
  · trivial

private theorem fetchOwned_watched (uri : Uri) {plain watched : Resolving Resolved}
    (fetches : Watched plain watched) : Watched (fetchOwned uri plain) (fetchOwned uri watched) := by
  intro session notes
  refine Shadowed.change rfl rfl ?_
  refine (fetches (session.onContext (·.enter uri.key)) notes).bind fun {outcome seen later} raised _ => ?_
  refine Shadowed.change rfl rfl (Shadowed.done ?_)
  rw [List.append_nil]
  exact raised

private theorem resolveBy_watched (uri : Uri) {plain watched : Option (Resolving Resolved)}
    (fetches : Option.Rel Watched plain watched) :
    Watched (resolver.resolveBy uri plain) (resolver.resolveBy uri watched) := by
  intro session notes
  refine Shadowed.read ?_
  have nothing (outcome : Except ReferenceError Resolved) :
      Shadowed (Raised session.context) (.done outcome) (.done outcome) session notes :=
    Shadowed.done (by simp [Raised])
  dsimp only [Session.noted]
  cases session.shared.results.find? uri.key with
  | some value => exact nothing (.ok value)
  | none =>
    have same : Context.cycle? { session.context with notes } uri.key = session.context.cycle? uri.key :=
      rfl
    rw [same]
    cases session.context.cycle? uri.key with
    | some cycle => exact nothing (.error _)
    | none =>
      cases fetches with
      | none => exact nothing (.error _)
      | some fetches =>
        refine ((acquire_blind resolver.timeout uri.key).shadowed session notes).bind
          fun {outcome seen later} quiet mode => ?_
        cases quiet
        rw [List.append_nil]
        simp only [List.nil_append]
        match outcome with
        | .error error => exact Shadowed.done (by simp [Raised])
        | .ok (.value value) => exact Shadowed.done (by simp [Raised])
        | .ok .owned =>
          refine (fetchOwned_watched uri fetches later notes).mono fun {final more} raised note member => ?_
          obtain ⟨error, ended, stops, text⟩ := raised note member
          exact ⟨error, ended, (Context.stopsAt_congr mode _).symm.trans stops, text⟩

private theorem watchWithin_watched (room : Nat) (uri : Uri) :
    Watched (resolver.resolveWithin room uri) (watchWithin resolver observed room uri) := by
  induction room generalizing uri with
  | zero => exact resolveBy_watched uri .none
  | succ room ih => exact resolveBy_watched uri (.some (watchFetch_watched ih uri))

theorem watchResolve_watched (uri : Uri) :
    Watched (resolver.resolve uri) (watchResolve resolver observed uri) :=
  fun session notes => Shadowed.read (watchWithin_watched _ uri session notes)

theorem watchInherit_watched (e : Element) :
    Watched (resolver.inherit e) (watchInherit resolver observed e) := by
  unfold inherit watchInherit
  cases e.extends? with
  | none => exact .pure e
  | some target =>
    exact (ancestor_watched watchResolve_watched target).observed.bind fun a =>
      (warnDiscarded_watched e a).bind fun _ => .pure (Inheritance.merge resolver.tags e a)

theorem watchResolution_watched (r : Reference) :
    Watched (ExceptT.mk (resolver.resolution r)) (ExceptT.mk (watchResolution resolver observed r)) :=
  (resolveReference_watched watchResolve_watched r).observed

theorem watchNodes_watched (nodes : List Node) :
    Watched (resolver.expandNodes nodes) (watchNodes resolver observed nodes) :=
  nodes_watched (watchExpansion_watched watchResolve_watched resolver.nesting) nodes

end Resolver
end LinkedMarkup
