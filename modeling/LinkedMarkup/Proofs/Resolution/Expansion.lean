import LinkedMarkup.Proofs.Resolution.OpenReferences
/-! What can be said of the expansion of a tree when it is known what its references resolve to. A
property of resolutions, or a relation between two of them, that the constructs of an expansion
respect passes from the resolution of references to the expansion of trees. -/
namespace LinkedMarkup

def Meets {ε α : Type} (ok : α → Prop) (error : ε → Prop) : Except ε α → Prop
  | .ok result => ok result
  | .error cause => error cause

theorem Meets.imp {ε α : Type} {strong weak : α → Prop} {worse bad : ε → Prop}
    {outcome : Except ε α} (meets : Meets strong worse outcome)
    (weaker : ∀ {result}, strong result → weak result) (milder : ∀ {cause}, worse cause → bad cause) :
    Meets weak bad outcome := by
  cases outcome with
  | ok result => exact weaker meets
  | error cause => exact milder meets

namespace Resolver

/-- A failure inside a tree is passed over. -/
def Tolerated (mode : Mode) (error : ReferenceError) : Prop :=
  error.isPathDependent = false ∧ mode = .loose

end Resolver

namespace Context

def passedOver (context : Context) (error : ReferenceError) (position : Span) : Diagnostic :=
  (context.located ((Diagnostic.ofReference error).placedAt position)).degraded

/-- A failure is passed over or it ends the processing. -/
theorem report_ofReference (context : Context) (error : ReferenceError) (position : Span) :
    (Resolver.Tolerated context.mode error ∧
      context.report ((Diagnostic.ofReference error).placedAt position) =
        .ok (context.record (context.passedOver error position))) ∨
    (¬ Resolver.Tolerated context.mode error ∧
      ∃ stop, context.report ((Diagnostic.ofReference error).placedAt position) = .error stop) := by
  have severity : (context.located
      ((Diagnostic.ofReference error).placedAt position)).severity = error.severity := by
    simp only [located, Diagnostic.placedAt, Diagnostic.ofReference]
    split <;> split <;> rfl
  simp only [report, severity, ReferenceError.severity, Resolver.Tolerated]
  cases path : error.isPathDependent <;> cases mode : context.mode <;>
    simp [stopsAt, mode, passedOver]

end Context

namespace Resolver

/-- An ancestor that is not there is a failure of its own key. -/
theorem ordinary_of_ancestorOf {uri : Uri} {value : Resolved} {error : ReferenceError}
    (misses : ancestorOf uri value = .error error) : error.isPathDependent = false := by
  unfold ancestorOf at misses
  split at misses
  · cases misses
  · split at misses
    · cases misses
    · cases misses; rfl
  · cases misses; rfl

/-- A relation between two resolutions that start at some moment and agree in their outcome, with what
holds of a result and of an error when it comes, as far as the constructs of an expansion go. -/
structure Tracking (mode : Mode) where
  Moment : Type
  le : Moment → Moment → Prop
  trans : ∀ {first second third : Moment}, le first second → le second third → le first third
  /-- What holds of every failure. -/
  bad : ReferenceError → Prop
  ordinary : ∀ {error : ReferenceError}, error.isPathDependent = false → bad error
  rel : {α : Type} → Moment → (Moment → α → Prop) → (Moment → ReferenceError → Prop) →
    Resolving α → Resolving α → Prop
  mono : ∀ {α : Type} {now : Moment} {strong weak : Moment → α → Prop}
    {error : Moment → ReferenceError → Prop} {first second : Resolving α},
    rel now strong error first second →
    (∀ {later result}, le now later → strong later result → weak later result) →
    rel now weak error first second
  pure : ∀ {α : Type} {now : Moment} {ok : Moment → α → Prop}
    {error : Moment → ReferenceError → Prop} {result : α}, ok now result →
    rel now ok error (pure result) (pure result)
  throw : ∀ {α : Type} {now : Moment} {ok : Moment → α → Prop}
    {error : Moment → ReferenceError → Prop} {cause : ReferenceError}, error now cause →
    rel now ok error (throw cause) (throw cause)
  bind : ∀ {α β : Type} {now : Moment} {mid : Moment → α → Prop} {ok : Moment → β → Prop}
    {error : Moment → ReferenceError → Prop} {first second : Resolving α}
    {next following : α → Resolving β}, rel now mid error first second →
    (∀ {later result}, le now later → mid later result →
      rel later ok error (next result) (following result)) →
    rel now ok error (first >>= next) (second >>= following)
  tryCatch : ∀ {α : Type} {now : Moment} {ok : Moment → α → Prop}
    {mid error : Moment → ReferenceError → Prop} {first second : Resolving α}
    {handle cope : ReferenceError → Resolving α}, rel now ok mid first second →
    (∀ {later cause}, le now later → mid later cause → rel later ok error (handle cause) (cope cause)) →
    rel now ok error (tryCatch first handle) (tryCatch second cope)
  tolerate : ∀ {now : Moment} {cause : ReferenceError} (position : Span), bad cause →
    rel now (fun _ _ => Tolerated mode cause) (fun _ error => ¬ Tolerated mode error ∧ bad error)
      (Resolving.tolerate cause position) (Resolving.tolerate cause position)
  warn : ∀ {now : Moment} {error : Moment → ReferenceError → Prop} (message : String),
    rel now (fun _ _ => True) error (Resolving.warn .inheritedChildrenDiscarded message)
      (Resolving.warn .inheritedChildrenDiscarded message)
  cutOff : ∀ {now : Moment} {error : Moment → ReferenceError → Prop} (nodes : List Node),
    rel now (fun _ after => after = nodes) error (cutOff nodes) (cutOff nodes)

/-- An expansion has passed the open references of a part of a tree, and knows those that it has left
or brought in. -/
def Congruence.Expands (known passed : Uri → Prop) (before after : List Uri) : Prop :=
  (∀ uri ∈ after, known uri) ∧ ∀ uri ∈ before, passed uri

namespace Tracking
open Congruence (Expands)
variable {mode : Mode} (logic : Tracking mode)

theorem map {α β : Type} {now : logic.Moment} {mid : logic.Moment → α → Prop}
    {ok : logic.Moment → β → Prop} {error : logic.Moment → ReferenceError → Prop} {f : α → β}
    {first second : Resolving α} (begins : logic.rel now mid error first second)
    (rest : ∀ {later result}, logic.le now later → mid later result → ok later (f result)) :
    logic.rel now ok error (f <$> first) (f <$> second) := by
  have mapped (resolution : Resolving α) :
      f <$> resolution = resolution >>= fun result => Pure.pure (f result) := rfl
  rw [mapped, mapped]
  exact logic.bind begins fun after meets => logic.pure (rest after meets)

def Fails (_ : logic.Moment) (error : ReferenceError) : Prop :=
  ¬ Tolerated mode error ∧ logic.bad error

variable (known passed : logic.Moment → Uri → Prop)

/-- What is known of references at some moment stays known. -/
structure Lasting : Prop where
  known : ∀ {now later uri}, logic.le now later → known now uri → known later uri
  passed : ∀ {now later uri}, logic.le now later → passed now uri → passed later uri

def Agree (first second : Uri → Resolving Resolved) : Prop :=
  ∀ {now uri}, known now uri →
    logic.rel now (fun later value => (∀ next ∈ value.opens, known later next) ∧ passed later uri)
      (fun later error => (Tolerated mode error → passed later uri) ∧ logic.bad error)
      (first uri) (second uri)

/-- Two expansions agree on the parts of trees whose open references are known. -/
structure AgreeOn (first second : Expansion) : Prop where
  reference : ∀ {now} {r : Reference}, (∀ uri ∈ r.opens, known now uri) →
    logic.rel now (fun later after => Expands (known later) (passed later) r.opens after.opens)
      logic.Fails (first.reference r) (second.reference r)
  inherit : ∀ {now} {e : Element}, (∀ uri ∈ e.ancestor?.toList, known now uri) →
    logic.rel now (fun later merged => Expands (known later) (passed later) e.ancestor?.toList
        (merged.1.ancestor?.toList ++ Node.opensOf merged.2))
      logic.Fails (first.inherit e) (second.inherit e)

variable {logic known passed} {first second : Uri → Resolving Resolved} {one other : Expansion}

theorem Lasting.expands (lasting : logic.Lasting known passed) {now later : logic.Moment}
    {before after : List Uri} (goesOn : logic.le now later)
    (expands : Expands (known now) (passed now) before after) :
    Expands (known later) (passed later) before after :=
  ⟨fun uri member => lasting.known goesOn (expands.1 uri member),
    fun uri member => lasting.passed goesOn (expands.2 uri member)⟩

mutual
private theorem node (lasting : logic.Lasting known passed)
    (agree : logic.AgreeOn known passed one other) :
    ∀ {now} {node : Node}, (∀ uri ∈ node.opens, known now uri) →
      logic.rel now (fun later after => Expands (known later) (passed later) node.opens after.opens)
        logic.Fails (one.node node) (other.node node)
  | _, .element e, member =>
    logic.map (element lasting agree (by simpa only [Node.opens] using member))
      fun _ expands => by simpa only [Node.opens] using expands
  | _, .reference r, member =>
    logic.map (agree.reference (by simpa only [Node.opens] using member))
      fun _ expands => by simpa only [Node.opens] using expands
  | _, .content c, _ => logic.pure (by simp [Expands, Node.opens])
private theorem nodes (lasting : logic.Lasting known passed)
    (agree : logic.AgreeOn known passed one other) :
    ∀ {now} {nodes : List Node}, (∀ uri ∈ Node.opensOf nodes, known now uri) →
      logic.rel now
        (fun later after =>
          Expands (known later) (passed later) (Node.opensOf nodes) (Node.opensOf after))
        logic.Fails (one.nodes nodes) (other.nodes nodes)
  | _, [], _ => logic.pure (by simp [Expands, Node.opensOf])
  | now, first :: rest, member => by
    simp only [Node.opensOf, List.mem_append] at member
    refine logic.bind (node lasting agree fun uri here => member uri (.inl here))
      fun {mid begun} goesOn head => ?_
    have known : ∀ uri ∈ Node.opensOf rest, known mid uri :=
      fun uri there => lasting.known goesOn (member uri (.inr there))
    refine logic.bind (nodes lasting agree known) fun {last ended} goesOn tail => logic.pure ?_
    have head := lasting.expands goesOn head
    simp only [Expands, Node.opensOf, List.mem_append]
    exact ⟨fun uri found => found.elim (head.1 uri) (tail.1 uri),
      fun uri found => found.elim (head.2 uri) (tail.2 uri)⟩
private theorem element (lasting : logic.Lasting known passed)
    (agree : logic.AgreeOn known passed one other) :
    ∀ {now} {e : Element}, (∀ uri ∈ e.opens, known now uri) →
      logic.rel now (fun later after => Expands (known later) (passed later) e.opens after.opens)
        logic.Fails (one.element e) (other.element e)
  | now, ⟨tag, attributes, children, metadata, position⟩, member => by
    simp only [Element.opens_eq, List.mem_append] at member
    refine logic.bind (agree.inherit fun uri here => member uri (.inl here))
      fun {mid merged} goesOn above => ?_
    obtain ⟨head, inherited⟩ := merged
    have known : ∀ uri ∈ Node.opensOf children, known mid uri :=
      fun uri there => lasting.known goesOn (member uri (.inr there))
    refine logic.bind (nodes lasting agree known) fun {last own} goesOn below => logic.pure ?_
    have above := lasting.expands goesOn above
    have same : Element.ancestor? { head with children := inherited ++ own } = head.ancestor? := rfl
    simp only [Expands, Element.opens_eq, same, Node.opensOf_append, List.mem_append] at above ⊢
    refine ⟨fun uri found => ?_, fun uri found => found.elim (above.2 uri) (below.2 uri)⟩
    rcases found with here | there | beyond
    · exact above.1 uri (.inl here)
    · exact above.1 uri (.inr there)
    · exact below.1 uri beyond
end

private theorem resolveReference (agree : logic.Agree known passed first second)
    {now : logic.Moment} {r : Reference} (member : ∀ uri ∈ r.opens, known now uri) :
    logic.rel now (fun later after => Expands (known later) (passed later) r.opens after.opens)
      (fun later error => (Tolerated mode error → ∀ uri ∈ r.opens, passed later uri) ∧
        logic.bad error)
      (resolveReference first r) (resolveReference second r) := by
  unfold Resolver.resolveReference
  split
  · rename_i resolved
    have nothing : r.opens = [] := by rw [Reference.opens, if_pos resolved]
    exact logic.pure (by simp [Expands, nothing])
  · rename_i unresolved
    have itself : r.opens = [r.uri] := by rw [Reference.opens, if_neg unresolved]
    have step := agree (member r.uri (by simp [itself]))
    simp only [itself, List.mem_singleton, forall_eq]
    refine logic.bind step fun _ found => logic.pure ?_
    simpa [Expands, Reference.opens_resolveTo] using found.2

private theorem expandReference (lasting : logic.Lasting known passed)
    (agree : logic.Agree known passed first second)
    {now : logic.Moment} {r : Reference} (member : ∀ uri ∈ r.opens, known now uri) :
    logic.rel now (fun later after => Expands (known later) (passed later) r.opens after.opens)
      logic.Fails (expandReference first r) (expandReference second r) := by
  refine logic.tryCatch (resolveReference agree member) fun {mid cause} goesOn failed => ?_
  refine logic.bind (logic.tolerate r.position failed.2) fun {last _} later tolerated =>
    logic.pure ?_
  refine ⟨fun uri there => lasting.known (logic.trans goesOn later) (member uri there), ?_⟩
  exact fun uri there => lasting.passed later (failed.1 tolerated uri there)

theorem ancestor (agree : logic.Agree known passed first second) {e : Element}
    {target : String} (names : e.extends? = some target) {now : logic.Moment}
    (member : ∀ uri ∈ e.ancestor?.toList, known now uri) :
    logic.rel now
      (fun later a => Expands (known later) (passed later) e.ancestor?.toList (Element.opens a))
      (fun later error => (Tolerated mode error → ∀ uri ∈ e.ancestor?.toList, passed later uri) ∧
        logic.bad error)
      (ancestor first target) (ancestor second target) := by
  unfold Resolver.ancestor
  split
  · rename_i fault malformed
    have nothing : e.ancestor? = none := by
      simp [Element.ancestor?, names, malformed, Except.toOption]
    exact logic.throw ⟨by simp [nothing], logic.ordinary rfl⟩
  · rename_i uri wellFormed
    have named : e.ancestor? = some uri := by
      simp [Element.ancestor?, names, wellFormed, Except.toOption]
    have step := agree (member uri (by simp [named]))
    simp only [named, Option.toList_some, List.mem_singleton, forall_eq]
    refine logic.bind step fun {later value} _ found => ?_
    cases means : ancestorOf uri value with
    | ok a =>
      refine logic.pure ⟨fun next mentioned => ?_, by simpa using found.2⟩
      exact found.1 next (opens_ancestorOf means mentioned)
    | error cause =>
      exact logic.throw ⟨fun _ => found.2, logic.ordinary (ordinary_of_ancestorOf means)⟩

theorem warnDiscarded (logic : Tracking mode) {now : logic.Moment} (resolver : Resolver)
    (e a : Element) :
    logic.rel now (fun _ _ => True) logic.Fails
      (resolver.warnDiscarded e a) (resolver.warnDiscarded e a) := by
  unfold Resolver.warnDiscarded
  split
  · exact logic.warn _
  · exact logic.pure trivial

private theorem expandHead (lasting : logic.Lasting known passed)
    (agree : logic.Agree known passed first second)
    (resolver : Resolver) {again once : List Node → Resolving (List Node)}
    (inherits : ∀ {now} {nodes : List Node}, (∀ uri ∈ Node.opensOf nodes, known now uri) →
      logic.rel now (fun later after => ∀ uri ∈ Node.opensOf after, known later uri)
        logic.Fails (again nodes) (once nodes))
    {now : logic.Moment} {e : Element} (member : ∀ uri ∈ e.ancestor?.toList, known now uri) :
    logic.rel now (fun later merged => Expands (known later) (passed later) e.ancestor?.toList
        (merged.1.ancestor?.toList ++ Node.opensOf merged.2))
      logic.Fails
      (expandHead resolver first again e) (expandHead resolver second once e) := by
  unfold Resolver.expandHead
  split
  · rename_i alone
    have nothing : e.ancestor? = none := by simp [Element.ancestor?, alone]
    have same : Element.ancestor? { e with children := [] } = e.ancestor? := rfl
    exact logic.pure (by simp [Expands, same, nothing, Node.opensOf])
  · rename_i target names
    have same : Element.ancestor? { e with children := [] } = e.ancestor? := rfl
    have caught : logic.rel now (fun later (found : Option Element) =>
          (∀ a ∈ found, ∀ uri ∈ a.opens, known later uri) ∧
            ∀ uri ∈ e.ancestor?.toList, passed later uri)
        logic.Fails
        (MonadExcept.tryCatch (some <$> Resolver.ancestor first target) fun error => do
          Resolving.tolerate error e.position
          return none)
        (MonadExcept.tryCatch (some <$> Resolver.ancestor second target) fun error => do
          Resolving.tolerate error e.position
          return none) := by
      refine logic.tryCatch (logic.map (ancestor agree names member)
        fun {_ a} _ expands => ?_) fun {mid cause} _ failed => ?_
      · exact ⟨fun _ itself => Option.some.inj itself ▸ expands.1, expands.2⟩
      · refine logic.bind (logic.tolerate e.position failed.2) fun goesOn tolerated =>
          logic.pure ⟨by simp, fun uri there => ?_⟩
        exact lasting.passed goesOn (failed.1 tolerated uri there)
    refine logic.bind caught fun {mid found} goesOn expands => ?_
    cases found with
    | none =>
      refine logic.pure ?_
      simp only [Expands, same, Node.opensOf, List.append_nil]
      exact ⟨fun uri there => lasting.known goesOn (member uri there), expands.2⟩
    | some a =>
      refine logic.bind (logic.warnDiscarded resolver e a) fun {warned _} goesOn _ => ?_
      refine logic.bind (inherits fun uri mentioned => ?_) fun {last inherited} later below =>
        logic.pure ?_
      · exact lasting.known goesOn
          (expands.1 a rfl uri (Inheritance.opensOf_children_subset _ _ mentioned))
      · refine ⟨by simpa [Inheritance.ancestor?_head] using below, fun uri there => ?_⟩
        exact lasting.passed (logic.trans goesOn later) (expands.2 uri there)

private theorem expansion (lasting : logic.Lasting known passed)
    (agree : logic.Agree known passed first second) (resolver : Resolver) (levels : Nat) :
    logic.AgreeOn known passed (resolver.expansion first levels)
      (resolver.expansion second levels) := by
  induction levels with
  | zero =>
    refine ⟨expandReference lasting agree, expandHead lasting agree resolver ?_⟩
    intro now nodes member
    refine logic.mono (logic.cutOff nodes) fun goesOn same uri there => ?_
    exact lasting.known goesOn (member uri (same ▸ there))
  | succ levels ih =>
    refine ⟨expandReference lasting agree, expandHead lasting agree resolver ?_⟩
    exact fun member => logic.mono (nodes lasting ih member) fun _ expands => expands.1

theorem expandNodes (lasting : logic.Lasting known passed)
    (agree : logic.Agree known passed first second) (resolver : Resolver) (levels : Nat)
    {now : logic.Moment} {nodes : List Node} (member : ∀ uri ∈ Node.opensOf nodes, known now uri) :
    logic.rel now
      (fun later after =>
        Expands (known later) (passed later) (Node.opensOf nodes) (Node.opensOf after))
      logic.Fails
      ((resolver.expansion first levels).nodes nodes) ((resolver.expansion second levels).nodes nodes) :=
  Tracking.nodes lasting (expansion lasting agree resolver levels) member

theorem expand (lasting : logic.Lasting known passed)
    (agree : logic.Agree known passed first second) (resolver : Resolver)
    {now : logic.Moment} {value : Resolved} (member : ∀ uri ∈ value.opens, known now uri) :
    logic.rel now
      (fun later after => Expands (known later) (passed later) value.opens (Resolved.opens after))
      logic.Fails (expand resolver first value) (expand resolver second value) := by
  have below := expansion lasting agree resolver resolver.nesting
  cases value with
  | element e => exact logic.map (element lasting below member) fun _ expands => expands
  | document d =>
    exact logic.bind (nodes lasting below member) fun _ expands => logic.pure expands
  | data value => exact logic.pure (by simp [Expands, Resolved.opens])
  | text text => exact logic.pure (by simp [Expands, Resolved.opens])

end Tracking

/-- A relation between two resolutions that does not depend on when they start. -/
structure Congruence (mode : Mode) where
  rel : {α : Type} → (α → Prop) → (ReferenceError → Prop) → Resolving α → Resolving α → Prop
  mono : ∀ {α : Type} {strong weak : α → Prop} {error : ReferenceError → Prop}
    {first second : Resolving α}, rel strong error first second →
    (∀ {result}, strong result → weak result) → rel weak error first second
  pure : ∀ {α : Type} {ok : α → Prop} {error : ReferenceError → Prop} {result : α}, ok result →
    rel ok error (pure result) (pure result)
  throw : ∀ {α : Type} {ok : α → Prop} {error : ReferenceError → Prop} {cause : ReferenceError},
    error cause → rel ok error (throw cause) (throw cause)
  bind : ∀ {α β : Type} {mid : α → Prop} {ok : β → Prop} {error : ReferenceError → Prop}
    {first second : Resolving α} {next following : α → Resolving β}, rel mid error first second →
    (∀ {result}, mid result → rel ok error (next result) (following result)) →
    rel ok error (first >>= next) (second >>= following)
  tryCatch : ∀ {α : Type} {ok : α → Prop} {mid error : ReferenceError → Prop}
    {first second : Resolving α} {handle cope : ReferenceError → Resolving α},
    rel ok mid first second →
    (∀ {cause}, mid cause → rel ok error (handle cause) (cope cause)) →
    rel ok error (tryCatch first handle) (tryCatch second cope)
  tolerate : ∀ (cause : ReferenceError) (position : Span),
    rel (fun _ => Tolerated mode cause) (fun error => ¬ Tolerated mode error)
      (Resolving.tolerate cause position) (Resolving.tolerate cause position)
  warn : ∀ {error : ReferenceError → Prop} (message : String),
    rel (fun _ => True) error (Resolving.warn .inheritedChildrenDiscarded message)
      (Resolving.warn .inheritedChildrenDiscarded message)
  cutOff : ∀ {ok : List Node → Prop} {error : ReferenceError → Prop} {nodes : List Node}, ok nodes →
    rel ok error (cutOff nodes) (cutOff nodes)

namespace Congruence
variable {mode : Mode} (logic : Congruence mode) (known passed : Uri → Prop)

/-- Two ways to resolve references agree on those that are known. A reference whose failure is
passed over counts as passed. -/
def Agree (first second : Uri → Resolving Resolved) : Prop :=
  ∀ {uri}, known uri →
    logic.rel (fun value => (∀ next ∈ value.opens, known next) ∧ passed uri)
      (fun error => Tolerated mode error → passed uri) (first uri) (second uri)

def tracking : Tracking mode where
  Moment := Unit
  le _ _ := True
  trans _ _ := trivial
  bad _ := True
  ordinary _ := trivial
  rel _ ok error first second := logic.rel (ok ()) (error ()) first second
  mono begins weaker := logic.mono begins fun holds => weaker trivial holds
  pure := logic.pure
  throw := logic.throw
  bind begins rest := logic.bind begins fun holds => @rest () _ trivial holds
  tryCatch begins copes := logic.tryCatch begins fun fails => @copes () _ trivial fails
  tolerate position _ := by simpa using logic.tolerate _ position
  warn := logic.warn
  cutOff _ := logic.cutOff rfl

variable {logic known passed} {first second : Uri → Resolving Resolved}

theorem lasting : logic.tracking.Lasting (fun _ => known) (fun _ => passed) :=
  ⟨fun _ holds => holds, fun _ holds => holds⟩

theorem fails_tracking : logic.tracking.Fails = fun _ error => ¬ Tolerated mode error := by
  funext _ error
  simp [Tracking.Fails, tracking]

theorem Agree.tracking (agree : logic.Agree known passed first second) :
    logic.tracking.Agree (fun _ => known) (fun _ => passed) first second :=
  fun member => by simpa [Congruence.tracking] using agree member

end Congruence

open Congruence
variable {mode : Mode} (logic : Congruence mode) {known passed : Uri → Prop}
  {first second : Uri → Resolving Resolved}

theorem ancestor_rel (agree : logic.Agree known passed first second) {e : Element}
    {target : String} (names : e.extends? = some target)
    (member : ∀ uri ∈ e.ancestor?.toList, known uri) :
    logic.rel (fun a : Element => Expands known passed e.ancestor?.toList a.opens)
      (fun error => Tolerated mode error → ∀ uri ∈ e.ancestor?.toList, passed uri)
      (ancestor first target) (ancestor second target) := by
  have tracked : logic.tracking.rel () _ _ _ _ := Tracking.ancestor agree.tracking names member
  simpa [Congruence.tracking] using tracked

theorem warnDiscarded_rel (resolver : Resolver) (e a : Element) :
    logic.rel (fun _ => True) (fun error => ¬ Tolerated mode error)
      (resolver.warnDiscarded e a) (resolver.warnDiscarded e a) := by
  have tracked : logic.tracking.rel () _ _ _ _ := logic.tracking.warnDiscarded resolver e a
  rwa [fails_tracking] at tracked

theorem expandNodes_rel (agree : logic.Agree known passed first second) (resolver : Resolver)
    {levels : Nat} {nodes : List Node} (member : ∀ uri ∈ Node.opensOf nodes, known uri) :
    logic.rel (fun after => Expands known passed (Node.opensOf nodes) (Node.opensOf after))
      (fun error => ¬ Tolerated mode error)
      ((resolver.expansion first levels).nodes nodes) ((resolver.expansion second levels).nodes nodes) := by
  have tracked : logic.tracking.rel () _ _ _ _ :=
    Tracking.expandNodes lasting agree.tracking resolver levels member
  rwa [fails_tracking] at tracked

theorem expand_rel (agree : logic.Agree known passed first second) (resolver : Resolver)
    {value : Resolved} (member : ∀ uri ∈ value.opens, known uri) :
    logic.rel (fun after => Expands known passed value.opens after.opens)
      (fun error => ¬ Tolerated mode error)
      (expand resolver first value) (expand resolver second value) := by
  have tracked : logic.tracking.rel () _ _ _ _ :=
    Tracking.expand lasting agree.tracking resolver member
  rwa [fails_tracking] at tracked

end Resolver
end LinkedMarkup
