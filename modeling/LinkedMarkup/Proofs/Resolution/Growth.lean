import LinkedMarkup.Proofs.Resolution.OpenReferences
/-! What becomes of a tree when it is expanded, told apart from how this is done: references get
their values, elements inherit expanded children, and what fails stays as it is. Every way to run
resolutions that respects the constructs of an expansion comes to such a tree. -/
namespace LinkedMarkup

/-- What is known of an expansion: what references come to, which failures are passed over, which
children elements inherit, and whether some may be left as they are. -/
structure Outlook where
  means : Uri → Except ReferenceError Resolved → Prop
  passes : ReferenceError → Prop
  tags : TagRegistry
  cuts : Prop

namespace Outlook

def Finds (outlook : Outlook) (target : String) (a : Element) : Prop :=
  ∃ uri value, Uri.parse target = .ok uri ∧ outlook.means uri (.ok value) ∧
    Resolver.ancestorOf uri value = .ok a

def Misses (outlook : Outlook) (target : String) (error : ReferenceError) : Prop :=
  (∃ fault, Uri.parse target = .error fault ∧ error = .invalidUri fault.message) ∨
    ∃ uri, Uri.parse target = .ok uri ∧ (outlook.means uri (.error error) ∨
      ∃ value, outlook.means uri (.ok value) ∧ Resolver.ancestorOf uri value = .error error)

/-- What an ancestor has open is known, if what is meant leads to known references only. -/
theorem Finds.opens {outlook : Outlook} {known : Uri → Prop} {e a : Element} {target : String}
    (finds : outlook.Finds target a) (names : e.extends? = some target)
    (leads : ∀ {uri value}, known uri → outlook.means uri (.ok value) →
      ∀ next ∈ value.opens, known next)
    (member : ∀ uri ∈ e.ancestor?.toList, known uri) : ∀ uri ∈ a.opens, known uri := by
  obtain ⟨uri, value, wellFormed, means, meant⟩ := finds
  have named : e.ancestor? = some uri := by
    simp [Element.ancestor?, names, wellFormed, Except.toOption]
  exact fun next inside => leads (member uri (by simp [named])) means next
    (Resolver.opens_ancestorOf meant inside)

abbrev legacy (outlook : Outlook) (e a : Element) : List Node :=
  Inheritance.children (outlook.tags.model e.tag) a

/-- Nodes and what they are expanded to. -/
inductive Expands (outlook : Outlook) : List Node → List Node → Prop where
  | nil : Expands outlook [] []
  | content (c : Content) {rest rest' : List Node} (others : Expands outlook rest rest') :
    Expands outlook (.content c :: rest) (.content c :: rest')
  | resolved {r : Reference} {rest rest' : List Node} (resolved : r.isResolved = true)
    (others : Expands outlook rest rest') :
    Expands outlook (.reference r :: rest) (.reference r :: rest')
  | found {r : Reference} {value : Resolved} {rest rest' : List Node}
    (unresolved : r.isResolved = false) (means : outlook.means r.uri (.ok value))
    (others : Expands outlook rest rest') :
    Expands outlook (.reference r :: rest) (.reference (r.resolveTo value) :: rest')
  | failed {r : Reference} {error : ReferenceError} {rest rest' : List Node}
    (unresolved : r.isResolved = false) (means : outlook.means r.uri (.error error))
    (passes : outlook.passes error) (others : Expands outlook rest rest') :
    Expands outlook (.reference r :: rest) (.reference r :: rest')
  /-- An element that names no ancestor. -/
  | plain {e : Element} {own rest rest' : List Node} (alone : e.extends? = none)
    (below : Expands outlook e.children own) (others : Expands outlook rest rest') :
    Expands outlook (.element e :: rest) (.element { e with children := own } :: rest')
  /-- An element whose ancestor fails. -/
  | orphan {e : Element} {target : String} {error : ReferenceError} {own rest rest' : List Node}
    (names : e.extends? = some target) (misses : outlook.Misses target error)
    (passes : outlook.passes error) (below : Expands outlook e.children own)
    (others : Expands outlook rest rest') :
    Expands outlook (.element e :: rest) (.element { e with children := own } :: rest')
  | heir {e a : Element} {target : String} {inherited own rest rest' : List Node}
    (names : e.extends? = some target) (finds : outlook.Finds target a)
    (above : Expands outlook (outlook.legacy e a) inherited)
    (below : Expands outlook e.children own) (others : Expands outlook rest rest') :
    Expands outlook (.element e :: rest)
      (.element { Inheritance.head e a with children := inherited ++ own } :: rest')
  /-- An element whose inherited children are left as they are. -/
  | cut {e a : Element} {target : String} {own rest rest' : List Node}
    (names : e.extends? = some target) (finds : outlook.Finds target a) (cuts : outlook.cuts)
    (below : Expands outlook e.children own) (others : Expands outlook rest rest') :
    Expands outlook (.element e :: rest)
      (.element { Inheritance.head e a with children := outlook.legacy e a ++ own } :: rest')

/-- A value and what it is expanded to. -/
inductive ExpandsTo (outlook : Outlook) : Resolved → Resolved → Prop where
  | element {e after : Element} (expands : outlook.Expands [.element e] [.element after]) :
    ExpandsTo outlook (.element e) (.element after)
  | document {d : Document} {children : List Node} (expands : outlook.Expands d.children children) :
    ExpandsTo outlook (.document d) (.document { d with children })
  | data (value : Value) : ExpandsTo outlook (.data value) (.data value)
  | text (text : String) : ExpandsTo outlook (.text text) (.text text)

end Outlook

/-- What can be said of resolutions that are put together as expansions are: what holds of a result
and of an error, when some failures are passed over and the others end the resolution. -/
structure Resolver.Rules (passes ends : ReferenceError → Prop) where
  holds : {α : Type} → (α → Prop) → (ReferenceError → Prop) → Resolving α → Prop
  mono : ∀ {α : Type} {strong weak : α → Prop} {worse bad : ReferenceError → Prop}
    {resolution : Resolving α}, holds strong worse resolution →
    (∀ {result}, strong result → weak result) → (∀ {cause}, worse cause → bad cause) →
    holds weak bad resolution
  pure : ∀ {α : Type} {ok : α → Prop} {error : ReferenceError → Prop} {result : α}, ok result →
    holds ok error (pure result)
  throw : ∀ {α : Type} {ok : α → Prop} {error : ReferenceError → Prop} {cause : ReferenceError},
    error cause → holds ok error (throw cause)
  bind : ∀ {α β : Type} {mid : α → Prop} {ok : β → Prop} {error : ReferenceError → Prop}
    {first : Resolving α} {next : α → Resolving β}, holds mid error first →
    (∀ {result}, mid result → holds ok error (next result)) → holds ok error (first >>= next)
  tryCatch : ∀ {α : Type} {ok : α → Prop} {mid error : ReferenceError → Prop}
    {first : Resolving α} {handle : ReferenceError → Resolving α}, holds ok mid first →
    (∀ {cause}, mid cause → holds ok error (handle cause)) →
    holds ok error (tryCatch first handle)
  tolerate : ∀ (cause : ReferenceError) (position : Span),
    holds (fun _ => passes cause) ends (Resolving.tolerate cause position)
  warn : ∀ {error : ReferenceError → Prop} (code : Code) (message : String),
    holds (fun _ => True) error (Resolving.warn code message)

namespace Resolver
variable {passes ends : ReferenceError → Prop}

namespace Rules

theorem map (rules : Rules passes ends) {α β : Type} {mid : α → Prop} {ok : β → Prop}
    {error : ReferenceError → Prop} {f : α → β} {first : Resolving α}
    (first' : rules.holds mid error first) (rest : ∀ {result}, mid result → ok (f result)) :
    rules.holds ok error (f <$> first) := by
  have mapped : f <$> first = first >>= fun result => Pure.pure (f result) := rfl
  rw [mapped]
  exact rules.bind first' fun meets => rules.pure (rest meets)

/-- What references come to is known, and so are the references that their values lead to. -/
structure Resolves (rules : Rules passes ends) (outlook : Outlook) (known : Uri → Prop)
    (resolve : Uri → Resolving Resolved) : Prop where
  resolve : ∀ {uri}, known uri → rules.holds (fun value => outlook.means uri (.ok value))
    (fun error => outlook.means uri (.error error)) (resolve uri)
  leads : ∀ {uri value}, known uri → outlook.means uri (.ok value) →
    ∀ next ∈ value.opens, known next
  passes : outlook.passes = passes
  cutOff : ∀ nodes, rules.holds (fun after => after = nodes ∧ (nodes = [] ∨ outlook.cuts)) ends
    (Resolver.cutOff nodes)

end Rules

variable (rules : Rules passes ends) {outlook : Outlook} {known : Uri → Prop}
  {resolve : Uri → Resolving Resolved} {expansion : Expansion} {resolver : Resolver}

/-- The ways in which a single reference is expanded. -/
def Refers (outlook : Outlook) (r after : Reference) : Prop :=
  (r.isResolved = true ∧ after = r) ∨
    r.isResolved = false ∧ ((∃ value, outlook.means r.uri (.ok value) ∧ after = r.resolveTo value) ∨
      ∃ error, outlook.means r.uri (.error error) ∧ outlook.passes error ∧ after = r)

/-- The ways in which an element comes by its head and by inherited children. -/
def Inherits (outlook : Outlook) (e head : Element) (inherited : List Node) : Prop :=
  (e.extends? = none ∧ head = { e with children := [] } ∧ inherited = []) ∨
    ∃ target, e.extends? = some target ∧
      ((∃ error, outlook.Misses target error ∧ outlook.passes error ∧
          head = { e with children := [] } ∧ inherited = []) ∨
        ∃ a, outlook.Finds target a ∧ head = Inheritance.head e a ∧
          (outlook.Expands (outlook.legacy e a) inherited ∨
            outlook.cuts ∧ inherited = outlook.legacy e a))

/-- The parts of an expansion do what is told of expansions. -/
structure Expansion.Grows (rules : Rules passes ends) (outlook : Outlook) (known : Uri → Prop)
    (expansion : Expansion) : Prop where
  reference : ∀ {r : Reference}, (∀ uri ∈ r.opens, known uri) →
    rules.holds (Refers outlook r) ends (expansion.reference r)
  inherit : ∀ {e : Element}, (∀ uri ∈ e.ancestor?.toList, known uri) →
    rules.holds (fun (head, inherited) => Inherits outlook e head inherited) ends
      (expansion.inherit e)

private theorem expands_reference {r after : Reference} {rest rest' : List Node}
    (refers : Refers outlook r after) (others : outlook.Expands rest rest') :
    outlook.Expands (.reference r :: rest) (.reference after :: rest') := by
  rcases refers with ⟨resolved, rfl⟩ | ⟨unresolved, ⟨value, means, rfl⟩ | ⟨error, means, passes, rfl⟩⟩
  · exact .resolved resolved others
  · exact .found unresolved means others
  · exact .failed unresolved means passes others

private theorem expands_element {e head : Element} {inherited own rest rest' : List Node}
    (inherits : Inherits outlook e head inherited) (below : outlook.Expands e.children own)
    (others : outlook.Expands rest rest') :
    outlook.Expands (.element e :: rest)
      (.element { head with children := inherited ++ own } :: rest') := by
  rcases inherits with ⟨alone, rfl, rfl⟩ | ⟨target, names, ⟨error, misses, passes, rfl, rfl⟩ |
    ⟨a, finds, rfl, above | ⟨cuts, rfl⟩⟩⟩
  · exact .plain alone below others
  · exact .orphan names misses passes below others
  · exact .heir names finds above below others
  · exact .cut names finds cuts below others

mutual
private theorem node_grows (grows : expansion.Grows rules outlook known) :
    ∀ {node : Node}, (∀ uri ∈ node.opens, known uri) →
      rules.holds (fun after => ∀ {rest rest'}, outlook.Expands rest rest' →
        outlook.Expands (node :: rest) (after :: rest')) ends (expansion.node node)
  | .element e, member =>
    rules.map (element_grows grows (by simpa only [Node.opens] using member)) fun expands _ _ others =>
      expands others
  | .reference r, member =>
    rules.map (grows.reference (by simpa only [Node.opens] using member)) fun refers _ _ others =>
      expands_reference refers others
  | .content c, _ => rules.pure fun others => .content c others
private theorem nodes_grows (grows : expansion.Grows rules outlook known) :
    ∀ {nodes : List Node}, (∀ uri ∈ Node.opensOf nodes, known uri) →
      rules.holds (fun after => outlook.Expands nodes after) ends (expansion.nodes nodes)
  | [], _ => rules.pure .nil
  | node :: rest, member => by
    simp only [Node.opensOf, List.mem_append] at member
    refine rules.bind (node_grows grows fun uri here => member uri (.inl here)) fun head => ?_
    refine rules.bind (nodes_grows grows fun uri there => member uri (.inr there)) fun tail => ?_
    exact rules.pure (head tail)
private theorem element_grows (grows : expansion.Grows rules outlook known) :
    ∀ {e : Element}, (∀ uri ∈ e.opens, known uri) →
      rules.holds (fun after => ∀ {rest rest'}, outlook.Expands rest rest' →
        outlook.Expands (.element e :: rest) (.element after :: rest')) ends (expansion.element e)
  | ⟨tag, attributes, children, metadata, position⟩, member => by
    simp only [Element.opens_eq, List.mem_append] at member
    refine rules.bind (grows.inherit fun uri here => member uri (.inl here)) fun {merged} above => ?_
    refine rules.bind (nodes_grows grows fun uri there => member uri (.inr there)) fun below => ?_
    exact rules.pure fun others => expands_element above below others
end

section
variable {rules} (resolves : rules.Resolves outlook known resolve)
include resolves

private theorem expandReference_grows {r : Reference} (member : ∀ uri ∈ r.opens, known uri) :
    rules.holds (Refers outlook r) ends (expandReference resolve r) := by
  cases resolved : r.isResolved with
  | true =>
    have still : resolveReference resolve r = pure r := if_pos resolved
    rw [expandReference, still]
    have kept : rules.holds (Refers outlook r) (fun _ => False) (pure r) :=
      rules.pure (.inl ⟨resolved, rfl⟩)
    exact rules.tryCatch kept False.elim
  | false =>
    have itself : r.opens = [r.uri] := by rw [Reference.opens, resolved]; rfl
    have asks : resolveReference resolve r = resolve r.uri >>= fun value => pure (r.resolveTo value) :=
      if_neg (by simp [resolved])
    rw [expandReference, asks]
    have step := resolves.resolve (member r.uri (by simp [itself]))
    refine rules.tryCatch (rules.bind step fun {value} means => rules.pure ?_) fun {cause} means => ?_
    · exact .inr ⟨resolved, .inl ⟨value, means, rfl⟩⟩
    · refine rules.bind (rules.tolerate cause r.position) fun passes => rules.pure ?_
      exact .inr ⟨resolved, .inr ⟨cause, means, resolves.passes ▸ passes, rfl⟩⟩

theorem ancestor_grows {e : Element} {target : String} (names : e.extends? = some target)
    (member : ∀ uri ∈ e.ancestor?.toList, known uri) :
    rules.holds (outlook.Finds target) (outlook.Misses target) (ancestor resolve target) := by
  unfold ancestor
  split
  · rename_i fault malformed
    exact rules.throw (.inl ⟨fault, malformed, rfl⟩)
  · rename_i uri wellFormed
    have named : e.ancestor? = some uri := by
      simp [Element.ancestor?, names, wellFormed, Except.toOption]
    have step := resolves.resolve (member uri (by simp [named]))
    refine rules.bind (rules.mono step id fun means => .inr ⟨uri, wellFormed, .inl means⟩)
      fun {value} means => ?_
    cases meant : ancestorOf uri value with
    | ok a => exact rules.pure ⟨uri, value, wellFormed, means, meant⟩
    | error cause => exact rules.throw (.inr ⟨uri, wellFormed, .inr ⟨value, means, meant⟩⟩)

private theorem expandHead_grows (tags : outlook.tags = resolver.tags)
    {again : List Node → Resolving (List Node)}
    (inherits : ∀ {nodes : List Node}, (∀ uri ∈ Node.opensOf nodes, known uri) →
      rules.holds (fun after => outlook.Expands nodes after ∨ outlook.cuts ∧ after = nodes) ends
        (again nodes))
    {e : Element} (member : ∀ uri ∈ e.ancestor?.toList, known uri) :
    rules.holds (fun (head, inherited) => Inherits outlook e head inherited) ends
      (expandHead resolver resolve again e) := by
  unfold expandHead
  split
  · rename_i alone
    exact rules.pure (.inl ⟨alone, rfl, rfl⟩)
  rename_i target names
  have caught : rules.holds (fun found : Option Element =>
        (∀ a, found = some a → outlook.Finds target a) ∧
          (found = none → ∃ error, outlook.Misses target error ∧ outlook.passes error)) ends
      (tryCatch (some <$> ancestor resolve target) fun error => do
        Resolving.tolerate error e.position
        return none) := by
    refine rules.tryCatch (rules.map (ancestor_grows resolves names member) ?found) ?missed
    case found => exact fun finds => ⟨fun _ same => Option.some.inj same ▸ finds, fun none => by cases none⟩
    case missed =>
      refine fun {cause} misses => rules.bind (rules.tolerate cause e.position) fun passes =>
        rules.pure ?_
      exact ⟨fun _ some => (by cases some), fun _ => ⟨cause, misses, resolves.passes ▸ passes⟩⟩
  refine rules.bind caught fun {found} holds => ?_
  cases found with
  | none =>
    obtain ⟨error, misses, passes⟩ := holds.2 rfl
    exact rules.pure (.inr ⟨target, names, .inl ⟨error, misses, passes, rfl, rfl⟩⟩)
  | some a =>
    have finds := holds.1 a rfl
    have warns : rules.holds (fun _ => True) ends (resolver.warnDiscarded e a) := by
      unfold warnDiscarded
      split
      · exact rules.warn _ _
      · exact rules.pure trivial
    refine rules.bind warns fun _ => rules.bind (inherits fun next mentioned => ?_)
      fun {inherited} above => rules.pure ?_
    · have inside := Inheritance.opensOf_children_subset _ _ mentioned
      exact finds.opens names resolves.leads member next inside
    · rw [← tags] at above
      exact .inr ⟨target, names, .inr ⟨a, finds, rfl, above⟩⟩

private theorem expansion_grows (tags : outlook.tags = resolver.tags) (levels : Nat) :
    (resolver.expansion resolve levels).Grows rules outlook known := by
  induction levels with
  | zero =>
    refine ⟨expandReference_grows resolves, expandHead_grows resolves tags fun _ => ?_⟩
    refine rules.mono (resolves.cutOff _) (fun {after} ⟨same, why⟩ => ?_) id
    rcases why with rfl | cuts
    · cases same
      exact .inl .nil
    · exact .inr ⟨cuts, same⟩
  | succ levels ih =>
    refine ⟨expandReference_grows resolves, expandHead_grows resolves tags fun member => ?_⟩
    exact rules.mono (nodes_grows rules ih member) .inl id

/-- The expansion of nodes comes to what they are expanded to. -/
theorem expandNodes_grows (tags : outlook.tags = resolver.tags) {levels : Nat} {nodes : List Node}
    (member : ∀ uri ∈ Node.opensOf nodes, known uri) :
    rules.holds (outlook.Expands nodes) ends ((resolver.expansion resolve levels).nodes nodes) :=
  nodes_grows rules (expansion_grows resolves tags levels) member

theorem expand_grows (tags : outlook.tags = resolver.tags) {value : Resolved}
    (member : ∀ uri ∈ value.opens, known uri) :
    rules.holds (outlook.ExpandsTo value) ends (resolver.expand resolve value) := by
  have grows := expansion_grows resolves tags resolver.nesting
  cases value with
  | element e =>
    exact rules.map (element_grows rules grows member) fun expands => .element (expands .nil)
  | document d =>
    exact rules.bind (nodes_grows rules grows member) fun expands => rules.pure (.document expands)
  | data value => exact rules.pure (.data value)
  | text text => exact rules.pure (.text text)

end
end Resolver
end LinkedMarkup
