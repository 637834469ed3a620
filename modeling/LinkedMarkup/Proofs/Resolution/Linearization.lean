import LinkedMarkup.Proofs.Resolution.Rehearsal
import LinkedMarkup.Proofs.Resolution.Settled
import LinkedMarkup.Proofs.Tasks.Locks

namespace LinkedMarkup
open Program

/-- No element of a tree extends another one, and no reference is without its value. -/
abbrev Node.AllPlain : List Node → Prop := Node.EveryOf (·.extends? = none) (·.isResolved = true)

def Uri.ofId (id : String) : Uri := ⟨idProtocol, id⟩

theorem Uri.key_ofId_inj {first second : String} (same : (ofId first).key = (ofId second).key) :
    first = second := by
  have same : (idProtocol ++ ":") ++ first = (idProtocol ++ ":") ++ second := same
  have chars := congrArg String.toList same
  simp only [String.toList_append, List.append_cancel_left_eq] at chars
  exact String.toList_inj.mp chars

namespace Inheritance

/-- Each element names the next one by an id, the last one extends none. The ids come with the
elements that they lead to. -/
inductive Chain (ids : IdIndex) : Element → List (String × Element) → Prop where
  | last {e : Element} (ends : e.extends? = none) : Chain ids e []
  | link {e next : Element} {target id : String} {chain : List (String × Element)}
      (names : e.extends? = some target) (parsed : Uri.parse target = .ok (.ofId id))
      (found : ids.find? id = some next) (rest : Chain ids next chain) :
      Chain ids e ((id, next) :: chain)

/-- An element with all that it inherits along a chain. -/
def linear (tags : TagRegistry) (e : Element) : List Element → Element
  | [] => e
  | next :: rest => merge tags e (linear tags next rest)

/-- The children of an element behind those that it inherits along a chain. An element that accepts no
inherited children cuts off all that come from behind it. -/
def linearChildren (tags : TagRegistry) (e : Element) : List Element → List Node
  | [] => e.children
  | next :: rest =>
    if (tags.model e.tag).acceptsInheritedChildren then
      linearChildren tags next rest ++ e.children
    else e.children

variable {tags : TagRegistry}

theorem find?_id_merge (e ancestor : Element) :
    (merge tags e ancestor).attributes.find? "id" = e.attributes.find? "id" := by
  simp [merge, head, find?_attributes, isOwn]

theorem find?_extends_merge (e ancestor : Element) :
    (merge tags e ancestor).attributes.find? "extends" = none := by
  simp [merge, head, find?_attributes, isOwn]

theorem children_linear (e : Element) (rest : List Element) :
    (linear tags e rest).children = linearChildren tags e rest := by
  induction rest generalizing e with
  | nil => rfl
  | cons next rest ih =>
    rw [linear, merge, linearChildren, children, ih]
    split
    · rfl
    · rfl

/-- An attribute that can be inherited is that of the first element which has it. -/
theorem find?_linear {name : String} (foreign : isOwn name = false) (e : Element)
    (rest : List Element) :
    (linear tags e rest).attributes.find? name =
      (e :: rest).findSome? (·.attributes.find? name) := by
  have other : name ≠ "extends" := by
    rintro rfl
    cases foreign
  induction rest generalizing e with
  | nil =>
    rw [linear, List.findSome?_cons]
    cases e.attributes.find? name <;> rfl
  | cons next rest ih =>
    rw [linear, merge, head, find?_attributes, if_neg other, foreign, List.findSome?_cons]
    cases e.attributes.find? name with
    | some value => rfl
    | none => exact ih next

theorem plain_linear {e : Element} {rest : List Element}
    (plain : ∀ other ∈ e :: rest, Node.AllPlain other.children) :
    Node.AllPlain (linear tags e rest).children := by
  induction rest generalizing e with
  | nil => exact plain e List.mem_cons_self
  | cons next rest ih =>
    have below := ih fun other member => plain other (List.mem_cons_of_mem e member)
    rw [children_linear, linearChildren]
    split
    · rw [← children_linear]
      exact below.append (plain e List.mem_cons_self)
    · exact plain e List.mem_cons_self

end Inheritance

namespace Resolving
variable {α β : Type} {session : Session} {first : Resolving α} {result : α}

/-- Alone, the resolution comes to a result and leaves the index of ids as it is. -/
def Yields (resolution : Resolving α) (session : Session) (result : α) : Prop :=
  ∃ later, resolution.run.alone session = (.ok result, later) ∧
    later.context.ids = session.context.ids

namespace Yields

theorem pure (session : Session) (result : α) : Yields (Pure.pure result) session result :=
  ⟨session, rfl, rfl⟩

theorem bind {next : α → Resolving β} {last : β} (begins : Yields first session result)
    (rest : ∀ later, Yields (next result) later last) : Yields (first >>= next) session last := by
  obtain ⟨mid, ran, ids⟩ := begins
  obtain ⟨later, ended, kept⟩ := rest mid
  refine ⟨later, ?_, kept.trans ids⟩
  rw [alone_bind, ran]
  exact ended

theorem map (f : α → β) (yields : Yields first session result) :
    Yields (f <$> first) session (f result) :=
  yields.bind fun later => pure later (f result)

theorem tryCatch (handle : ReferenceError → Resolving α) (yields : Yields first session result) :
    Yields (MonadExcept.tryCatch first handle) session result := by
  obtain ⟨later, ran, ids⟩ := yields
  refine ⟨later, ?_, ids⟩
  rw [alone_tryCatch, ran]

end Yields

end Resolving

namespace Resolver.Expansion
variable {expansion : Expansion} {session : Session}

/-- What has nothing to resolve comes back as it is. -/
structure Spares (expansion : Expansion) : Prop where
  reference : ∀ {r : Reference} session, r.isResolved = true →
    (expansion.reference r).Yields session r
  inherit : ∀ {e : Element} session, e.extends? = none →
    (expansion.inherit e).Yields session ({ e with children := [] }, [])

mutual
private theorem Spares.node (spares : expansion.Spares) : ∀ {node : Node} (session : Session),
    node.Every (·.extends? = none) (·.isResolved = true) →
      (expansion.node node).Yields session node
  | .element e, session, plain => by
    rw [Node.Every] at plain
    rw [Expansion.node]
    exact (spares.element session plain).map Node.element
  | .content c, session, _ => by
    rw [Expansion.node]
    exact .pure session _
  | .reference r, session, plain => by
    rw [Node.Every] at plain
    rw [Expansion.node]
    exact (spares.reference session plain).map Node.reference
theorem Spares.nodes (spares : expansion.Spares) : ∀ {nodes : List Node} (session : Session),
    Node.AllPlain nodes → (expansion.nodes nodes).Yields session nodes
  | [], session, _ => by
    rw [Expansion.nodes]
    exact .pure session _
  | _ :: _, session, plain => by
    rw [Node.AllPlain, Node.EveryOf] at plain
    rw [Expansion.nodes]
    exact (spares.node session plain.1).bind fun later =>
      (spares.nodes later plain.2).bind fun last => .pure last _
theorem Spares.element (spares : expansion.Spares) : ∀ {e : Element} (session : Session),
    e.Every (·.extends? = none) (·.isResolved = true) → (expansion.element e).Yields session e
  | ⟨_, _, _, _, _⟩, session, plain => by
    rw [Element.Every] at plain
    rw [Expansion.element]
    exact (spares.inherit session plain.1).bind fun later =>
      (spares.nodes later plain.2).bind fun last => .pure last _
end

/-- An element without anything to resolve below it gets its head and what it inherits. -/
theorem Spares.element_of_head (spares : expansion.Spares) {e : Element} {head : Element}
    {inherited : List Node} (plain : Node.AllPlain e.children)
    (heads : (expansion.inherit e).Yields session (head, inherited)) :
    (expansion.element e).Yields session { head with children := inherited ++ e.children } := by
  cases e
  rw [Expansion.element]
  exact heads.bind fun later => (spares.nodes later plain).bind fun last => .pure last _

end Resolver.Expansion

namespace Resolver
variable {resolver : Resolver} {session : Session} {resolve : Uri → Resolving Resolved}

private theorem cutOff_yields (nodes : List Node) (session : Session) :
    (cutOff nodes).Yields session nodes := by
  rw [cutOff]
  split
  · exact ⟨_, rfl, rfl⟩
  · exact .pure session nodes

/-- Expansions spare plain trees, and so they leave inherited children as they are that are plain. -/
private theorem expandHead_spares {again : List Node → Resolving (List Node)} :
    Expansion.Spares ⟨expandReference resolve, expandHead resolver resolve again⟩ where
  reference {r} session resolved := by
    show (expandReference resolve r).Yields session r
    rw [expandReference, resolveReference, if_pos resolved]
    exact (Resolving.Yields.pure session _).tryCatch _
  inherit {e} session alone := by
    show (expandHead resolver resolve again e).Yields session _
    rw [expandHead, alone]
    exact .pure session _

theorem expansion_spares (resolver : Resolver) (resolve : Uri → Resolving Resolved) (levels : Nat) :
    (resolver.expansion resolve levels).Spares := by
  cases levels with
  | zero => exact expandHead_spares
  | succ levels => exact expandHead_spares

theorem warnDiscarded_yields (e ancestor : Element) (session : Session) :
    (resolver.warnDiscarded e ancestor).Yields session () := by
  rw [warnDiscarded]
  split
  · exact ⟨_, rfl, rfl⟩
  · exact .pure session ()

theorem ancestor_yields {target : String} {uri : Uri} {a : Element}
    (parsed : Uri.parse target = .ok uri) (found : (resolve uri).Yields session (.element a)) :
    (ancestor resolve target).Yields session a := by
  rw [ancestor, parsed]
  exact found.bind fun later => ⟨later, rfl, rfl⟩

theorem mergeAncestor_yields (e a : Element) (session : Session) :
    (resolver.mergeAncestor e a).Yields session (Inheritance.merge resolver.tags e a) :=
  (warnDiscarded_yields e a session).bind fun later => .pure later _

private theorem expandHead_yields {again : List Node → Resolving (List Node)} {e a : Element}
    {target : String} (names : e.extends? = some target)
    (found : (ancestor resolve target).Yields session a)
    (spared : ∀ later, (again (Inheritance.children (resolver.tags.model e.tag) a)).Yields later
      (Inheritance.children (resolver.tags.model e.tag) a)) :
    (expandHead resolver resolve again e).Yields session
      (Inheritance.head e a, Inheritance.children (resolver.tags.model e.tag) a) := by
  rw [expandHead, names]
  refine ((found.map some).tryCatch _).bind fun later => ?_
  exact (warnDiscarded_yields e a later).bind fun last => (spared last).bind fun ended =>
    .pure ended _

/-- An element that extends another one is merged with it if nothing in the two is left to resolve. -/
theorem expansion_yields {e a : Element} {target : String} (levels : Nat)
    (names : e.extends? = some target) (found : (ancestor resolve target).Yields session a)
    (plain : Node.AllPlain e.children) (below : Node.AllPlain a.children) :
    ((resolver.expansion resolve levels).element e).Yields session
      (Inheritance.merge resolver.tags e a) := by
  have inherited : Node.AllPlain (Inheritance.children (resolver.tags.model e.tag) a) := by
    rw [Inheritance.children]
    split
    · exact below
    · rw [Node.AllPlain, Node.EveryOf]
      trivial
  refine (expansion_spares resolver resolve levels).element_of_head plain ?_
  cases levels with
  | zero => exact expandHead_yields names found fun later => cutOff_yields _ later
  | succ levels =>
    exact expandHead_yields names found fun later =>
      (expansion_spares resolver resolve levels).nodes later inherited

end Resolver

namespace Session
variable {session : Session} {key : String}

/-- Nothing is known of a key, and no one resolves it. -/
structure Clear (session : Session) (key : String) : Prop where
  unknown : ¬ session.shared.Settled key
  free : session.shared.locks.find? key = none
  outside : key ∉ session.context.resolving

/-- No reference has been resolved or is being resolved. -/
structure Untouched (session : Session) : Prop where
  results : session.shared.results = []
  failures : session.shared.failures = []
  locks : session.shared.locks = []
  resolving : session.context.resolving = []

theorem Untouched.clear (untouched : session.Untouched) (key : String) : session.Clear key where
  unknown := by
    rw [Shared.not_settled, untouched.results, untouched.failures]
    exact ⟨rfl, rfl⟩
  free := by
    rw [untouched.locks]
    rfl
  outside := by
    rw [untouched.resolving]
    exact List.not_mem_nil

def begin (session : Session) (key : String) : Session :=
  ⟨session.shared.take session.context.task key, session.context.enter key⟩

def asking (session : Session) (uri : Uri) : Session :=
  (session.begin uri.key).note (.asked session.context.task uri)

theorem Clear.begin {other : String} (clear : session.Clear other) (different : other ≠ key) :
    (session.begin key).Clear other where
  unknown := clear.unknown
  free := by
    rw [Session.begin, Shared.find?_locks_take, if_neg different]
    exact clear.free
  outside := by
    intro member
    rcases List.mem_append.mp member with before | here
    · exact clear.outside before
    · exact different (List.mem_singleton.mp here)

theorem Clear.asking {uri : Uri} (clear : session.Clear key) (different : key ≠ uri.key) :
    (session.asking uri).Clear key :=
  ⟨(clear.begin different).unknown, (clear.begin different).free, (clear.begin different).outside⟩

end Session

namespace Resolver
variable {resolver : Resolver} {session : Session}

theorem resolveBy_yields {uri : Uri} {fetch : Resolving Resolved} {value : Resolved}
    (clear : session.Clear uri.key) (fetched : fetch.Yields (session.begin uri.key) value) :
    (resolver.resolveBy uri (some fetch)).Yields session value := by
  obtain ⟨unknown, sound⟩ := Shared.not_settled.mp clear.unknown
  obtain ⟨later, ran, ids⟩ := fetched
  have straight := Context.cycle?_eq_none_iff.mpr clear.outside
  have free : session.shared.isFree uri.key = true := by
    rw [Shared.isFree, clear.free]
    rfl
  have acquired : (acquire resolver.timeout uri.key).run.alone session =
      (.ok .owned, session.onShared (·.take session.context.task uri.key)) := by
    simp only [acquire, ExceptT.run, ExceptT.mk, Program.alone, unknown, sound, free, if_true]
  have owned : (fetchOwned uri fetch).run.alone
      (session.onShared (·.take session.context.task uri.key)) =
        (.ok value, conclude uri (.ok value) later) := by
    refine (Program.alone_bind _ fetch.run (session.begin uri.key)).trans ?_
    rw [ran]
    rfl
  refine ⟨conclude uri (.ok value) later, ?_, ids⟩
  simp only [resolveBy, ExceptT.run, ExceptT.mk, Program.alone, unknown, straight]
  refine (Program.alone_bind _ _ session).trans ?_
  rw [show (acquire resolver.timeout uri.key).alone session = _ from acquired]
  exact owned

variable {id : String} {e : Element} {room : Nat}

section Ids
variable (byId : resolver.protocols.find? Uri.idProtocol = some .byId)
include byId

private theorem resolveById_yields {resolve : Uri → Resolving Resolved} {whole : Element}
    (clear : session.Clear (Uri.ofId id).key) (found : session.context.ids.find? id = some e)
    (expanded : ((resolver.expansion resolve resolver.nesting).element e).Yields
      (session.asking (.ofId id)) whole) :
    (resolver.resolveBy (.ofId id) (some (fetch resolver resolve (.ofId id)))).Yields session
      (.element whole) := by
  have served : resolver.protocols.find? (Uri.ofId id).protocol = some .byId := byId
  have answer : Handler.byId.answer (request (session.asking (.ofId id)) (.ofId id)) =
      .found (.element e) := by
    show Answer.ofOption _ ((session.context.ids.find? id).map Resolved.element) = _
    rw [found]
    rfl
  have asked : (resolver.ask .byId (.ofId id)).run.alone (session.asking (.ofId id)) =
      (.ok (.element e), session.asking (.ofId id)) := by
    simp only [ask, ExceptT.run, ExceptT.mk, Program.alone, answer]
    simp [Answer.found, Program.pauses, Program.alone]
  obtain ⟨later, ran, ids⟩ := expanded.map Resolved.element
  refine resolveBy_yields clear ⟨later, ?_, ids⟩
  rw [fetch, served, Resolving.alone_bind]
  show (resolver.ask .byId (.ofId id) >>= resolver.expand resolve).run.alone
    (session.asking (.ofId id)) = _
  rw [Resolving.alone_bind, asked]
  exact ran

/-- The reference to an element at the head of a chain comes to all that it inherits. -/
theorem resolveWithin_linear {ids : IdIndex} {chain : List (String × Element)}
    (links : Inheritance.Chain ids e chain) (same : session.context.ids = ids)
    (found : ids.find? id = some e) (distinct : (id :: chain.map (·.1)).Nodup)
    (clear : ∀ other ∈ id :: chain.map (·.1), session.Clear (Uri.ofId other).key)
    (plain : ∀ other ∈ e :: chain.map (·.2), Node.AllPlain other.children)
    (fits : chain.length < room) :
    (resolver.resolveWithin room (.ofId id)).Yields session
      (.element (Inheritance.linear resolver.tags e (chain.map (·.2)))) := by
  -- While an id is being resolved its key is taken; those further on stay clear, as they differ.
  induction links generalizing room session id with
  | @last e ends =>
    obtain ⟨room, rfl⟩ : ∃ less, room = less + 1 := ⟨room - 1, by omega⟩
    refine resolveById_yields byId (clear id List.mem_cons_self) (same ▸ found) ?_
    have whole : e.Every (·.extends? = none) (·.isResolved = true) :=
      (Element.every_iff e).mpr ⟨ends, plain e List.mem_cons_self⟩
    exact (expansion_spares resolver _ resolver.nesting).element _ whole
  | @link e next target other chain names parsed leads rest ih =>
    obtain ⟨room, rfl⟩ : ∃ less, room = less + 1 := ⟨room - 1, by omega⟩
    refine resolveById_yields byId (clear id List.mem_cons_self) (same ▸ found) ?_
    have below := fun element member => plain element (List.mem_cons_of_mem e member)
    have clearer : ∀ name ∈ other :: chain.map (·.1),
        (session.asking (.ofId id)).Clear (Uri.ofId name).key := fun name member =>
      (clear name (List.mem_cons_of_mem id member)).asking fun same =>
        (List.nodup_cons.mp distinct).1 (Uri.key_ofId_inj same ▸ member)
    have resolved := @ih (session.asking (.ofId id)) other room same leads
      (List.nodup_cons.mp distinct).2 clearer below (by simpa using fits)
    exact expansion_yields resolver.nesting names (ancestor_yields parsed resolved)
      (plain e List.mem_cons_self) (Inheritance.plain_linear below)

end Ids

/-- The element at the head of a chain of inheritance gets each attribute that can be inherited from
the first element that has it, and the children of all elements, those of the last one first, as far
as content models let them through. The document stays as it is. -/
theorem inherit_linearizes {chain : List (String × Element)}
    (byId : resolver.protocols.find? Uri.idProtocol = some .byId) (untouched : session.Untouched)
    (links : Inheritance.Chain session.context.ids e chain) (nonempty : chain ≠ [])
    (distinct : (chain.map (·.1)).Nodup) (fits : chain.length ≤ resolver.maxDepth)
    (plain : ∀ other ∈ chain.map (·.2), Node.AllPlain other.children) :
    ∃ result later, (resolver.inherit e).run.alone session = (.ok result, later) ∧
      (∀ name, Inheritance.isOwn name = false → result.attributes.find? name =
        (e :: chain.map (·.2)).findSome? (·.attributes.find? name)) ∧
      result.attributes.find? "id" = e.attributes.find? "id" ∧
      result.attributes.find? "extends" = none ∧
      result.children = Inheritance.linearChildren resolver.tags e (chain.map (·.2)) ∧
      later.context.ids = session.context.ids := by
  cases links with
  | last => exact absurd rfl nonempty
  | @link _ next target id chain names parsed leads rest =>
    have resolved : (resolver.resolve (.ofId id)).Yields session
        (.element (Inheritance.linear resolver.tags next (chain.map (·.2)))) := by
      obtain ⟨later, ran, ids⟩ := resolveWithin_linear byId rest rfl leads distinct
        (fun _ _ => untouched.clear _) plain fits
      refine ⟨later, ?_, ids⟩
      show (resolver.resolveWithin (resolver.maxDepth - session.context.resolving.length) _).run.alone
        session = _
      rw [untouched.resolving]
      exact ran
    have merged : (resolver.inherit e).Yields session
        (Inheritance.linear resolver.tags e (next :: chain.map (·.2))) := by
      rw [inherit, names]
      exact (ancestor_yields parsed resolved).bind fun later => mergeAncestor_yields e _ later
    obtain ⟨later, ran, ids⟩ := merged
    refine ⟨_, later, ran, fun name foreign => Inheritance.find?_linear foreign e _, ?_, ?_,
      Inheritance.children_linear e _, ids⟩
    · exact Inheritance.find?_id_merge e _
    · exact Inheritance.find?_extends_merge e _

/-- A leaf gets the color of its second ancestor, but not the text, which the first one cuts off. -/
theorem inherit_linearizes_leaf :
    let base : Element := {
      tag := "base"
      attributes := [("color", .text "red"), ("id", .text "a"), ("size", .text "1")]
      children := [.content { text := "one" }] }
    let word : Element := {
      tag := "word"
      attributes := [("extends", .text "#a"), ("id", .text "b"), ("size", .text "2")]
      children := [.content { text := "two" }] }
    let leaf : Element := {
      tag := "leaf"
      attributes := [("extends", .text "#b")]
      children := [.content { text := "three" }] }
    let tags : TagRegistry := ⟨[("word", { name := "word", model := .contentOnly })], false⟩
    let resolver : Resolver := { protocols := ⟨[.byId]⟩, tags }
    let session : Session :=
      { context := { ids := .ofDocument { children := [.element base, .element word] } } }
    ∃ result later, (resolver.inherit leaf).run.alone session = (.ok result, later) ∧
      result.attributes.find? "color" = some (.text "red") ∧
      result.attributes.find? "size" = some (.text "2") ∧
      result.attributes.find? "id" = none ∧
      result.children = [.content { text := "two" }, .content { text := "three" }] := by
  intro base word leaf tags resolver session
  have links : Inheritance.Chain session.context.ids leaf [("b", word), ("a", base)] :=
    .link rfl (by decide +kernel) rfl (.link rfl (by decide +kernel) rfl (.last rfl))
  have plain : ∀ other ∈ [word, base], Node.AllPlain other.children := by
    simp [word, base, Node.EveryOf, Node.Every]
  have handled : Handler.byId.handles (Text.asciiLower Uri.idProtocol) = true := by decide +kernel
  have byId : resolver.protocols.find? Uri.idProtocol = some .byId := by
    simp [resolver, Protocols.find?, handled]
  have cuts : tags.model "word" = .contentOnly := by decide +kernel
  have mixed : tags.model "leaf" = .mixed := by decide +kernel
  obtain ⟨result, later, ran, inherits, own, -, children, -⟩ := inherit_linearizes byId
    ⟨rfl, rfl, rfl, rfl⟩ links (by simp) (by decide) (by decide) plain
  refine ⟨result, later, ran, inherits "color" (by decide), inherits "size" (by decide), own, ?_⟩
  rw [children]
  simp [Inheritance.linearChildren, leaf, word, resolver, cuts, mixed,
    ContentModel.acceptsInheritedChildren]

end Resolver

end LinkedMarkup
