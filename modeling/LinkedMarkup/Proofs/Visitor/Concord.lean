import LinkedMarkup.Pipeline
import LinkedMarkup.Proofs.Resolution.Meanings
import LinkedMarkup.Proofs.Visitor.Passes

namespace LinkedMarkup

namespace Visitor
variable {outlook : Outlook} {nodes merged filled after : List Node}

/-- What is open after the pass over inheritance is known. -/
theorem opens_of_inheriting {known : Uri → Prop} (passes : (inheriting outlook).Passes nodes after)
    (leads : ∀ {uri value}, known uri → outlook.means uri (.ok value) →
      ∀ next ∈ value.opens, known next)
    (member : ∀ uri ∈ Node.opensOf nodes, known uri) : ∀ uri ∈ Node.opensOf after, known uri := by
  induction passes with
  | nil => exact member
  | @element e visited own _ _ here _ _ below others =>
    rw [Node.forall_opensOf_element] at member ⊢
    suffices visit : (∀ uri ∈ visited.ancestor?.toList, known uri) ∧
        ∀ uri ∈ Node.opensOf visited.children, known uri from
      ⟨visit.1, below visit.2, others member.2.2⟩
    rcases here with ⟨_, rfl⟩ | ⟨target, names, ⟨_, _, _, rfl⟩ | ⟨a, finds, rfl⟩⟩
    · exact ⟨member.1, member.2.1⟩
    · exact ⟨member.1, member.2.1⟩
    · have merged : (Inheritance.merge outlook.tags e a).ancestor? = none :=
        Inheritance.ancestor?_head e a
      have inherited := finds.opens names leads member.1
      rw [merged, Inheritance.merge, Node.opensOf_append, List.forall_mem_append]
      exact ⟨by simp, fun uri inside => inherited uri (Inheritance.opensOf_children_subset _ _ inside),
        member.2.1⟩
  | leaf here _ others =>
    obtain ⟨_, rfl⟩ := here
    rw [List.singleton_append, Node.opensOf, List.forall_mem_append] at *
    exact ⟨member.1, others member.2⟩

private theorem expands_leaf {node part : Node} {rest rest' : List Node}
    (leaf : node.asElement? = none) (fills : Fills outlook node part)
    (others : outlook.Expands rest rest') : outlook.Expands (node :: rest) (part :: rest') := by
  cases node with
  | element e => cases leaf
  | content c => cases fills; exact .content c others
  | reference r =>
    obtain ⟨last, rfl, refers⟩ := fills
    rcases refers with ⟨resolved, rfl⟩ | ⟨unresolved, ⟨value, means, rfl⟩ | ⟨error, means, passes, rfl⟩⟩
    · exact .resolved resolved others
    · exact .found unresolved means others
    · exact .failed unresolved means passes others

/-- The pass over inheritance and the one over references make of nodes what they are expanded to. -/
theorem expands_of_passes (passes : (inheriting outlook).Passes nodes merged)
    (fills : List.Forall₂ (Fills outlook) merged filled)
    (passes' : (referring outlook).Passes filled after) : outlook.Expands nodes after := by
  induction passes generalizing filled after with
  | nil =>
    cases fills
    cases passes'
    exact .nil
  | @element e visited own rest rest' here _ _ below others =>
    cases fills with
    | cons same fills =>
      cases same
      cases passes' with
      | leaf leaf => cases leaf.1
      | element refers below' others' =>
        obtain ⟨children, inside, rfl⟩ := refers
        have own := below inside below'
        have rest := others fills others'
        rcases here with ⟨alone, rfl⟩ | ⟨target, names, ⟨error, misses, passed, rfl⟩ | ⟨a, finds, rfl⟩⟩
        · exact .plain alone own rest
        · exact .orphan names misses passed own rest
        · obtain ⟨inherited, own, rfl, above, below⟩ := own.append_inv
          exact .heir names finds above below rest
  | @leaf node _ _ _ here _ others =>
    obtain ⟨leaf, rfl⟩ := here
    cases fills with
    | cons fills rest =>
      cases passes' with
      | leaf leaf' others' =>
        obtain ⟨_, rfl⟩ := leaf'
        exact expands_leaf leaf fills (others rest others')
      | element =>
        -- A node that is no element is not filled with one.
        cases node with
        | element => cases leaf
        | content => cases fills
        | reference => obtain ⟨_, same, _⟩ := fills; cases same

end Visitor

/-- The element that has come from the one at a path. Own children stand behind the inherited ones. -/
def Node.image? : List Node → List Node → NodePath → Option Element
  | _, _, [] => none
  | before, after, index :: path =>
    match before[index]?, after[after.length - before.length + index]? with
    | some (.element e), some (.element live) =>
      if path.isEmpty then some live else image? e.children live.children path
    | _, _ => none

namespace Outlook.Expands
variable {outlook : Outlook} {nodes after : List Node}

theorem length_eq (expands : outlook.Expands nodes after) : after.length = nodes.length := by
  induction expands <;> simp_all

theorem getElem? (expands : outlook.Expands nodes after) {index : Nat} {e : Element}
    (here : nodes[index]? = some (.element e)) :
    ∃ live, after[index]? = some (.element live) ∧ outlook.Expands [.element e] [.element live] := by
  induction expands generalizing index with
  | nil => cases here
  | content _ _ others | resolved _ _ others | found _ _ _ others | failed _ _ _ _ others =>
    cases index with
    | zero => cases here
    | succ index => exact others here
  | plain alone below _ _ others =>
    cases index with
    | zero => cases here; exact ⟨_, rfl, .plain alone below .nil⟩
    | succ index => exact others here
  | orphan names misses passes below _ _ others =>
    cases index with
    | zero => cases here; exact ⟨_, rfl, .orphan names misses passes below .nil⟩
    | succ index => exact others here
  | heir names finds above below _ _ _ others =>
    cases index with
    | zero => cases here; exact ⟨_, rfl, .heir names finds above below .nil⟩
    | succ index => exact others here
  | cut names finds cuts below _ _ others =>
    cases index with
    | zero => cases here; exact ⟨_, rfl, .cut names finds cuts below .nil⟩
    | succ index => exact others here

/-- The children of an expanded element are inherited ones and then its own. -/
theorem children {e live : Element} (expands : outlook.Expands [.element e] [.element live]) :
    ∃ inherited own, live.children = inherited ++ own ∧ outlook.Expands e.children own := by
  cases expands with
  | plain _ below | orphan _ _ _ below => exact ⟨[], _, rfl, below⟩
  | heir _ _ _ below | cut _ _ _ below => exact ⟨_, _, rfl, below⟩

/-- Every element of the tree has an image, to which it is expanded. -/
theorem image? (expands : outlook.Expands nodes after) (inherited : List Node) {path : NodePath}
    {e : Element} (here : Node.follow? nodes path = some (.element e)) :
    ∃ live, Node.image? nodes (inherited ++ after) path = some live ∧
      outlook.Expands [.element e] [.element live] := by
  induction path generalizing nodes after inherited with
  | nil => cases here
  | cons index path ih =>
    have offset : (inherited ++ after).length - nodes.length + index = inherited.length + index := by
      rw [List.length_append, expands.length_eq]
      omega
    have place : (inherited ++ after)[inherited.length + index]? = after[index]? := by
      rw [List.getElem?_append_right (Nat.le_add_right _ _), Nat.add_sub_cancel_left]
    unfold Node.follow? at here
    split at here
    · rename_i node found
      cases here
      obtain ⟨live, there, expands⟩ := expands.getElem? found
      refine ⟨live, ?_, expands⟩
      simp only [Node.image?, offset, place, found, there, List.isEmpty_nil, if_true]
    · rename_i path _ _ parent found deeper
      obtain ⟨live, there, expands⟩ := expands.getElem? found
      obtain ⟨others, own, same, below⟩ := expands.children
      obtain ⟨last, image, result⟩ := ih below others here
      have further : path.isEmpty = false := by simpa using deeper
      refine ⟨last, ?_, result⟩
      simp only [Node.image?, offset, place, found, there, further, Bool.false_eq_true, if_false, same,
        image]
    · cases here

end Outlook.Expands

/-- A diagnostic tells that a reference of which nothing was known has not been resolved in time. -/
def Resolver.TellsOfTimeout (resolver : Resolver) (session : Session) (diagnostic : Diagnostic) :
    Prop :=
  ∃ key, ¬ session.shared.Settled key ∧
    diagnostic.cause = some (.reference (.timeout key resolver.timeout))

/-- All has been resolved in time and expanded as deeply as need be. -/
structure Resolver.InTime (resolver : Resolver) (session later : Session) : Prop where
  whole : later.shared.cutOff = false
  timely : ∀ diagnostic ∈ later.context.diagnostics, ¬ resolver.TellsOfTimeout session diagnostic

/-- References in play that share a key are found the same value. -/
def Resolver.Coherent (resolver : Resolver) (session : Session) (others : List Uri) : Prop :=
  ∀ {first second}, resolver.InPlay session others first → resolver.InPlay session others second →
    first.key = second.key → resolver.found? session first = resolver.found? session second

/-- References come to what they mean, as long as all are resolved in time. A failure that ends the
processing may be any. -/
def Care.meaning (resolver : Resolver) (session : Session) (others : List Uri) : Care where
  known := resolver.InPlay session others
  good uri
    | .ok value => resolver.Means session uri (some value)
    | .error error => ¬ Resolver.Tolerated session.context.mode error ∨
        (¬ session.shared.Settled uri.key ∧ error = .timeout uri.key resolver.timeout) ∨
          resolver.Means session uri none
  settled := session.shared.Settled
  lost later := ¬ resolver.InTime session later
  expires := True

namespace Care.meaning
variable {resolver : Resolver} {session : Session} {others : List Uri} {uri : Uri}

theorem lasting : (Care.meaning resolver session others).Lasting := by
  intro before after adds lost timely
  refine lost ⟨?_, fun diagnostic recorded => timely.timely _ (adds.diagnostics recorded)⟩
  cases cut : before.shared.cutOff with
  | false => rfl
  | true => cases (adds.cutOff cut).symm.trans timely.whole

/-- What is passed over in time is a failure of the reference itself. -/
theorem implies : ((Care.meaning resolver session others).outlook resolver
    session.context.mode).Implies (resolver.sense session (resolver.Means session)) where
  value means := means
  failure {uri error} good passes := by
    obtain ⟨tolerated, later, position, _, kept⟩ := passes
    rcases good with ends | ⟨fresh, rfl⟩ | fails
    · exact absurd tolerated ends
    · refine absurd (fun timely => ?_) kept
      refine timely.timely (later.context.passedOver (.timeout uri.key resolver.timeout) position)
        (List.mem_append_right _ (List.mem_singleton_self _)) ⟨uri.key, fresh, ?_⟩
      simp only [Context.passedOver, Context.located, Diagnostic.placedAt, Diagnostic.ofReference]
      split <;> split <;> rfl
    · exact fails
  passes passes := passes.1
  tags := rfl
  cuts := by
    rintro ⟨later, kept⟩
    exact kept fun timely => by cases timely.whole

private theorem found?_eq (fresh : ¬ session.shared.Settled uri.key) :
    resolver.found? session uri = (resolver.answer? session.context uri).bind fun answer =>
      answer.outcome?.bind Except.toOption := by
  obtain ⟨value, failure⟩ := Shared.not_settled.mp fresh
  simp only [Resolver.found?, value, failure]

private theorem fails (fresh : ¬ session.shared.Settled uri.key)
    (nothing : resolver.found? session uri = none) : resolver.Means session uri none := by
  rw [Resolver.means_iff, (Shared.not_settled.mp fresh).1, nothing]

theorem serves (coherent : resolver.Coherent session others) :
    (Care.meaning resolver session others).Serves resolver session.context where
  keyed {first second outcome} played also same good := by
    have found := coherent played also same
    cases outcome with
    | ok value => exact Resolver.Means.congr good same found
    | error error =>
      rcases good with ends | ⟨fresh, rfl⟩ | fails
      · exact .inl ends
      · exact .inr (.inl ⟨same ▸ fresh, by rw [same]⟩)
      · exact .inr (.inr (fails.congr same found))
  circular _ _ := .inl fun tolerated => nomatch tolerated.1
  deep _ _ := .inl fun tolerated => nomatch tolerated.1
  wait _ asks := .inr (.inl ⟨asks.unsettled, rfl⟩)
  late asks _ _ := .inr (.inl ⟨asks.unsettled, rfl⟩)
  unsupported asks nobody := by
    refine .inr (.inr (fails asks.unsettled ?_))
    rw [found?_eq asks.unsettled, nobody, Option.bind_none]
  refused asks answers refused := by
    refine .inr (.inr (fails asks.unsettled ?_))
    rw [found?_eq asks.unsettled, answers, Option.bind_some, refused]
    rfl
  leads {uri answer value} asks answers answered next opens := by
    refine asks.known.leads ⟨value, ?_, opens⟩
    rw [found?_eq asks.unsettled, answers, Option.bind_some, answered]
    rfl
  opens played means := Resolver.Means.opens means played
  expanded {uri answer value after} asks answers answered expands := by
    have found : resolver.found? session uri = some value := by
      rw [found?_eq asks.unsettled, answers, Option.bind_some, answered]
      rfl
    show resolver.Means session uri (some after)
    rw [Resolver.means_iff, (Shared.not_settled.mp asks.unsettled).1, found]
    exact ⟨after, implies.expandsTo expands, rfl⟩
  broken _ _ _ ends := .inl ends

/-- What is known at the start is good. -/
theorem calm : (Care.meaning resolver session others).Calm session.shared where
  settled := id
  value {uri value} _ known := by
    show resolver.Means session uri (some value)
    rw [Resolver.means_iff, known]
  failure {uri error} _ unknown known := by
    refine .inr (.inr ?_)
    rw [Resolver.means_iff, unknown]
    have nothing : resolver.found? session uri = none := by
      simp only [Resolver.found?, unknown, known]
    rw [nothing]

variable {d : Document} {siblings : Visitor.Siblings}

/-- Nodes that are expanded in place come to what they mean. -/
theorem expandNodes {nodes after : List Node} (coherent : resolver.Coherent session others)
    (played : ∀ uri ∈ Node.opensOf nodes, resolver.InPlay session others uri)
    (complete : ((resolver.expandNodes nodes).run.alone session).1 = .ok after)
    (timely : resolver.InTime session ((resolver.expandNodes nodes).run.alone session).2) :
    (resolver.sense session (resolver.Means session)).Expands nodes after := by
  let care := Care.meaning resolver session others
  have served : care.Serves resolver session.context := serves coherent
  have plain : Program.Plain (resolver.expandNodes nodes).run session := by
    have nothing := Care.nothing.serves resolver session.context
    have keeps : Care.nothing.Keeps session.context (fun _ => True)
        (fun error => ¬ Resolver.Tolerated session.context.mode error) (resolver.expandNodes nodes) :=
      Care.Keeps.mono (Resolver.expandNodes_grows
        (nothing.resolves nothing.resolve_keeps (.refl session.context)) rfl fun _ _ => trivial)
        (fun _ => trivial) id
    exact (keeps session rfl (Care.nothing.calm _)).mono fun _ => trivial
  have keeps : care.Keeps session.context ((care.outlook resolver session.context.mode).Expands nodes)
      (fun error => ¬ Resolver.Tolerated session.context.mode error) (resolver.expandNodes nodes) :=
    Resolver.expandNodes_grows (served.resolves served.resolve_keeps (.refl session.context)) rfl played
  have ended := Program.Amid.alone lasting (.inl trivial) plain (keeps session rfl calm) calm
  obtain ⟨_, _, meets⟩ := ended.resolve_left fun lost => lost timely
  rw [complete] at meets
  exact implies.expands meets

theorem passes (schedules : resolver.Schedules siblings) (coherent : resolver.Coherent session others)
    (played : ∀ uri ∈ Node.opensOf d.children, resolver.InPlay session others uri) {levels : Nat} :
    let passed := Pipeline.pass levels [.inheritance resolver, .referencesBy siblings] session d
    passed.isComplete = true → resolver.InTime session passed.session →
      (Care.meaning resolver session others).Quiet session.context (fun _ => True) passed.session ∧
        (resolver.sense session (resolver.Means session)).Expands d.children
          passed.document.children := by
  let care := Care.meaning resolver session others
  have served : care.Serves resolver session.context := serves coherent
  have lasts : care.Lasting := lasting
  have rests : care.Rests resolver siblings session.context fun _ => True :=
    Care.rests_of_schedules trivial schedules
  have begun : care.Quiet session.context (fun _ => True) session := ⟨.refl _, calm, trivial⟩
  have merged := Care.walk_inheritance served lasts rests begun played levels
  let after := (Visitor.inheritance resolver).walk [] session d levels
  let last := (Visitor.referencesBy siblings).walk [] after.session after.part levels
  have adds : after.session.Adds last.session := Visitor.walk_references_adds schedules.adds after.part levels
  rw [Pipeline.pass]
  cases ended : ((Visitor.inheritance resolver).walk [] session d levels).halt with
  | some halt => exact fun complete => by cases complete
  | none =>
    dsimp only
    rw [Pipeline.pass]
    cases stopped : ((Visitor.referencesBy siblings).walk [] after.session after.part levels).halt with
    | some halt => exact fun complete => by cases complete
    | none =>
      intro _ timely
      have timely : resolver.InTime session last.session := timely
      obtain ⟨quiet, passes⟩ := merged ended fun lost => lasts adds lost timely
      have opens := Visitor.opens_of_inheriting passes served.opens played
      obtain ⟨quiet, filled, fills, passes'⟩ :=
        Care.walk_references served lasts rests schedules.adds quiet opens levels stopped
          fun lost => lost timely
      exact ⟨quiet, implies.expands (Visitor.expands_of_passes passes fills passes')⟩

/-- A single reference comes to what it means. -/
theorem resolve (coherent : resolver.Coherent session others)
    (played : resolver.InPlay session others uri) {now : Session}
    (quiet : (Care.meaning resolver session others).Quiet session.context (fun _ => True) now)
    (timely : resolver.InTime session ((resolver.resolve uri).run.alone now).2) :
    (Care.meaning resolver session others).good uri ((resolver.resolve uri).run.alone now).1 := by
  let care := Care.meaning resolver session others
  have served : care.Serves resolver session.context := serves coherent
  have plain : Program.Plain (resolver.resolve uri).run now :=
    ((Care.nothing.serves resolver session.context).resolve_keeps trivial quiet.fellow now rfl
      (Care.nothing.calm _)).mono fun _ => trivial
  have keeps := served.resolve_keeps played quiet.fellow now rfl quiet.calm
  obtain ⟨_, _, meets⟩ :=
    (Program.Amid.alone lasting (.inl trivial) plain keeps quiet.calm).resolve_left
      fun lost => lost timely
  cases outcome : ((resolver.resolve uri).run.alone now).1 with
  | ok value => rw [outcome] at meets; exact meets
  | error error => rw [outcome] at meets; exact meets

end Care.meaning

namespace Pipeline
variable {resolver : Resolver} {siblings : Visitor.Siblings}

/-- Where references in play that share a key are found the same value, the passes over inheritance and
references, siblings being resolved in whatever way, make of the children of a document what the
resolver expands them to, if both come to their end and nothing is late. After the passes the
reference to an id, of which nothing was known before, leads to the image of the element that had the
id, unless its own resolution fails with what ends the processing or waits in vain. -/
theorem pass_agrees (schedules : resolver.Schedules siblings) (session : Session) (d : Document)
    (levels : Nat) (coherent : resolver.Coherent session (Node.opensOf d.children))
    (complete : (pass levels [.inheritance resolver, .referencesBy siblings] session d).isComplete = true)
    (timely : resolver.InTime session
      (pass levels [.inheritance resolver, .referencesBy siblings] session d).session) :
    let passed := pass levels [.inheritance resolver, .referencesBy siblings] session d
    let expanded := (resolver.expandNodes d.children).run.alone session
    (∀ {nodes}, expanded.1 = .ok nodes → resolver.InTime session expanded.2 →
      passed.document.children = nodes) ∧
    ∀ {id path e}, (IdIndex.ofDocument d).path? id = some path →
      (IdIndex.ofDocument d).find? id = some e → session.context.ids = .ofDocument d →
      resolver.protocols.find? Uri.idProtocol = some .byId →
      ¬ session.shared.Settled (Uri.key ⟨Uri.idProtocol, id⟩) →
      resolver.Coherent session (⟨Uri.idProtocol, id⟩ :: Node.opensOf d.children) →
      let found := (resolver.resolve ⟨Uri.idProtocol, id⟩).run.alone passed.session
      resolver.InTime session found.2 →
        match found.1 with
        | .ok value => ∃ live, Node.image? d.children passed.document.children path = some live ∧
            value = .element live
        | .error error => ¬ Resolver.Tolerated session.context.mode error ∨
            error = .timeout (Uri.key ⟨Uri.idProtocol, id⟩) resolver.timeout := by
  have decided := resolver.decided_means session
  intro passed expanded
  constructor
  · intro nodes same onTime
    have played : ∀ uri ∈ Node.opensOf d.children,
        resolver.InPlay session (Node.opensOf d.children) uri := fun uri member => ⟨uri, member, .refl⟩
    have expands := (Care.meaning.passes schedules coherent played complete timely).2
    exact decided.unique expands (Care.meaning.expandNodes coherent played same onTime)
  · intro id path e place indexed ids handler fresh coherent found onTime
    have played : ∀ uri ∈ ⟨Uri.idProtocol, id⟩ :: Node.opensOf d.children,
        resolver.InPlay session (⟨Uri.idProtocol, id⟩ :: Node.opensOf d.children) uri :=
      fun uri member => ⟨uri, member, .refl⟩
    obtain ⟨quiet, expands⟩ := Care.meaning.passes schedules coherent
      (fun uri member => played uri (List.mem_cons_of_mem _ member)) complete timely
    have good := Care.meaning.resolve coherent (played _ List.mem_cons_self) quiet onTime
    have known : resolver.found? session ⟨Uri.idProtocol, id⟩ = some (.element e) := by
      obtain ⟨value, failure⟩ := Shared.not_settled.mp fresh
      simp only [Resolver.found?, value, failure, Resolver.answer?, handler, Option.map_some,
        Option.bind_some, Handler.byId, Resolver.request, ids, indexed, Answer.ofOption, Answer.found]
      rfl
    have leads (meant : Option Resolved) (means : resolver.Means session ⟨Uri.idProtocol, id⟩ meant) :
        ∃ live, Node.image? d.children passed.document.children path = some live ∧
          meant = some (.element live) := by
      rw [Resolver.means_iff, (Shared.not_settled.mp fresh).1, known] at means
      obtain ⟨after, expandsTo, rfl⟩ := means
      have there : Node.follow? d.children path = some (.element e) := by
        simp only [IdIndex.find?, place, Option.bind_some, Document.elementAt?,
          Option.bind_eq_some_iff] at indexed
        obtain ⟨node, here, same⟩ := indexed
        cases node with
        | element other => cases same; exact here
        | content | reference => cases same
      obtain ⟨live, image, whole⟩ := expands.image? [] there
      refine ⟨live, image, ?_⟩
      rw [decided.expandsTo_unique expandsTo (.element whole)]
    cases outcome : found.1 with
    | ok value =>
      rw [outcome] at good
      obtain ⟨live, image, same⟩ := leads _ good
      exact ⟨live, image, Option.some.inj same⟩
    | error error =>
      rw [outcome] at good
      rcases good with ends | ⟨_, late⟩ | fails
      · exact .inl ends
      · exact .inr late
      · obtain ⟨_, _, same⟩ := leads _ fails
        cases same

def kin : Document :=
  { children := [.element { tag := "a", attributes := [("id", .text "x"), ("extends", .text "#y")] },
      .element { tag := "b", attributes := [("id", .text "y")], children := [.content ⟨"text", {}⟩] }] }

def lookup : Resolver := { protocols := ⟨[.byId]⟩ }

def home : Session := { context := { ids := .ofDocument kin } }

private theorem played_at_home {others : List Uri} (inside : others ⊆ [⟨"id", "x"⟩, ⟨"id", "y"⟩])
    {uri : Uri} (played : lookup.InPlay home others uri) : uri = ⟨"id", "x"⟩ ∨ uri = ⟨"id", "y"⟩ := by
  obtain ⟨first, member, path⟩ := played
  induction path with
  | refl => simpa using inside member
  | tail _ leads ih =>
    obtain ⟨value, found, opens⟩ := leads
    have only (uri : Uri) (same : uri = ⟨"id", "x"⟩ ∨ uri = ⟨"id", "y"⟩) :
        ∀ next ∈ ((lookup.found? home uri).map Resolved.opens).getD [], next = ⟨"id", "y"⟩ := by
      rcases same with rfl | rfl <;> decide +kernel
    exact .inr (only _ ih _ (by simpa [found] using opens))

private theorem coherent_at_home {others : List Uri}
    (inside : others ⊆ [⟨"id", "x"⟩, ⟨"id", "y"⟩]) : lookup.Coherent home others := by
  intro first second played also same
  rcases played_at_home inside played with rfl | rfl <;>
    rcases played_at_home inside also with rfl | rfl
  · rfl
  · exact absurd same (by decide)
  · exact absurd same (by decide)
  · rfl

/-- Nothing is reported, and no expansion is left out. -/
private theorem inTime_of_silent {resolver : Resolver} {session later : Session}
    (whole : later.shared.cutOff = false) (silent : later.context.diagnostics.isEmpty = true) :
    resolver.InTime session later :=
  ⟨whole, fun diagnostic recorded => by simp [List.isEmpty_iff.mp silent] at recorded⟩

theorem pass_agrees_kin :
    let passed := pass 8 [.inheritance lookup, .referencesBy (Visitor.siblings lookup true)] home kin
    ((lookup.expandNodes kin.children).run.alone home).1 = .ok passed.document.children ∧
      ∃ live, Node.image? kin.children passed.document.children [0] = some live ∧
        ((lookup.resolve ⟨"id", "x"⟩).run.alone passed.session).1 = .ok (.element live) := by
  intro passed
  have opens : Node.opensOf kin.children = [⟨"id", "y"⟩] := by decide +kernel
  have agrees := pass_agrees (Resolver.schedules_siblings lookup true) home kin 8
    (coherent_at_home (by simp [opens])) (by decide +kernel)
    (inTime_of_silent (by decide +kernel) (by decide +kernel))
  constructor
  · have expanded : ((lookup.expandNodes kin.children).run.alone home).1.toOption.isSome = true := by
      decide +kernel
    cases outcome : ((lookup.expandNodes kin.children).run.alone home).1 with
    | error error => rw [outcome] at expanded; cases expanded
    | ok nodes =>
      exact congrArg _ (agrees.1 outcome (inTime_of_silent (by decide +kernel) (by decide +kernel))).symm
  · have place : (IdIndex.ofDocument kin).path? "x" = some [0] := by decide +kernel
    have indexed : ((IdIndex.ofDocument kin).find? "x").isSome = true := by decide +kernel
    obtain ⟨e, indexed⟩ := Option.isSome_iff_exists.mp indexed
    have handler : lookup.protocols.find? Uri.idProtocol = some .byId :=
      List.find?_cons_of_pos (by decide +kernel)
    have fresh : ¬ home.shared.Settled (Uri.key ⟨Uri.idProtocol, "x"⟩) :=
      Shared.not_settled.mpr ⟨rfl, rfl⟩
    have found : ((lookup.resolve ⟨"id", "x"⟩).run.alone passed.session).1.toOption.isSome = true := by
      decide +kernel
    have leads := agrees.2 place indexed rfl handler fresh
      (coherent_at_home (by simp [opens, Uri.idProtocol]))
      (inTime_of_silent (by decide +kernel) (by decide +kernel))
    cases outcome : ((lookup.resolve ⟨"id", "x"⟩).run.alone passed.session).1 with
    | error error => rw [outcome] at found; cases found
    | ok value =>
      have outcome' : ((lookup.resolve ⟨Uri.idProtocol, "x"⟩).run.alone passed.session).1 =
        .ok value := outcome
      rw [outcome'] at leads
      obtain ⟨live, image, rfl⟩ := leads
      exact ⟨live, image, rfl⟩

/-- Two handlers with elements. The protocol of one of them contains a colon. -/
def diverging : Resolver :=
  { protocols := ⟨[
      { name := "long", handles := fun protocol => protocol == "a:b", answer := fun _ =>
          .found (.element { tag := "l", children := [.content ⟨"long", {}⟩] }) },
      { name := "short", handles := fun protocol => protocol == "a", answer := fun _ =>
          .found (.element { tag := "s", children := [.content ⟨"short", {}⟩] }) }]⟩ }

/-- A reference and an element that extends another one with the same key. -/
def crossing : Document :=
  { children := [.reference { protocol := "a:b", path := "c" },
      .element { tag := "e", attributes := [("extends", .text "a:b:c")] }] }

/-- Ancestors are resolved first by the passes, but in the order of the nodes by an expansion. Where two
references share a key, the one that is resolved first decides. -/
theorem passes_differ_at_collision :
    let passed := pass 8 [.inheritance diverging, .references diverging] {} crossing
    let expanded := (diverging.expandNodes crossing.children).run.alone {}
    passed.isComplete = true ∧ diverging.InTime {} passed.session ∧
      diverging.InTime {} expanded.2 ∧
      ∃ nodes, expanded.1 = .ok nodes ∧ passed.document.children ≠ nodes := by
  intro passed expanded
  have together : (expanded.1.toOption.map Node.texts) = some "longlong" := by decide +kernel
  have apart : Node.texts passed.document.children = "shortshort" := by decide +kernel
  obtain ⟨nodes, complete, texts⟩ := Option.map_eq_some_iff.mp together
  refine ⟨by decide +kernel, inTime_of_silent (by decide +kernel) (by decide +kernel),
    inTime_of_silent (by decide +kernel) (by decide +kernel), nodes, ?_, fun same => ?_⟩
  · cases outcome : expanded.1 with
    | error error => rw [outcome] at complete; cases complete
    | ok nodes => rw [outcome] at complete; cases complete; rfl
  · rw [same, texts] at apart
    exact absurd apart (by decide)

end Pipeline
end LinkedMarkup
