import LinkedMarkup.Pipeline
import LinkedMarkup.Proofs.Resolution.Doom
import LinkedMarkup.Proofs.Visitor.Termination

namespace LinkedMarkup
open Visitor

mutual
/-- The references without a value below a node, in document order. -/
def Node.pending : Node → List Uri
  | .element e => e.pending
  | .content _ => []
  | .reference r => r.opens
def Node.pendingOf : List Node → List Uri
  | [] => []
  | node :: rest => node.pending ++ Node.pendingOf rest
def Element.pending : Element → List Uri
  | ⟨_, _, children, _, _⟩ => Node.pendingOf children
end

theorem Node.mem_pendingOf {nodes : List Node} {uri : Uri} :
    uri ∈ pendingOf nodes ↔ ∃ node ∈ nodes, uri ∈ node.pending := by
  induction nodes with
  | nil => simp [pendingOf]
  | cons node rest ih => simp [pendingOf, ih]

theorem Element.pending_eq (e : Element) : e.pending = Node.pendingOf e.children := by
  cases e
  rw [Element.pending]

namespace Resolver
variable {resolver : Resolver} {session now : Session} {others : List Uri}

theorem Going.record (going : resolver.Going session others now) {context : Context}
    (like : now.context.Like context) :
    resolver.Going session others { now with context } := by
  obtain ⟨idle, fellow⟩ := going
  have task : context.task = now.context.task := by rw [like]
  exact ⟨⟨idle.sound, idle.quiet, task ▸ idle.leaf, task ▸ idle.known⟩, fellow.trans like.fellow⟩

def Plays (resolver : Resolver) (session : Session) (others : List Uri) (uris : List Uri) : Prop :=
  ∀ uri ∈ uris, resolver.InPlay session others uri

def Spared (resolver : Resolver) (session : Session) (uris : List Uri) : Prop :=
  ∀ uri ∈ uris, ¬ resolver.Doomed session uri

/-- The pass over inheritance leaves the doomed references of a node in its place. -/
structure Survives (resolver : Resolver) (session : Session) (others : List Uri)
    (before after : List Uri) : Prop where
  stay : ∀ uri ∈ before, resolver.Doomed session uri → uri ∈ after
  plays : resolver.Plays session others after

namespace Fresh

theorem nestedTo (fresh : resolver.Fresh session others) (levels : Nat) :
    (resolver.nestedTo levels).Fresh session others :=
  ⟨fresh.shared, fresh.task, fresh.loose, ⟨fresh.prompt.answers, fresh.prompt.inTime⟩, fresh.agree⟩

theorem loose_of_going (fresh : resolver.Fresh session others)
    (going : resolver.Going session others now) : now.context.mode = .loose :=
  going.2.mode.trans fresh.loose

private theorem survives_of_forall₂ {nodes after : List Node}
    (all : List.Forall₂ (fun node part : Node =>
      resolver.Survives session others node.opens part.pending) nodes after) :
    resolver.Survives session others (Node.opensOf nodes) (Node.pendingOf after) := by
  induction all with
  | nil => exact ⟨by simp [Node.opensOf], by simp [Plays, Node.pendingOf]⟩
  | cons here _ ih =>
    refine ⟨fun uri member doomed => ?_, fun uri member => ?_⟩
    · rw [Node.opensOf] at member
      rw [Node.pendingOf]
      rcases List.mem_append.mp member with first | rest
      · exact List.mem_append_left _ (here.stay uri first doomed)
      · exact List.mem_append_right _ (ih.stay uri rest doomed)
    · rw [Node.pendingOf] at member
      exact (List.mem_append.mp member).elim (here.plays uri) (ih.plays uri)

private theorem below_ends {levels : Nat}
    (ih : ∀ parents path {nodes now}, resolver.Going session others now →
      (∀ node ∈ nodes, resolver.Plays session others node.opens) →
        (walkNodes (inheritance resolver) levels parents path now nodes).Ends
          (resolver.Going session others)
          (List.Forall₂ (fun node part : Node =>
            resolver.Survives session others node.opens part.pending) nodes))
    {e merged : Element} {inherited : List Node} (place : Place)
    (going : resolver.Going session others now) (plays : resolver.Plays session others e.opens)
    (spared : resolver.Spared session e.ancestor?.toList)
    (children : merged.children = inherited ++ e.children)
    (also : resolver.Plays session others (Node.opensOf inherited)) :
    (below (walkNodes (inheritance resolver) levels) place now (.element merged)).Ends
      (resolver.Going session others) fun part : Node =>
        resolver.Survives session others e.opens part.pending := by
  have all : ∀ node ∈ merged.children, resolver.Plays session others node.opens := by
    intro node member uri opens
    rw [children] at member
    rcases List.mem_append.mp member with above | own
    · exact also uri (Node.mem_opensOf.mpr ⟨node, above, opens⟩)
    · refine plays uri ?_
      rw [Element.opens_eq]
      exact List.mem_append_right _ (Node.mem_opensOf.mpr ⟨node, own, opens⟩)
  refine (ih (place.parents ++ [.ofElement merged place.path]) place.path going all).map
    fun passed => ?_
  have survives := survives_of_forall₂ passed
  rw [Node.pending, Element.pending_eq]
  refine ⟨fun uri member doomed => ?_, survives.plays⟩
  rw [Element.opens_eq] at member
  rcases List.mem_append.mp member with ancestor | own
  · exact False.elim (spared uri ancestor doomed)
  · refine survives.stay uri ?_ doomed
    rw [children, Node.opensOf_append]
    exact List.mem_append_right _ own

private theorem inheritance_visits (fresh : resolver.Fresh session others) {levels : Nat}
    (ih : ∀ parents path {nodes now}, resolver.Going session others now →
      (∀ node ∈ nodes, resolver.Plays session others node.opens) →
        (walkNodes (inheritance resolver) levels parents path now nodes).Ends
          (resolver.Going session others)
          (List.Forall₂ (fun node part : Node =>
            resolver.Survives session others node.opens part.pending) nodes)) :
    Visits (inheritance resolver) (walkNodes (inheritance resolver) levels)
      (resolver.Going session others) (fun node => resolver.Plays session others node.opens)
      fun node part => resolver.Survives session others node.opens part.pending := by
  intro now node going plays place
  cases node with
  | content c =>
    refine ⟨going, fun uri member => ?_, fun uri member => ?_⟩
    · simp [Node.opens] at member
    · have nothing : (Node.content c).pending = [] := by rw [Node.pending]
      exact absurd member (nothing ▸ List.not_mem_nil)
  | reference r =>
    have same : (Node.reference r).opens = (Node.reference r).pending := by
      rw [Node.opens, Node.pending]
    exact ⟨going, fun uri member _ => same ▸ member, same ▸ plays⟩
  | element e =>
    rw [Node.opens] at plays
    have ancestors : resolver.Plays session others e.ancestor?.toList := by
      rw [Element.opens_eq] at plays
      exact fun uri member => plays uri (List.mem_append_left _ member)
    obtain ⟨goesOn, meets⟩ := fresh.inherit_judged ancestors going
    cases found : (resolver.inherit e).run.alone now with
    | mk outcome later =>
      rw [found] at goesOn meets
      cases outcome with
      | ok merged =>
        have visit : (inheritance resolver).offer place now (.element e) =
            ⟨.element merged, later, .ok .keep⟩ := by
          simp [offer, inheritance, found, Visited.keep]
        obtain ⟨spared, inherited, children, also⟩ := meets
        rw [visit]
        exact below_ends ih place goesOn plays spared children also
      | error error =>
        have visit : (inheritance resolver).offer place now (.element e) = ⟨.element e, later,
            .error ((Diagnostic.ofReference error).placedAt e.position)⟩ := by
          simp [offer, inheritance, found]
        let failed : Visited Node Action := ⟨.element e, later,
          .error ((Diagnostic.ofReference error).placedAt e.position)⟩
        rw [visit]
        cases path : error.isPathDependent with
        | true =>
          have ends := (Diagnostic.ofReference_endsChain path).placedAt e.position
          obtain ⟨stop, decided, fatal⟩ := decide_of_endsChain failed rfl ends e.position
          rw [Node.position, decided]
          exact ⟨goesOn, stop, rfl, fatal⟩
        | false =>
          have mild : ((Diagnostic.ofReference error).placedAt e.position).severity ≠ .fatal := by
            rw [Diagnostic.severity_placedAt]
            exact Diagnostic.ofReference_not_fatal path
          obtain ⟨context, decided, like⟩ :=
            decide_of_not_fatal failed rfl (fresh.loose_of_going goesOn) mild e.position
          rw [Node.position, decided]
          exact below_ends ih place (goesOn.record like) plays (meets path)
            (List.nil_append _).symm fun uri member => by simp [Node.opensOf] at member

/-- The pass over inheritance ends at a doomed ancestor, or leaves what is doomed to the next
pass. -/
theorem inheritance_ends (fresh : resolver.Fresh session others) {d : Document}
    (going : resolver.Going session others now)
    (plays : resolver.Plays session others (Node.opensOf d.children)) (levels : Nat) :
    ((inheritance resolver).walk [] now d levels).Ends (resolver.Going session others)
      fun after : Document =>
        resolver.Survives session others (Node.opensOf d.children)
          (Node.pendingOf after.children) := by
  have all : ∀ node ∈ d.children, resolver.Plays session others node.opens :=
    fun node member uri opens => plays uri (Node.mem_opensOf.mpr ⟨node, member, opens⟩)
  exact (walkNodes_ends (fun ih => fresh.inheritance_visits ih) levels [] [] going all).map
    survives_of_forall₂

private theorem mem_fill {e : Element} {nodes : List Node}
    {results : List (Except ReferenceError Reference)} (member : .element e ∈ nodes) :
    .element e ∈ fill nodes results := by
  induction nodes generalizing results with
  | nil => cases member
  | cons node rest ih =>
    unfold fill
    split
    · rename_i r after others unresolved
      rcases List.mem_cons.mp member with same | below
      · rw [← same] at unresolved
        cases unresolved
      · exact List.mem_cons_of_mem _ (ih below)
    · rcases List.mem_cons.mp member with same | below
      · exact same ▸ List.mem_cons_self
      · exact List.mem_cons_of_mem _ (ih below)
    · rcases List.mem_cons.mp member with same | below
      · exact same ▸ List.mem_cons_self
      · exact List.mem_cons_of_mem _ (ih below)

private theorem plays_fill {nodes : List Node} {results : List (Except ReferenceError Reference)}
    (plays : ∀ node ∈ nodes, resolver.Plays session others node.pending)
    (closed : ∀ {after}, .ok after ∈ results → after.opens = []) :
    ∀ node ∈ fill nodes results, resolver.Plays session others node.pending := by
  induction nodes generalizing results with
  | nil =>
    intro node member
    cases member
  | cons first rest ih =>
    have here := plays first List.mem_cons_self
    have below {others' : List (Except ReferenceError Reference)}
        (fewer : ∀ {after}, .ok after ∈ others' → after.opens = []) :=
      ih (fun node member => plays node (List.mem_cons_of_mem _ member)) fewer
    intro node member
    unfold fill at member
    split at member
    · rename_i r after others'
      rcases List.mem_cons.mp member with rfl | later
      · intro uri pending
        rw [Node.pending, closed List.mem_cons_self] at pending
        cases pending
      · exact below (fun found => closed (List.mem_cons_of_mem _ found)) node later
    · rcases List.mem_cons.mp member with rfl | later
      · exact here
      · exact below (fun found => closed (List.mem_cons_of_mem _ found)) node later
    · rcases List.mem_cons.mp member with rfl | later
      · exact here
      · exact below closed node later

private theorem spared_of_failures {references : List Reference}
    {results : List (Except ReferenceError Reference)}
    (judged : List.Forall₂ (resolver.Judged session) references results)
    (mild : ∀ failure ∈ failures references results, failure.severity ≠ .fatal) :
    ∀ r ∈ references, ¬ resolver.Doomed session r.uri := by
  induction judged with
  | nil => simp
  | @cons r result rest others here _ ih =>
    intro other member doomed
    rcases List.mem_cons.mp member with rfl | below
    · obtain ⟨error, rfl, path⟩ := here.1 doomed
      refine mild ((Diagnostic.ofReference error).placedAt other.position) (by simp [failures]) ?_
      rw [Diagnostic.severity_placedAt]
      exact (Diagnostic.ofReference_endsChain path).1
    · refine ih (fun failure found => mild failure ?_) other below doomed
      cases result with
      | ok after => simpa [failures] using found
      | error error =>
        have later : failure ∈ failures rest others := found
        simpa [failures] using Or.inr later

private theorem closed_of_judged {references : List Reference}
    {results : List (Except ReferenceError Reference)}
    (judged : List.Forall₂ (resolver.Judged session) references results) {after : Reference}
    (found : .ok after ∈ results) : after.opens = [] := by
  induction judged with
  | nil => cases found
  | cons here _ ih =>
    rcases List.mem_cons.mp found with same | below
    · exact here.2 same.symm
    · exact ih below

private theorem endsChain_of_failures {references : List Reference}
    {results : List (Except ReferenceError Reference)} {failure : Diagnostic}
    (member : failure ∈ failures references results) (fatal : failure.severity = .fatal) :
    failure.EndsChain := by
  obtain ⟨⟨r, result⟩, _, found⟩ := List.mem_filterMap.mp member
  cases result with
  | ok after => cases found
  | error error =>
    cases found
    refine Diagnostic.EndsChain.placedAt ?_ r.position
    rw [Diagnostic.severity_placedAt] at fatal
    cases path : error.isPathDependent with
    | true => exact Diagnostic.ofReference_endsChain path
    | false => exact False.elim (Diagnostic.ofReference_not_fatal path fatal)

private theorem resolveChildren_judged (fresh : resolver.Fresh session others) {siblings : Siblings}
    (orders : resolver.Orders siblings) {nodes : List Node}
    (plays : ∀ node ∈ nodes, resolver.Plays session others node.pending)
    (going : resolver.Going session others now) :
    resolver.Going session others (resolveChildren siblings now nodes).session ∧
      (∀ node ∈ (resolveChildren siblings now nodes).part,
        resolver.Plays session others node.pending) ∧
      (∀ {e}, .element e ∈ nodes → .element e ∈ (resolveChildren siblings now nodes).part) ∧
      match (resolveChildren siblings now nodes).outcome with
      | .error failure => failure.EndsChain
      | .ok () => ∀ {r}, .reference r ∈ nodes → resolver.Spared session r.opens := by
  have unresolved : ∀ r ∈ nodes.filterMap unresolved?,
      r.isResolved = false ∧ resolver.InPlay session others r.uri := by
    intro r member
    obtain ⟨node, inside, found⟩ := List.mem_filterMap.mp member
    obtain ⟨rfl, unresolved⟩ := of_unresolved? found
    refine ⟨unresolved, plays _ inside r.uri ?_⟩
    simp [Node.pending, Reference.opens, unresolved]
  obtain ⟨judged, goesOn⟩ := fresh.siblings_judged orders unresolved going
  obtain ⟨like, mild, stops⟩ := Context.reportAll_loose (fresh.loose_of_going goesOn)
    (failures (nodes.filterMap unresolved?) (siblings (nodes.filterMap unresolved?) now).1)
  refine ⟨goesOn.record like, plays_fill plays fun found => ?_, mem_fill, ?_⟩
  · exact closed_of_judged judged found
  · simp only [resolveChildren]
    generalize Context.reportAll _ _ = report at like mild stops
    obtain ⟨context, stop⟩ := report
    cases stop with
    | none =>
      intro r member uri opens
      have spared := spared_of_failures judged (mild rfl)
      rw [Reference.opens] at opens
      split at opens
      · cases opens
      · rename_i unresolved
        rw [List.mem_singleton.mp opens]
        refine spared r (List.mem_filterMap.mpr ⟨.reference r, member, ?_⟩)
        simp [unresolved?, unresolved]
    | some failure =>
      obtain ⟨cause, member, fatal, severity, code⟩ := stops failure rfl
      exact ⟨severity, code ▸ (endsChain_of_failures member fatal).2⟩

private theorem forall_of_forall₂ {holds : Node → Prop} {nodes part : List Node}
    (all : List.Forall₂ (fun node _ : Node => holds node) nodes part) :
    ∀ node ∈ nodes, holds node := by
  induction all with
  | nil => simp
  | cons here _ ih => simpa [here] using ih

private theorem spared_below {nodes part filled : List Node}
    (direct : ∀ {r}, .reference r ∈ nodes → resolver.Spared session r.opens)
    (kept : ∀ {e}, .element e ∈ nodes → .element e ∈ filled)
    (all : List.Forall₂ (fun node _ : Node => ∀ {e}, node = .element e →
      resolver.Spared session e.pending) filled part) :
    resolver.Spared session (Node.pendingOf nodes) := by
  intro uri member
  obtain ⟨node, inside, pending⟩ := Node.mem_pendingOf.mp member
  cases node with
  | content c => simp [Node.pending] at pending
  | reference r => exact direct inside uri (by simpa [Node.pending] using pending)
  | element e =>
    exact forall_of_forall₂ all _ (kept inside) rfl uri (by simpa [Node.pending] using pending)

private theorem references_visits (fresh : resolver.Fresh session others) {siblings : Siblings}
    (orders : resolver.Orders siblings) {levels : Nat}
    (ih : ∀ parents path {nodes now}, resolver.Going session others now →
      (∀ node ∈ nodes, resolver.Plays session others node.pending) →
        (walkNodes (referencesBy siblings) levels parents path now nodes).Ends
          (resolver.Going session others)
          (List.Forall₂ (fun node _ : Node => ∀ {e}, node = .element e →
            resolver.Spared session e.pending) nodes)) :
    Visits (referencesBy siblings) (walkNodes (referencesBy siblings) levels)
      (resolver.Going session others) (fun node => resolver.Plays session others node.pending)
      fun node _ => ∀ {e}, node = .element e → resolver.Spared session e.pending := by
  intro now node going plays place
  cases node with
  | content c => exact ⟨going, fun same => by cases same⟩
  | reference r => exact ⟨going, fun same => by cases same⟩
  | element e =>
    have own : ∀ node ∈ e.children, resolver.Plays session others node.pending := by
      intro node member uri pending
      refine plays uri ?_
      rw [Node.pending, Element.pending_eq]
      exact Node.mem_pendingOf.mpr ⟨node, member, pending⟩
    obtain ⟨goesOn, also, kept, judged⟩ := fresh.resolveChildren_judged orders own going
    have visit : (referencesBy siblings).offer place now (.element e) =
        ⟨.element { e with children := (resolveChildren siblings now e.children).part },
          (resolveChildren siblings now e.children).session,
          (resolveChildren siblings now e.children).outcome.map fun _ => .keep⟩ := rfl
    rw [visit]
    cases outcome : (resolveChildren siblings now e.children).outcome with
    | error failure =>
      rw [outcome] at judged
      let failed : Visited Node Action :=
        ⟨.element { e with children := (resolveChildren siblings now e.children).part },
          (resolveChildren siblings now e.children).session, .error failure⟩
      obtain ⟨stop, decided, fatal⟩ := decide_of_endsChain failed rfl judged e.position
      simp only [Except.map]
      rw [Node.position, decided]
      exact ⟨goesOn, stop, rfl, fatal⟩
    | ok passed =>
      rw [outcome] at judged
      refine (ih (place.parents ++
        [.ofElement { e with children := (resolveChildren siblings now e.children).part }
          place.path]) place.path goesOn also).map fun passes => ?_
      intro other same
      cases same
      rw [Element.pending_eq]
      exact spared_below judged kept passes

theorem references_ends (fresh : resolver.Fresh session others) {siblings : Siblings}
    (orders : resolver.Orders siblings) {d : Document} (going : resolver.Going session others now)
    (plays : resolver.Plays session others (Node.pendingOf d.children)) (levels : Nat) :
    ((referencesBy siblings).walk [] now d levels).Ends (resolver.Going session others)
      fun _ => resolver.Spared session (Node.pendingOf d.children) := by
  have own : ∀ node ∈ d.children, resolver.Plays session others node.pending :=
    fun node member uri pending => plays uri (Node.mem_pendingOf.mpr ⟨node, member, pending⟩)
  obtain ⟨goesOn, also, kept, judged⟩ := fresh.resolveChildren_judged orders own going
  rw [walk_referencesBy]
  cases outcome : (resolveChildren siblings now d.children).outcome with
  | error failure =>
    rw [outcome] at judged
    simp only [outcome]
    exact ⟨goesOn, (judged.placedAt d.position).located _⟩
  | ok passed =>
    rw [outcome] at judged
    simp only [outcome]
    exact (walkNodes_ends (fun ih => fresh.references_visits orders ih) levels [] [] goesOn also).map
      fun passes => spared_below judged kept passes

end Fresh
end Resolver

namespace Pipeline
variable {resolver : Resolver} {session : Session} {d : Document}

def indexed (session : Session) (d : Document) : Session :=
  session.onContext fun context => { context with ids := .ofDocument d }

private def begun (tags : TagRegistry) (session : Session) (d : Document) : Session :=
  indexed { session with context := (session.context.reportAll (findings tags d)).1 } d

private theorem process_of_fresh {siblings : Siblings}
    (fresh : resolver.Fresh (indexed session d) (Node.opensOf d.children)) (tags : TagRegistry)
    (levels : Nat) : (usual resolver siblings tags levels).process session d =
      pass levels [inheritance resolver, referencesBy siblings, metadata, normalization,
        attributeValidation tags] (begun tags session d) d := by
  have loose : session.context.mode = .loose := fresh.loose
  obtain ⟨_, _, stops⟩ := Context.reportAll_loose loose (findings tags d)
  have goesOn : (session.context.reportAll (findings tags d)).2 = none := by
    cases found : (session.context.reportAll (findings tags d)).2 with
    | none => rfl
    | some stop =>
      obtain ⟨finding, member, fatal, _⟩ := stops stop found
      exact False.elim (findings_not_fatal tags d finding member fatal)
  simp only [process, usual, goesOn]
  rfl

private theorem going_begun (fresh : resolver.Fresh (indexed session d) (Node.opensOf d.children))
    (tags : TagRegistry) :
    resolver.Going (indexed session d) (Node.opensOf d.children) (begun tags session d) := by
  have loose : session.context.mode = .loose := fresh.loose
  obtain ⟨like, _⟩ := Context.reportAll_loose loose (findings tags d)
  have same : (indexed session d).context.Like (begun tags session d).context := by
    simp only [begun, indexed, Session.onContext, Context.Like]
    rw [like]
  exact fresh.going.record same

/-- No doomed key gets a value, and unless one of the passes that resolve has too few levels, the
processing is stopped by a fatal failure of a chain. -/
private theorem process_ends {siblings : Siblings} (orders : resolver.Orders siblings)
    (tags : TagRegistry) (fresh : resolver.Fresh (indexed session d) (Node.opensOf d.children))
    (cycle : ∃ uri ∈ Node.opensOf d.children, resolver.Doomed (indexed session d) uri) (levels : Nat) :
    let merged := (inheritance resolver).walk [] (begun tags session d) d levels
    let resolved := (referencesBy siblings).walk [] merged.session merged.part levels
    let processed := (usual resolver siblings tags levels).process session d
    (∀ {uri}, resolver.InPlay (indexed session d) (Node.opensOf d.children) uri →
      resolver.Doomed (indexed session d) uri → processed.session.shared.results.find? uri.key = none) ∧
    (merged.halt ≠ some .tooDeep → resolved.halt ≠ some .tooDeep →
      ∃ stop, processed.halt = some (.stopped stop) ∧ stop.EndsChain) := by
  intro merged resolved processed
  have plays : resolver.Plays (indexed session d) (Node.opensOf d.children)
      (Node.opensOf d.children) := fun uri member => ⟨uri, member, .refl⟩
  have inheriting := fresh.inheritance_ends (going_begun fresh tags) plays levels
  have same : processed = _ := process_of_fresh fresh tags levels
  rw [pass] at same
  cases ended : merged.halt with
  | some halt =>
    simp only [merged] at ended
    simp only [ended] at same
    rw [same]
    refine ⟨fresh.stored inheriting.1, fun deep _ => ?_⟩
    obtain ⟨stop, rfl, fatal⟩ := inheriting.stopped ended (by simpa using deep)
    exact ⟨stop, rfl, fatal⟩
  | none =>
    obtain ⟨goesOn, survives⟩ := inheriting.of_none ended
    have resolving := fresh.references_ends orders goesOn survives.plays levels
    simp only [merged] at ended
    simp only [ended] at same
    rw [pass] at same
    cases stopped : resolved.halt with
    | some halt =>
      simp only [resolved, merged] at stopped
      simp only [stopped] at same
      rw [same]
      refine ⟨fresh.stored resolving.1, fun _ deep => ?_⟩
      obtain ⟨stop, rfl, fatal⟩ := resolving.stopped stopped (by simpa using deep)
      exact ⟨stop, rfl, fatal⟩
    | none =>
      obtain ⟨uri, member, doomed⟩ := cycle
      exact False.elim ((resolving.of_none stopped).2 uri (survives.stay uri member doomed) doomed)

/-- A document with a reference or an ancestor that leads to a cycle is not processed to its end, in
whatever order siblings are resolved: with enough levels, for what is inherited and for the document, the
processing is stopped by a fatal failure of a chain. No key that leads to a cycle ever gets a value. -/
theorem stops_at_cycle (tags : TagRegistry)
    (fresh : resolver.Fresh (indexed session d) (Node.opensOf d.children))
    (cycle : ∃ uri ∈ Node.opensOf d.children, resolver.Doomed (indexed session d) uri) :
    (∃ enough, ∀ levels ≥ enough, ∀ {siblings}, (resolver.nestedTo levels).Orders siblings →
      ∃ stop, ((usual (resolver.nestedTo levels) siblings tags levels).process session d).halt =
        some (.stopped stop) ∧ stop.EndsChain) ∧
    ∀ {siblings}, resolver.Orders siblings → ∀ levels {uri},
      resolver.InPlay (indexed session d) (Node.opensOf d.children) uri →
      resolver.Doomed (indexed session d) uri →
      ((usual resolver siblings tags levels).process session d).session.shared.results.find? uri.key =
        none := by
  have whole : (begun tags session d).Whole :=
    have shared : (begun tags session d).shared = {} := fresh.shared
    Session.whole_of_no_values (by rw [shared]) (by rw [shared])
  obtain ⟨bound, ⟨_, ends⟩, same⟩ :=
    (Resolver.finite_of_whole whole : resolver.Finite (begun tags session d)).inheritance [] d
  let merged := (inheritance (resolver.nestedTo bound)).walk [] (begun tags session d) d bound
  refine ⟨⟨max bound (Node.heights merged.part.children), fun levels enough {siblings} orders => ?_⟩,
    fun {_} orders levels {_} => (process_ends orders tags fresh cycle levels).1⟩
  have walked : (inheritance (resolver.nestedTo levels)).walk [] (begun tags session d) d levels =
    merged := same levels ((Nat.le_max_left _ _).trans enough)
  refine (process_ends orders tags (fresh.nestedTo levels) cycle levels).2 (walked ▸ ends) ?_
  -- The pass over references makes nothing deeper than the pass before it has left it.
  refine (referencesBy_flat siblings false).walk ?_
  rw [walked, heights_opening_referencesBy]
  exact (Nat.le_max_right _ _).trans enough

/-- Every value leads to the other one, by a reference or by an ancestor of an element in it. -/
def winding : Resolver :=
  let reference : Node := .reference { protocol := "s", path := "t" }
  let heir : Node := .element { tag := "d", attributes := [("extends", .text "s:r")] }
  { protocols := ⟨[{
      name := "s"
      handles := fun protocol => protocol == "s"
      answer := fun request => .found (
        if request.uri.path == "r" then
          .document { children := [.element { tag := "b", children := [reference] }] }
        else .element { tag := "c", children := [heir] }) }]⟩ }

/-- A reference three levels down. -/
def maze : Document :=
  let reference : Node := .reference { protocol := "s", path := "r" }
  { children := [.element { tag := "a", children := [.content { text := "text" },
      .element { tag := "b", children := [reference] }] }] }

private theorem leads_winding {first second : Uri} (known : first = ⟨"s", "r"⟩ ∨ first = ⟨"s", "t"⟩) :
    winding.Leads (indexed {} maze) first second ↔
      second = if first = ⟨"s", "r"⟩ then ⟨"s", "t"⟩ else ⟨"s", "r"⟩ := by
  have opens : (winding.found? (indexed {} maze) ⟨"s", "r"⟩).map Resolved.opens = some [⟨"s", "t"⟩] ∧
      (winding.found? (indexed {} maze) ⟨"s", "t"⟩).map Resolved.opens = some [⟨"s", "r"⟩] := by
    decide +kernel
  rcases known with rfl | rfl
  · obtain ⟨value, found, opens⟩ := Option.map_eq_some_iff.mp opens.1
    simp [Resolver.Leads, found, opens]
  · obtain ⟨value, found, opens⟩ := Option.map_eq_some_iff.mp opens.2
    simp [Resolver.Leads, found, opens]

theorem stops_at_maze :
    (∃ enough, ∀ levels ≥ enough, ∀ concurrent,
      let resolver := winding.nestedTo levels
      ∃ stop, ((usual resolver (siblings resolver concurrent) {} levels).process {} maze).halt =
        some (.stopped stop) ∧ stop.EndsChain) ∧
    ((usual winding (siblings winding true) {}).process {} maze).aborted?.map (·.code) =
      some .circularReference := by
  have opens : Node.opensOf maze.children = [⟨"s", "r"⟩] := by decide +kernel
  have known {uri : Uri} (played : winding.InPlay (indexed {} maze) (Node.opensOf maze.children) uri) :
      uri = ⟨"s", "r"⟩ ∨ uri = ⟨"s", "t"⟩ := by
    obtain ⟨first, member, path⟩ := played
    rw [opens, List.mem_singleton] at member
    induction path with
    | refl => exact .inl member
    | tail _ leads ih =>
      rw [leads_winding ih] at leads
      split at leads <;> simp [leads]
  have fresh : winding.Fresh (indexed {} maze) (Node.opensOf maze.children) := by
    refine ⟨rfl, rfl, rfl, ⟨fun answers => ?_, fun answers _ => ?_⟩, fun first second same => ?_⟩
    · obtain ⟨handler, found, rfl⟩ := Option.map_eq_some_iff.mp answers
      cases List.mem_singleton.mp (Protocols.mem_of_find? found)
      simp [Answer.found]
    · obtain ⟨handler, found, rfl⟩ := Option.map_eq_some_iff.mp answers
      cases List.mem_singleton.mp (Protocols.mem_of_find? found)
      rfl
    · rcases known first with rfl | rfl <;> rcases known second with rfl | rfl
      all_goals first | rfl | exact absurd same (by decide +kernel)
  have there := (leads_winding (.inl rfl)).mpr rfl
  have back : winding.Leads (indexed {} maze) ⟨"s", "t"⟩ ⟨"s", "r"⟩ :=
    (leads_winding (.inr rfl)).mpr (by decide +kernel)
  obtain ⟨⟨enough, stops⟩, _⟩ := stops_at_cycle {} fresh
    ⟨_, opens ▸ List.mem_singleton_self _, _, .refl, .tail (.single there) back⟩
  exact ⟨⟨enough, fun levels more concurrent => stops levels more (Resolver.orders_siblings _ _)⟩,
    by decide +kernel⟩

/-- Two handlers of which one answers for a protocol that contains a colon. -/
def colliding : Resolver :=
  { protocols := ⟨[
      { name := "long", handles := fun protocol => protocol == "a:b", answer := fun _ =>
          .found (.document { children := [.reference { protocol := "a:b", path := "c" }] }) },
      { name := "short", handles := fun protocol => protocol == "a", answer := fun _ =>
          .found (.text "short") }]⟩ }

/-- Two references that share a key. Only the second one leads to a cycle. -/
def collision : Document :=
  { children := [.reference { protocol := "a", path := "b:c" },
      .reference { protocol := "a:b", path := "c" }] }

/-- A cycle is missed when its key has got the value of another reference with the same key. -/
theorem cycle_missed_at_collision :
    (indexed {} collision).context.mode = .loose ∧ colliding.Prompt (indexed {} collision).context ∧
      (∃ uri ∈ Node.opensOf collision.children,
        Relation.TransGen (colliding.Leads (indexed {} collision)) uri uri) ∧
      ((usual colliding (siblings colliding false) {}).process {} collision).isComplete ∧
      ((usual colliding (siblings colliding false) {}).process {}
        collision).session.shared.results.keys = ["a:b:c"] := by
  have found : (colliding.found? (indexed {} collision) ⟨"a:b", "c"⟩).map Resolved.opens =
      some [⟨"a:b", "c"⟩] := by decide +kernel
  obtain ⟨value, same, opens⟩ := Option.map_eq_some_iff.mp found
  have leads : colliding.Leads (indexed {} collision) ⟨"a:b", "c"⟩ ⟨"a:b", "c"⟩ :=
    ⟨value, same, opens ▸ List.mem_singleton_self _⟩
  have prompt : colliding.Prompt (indexed {} collision).context := by
    constructor
    all_goals
      intro uri answer answers
      obtain ⟨handler, known, rfl⟩ := Option.map_eq_some_iff.mp answers
      rcases List.mem_pair.mp (Protocols.mem_of_find? known) with rfl | rfl <;>
        simp [Answer.found]
  exact ⟨rfl, prompt, ⟨⟨"a:b", "c"⟩, by decide +kernel, .single leads⟩, by decide +kernel,
    by decide +kernel⟩

end Pipeline
end LinkedMarkup
