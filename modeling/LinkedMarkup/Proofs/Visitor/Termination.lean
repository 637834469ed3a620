import LinkedMarkup.Proofs.Resolution.Restoration
import LinkedMarkup.Proofs.Visitor.Descent
/-! Resolution comes to an end. The levels to which inherited children are expanded and documents are
walked over are bounds of the programs only: from some number of levels on they make no difference,
unless values that are kept hand on ancestors in a circle. Meanwhile the keys that are being resolved
are no more than allowed, and none is resolved twice. -/
namespace LinkedMarkup
open Program Session Resolving Visitor

/-- Runs with more and more levels all come to one and the same end. -/
def Terminates {β : Type} (ends : β → Prop) (run : Nat → β) : Prop :=
  ∃ bound, ends (run bound) ∧ ∀ levels ≥ bound, run levels = run bound

/-- Nothing that values hand on leads back to their keys, and no expansion has been left out. -/
structure Session.Whole (session : Session) : Prop where
  lineal : session.shared.Lineal
  cutOff : session.shared.cutOff = false

theorem Session.whole_of_no_values {session : Session} (none : session.shared.results = [])
    (cutOff : session.shared.cutOff = false) : session.Whole := by
  refine ⟨Shared.lineal_of_level (fun _ => 0) fun {first second} step => ?_, cutOff⟩
  cases step with
  | intro kept =>
    rw [none] at kept
    cases kept

theorem Session.Proceeds.whole {before after : Session}
    (proceeds : Proceeds before.shared.level before after) (whole : before.Whole) : after.Whole :=
  ⟨(proceeds.layered (layered_of_lineal whole.lineal)).lineal, proceeds.cutOff.trans whole.cutOff⟩

theorem Terminates.of_eventually {β : Type} {ends : β → Prop} {run : Nat → β} {last : β} (bound : Nat)
    (same : ∀ levels ≥ bound, run levels = last) (holds : ends last) : Terminates ends run :=
  ⟨bound, by rwa [same bound (Nat.le_refl _)],
    fun levels enough => (same levels enough).trans (same bound (Nat.le_refl _)).symm⟩

namespace Visitor

/-- The session behind the visit of the document, when a failure has been reported. -/
theorem session_opening (visitor : Visitor) (parents : List Frame) (session : Session) (d : Document) :
    (visitor.opening parents session d).session =
        (visitor.document ⟨parents, []⟩ session d).session ∨
      ∃ failure, (visitor.opening parents session d).session =
        (settle failure (visitor.document ⟨parents, []⟩ session d).session).1 := by
  rw [opening]
  obtain ⟨part, later, outcome⟩ := visitor.document ⟨parents, []⟩ session d
  cases outcome with
  | ok => exact .inl rfl
  | error failure => exact .inr ⟨_, rfl⟩

variable {session : Session} {visitors : Nat → Visitor} {roof : Nat} {parents : List Frame}
  {d : Document}

/-- A walk terminates if its visits do, and if it is not too deep with enough levels. -/
theorem walk_terminates (whole : session.Whole) (entered : Walked Document)
    (enters : ∀ levels ≥ roof, (visitors levels).opening parents session d = entered)
    (begins : session.Proceeds session.shared.level entered.session)
    (quiet : entered.halt ≠ some .tooDeep)
    (descends : ∀ levels, (visitors levels).descends = true)
    (same : ∀ levels ≥ roof, ∀ place {later} node, session.Proceeds session.shared.level later →
      (visitors levels).offer place later node = (visitors roof).offer place later node)
    (retains : ∀ levels ≥ roof, (visitors levels).Retains (session.Proceeds session.shared.level))
    (bounded : ∃ levels, (walkNodes (visitors roof) levels parents [] entered.session
      entered.part.children).halt ≠ some .tooDeep) :
    Terminates (fun walked => walked.session.Whole ∧ walked.halt ≠ some .tooDeep)
      fun levels => (visitors levels).walk parents session d levels := by
  cases halted : entered.halt with
  | some halt =>
    refine .of_eventually roof (fun levels enough => ?_) ⟨begins.whole whole, quiet⟩
    rw [walk_eq_opening, enters levels enough]
    simp [halted]
  | none =>
    obtain ⟨depth, ends⟩ := bounded
    let walked := walkNodes (visitors roof) depth parents [] entered.session entered.part.children
    have last : session.Proceeds session.shared.level walked.session :=
      walkNodes_retains (retains roof (Nat.le_refl _)) depth begins
    let result : Walked Document :=
      ⟨{ entered.part with children := walked.part }, walked.session, walked.halt⟩
    have ended : result.session.Whole ∧ result.halt ≠ some .tooDeep := ⟨last.whole whole, ends⟩
    refine .of_eventually (max roof depth) (fun levels enough => ?_) ended
    have high : roof ≤ levels := (Nat.le_max_left _ _).trans enough
    have walks : walkNodes (visitors levels) levels parents [] entered.session entered.part.children =
        walked :=
      (walkNodes_congr (same levels high) (retains levels high) levels begins).trans
        (walkNodes_more ((Nat.le_max_right _ _).trans enough) ends)
    rw [walk_eq_opening, enters levels high]
    simp [halted, descends, walks, result]

end Visitor

/-- No key is being resolved twice, and no more of them than allowed. -/
def Context.Tidy (context : Context) (limit : Nat) : Prop :=
  context.resolving.Nodup ∧ context.resolving.length ≤ limit

/-- However the program goes, the context is tidy before and after each change that it makes, and the
same keys are being resolved at the end as at the beginning. -/
def Program.StaysTidy {α : Type} (limit : Nat) (program : Program Session α) (session : Session) : Prop :=
  Always program session fun changes _ last =>
    (∀ change ∈ changes, change.1.context.Tidy limit ∧ change.2.context.Tidy limit) ∧
      last.context.resolving = session.context.resolving

namespace Resolver
variable {resolver : Resolver} {session : Session}

private theorem beforeLast_sublist (key : String) (chain : List String) :
    (Context.beforeLast key chain).Sublist chain := by
  rw [Context.beforeLast]
  split
  · exact List.Sublist.refl _
  · rename_i last outer same
    have suffix : (last :: outer).Sublist chain.reverse := same ▸ List.dropWhile_sublist _
    simpa using ((List.sublist_cons_self last outer).trans suffix).reverse

private theorem customs_tidy (base : Context) (limit : Nat) :
    Customs base limit fun change =>
      change.1.context.Tidy limit → change.2.context.Tidy limit where
  mild like _ _ tidy := by
    rw [like]
    exact tidy
  enter outside fits tidy := by
    refine ⟨List.nodup_append.mpr ⟨tidy.1, List.nodup_singleton _, ?_⟩, ?_⟩
    · intro first before second here same
      rw [List.mem_singleton.mp here] at same
      exact outside (same ▸ before)
    · simpa [onContext, Context.enter] using Nat.succ_le_of_lt fits
  conclude {_ uri} _ _ tidy :=
    ⟨tidy.1.sublist (beforeLast_sublist uri.key _),
      (beforeLast_sublist uri.key _).length_le.trans tidy.2⟩

private theorem staysTidy {α : Type} {resolution : Resolving α}
    (tidy : session.context.Tidy resolver.maxDepth)
    (restores : ∀ {allowed : Session × Session → Prop},
      Customs session.context resolver.maxDepth allowed →
        Restores allowed session.context (fun _ => True) (fun _ => True) resolution) :
    resolution.run.StaysTidy resolver.maxDepth session := by
  have abides := restores (customs_tidy session.context resolver.maxDepth) session rfl
  refine (Abides.invariant (·.Tidy resolver.maxDepth) abides tidy).always.mono
    fun ⟨changes, like, _⟩ => ⟨changes, ?_⟩
  rw [like]

theorem resolve_tidy (tidy : session.context.Tidy resolver.maxDepth) (uri : Uri) :
    (resolver.resolve uri).run.StaysTidy resolver.maxDepth session :=
  staysTidy tidy fun customs =>
    customs.resolve_restores (Nat.le_refl _) (List.Subset.refl _) tidy.2 uri

theorem resolution_tidy (tidy : session.context.Tidy resolver.maxDepth) (r : Reference) :
    (resolver.resolution r).StaysTidy resolver.maxDepth session :=
  staysTidy tidy fun customs =>
    customs.resolution_restores (Nat.le_refl _) (List.Subset.refl _) tidy.2 r

theorem inherit_tidy (tidy : session.context.Tidy resolver.maxDepth) (e : Element) :
    (resolver.inherit e).run.StaysTidy resolver.maxDepth session :=
  staysTidy tidy fun customs =>
    customs.inherit_restores (Nat.le_refl _) (List.Subset.refl _) tidy.2 e

theorem expandNodes_tidy (tidy : session.context.Tidy resolver.maxDepth) (nodes : List Node) :
    (resolver.expandNodes nodes).run.StaysTidy resolver.maxDepth session :=
  staysTidy tidy fun customs =>
    customs.expandNodes_restores (Nat.le_refl _) (List.Subset.refl _) tidy.2 nodes

private theorem inherit_like (e : Element) (session : Session) :
    session.context.Like ((resolver.inherit e).run.alone session).2.context := by
  obtain ⟨changes, course⟩ := course_alone (resolver.inherit e).run session
  exact (resolver.inherit_reverts e session _ _ _ course).1

private theorem resolveInTurn_like (references : List Reference) (session : Session) :
    session.context.Like (resolver.resolveInTurn references session).2.context := by
  induction references generalizing session with
  | nil => exact rfl
  | cons r rest ih =>
    obtain ⟨changes, course⟩ := course_alone (resolver.resolution r) session
    have first := (resolver.resolution_reverts r session _ _ _ course).1
    exact first.trans (ih _)

private theorem resolveChildren_like (nodes : List Node) (session : Session) :
    session.context.Like
      (resolveChildren (siblings resolver false) session nodes).session.context :=
  (resolveInTurn_like (nodes.filterMap unresolved?) session).trans (Context.reportAll_adds _).1

private theorem settle_like (failure : Diagnostic) (session : Session) :
    session.context.Like (settle failure session).1.context := by
  have proceeds : Proceeds (fun _ => 0) session (settle failure session).1 := proceeds_settle failure
  exact proceeds.like

private theorem retains_like {visitor : Visitor} (visits : ∀ place (session : Session) node,
      session.context.Like (visitor.offer place session node).session.context) (base : Context) :
    visitor.Retains (base.Like ·.context) := by
  intro place session node before
  have after : Proceeds (fun _ => 0) (visitor.offer place session node).session _ :=
    proceeds_decide node.position _
  exact (before.trans (visits place session node)).trans after.like

private theorem inheritance_like (place : Place) (session : Session) (node : Node) :
    session.context.Like ((inheritance resolver).offer place session node).session.context := by
  cases node with
  | content | reference => exact rfl
  | element e =>
    have like := resolver.inherit_like e session
    rw [offer_inheritance]
    generalize (resolver.inherit e).run.alone session = ended at like
    obtain ⟨_ | _, later⟩ := ended <;> exact like

private theorem references_like (substitute : Bool) (place : Place) (session : Session) (node : Node) :
    session.context.Like
      ((references resolver false substitute).offer place session node).session.context := by
  cases node with
  | content c => exact rfl
  | element e => exact resolveChildren_like e.children session
  | reference r =>
    simp only [offer, references, referencesBy]
    split <;> exact rfl

end Resolver

namespace Visitor
variable {visitor : Visitor} {holds : Session → Prop} {session : Session}

private theorem calls_retain (retains : visitor.Retains holds) {parents : List Frame} {d : Document}
    {levels : Nat} (begins : holds session) (enters : holds (visitor.opening parents session d).session) :
    ∀ call ∈ visitor.calls parents session d levels, holds call.session := by
  rw [calls_eq_opening]
  refine List.forall_mem_cons.mpr ⟨begins, ?_⟩
  split
  · exact fun _ member => by cases member
  · exact ((chain_of_walkNodes visitor levels parents [] _ _).retains retains.reported enters).2

end Visitor

namespace Resolver

/-- Whatever resolves from a session on comes to an end, whatever number of levels it takes. -/
structure Finite (resolver : Resolver) (session : Session) : Prop where
  resolve : ∀ uri, Terminates (·.2.Whole)
    fun levels => ((resolver.nestedTo levels).resolve uri).run.alone session
  inherit : ∀ e, Terminates (·.2.Whole)
    fun levels => ((resolver.nestedTo levels).inherit e).run.alone session
  expandNodes : ∀ nodes, Terminates (·.2.Whole)
    fun levels => ((resolver.nestedTo levels).expandNodes nodes).run.alone session
  inheritance : ∀ parents d, Terminates
    (fun walked => walked.session.Whole ∧ walked.halt ≠ some .tooDeep)
    fun levels => (Visitor.inheritance (resolver.nestedTo levels)).walk parents session d levels
  references : ∀ substitute parents d, Terminates
    (fun walked => walked.session.Whole ∧ walked.halt ≠ some .tooDeep)
    fun levels => (Visitor.references (resolver.nestedTo levels) false substitute).walk parents
      session d levels

/-- Whatever resolves from a session on, or from the sessions in which the passes call for a
resolution, stays tidy. -/
structure WithinDepth (resolver : Resolver) (session : Session) : Prop where
  resolve : ∀ uri, (resolver.resolve uri).run.StaysTidy resolver.maxDepth session
  inherit : ∀ e, (resolver.inherit e).run.StaysTidy resolver.maxDepth session
  expandNodes : ∀ nodes, (resolver.expandNodes nodes).run.StaysTidy resolver.maxDepth session
  inheritance : ∀ parents d levels,
    ∀ call ∈ (Visitor.inheritance resolver).calls parents session d levels, ∀ e,
      (resolver.inherit e).run.StaysTidy resolver.maxDepth call.session
  references : ∀ substitute parents d levels,
    ∀ call ∈ (Visitor.references resolver false substitute).calls parents session d levels,
      ∀ before r, (resolver.resolution r).StaysTidy resolver.maxDepth
        (resolver.resolveInTurn before call.session).2

variable {resolver : Resolver} {session : Session}

private theorem level_lt_roof (whole : session.Whole) (key : String) :
    session.shared.level key < session.shared.results.length + 1 :=
  Nat.lt_succ_of_le (Shared.level_le whole.lineal key)

private theorem terminates_of_tally {α : Type} (whole : session.Whole) {run : Nat → Resolving α}
    {ok : Session → α → Prop} {error : Session → ReferenceError → Prop}
    (tallies : ∀ levels ≥ session.shared.results.length + 1,
      ∀ more ≥ session.shared.results.length + 1,
        Tally session.shared.level session ok error (run levels) (run more)) :
    Terminates (·.2.Whole) fun levels => (run levels).run.alone session := by
  have roof := Nat.le_refl (session.shared.results.length + 1)
  refine .of_eventually (session.shared.results.length + 1) (fun levels enough => ?_)
    ((tallies _ roof _ roof).2.1.whole whole)
  exact (tallies levels enough _ roof).1

theorem finite_of_whole (whole : session.Whole) : resolver.Finite session where
  resolve uri := terminates_of_tally whole fun levels enough more also =>
    resolve_tally (level_lt_roof whole) enough also (layered_of_lineal whole.lineal)
  inherit e := terminates_of_tally whole fun levels enough more also =>
    inherit_tally (level_lt_roof whole) enough also (layered_of_lineal whole.lineal) e
  expandNodes nodes := terminates_of_tally whole fun levels enough more also =>
    expandNodes_tally (resolve_tally (level_lt_roof whole) enough also) (level_lt_roof whole) enough
      also (layered_of_lineal whole.lineal) nodes
  inheritance parents d := by
    have high := level_lt_roof whole
    have layered := layered_of_lineal whole.lineal
    have roof := Nat.le_refl (session.shared.results.length + 1)
    exact walk_terminates whole ⟨d, session, none⟩ (fun _ _ => rfl) (.refl _ session) (by simp)
      (fun _ => rfl)
      (fun levels enough place later node proceeds =>
        offer_inheritance_more high enough roof (proceeds.layered layered) place node)
      (fun levels enough => inheritance_retains high enough layered)
      ((inheritance_bounded high roof layered d.children).levels parents [])
  references substitute parents d := by
    have high := level_lt_roof whole
    have layered := layered_of_lineal whole.lineal
    have roof := Nat.le_refl (session.shared.results.length + 1)
    let visitor := Visitor.references (resolver.nestedTo (session.shared.results.length + 1)) false
      substitute
    have flat := referencesBy_flat
      (siblings (resolver.nestedTo (session.shared.results.length + 1)) false) substitute
    have children (levels : Nat) (enough : session.shared.results.length + 1 ≤ levels) :
        resolveChildren (siblings (resolver.nestedTo levels) false) session d.children = _ ∧
          session.Proceeds session.shared.level _ :=
      resolveChildren_more high enough roof layered d.children
    refine walk_terminates whole (visitor.opening parents session d) (fun levels enough => ?_)
      ?_ ?_ (fun _ => rfl)
      (fun levels enough place later node proceeds =>
        offer_references_more high enough roof (proceeds.layered layered) substitute place node)
      (fun levels enough => references_retains high enough layered substitute)
      ⟨_, flat.walkNodes (Nat.le_refl _)⟩
    · simp only [visitor, opening, references, referencesBy, (children levels enough).1]
    · have proceeds := (children _ roof).2
      rcases session_opening visitor parents session d with same | ⟨failure, same⟩
      · rw [same]
        exact proceeds
      · rw [same]
        exact proceeds.trans (proceeds_settle failure)
    · exact opening_not_tooDeep visitor parents session d

theorem withinDepth_of_tidy (tidy : session.context.Tidy resolver.maxDepth) :
    resolver.WithinDepth session where
  resolve := resolve_tidy tidy
  inherit := inherit_tidy tidy
  expandNodes := expandNodes_tidy tidy
  inheritance parents d levels call member e := by
    have like := calls_retain (retains_like inheritance_like session.context) rfl rfl call member
    refine inherit_tidy ?_ e
    rw [like]
    exact tidy
  references substitute parents d levels call member before r := by
    let visitor := Visitor.references resolver false substitute
    have entered : session.context.Like (visitor.opening parents session d).session.context := by
      have like := resolver.resolveChildren_like d.children session
      rcases session_opening visitor parents session d with same | ⟨failure, same⟩
      · rw [same]
        exact like
      · rw [same]
        exact like.trans (settle_like failure _)
    have like := (calls_retain (retains_like (references_like substitute) session.context) rfl
      entered call member).trans (resolver.resolveInTurn_like before call.session)
    refine resolution_tidy ?_ r
    rw [like]
    exact tidy

/-- Whatever resolves comes to an end, for any handlers and any depth, as long as no value leads back to
its own key by the ancestors that its children name; and the session is left such that this holds
again. Meanwhile no key is being resolved twice, and no more keys are than allowed. -/
theorem terminates {resolver : Resolver} {session : Session} (whole : session.Whole)
    (tidy : session.context.Tidy resolver.maxDepth) :
    resolver.Finite session ∧ resolver.WithinDepth session :=
  ⟨finite_of_whole whole, withinDepth_of_tidy tidy⟩

def heir (target : String) : Element := { tag := "x", attributes := [("extends", .text target)] }

def forebear (target : String) : Element := { tag := "a", children := [.element (heir target)] }

/-- A session with two values, the first of which has a child that extends the second one. -/
def descent : Session :=
  { shared := { results := [("s:j", .element (forebear "s:k")), ("s:k", .element { tag := "a" })] } }

theorem terminates_descent : Finite {} descent ∧ WithinDepth {} descent := by
  refine terminates ⟨?_, rfl⟩ ⟨List.nodup_nil, Nat.zero_le _⟩
  refine Shared.lineal_of_level (fun key => if key = "s:j" then 1 else 0) fun {first second} step => ?_
  obtain @⟨uri, next, value, a, kept, means, names, _⟩ := step
  simp only [descent, Table.find?] at kept
  split at kept
  · rename_i here
    cases kept
    cases means
    have only : Node.ancestorsOf (forebear "s:k").children = [⟨"s", "k"⟩] := by decide +kernel
    rw [only, List.mem_singleton] at names
    rw [names, here]
    decide
  · split at kept
    · cases kept
      cases means
      cases names
    · cases kept

/-- A session with two values, each with a child that extends the other one. -/
def circle : Session :=
  { shared := { results := [("s:j", .element (forebear "s:k")), ("s:k", .element (forebear "s:j"))] } }

section
variable {resolver : Resolver} {resolve : Uri → Resolving Resolved} {session later : Session}
  {first other : String} {uri : Uri}

private def cut (session : Session) : Session :=
  session.onShared fun shared => { shared with cutOff := true }

private theorem warnDiscarded_heir (plain : resolver.tags = {}) :
    (resolver.warnDiscarded (heir first) (forebear other)).run.alone session = (.ok (), session) := by
  rw [warnDiscarded, plain]
  rfl

private theorem children_heir (plain : resolver.tags = {}) :
    Inheritance.children (resolver.tags.model (heir first).tag) (forebear other) =
      [.element (heir other)] := by
  rw [plain]
  rfl

/-- An element that inherits a child which extends another one is expanded by expanding this child. -/
private theorem element_heir (plain : resolver.tags = {}) (parsed : Uri.parse first = .ok uri)
    (finds : (resolve uri).run.alone session = (.ok (.element (forebear other)), session))
    {again : List Node → Resolving (List Node)} {inherited : List Node}
    (goesOn : (again [.element (heir other)]).run.alone session = (.ok inherited, later)) :
    ∃ live, ((⟨expandReference resolve, expandHead resolver resolve again⟩ : Expansion).element
      (heir first)).run.alone session = (.ok live, later) := by
  have names : (heir first).extends? = some first := rfl
  have found : (ancestor resolve first).run.alone session = (.ok (forebear other), session) := by
    rw [ancestor, parsed]
    dsimp only
    rw [Resolving.alone_bind, finds]
    rfl
  have heads : (expandHead resolver resolve again (heir first)).run.alone session =
      (.ok (Inheritance.head (heir first) (forebear other), inherited), later) := by
    rw [expandHead, names]
    dsimp only
    rw [Resolving.alone_bind, alone_tryCatch, alone_map, found]
    dsimp only [Except.map]
    rw [Resolving.alone_bind, warnDiscarded_heir plain]
    dsimp only
    rw [Resolving.alone_bind, children_heir plain, goesOn]
    rfl
  refine ⟨{ Inheritance.head (heir first) (forebear other) with children := inherited ++ [] }, ?_⟩
  rw [heir, Expansion.element, Resolving.alone_bind]
  dsimp only
  rw [← heir, heads]
  rfl

private theorem element_circle (plain : resolver.tags = {})
    (reads : ∀ {session : Session} {uri value}, session.shared.results.find? uri.key = some value →
      (resolve uri).run.alone session = (.ok value, session))
    (results : session.shared.results = circle.shared.results)
    (one : first = "s:j" ∨ first = "s:k") (levels : Nat) :
    ∃ live, ((resolver.expansion resolve levels).element (heir first)).run.alone session =
      (.ok live, cut session) := by
  have leads {first : String} (one : first = "s:j" ∨ first = "s:k") : ∃ uri other,
      Uri.parse first = .ok uri ∧
      (resolve uri).run.alone session = (.ok (.element (forebear other)), session) ∧
      (other = "s:j" ∨ other = "s:k") := by
    rcases one with rfl | rfl
    · exact ⟨⟨"s", "j"⟩, "s:k", by decide +kernel, reads (by rw [results]; rfl), .inr rfl⟩
    · exact ⟨⟨"s", "k"⟩, "s:j", by decide +kernel, reads (by rw [results]; rfl), .inl rfl⟩
  obtain ⟨uri, other, parsed, finds, again⟩ := leads one
  induction levels generalizing first uri other with
  | zero => exact element_heir plain parsed finds rfl
  | succ levels ih =>
    obtain ⟨uri', other', parsed', finds', again'⟩ := leads again
    obtain ⟨live, expands⟩ := ih again uri' other' parsed' finds' again'
    have goesOn : ((resolver.expansion resolve levels).nodes [.element (heir other)]).run.alone session =
        (.ok [.element live], cut session) := by
      rw [Expansion.nodes, Resolving.alone_bind, Expansion.node, alone_map, expands]
      rfl
    exact element_heir plain parsed finds goesOn

private theorem alone_resolve_of_known {value : Resolved}
    (known : session.shared.results.find? uri.key = some value) :
    (resolver.resolve uri).run.alone session = (.ok value, session) := by
  have reads (fetch? : Option (Resolving Resolved)) :
      (resolver.resolveBy uri fetch?).run.alone session = (.ok value, session) := by
    simp only [resolveBy, ExceptT.run, ExceptT.mk, alone, known]
  show ((resolver.resolveWithin (resolver.maxDepth - session.context.resolving.length) uri).run).alone
    session = _
  cases resolver.maxDepth - session.context.resolving.length with
  | zero => exact reads none
  | succ room => exact reads _

end

/-- Where two values have children that extend the other one, no number of levels is enough to expand an
element that extends one of them. -/
theorem endless_at_circle (levels : Nat) :
    ((nestedTo {} levels).expandNodes [.element (heir "s:j")]).run.alone circle
      |>.2.shared.cutOff = true := by
  let resolver : Resolver := nestedTo {} levels
  obtain ⟨live, expands⟩ : ∃ live, ((resolver.expansion resolver.resolve levels).element
      (heir "s:j")).run.alone circle = (.ok live, cut circle) :=
    element_circle rfl alone_resolve_of_known rfl (.inl rfl) levels
  have nodes : (resolver.expandNodes [.element (heir "s:j")]).run.alone circle =
      (.ok [.element live], cut circle) := by
    rw [expandNodes, Expansion.nodes, Resolving.alone_bind, Expansion.node, alone_map]
    have same : resolver.nesting = levels := rfl
    rw [same, expands]
    rfl
  rw [nodes]
  rfl

end Resolver
end LinkedMarkup
