import LinkedMarkup.Proofs.Resolution.Settled
import LinkedMarkup.Proofs.Visitor.Cycles
import LinkedMarkup.Proofs.Visitor.Passes

namespace LinkedMarkup

def Diagnostic.TellsOfReference (diagnostic : Diagnostic) : Prop :=
  ∃ error, diagnostic.cause = some (.reference error)

/-- Values are settled. In loose mode all is lost once a failure has been recorded. -/
def Care.settling : Care where
  known _ := True
  good _ outcome := ∀ value, outcome = .ok value → value.Settled
  settled _ := False
  lost session := session.context.mode = .loose ∧
    ∃ diagnostic ∈ session.context.diagnostics, diagnostic.TellsOfReference
  expires := True

namespace Care.settling
variable {resolver : Resolver} {context : Context}

theorem lasting : Care.settling.Lasting := fun adds ⟨loose, diagnostic, recorded, tells⟩ =>
  ⟨adds.mode.trans loose, diagnostic, adds.diagnostics recorded, tells⟩

theorem not_passes {mode : Mode} {error : ReferenceError} : ¬ Care.settling.Passes mode error := by
  rintro ⟨⟨_, loose⟩, session, position, rfl, kept⟩
  refine kept ⟨loose, session.context.passedOver error position, ?_, error, ?_⟩
  · exact List.mem_append_right _ (List.mem_singleton_self _)
  · simp only [Context.passedOver, Context.located, Diagnostic.placedAt, Diagnostic.ofReference]
    split <;> split <;> rfl

theorem settles (resolver : Resolver) (mode : Mode) :
    (Care.settling.outlook resolver mode).Settles :=
  ⟨fun means => means _ rfl, not_passes⟩

theorem serves (whole : ∀ {uri answer value}, resolver.answer? context uri = some answer →
    answer.outcome? = some (.ok value) → value.Whole) : Care.settling.Serves resolver context :=
  Care.serves_of_values fun answers found expands =>
    expands.settled (settles resolver context.mode) (whole answers found)

end Care.settling

namespace Visitor
variable {outlook : Outlook} {nodes after : List Node}

/-- When no failure is passed over, no element names an ancestor after inheritance. -/
theorem free_of_inheriting (passes : (inheriting outlook).Passes nodes after)
    (settles : outlook.Settles) (whole : Node.AllWhole nodes) : Node.AllFree after := by
  induction passes with
  | nil => rw [Node.AllFree, Node.EveryOf]; trivial
  | @element e visited own _ _ here _ _ below others =>
    have free : visited.extends? = none ∧ Node.AllWhole visited.children := by
      rcases here with ⟨alone, rfl⟩ | ⟨_, _, ⟨_, _, passes, _⟩ | ⟨a, finds, rfl⟩⟩
      · exact ⟨alone, whole.element.2⟩
      · exact absurd passes settles.failure
      · refine ⟨Inheritance.extends?_head _ _, ?_⟩
        have legacy : Node.AllSettled (outlook.legacy e a) :=
          Inheritance.settled_children (settles.ancestor finds)
        exact legacy.free.whole.append whole.element.2
    rw [Node.AllFree, Node.EveryOf, Node.Every, Element.every_iff]
    exact ⟨⟨free.1, below free.2⟩, others whole.tail⟩
  | @leaf node _ _ _ here _ others =>
    obtain ⟨bare, rfl⟩ := here
    cases node with
    | element e => cases bare
    | content c =>
      rw [List.singleton_append, Node.AllFree, Node.EveryOf, Node.Every]
      exact ⟨trivial, others whole.tail⟩
    | reference r =>
      rw [List.singleton_append, Node.AllFree, Node.EveryOf, Node.Every]
      exact ⟨whole.reference, others whole.tail⟩

private def Resolved (nodes : List Node) : Prop :=
  ∀ node ∈ nodes, match node with
    | .reference r => r.Settled
    | node => node.Every (·.extends? = none) Reference.Fair

private theorem resolved_of_fills (fills : List.Forall₂ (Fills outlook) nodes after)
    (settles : outlook.Settles) (free : Node.AllFree nodes) : Resolved after := by
  induction fills with
  | nil => exact fun _ member => by cases member
  | @cons node part _ _ here _ ih =>
    intro other member
    rcases List.mem_cons.mp member with rfl | there
    · cases node with
      | element | content => cases here; exact free.head
      | reference r =>
        obtain ⟨last, rfl, refers⟩ := here
        show last.Settled
        rw [Reference.settled_iff]
        rcases refers with ⟨resolved, rfl⟩ | ⟨unresolved, ⟨value, means, rfl⟩ | ⟨_, _, passes, _⟩⟩
        · obtain ⟨value, same⟩ := Option.isSome_iff_exists.mp resolved
          exact ⟨value, same, free.reference value same⟩
        · exact ⟨value, by simp [Reference.resolveTo, unresolved], settles.value means⟩
        · exact absurd passes settles.failure
    · exact ih free.tail other there

/-- When no failure is passed over, all is settled after the pass over references. -/
theorem settled_of_referring {filled : List Node}
    (fills : List.Forall₂ (Fills outlook) nodes filled)
    (passes : (referring outlook).Passes filled after) (settles : outlook.Settles)
    (free : Node.AllFree nodes) : Node.AllSettled after := by
  have resolved := resolved_of_fills fills settles free
  clear fills free
  induction passes with
  | nil => rw [Node.AllSettled]; trivial
  | @element e visited own _ _ here _ _ below others =>
    obtain ⟨children, fills, rfl⟩ := here
    have free : e.Every (·.extends? = none) Reference.Fair := by
      have here := resolved (.element e) (by simp)
      simpa only [Node.Every] using here
    rw [Element.every_iff] at free
    rw [Node.AllSettled, Node.Settled, Element.settled_iff]
    exact ⟨⟨free.1, below (resolved_of_fills fills settles free.2)⟩,
      others fun node member => resolved node (List.mem_cons_of_mem _ member)⟩
  | @leaf node _ _ _ here _ others =>
    obtain ⟨bare, rfl⟩ := here
    have rest := others fun node member => resolved node (List.mem_cons_of_mem _ member)
    rw [List.singleton_append, Node.AllSettled]
    refine ⟨?_, rest⟩
    cases node with
    | element e => cases bare
    | content c => rw [Node.Settled]; trivial
    | reference r =>
      rw [Node.Settled]
      exact resolved (.reference r) (by simp)

/-- A pass that changes no more of elements than their metadata, and of other nodes their text. -/
def touching : Manner where
  element e visited := visited.children = e.children ∧ visited.extends? = e.extends?
  leaf node parts := (∃ c, node = .content c ∧ ∀ part ∈ parts, ∃ c, part = .content c) ∨
    ∃ r, node = .reference r ∧ parts = [node]

theorem settled_of_touching (passes : touching.Passes nodes after) (settled : Node.AllSettled nodes) :
    Node.AllSettled after := by
  induction passes with
  | nil => exact settled
  | @element e visited own _ _ here _ _ below others =>
    rw [Node.AllSettled, Node.Settled, Element.settled_iff] at settled ⊢
    rw [here.1] at below
    exact ⟨⟨here.2.trans settled.1.1, below settled.1.2⟩, others settled.2⟩
  | @leaf node parts _ _ here _ others =>
    rw [Node.AllSettled] at settled
    refine Node.allSettled_append.mpr ⟨?_, others settled.2⟩
    rcases here with ⟨c, _, contents⟩ | ⟨r, rfl, rfl⟩
    · refine Node.allSettled_iff.mpr fun part member => ?_
      obtain ⟨c, rfl⟩ := contents part member
      rw [Node.Settled]
      trivial
    · rw [Node.AllSettled, Node.AllSettled]
      exact ⟨settled.1, trivial⟩

/-- The pass leaves what is settled settled, and only adds to sessions. -/
structure Tidies (visitor : Visitor) : Prop where
  adds : ∀ (session : Session) d levels, session.Adds (visitor.walk [] session d levels).session
  settled : ∀ {session d levels}, d.Settled → (visitor.walk [] session d levels).halt = none →
    (visitor.walk [] session d levels).part.Settled

/-- A visitor that only touches nodes leaves what is settled settled. -/
theorem tidies_of_touching {visitor : Visitor} (adds : visitor.Adding)
    (whole : visitor.document = fun _ session d => ⟨d, session, .ok ()⟩)
    (descends : visitor.descends = true)
    (touches : ∀ {place session later node action}, visitor.visit place session node = (later, .ok action) →
      touching.Makes (fun _ => True) node (visitor.offer place session node).part action) :
    visitor.Tidies := by
  have minds : visitor.Minds (fun _ => True) (fun _ => True) (fun _ => False) touching :=
    ⟨adds, fun _ => id, fun _ _ _ _ _ _ _ decided _ => ⟨trivial, touches decided⟩⟩
  refine ⟨fun session d levels => ?_, fun {session d levels} settled ended => ?_⟩
  · rw [walk_nodes whole descends]
    exact walkNodes_adds adds _
  · rw [walk_nodes whole descends] at ended ⊢
    have passes := ((minds.walkNodes_passed levels trivial fun _ _ => trivial).passed ended id).2
    rw [Document.settled_iff] at settled ⊢
    exact settled_of_touching passes settled

theorem metadata_tidies : metadata.Tidies := by
  refine tidies_of_touching (fun place session node => ?_) rfl rfl
    fun {place session later node action} decided => ?_
  · cases node <;> exact .refl _
  · cases node with
    | element e => cases decided; exact .element ⟨rfl, rfl⟩ fun _ _ => trivial
    | content c => cases decided; exact .leaf (.inl ⟨c, rfl, by simp [offer, metadata]⟩) rfl
    | reference r => cases decided; exact .leaf (.inr ⟨r, rfl, rfl⟩) rfl

theorem normalization_adding : normalization.Adding := by
  intro place session node
  refine .trans ?_ (decide_adds _ _)
  cases node with
  | element | reference => exact .refl _
  | content c =>
    simp only [offer, normalization]
    split <;> exact .refl _

theorem normalization_tidies : normalization.Tidies := by
  refine tidies_of_touching normalization_adding rfl rfl
    fun {place session later node action} decided => ?_
  cases node with
  | element e => cases decided; exact .element ⟨rfl, rfl⟩ fun _ _ => trivial
  | reference r => cases decided; exact .leaf (.inr ⟨r, rfl, rfl⟩) rfl
  | content c =>
    simp only [visit, offer, normalization] at decided ⊢
    split at decided
    · cases decided
      exact .replaced (.inl ⟨c, rfl, by simp⟩)
    · rename_i filled
      cases decided
      rw [if_neg filled]
      exact .leaf (.inl ⟨c, rfl, by simp [Visited.keep]⟩) rfl

theorem attributeValidation_tidies (tags : TagRegistry) : (attributeValidation tags).Tidies := by
  refine tidies_of_touching (fun place session node => ?_) rfl rfl
    fun {place session later node action} decided => ?_
  · refine .trans ?_ (decide_adds _ _)
    cases node with
    | content | reference => exact .refl _
    | element e =>
      simp only [offer, attributeValidation]
      split
      · exact .refl _
      · obtain ⟨like, grows, _⟩ := session.context.reportAll_adds _
        exact Session.adds_record like grows
  · cases node with
    | content c => cases decided; exact .leaf (.inl ⟨c, rfl, by simp [offer, attributeValidation, Visited.keep]⟩) rfl
    | reference r => cases decided; exact .leaf (.inr ⟨r, rfl, rfl⟩) rfl
    | element e =>
      have part : ((attributeValidation tags).offer place session (.element e)).part = .element e := by
        simp only [offer, attributeValidation]
        split <;> rfl
      have keeps : action = .keep := by
        refine keep_of_decide decided fun other outcome => ?_
        simp only [offer, attributeValidation] at outcome
        split at outcome
        · cases outcome
          rfl
        · dsimp only at outcome
          split at outcome
          · cases outcome
            rfl
          · cases outcome
      rw [part, keeps]
      exact .element ⟨rfl, rfl⟩ fun _ _ => trivial

end Visitor

namespace Pipeline

private theorem pass_tidies {visitors : List Visitor} (all : ∀ visitor ∈ visitors, visitor.Tidies)
    (session : Session) (d : Document) (levels : Nat) :
    session.Adds (pass levels visitors session d).session ∧
      (d.Settled → (pass levels visitors session d).halt = none →
        (pass levels visitors session d).document.Settled) := by
  induction visitors generalizing session d with
  | nil => exact ⟨.refl _, fun settled _ => settled⟩
  | cons visitor rest ih =>
    have first := all visitor (by simp)
    obtain ⟨adds, settles⟩ := ih (fun other member => all other (List.mem_cons_of_mem _ member))
      (visitor.walk [] session d levels).session (visitor.walk [] session d levels).part
    rw [pass]
    cases ended : (visitor.walk [] session d levels).halt with
    | some halt =>
      dsimp only
      exact ⟨first.adds session d levels, fun _ halted => by cases halted⟩
    | none =>
      dsimp only
      exact ⟨(first.adds session d levels).trans adds, fun settled => settles (first.settled settled ended)⟩

variable {resolver : Resolver} {session : Session} {d : Document}

private theorem pass_settles {siblings : Visitor.Siblings} (schedules : resolver.Schedules siblings)
    {context : Context} (serves : Care.settling.Serves resolver context) {tidying : List Visitor}
    (tidies : ∀ visitor ∈ tidying, visitor.Tidies) (whole : Node.AllWhole d.children)
    (begun : Care.settling.Quiet context (fun _ => True) session) (levels : Nat) :
    let processed := pass levels (.inheritance resolver :: .referencesBy siblings :: tidying) session d
    session.Adds processed.session ∧
      (processed.halt = none → ¬ Care.settling.lost processed.session → processed.document.Settled) := by
  have rests : Care.settling.Rests resolver siblings context fun _ => True :=
    Care.rests_of_schedules trivial schedules
  have settles := Care.settling.settles resolver context.mode
  have lasting : Care.settling.Lasting := Care.settling.lasting
  obtain ⟨inheriting, referring, resolves⟩ :=
    Care.walks_resolve serves lasting rests schedules.adds (fun _ => trivial) begun d levels
  let after := (Visitor.inheritance resolver).walk [] session d levels
  let last := (Visitor.referencesBy siblings).walk [] after.session after.part levels
  rw [pass]
  cases ended : ((Visitor.inheritance resolver).walk [] session d levels).halt with
  | some halt => exact ⟨inheriting, fun halted => by cases halted⟩
  | none =>
    dsimp only
    rw [pass]
    cases stopped : ((Visitor.referencesBy siblings).walk [] after.session after.part levels).halt with
    | some halt => exact ⟨inheriting.trans referring, fun halted => by cases halted⟩
    | none =>
      obtain ⟨adds, keeps⟩ := pass_tidies tidies last.session last.part levels
      refine ⟨(inheriting.trans referring).trans adds, fun complete found => ?_⟩
      obtain ⟨inherits, filled, fills, refers⟩ :=
        resolves ended stopped fun lost => found (lasting adds lost)
      have free := Visitor.free_of_inheriting inherits settles whole
      have settled := Visitor.settled_of_referring fills refers settles free
      exact keeps ((Document.settled_iff _).mpr settled) complete

/-- A document that has been processed to its end is settled if it is processed in strict mode, or if
no failure of a reference has been recorded. This is so for all ways to resolve siblings, for
documents and answers in which nothing is resolved beforehand but what is settled, and where what has
been resolved for other documents is settled. -/
theorem settled_of_complete (session : Session) (d : Document) (levels : Nat) {siblings : Visitor.Siblings}
    (schedules : resolver.Schedules siblings) (tags : TagRegistry) (whole : Node.AllWhole d.children)
    (answers : ∀ {uri answer value}, resolver.answer? (indexed session d).context uri = some answer →
      answer.outcome? = some (.ok value) → value.Whole)
    (before : ∀ {key value}, session.shared.results.find? key = some value → value.Settled)
    (complete : ((usual resolver siblings tags levels).process session d).isComplete = true)
    (quiet : session.context.mode = .strict ∨
      ∀ diagnostic ∈ ((usual resolver siblings tags levels).process session d).diagnostics,
        ¬ diagnostic.TellsOfReference) :
    ((usual resolver siblings tags levels).process session d).document.Settled := by
  obtain ⟨like, grows, _⟩ := session.context.reportAll_adds (findings tags d)
  let first : Session :=
    indexed { session with context := (session.context.reportAll (findings tags d)).1 } d
  let tidying : List Visitor := [.metadata, .normalization, .attributeValidation tags]
  have processed : (usual resolver siblings tags levels).process session d =
      pass levels (.inheritance resolver :: .referencesBy siblings :: tidying) first d := by
    have goesOn : (session.context.reportAll (findings tags d)).2 = none := by
      cases stopped : (session.context.reportAll (findings tags d)).2 with
      | none => rfl
      | some stop => simp [process, usual, stopped, Processed.isComplete] at complete
    simp only [process, usual, goesOn]
    rfl
  rw [processed] at complete quiet ⊢
  have fellow : (indexed session d).context.Fellow first.context := by
    simp only [first, indexed, Session.onContext]
    exact ⟨rfl, like.fellow.bindings, like.fellow.mode, like.fellow.file⟩
  have serves : Care.settling.Serves resolver (indexed session d).context :=
    Care.settling.serves answers
  have begun : Care.settling.Quiet (indexed session d).context (fun _ => True) first :=
    ⟨fellow, ⟨False.elim, fun _ found value same => by cases same; exact before found,
      fun _ _ _ _ never => by cases never⟩, trivial⟩
  have tidies : ∀ visitor ∈ tidying, visitor.Tidies := by
    simp only [tidying, List.forall_mem_cons]
    exact ⟨Visitor.metadata_tidies, Visitor.normalization_tidies,
      Visitor.attributeValidation_tidies tags, fun _ member => by cases member⟩
  obtain ⟨adds, settled⟩ := pass_settles schedules serves tidies whole begun levels
  refine settled (Option.isNone_iff_eq_none.mp complete) fun broken => ?_
  obtain ⟨loose, diagnostic, recorded, tells⟩ := broken
  rcases quiet with strict | quiet
  · have mode := adds.mode.trans fellow.mode
    cases strict.symm.trans (mode.symm.trans loose)
  · exact quiet diagnostic recorded tells

/-- A reference and an element that extends the same target. -/
def borrowing : Document :=
  { children := [.reference { protocol := "s", path := "r" },
      .element { tag := "a", attributes := [("extends", .text "s:r")] }] }

/-- A parent with a child to inherit. -/
def lender : Resolved := .element { tag := "b", children := [.element { tag := "c" }] }

def lending : Resolver := .constant (.found lender)

theorem settled_borrowing :
    ((usual lending (Visitor.siblings lending true) {}).process {} borrowing).document.Settled := by
  have whole : Node.AllWhole borrowing.children := by
    simp [Node.AllWhole, borrowing, Node.EveryOf, Node.Every, Element.every_iff, Reference.Fair]
  have lent : lender.Whole := by
    simp [lender, Resolved.Whole, Node.EveryOf, Node.Every, Element.every_iff]
  have complete : ((usual lending (Visitor.siblings lending true) {}).process {}
      borrowing).isComplete = true := by decide +kernel
  have silent : ((usual lending (Visitor.siblings lending true) {}).process {}
      borrowing).diagnostics.map (·.cause.isSome) = [false] := by decide +kernel
  refine settled_of_complete {} borrowing Visitor.defaultLevels (Resolver.schedules_siblings lending true) {} whole
    (fun answers found => by cases answers; cases found; exact lent) (fun found => by cases found)
    complete (.inr fun diagnostic recorded tells => ?_)
  obtain ⟨error, tells⟩ := tells
  have inside : diagnostic.cause.isSome ∈ [false] :=
    silent ▸ List.mem_map.mpr ⟨diagnostic, recorded, rfl⟩
  rw [tells] at inside
  cases List.mem_singleton.mp inside

end Pipeline
end LinkedMarkup
