import LinkedMarkup.Proofs.Visitor.Termination

namespace LinkedMarkup
open Session Visitor

namespace Visitor
variable {visitor : Visitor} {level : String → Nat}

theorem idIndex_flat : idIndex.Flat := fun _ _ node => by cases node <;> exact Nat.le_refl _

theorem metadata_flat : metadata.Flat := by
  intro place session node
  cases node with
  | element e =>
    show (Node.element { e with metadata := structural place e }).height ≤ (Node.element e).height
    rw [Node.height_element, Node.height_element]
  | content | reference => exact Nat.le_refl _

theorem normalization_flat : normalization.Flat := by
  intro place session node
  cases node with
  | element | reference => exact Nat.le_refl _
  | content c =>
    simp only [offer, normalization]
    split <;> exact Nat.le_refl _

theorem attributeValidation_flat (tags : TagRegistry) : (attributeValidation tags).Flat := by
  intro place session node
  cases node with
  | content | reference => exact Nat.le_refl _
  | element e =>
    simp only [offer, attributeValidation]
    split <;> exact Nat.le_refl _

/-- From layered sessions, walks come to an end with enough levels and leave a layered session. -/
structure Concludes (level : String → Nat) (visitor : Visitor) : Prop where
  enough : ∀ {session} d, session.Layered level →
    ∃ levels, (visitor.walk [] session d levels).halt ≠ some .tooDeep
  layered : ∀ {session} d levels, session.Layered level →
    (visitor.walk [] session d levels).session.Layered level

private theorem layered_walk
    (opens : ∀ {session : Session} d, session.Layered level →
      (visitor.opening [] session d).session.Layered level)
    (visits : ∀ place {session : Session} node, session.Layered level →
      session.Proceeds level (visitor.visit place session node).1)
    {session : Session} (d : Document) (levels : Nat) (layered : session.Layered level) :
    (visitor.walk [] session d levels).session.Layered level := by
  have retains : visitor.Retains (Session.Layered level) :=
    fun place _ node before => (visits place node before).layered before
  rw [walk_eq_opening]
  dsimp only
  split
  · exact opens d layered
  · exact walkNodes_retains retains levels (opens d layered)

private theorem concludes_of_flat (flat : visitor.Flat)
    (opens : ∀ {session : Session} d, session.Layered level →
      (visitor.opening [] session d).session.Layered level)
    (visits : ∀ place {session : Session} node, session.Layered level →
      session.Proceeds level (visitor.visit place session node).1) : visitor.Concludes level :=
  ⟨fun _ _ => ⟨_, flat.walk (Nat.le_refl _)⟩, fun d levels => layered_walk opens visits d levels⟩

private theorem proceeds_visit {place : Place} {session : Session} {node : Node}
    (proceeds : session.Proceeds level (visitor.offer place session node).session) :
    session.Proceeds level (visitor.visit place session node).1 :=
  proceeds.trans (Resolver.proceeds_decide _ _)

theorem idIndex_concludes : idIndex.Concludes level := by
  refine concludes_of_flat idIndex_flat (fun d layered => ?_) fun place session node _ => proceeds_visit ?_
  · exact layered
  · cases node <;> exact .refl level session

theorem metadata_concludes : metadata.Concludes level := by
  refine concludes_of_flat metadata_flat (fun d layered => layered) fun place session node _ =>
    proceeds_visit ?_
  cases node <;> exact .refl level session

theorem normalization_concludes : normalization.Concludes level := by
  refine concludes_of_flat normalization_flat (fun d layered => layered) fun place session node _ =>
    proceeds_visit ?_
  cases node with
  | element | reference => exact .refl level session
  | content c =>
    simp only [offer, normalization]
    split <;> exact .refl level session

theorem attributeValidation_concludes (tags : TagRegistry) :
    (attributeValidation tags).Concludes level := by
  refine concludes_of_flat (attributeValidation_flat tags) (fun d layered => layered)
    fun place session node _ => proceeds_visit ?_
  cases node with
  | content | reference => exact .refl level session
  | element e =>
    simp only [offer, attributeValidation]
    split
    · exact .refl level session
    · exact Resolver.proceeds_of_like (Context.reportAll_adds _).1

section
variable {resolver : Resolver} (high : ∀ key, level key < resolver.nesting)
include high

theorem inheritance_concludes : (inheritance resolver).Concludes level := by
  have enough := Nat.le_refl resolver.nesting
  refine ⟨fun {session} d layered => ?_, fun d levels => layered_walk (fun d layered => ?_)
    (fun place session node layered => ?_) d levels⟩
  · exact (Resolver.inheritance_bounded high enough layered d.children).levels [] []
  · exact layered
  · exact Resolver.inheritance_retains high enough layered place node (.refl level session)

theorem references_concludes (substitute : Bool) :
    (references resolver false substitute).Concludes level := by
  have enough := Nat.le_refl resolver.nesting
  refine concludes_of_flat (referencesBy_flat _ substitute) (fun {session} d layered => ?_)
    fun place session node layered =>
      Resolver.references_retains high enough layered substitute place node (.refl level session)
  have proceeds : session.Proceeds level
      (resolveChildren (siblings resolver false) session d.children).session :=
    (Resolver.resolveChildren_more high enough enough layered d.children).2
  rcases session_opening (references resolver false substitute) [] session d with same | ⟨failure, same⟩
  · rw [same]
    exact proceeds.layered layered
  · rw [same]
    exact (proceeds.trans (Resolver.proceeds_settle failure)).layered layered

def builtIn (resolver : Resolver) (concurrent substitute : Bool) (tags : TagRegistry) : List Visitor :=
  [idIndex, inheritance resolver, references resolver concurrent substitute, metadata, normalization,
    attributeValidation tags]

theorem builtIn_concludes (substitute : Bool) (tags : TagRegistry) :
    ∀ visitor ∈ builtIn resolver false substitute tags, visitor.Concludes level := by
  simp only [builtIn, List.forall_mem_cons]
  exact ⟨idIndex_concludes, inheritance_concludes high, references_concludes high substitute,
    metadata_concludes, normalization_concludes, attributeValidation_concludes tags,
    fun _ member => by cases member⟩

end

/-- All visitors of the library but one make no node higher. -/
theorem builtIn_flat (resolver : Resolver) (concurrent substitute : Bool) (tags : TagRegistry) :
    ∀ visitor ∈ builtIn resolver concurrent substitute tags,
      visitor = inheritance resolver ∨ visitor.Flat := by
  simp only [builtIn, List.forall_mem_cons]
  exact ⟨.inr idIndex_flat, .inl trivial, .inr (referencesBy_flat _ substitute), .inr metadata_flat,
    .inr normalization_flat, .inr (attributeValidation_flat tags), fun _ member => by cases member⟩

end Visitor

namespace Pipeline
variable {session : Session} {d : Document} {visitors : List Visitor} {levels more : Nat}

/-- More levels make no difference to a run that has enough of them. -/
theorem pass_more (enough : levels ≤ more)
    (ends : (pass levels visitors session d).halt ≠ some .tooDeep) :
    pass more visitors session d = pass levels visitors session d := by
  induction visitors generalizing session d with
  | nil => rfl
  | cons visitor rest ih =>
    rw [pass] at ends
    rw [pass, pass]
    cases halted : (visitor.walk [] session d levels).halt with
    | some halt =>
      rw [halted] at ends
      rw [walk_more enough (by rw [halted]; exact ends), halted]
    | none =>
      rw [halted] at ends
      rw [walk_more enough (by simp [halted]), halted]
      exact ih ends

/-- The run does not go down further than so many levels. -/
def Enough (pipeline : Pipeline) (session : Session) (d : Document) (levels : Nat) : Prop :=
  ((pipeline.downTo levels).process session d).halt ≠ some .tooDeep

theorem Enough.same {pipeline : Pipeline} (enough : pipeline.Enough session d levels)
    (above : levels ≤ more) : (pipeline.downTo more).process session d =
      (pipeline.downTo levels).process session d := by
  have tags (levels : Nat) : (pipeline.downTo levels).tags = pipeline.tags := rfl
  rw [Enough, process, tags] at enough
  rw [process, process, tags, tags]
  rcases reported : session.context.reportAll (findings pipeline.tags d) with ⟨context, none | stop⟩
  · rw [reported] at enough
    exact pass_more above enough
  · rfl

/-- Levels that are enough for the first visitor, and others for the rest. -/
private theorem enough_cons {visitor : Visitor}
    (first : ∃ levels, (visitor.walk [] session d levels).halt ≠ some .tooDeep)
    (rest : ∀ levels, ∃ more, (pass more visitors (visitor.walk [] session d levels).session
      (visitor.walk [] session d levels).part).halt ≠ some .tooDeep) :
    ∃ levels, (pass levels (visitor :: visitors) session d).halt ≠ some .tooDeep := by
  obtain ⟨levels, ends⟩ := first
  obtain ⟨more, others⟩ := rest levels
  have above : levels ≤ max levels more := Nat.le_max_left _ _
  refine ⟨max levels more, ?_⟩
  rw [pass, walk_more above ends]
  cases halted : (visitor.walk [] session d levels).halt with
  | some halt =>
    rw [halted] at ends
    exact ends
  | none =>
    dsimp only
    rw [pass_more (Nat.le_max_right _ _) others]
    exact others

private theorem enough_flat (flat : ∀ visitor ∈ visitors, visitor.Flat) (session : Session)
    (d : Document) : ∃ levels, (pass levels visitors session d).halt ≠ some .tooDeep := by
  induction visitors generalizing session d with
  | nil => exact ⟨0, fun never => by cases never⟩
  | cons visitor rest ih =>
    exact enough_cons ⟨_, (flat visitor List.mem_cons_self).walk (Nat.le_refl _)⟩ fun levels =>
      ih (fun other member => flat other (List.mem_cons_of_mem _ member)) _ _

private theorem enough_append {level : String → Nat} {others : List Visitor}
    (conclude : ∀ visitor ∈ visitors, visitor.Concludes level)
    (flat : ∀ visitor ∈ others, visitor.Flat) (layered : session.Layered level) (d : Document) :
    ∃ levels, (pass levels (visitors ++ others) session d).halt ≠ some .tooDeep := by
  induction visitors generalizing session d with
  | nil => exact enough_flat flat session d
  | cons visitor rest ih =>
    have first := conclude visitor List.mem_cons_self
    exact enough_cons (first.enough d layered) fun levels =>
      ih (fun other member => conclude other (List.mem_cons_of_mem _ member))
        (first.layered d levels layered) _

private theorem enough_of_pass {pipeline : Pipeline} (passes : ∀ {now : Session},
    now.shared = session.shared → session.context.Like now.context →
      ∃ levels, (pass levels pipeline.visitors now d).halt ≠ some .tooDeep) :
    ∃ levels, pipeline.Enough session d levels := by
  have like := (session.context.reportAll_adds (findings pipeline.tags d)).1
  rcases reported : session.context.reportAll (findings pipeline.tags d) with ⟨context, none | stop⟩
  · rw [reported] at like
    obtain ⟨levels, ends⟩ := @passes { session with context } rfl like
    refine ⟨levels, ?_⟩
    have tags : (pipeline.downTo levels).tags = pipeline.tags := rfl
    rw [Enough, process, tags, reported]
    exact ends
  · refine ⟨0, ?_⟩
    have tags : (pipeline.downTo 0).tags = pipeline.tags := rfl
    rw [Enough, process, tags, reported]
    intro halted
    cases halted

theorem enough_of_flat {pipeline : Pipeline} (flat : ∀ visitor ∈ pipeline.visitors, visitor.Flat)
    (session : Session) (d : Document) : ∃ levels, pipeline.Enough session d levels :=
  enough_of_pass fun _ _ => enough_flat flat _ _

/-- The visitors of the library come to an end, in any order, from a session in which what values hand on
leads to no cycle, and so do flat ones behind them. -/
theorem enough_of_builtIn {resolver : Resolver} (lineal : session.shared.Lineal)
    (nested : session.shared.results.length < resolver.nesting) {pipeline : Pipeline}
    {first rest : List Visitor} (visitors : pipeline.visitors = first ++ rest) {substitute : Bool}
    {tags : TagRegistry} (own : ∀ visitor ∈ first, visitor ∈ builtIn resolver false substitute tags)
    (flat : ∀ visitor ∈ rest, visitor.Flat) (d : Document) :
    ∃ levels, pipeline.Enough session d levels := by
  refine enough_of_pass fun {now} shared like => ?_
  have high (key : String) : session.shared.level key < resolver.nesting :=
    (Shared.level_le lineal key).trans_lt nested
  have layered : now.Layered session.shared.level :=
    Proceeds.layered (.of_same like (by rw [shared]) (by rw [shared]) (fun {_} => by rw [shared]; exact id)
      (by rw [shared])) (layered_of_lineal lineal)
  rw [visitors]
  exact enough_append (fun visitor member => builtIn_concludes high substitute tags visitor (own visitor member))
    flat layered d

end Pipeline
end LinkedMarkup
