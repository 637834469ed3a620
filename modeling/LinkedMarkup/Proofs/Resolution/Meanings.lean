import LinkedMarkup.Proofs.Resolution.Dependencies
import LinkedMarkup.Proofs.Resolution.Expansion
import LinkedMarkup.Proofs.Resolution.Growth

namespace LinkedMarkup

namespace Outlook
variable {outlook weak : Outlook} {nodes after : List Node}

/-- Whatever is passed over and meant in the first outlook is so in the second one. -/
structure Implies (outlook weak : Outlook) : Prop where
  value : ∀ {uri value}, outlook.means uri (.ok value) → weak.means uri (.ok value)
  failure : ∀ {uri error}, outlook.means uri (.error error) → outlook.passes error →
    weak.means uri (.error error)
  passes : ∀ {error}, outlook.passes error → weak.passes error
  tags : outlook.tags = weak.tags
  cuts : outlook.cuts → weak.cuts

namespace Implies
variable (implies : outlook.Implies weak)
include implies

theorem finds {target : String} {a : Element} :
    outlook.Finds target a → weak.Finds target a := by
  rintro ⟨uri, value, wellFormed, means, meant⟩
  exact ⟨uri, value, wellFormed, implies.value means, meant⟩

theorem misses {target : String} {error : ReferenceError} (passes : outlook.passes error) :
    outlook.Misses target error → weak.Misses target error := by
  rintro (malformed | ⟨uri, wellFormed, means | ⟨value, means, meant⟩⟩)
  · exact .inl malformed
  · exact .inr ⟨uri, wellFormed, .inl (implies.failure means passes)⟩
  · exact .inr ⟨uri, wellFormed, .inr ⟨value, implies.value means, meant⟩⟩

theorem expands (expands : outlook.Expands nodes after) : weak.Expands nodes after := by
  induction expands with
  | nil => exact .nil
  | content c _ others => exact .content c others
  | resolved resolved _ others => exact .resolved resolved others
  | found unresolved means _ others => exact .found unresolved (implies.value means) others
  | failed unresolved means passes _ others =>
    exact .failed unresolved (implies.failure means passes) (implies.passes passes) others
  | plain alone _ _ below others => exact .plain alone below others
  | orphan names misses passes _ _ below others =>
    exact .orphan names (implies.misses passes misses) (implies.passes passes) below others
  | heir names finds _ _ _ above below others =>
    have same : outlook.legacy = weak.legacy := by unfold legacy; rw [implies.tags]
    exact .heir names (implies.finds finds) (same ▸ above) below others
  | cut names finds cuts _ _ below others =>
    have same : outlook.legacy = weak.legacy := by unfold legacy; rw [implies.tags]
    rw [same]
    exact .cut names (implies.finds finds) (implies.cuts cuts) below others

theorem expandsTo {value last : Resolved} (expands : outlook.ExpandsTo value last) :
    weak.ExpandsTo value last := by
  cases expands with
  | element expands => exact .element (implies.expands expands)
  | document expands => exact .document (implies.expands expands)
  | data value => exact .data value
  | text text => exact .text text

end Implies

/-- A reference means one value or fails, and nothing is left as it is. -/
structure Decided (outlook : Outlook) : Prop where
  value : ∀ {uri value other}, outlook.means uri (.ok value) → outlook.means uri (.ok other) →
    value = other
  failure : ∀ {uri value error}, outlook.means uri (.ok value) → ¬ outlook.means uri (.error error)
  whole : ¬ outlook.cuts

namespace Decided
variable (decided : outlook.Decided)
include decided

theorem finds {target : String} {a other : Element} (finds : outlook.Finds target a)
    (again : outlook.Finds target other) : a = other := by
  obtain ⟨uri, value, wellFormed, means, meant⟩ := finds
  obtain ⟨uri', value', wellFormed', means', meant'⟩ := again
  cases wellFormed.symm.trans wellFormed'
  cases decided.value means means'
  cases meant.symm.trans meant'
  rfl

theorem misses {target : String} {a : Element} {error : ReferenceError}
    (finds : outlook.Finds target a) : ¬ outlook.Misses target error := by
  obtain ⟨uri, value, wellFormed, means, meant⟩ := finds
  rintro (⟨fault, malformed, _⟩ | ⟨uri', wellFormed', fails | ⟨value', means', fails⟩⟩)
  · cases wellFormed.symm.trans malformed
  · cases wellFormed.symm.trans wellFormed'
    exact decided.failure means fails
  · cases wellFormed.symm.trans wellFormed'
    cases decided.value means means'
    cases meant.symm.trans fails

theorem unique {other : List Node} (expands : outlook.Expands nodes after)
    (again : outlook.Expands nodes other) : after = other := by
  induction expands generalizing other with
  | nil => cases again; rfl
  | content c _ others =>
    cases again with
    | content _ rest => rw [others rest]
  | resolved resolved _ others =>
    cases again with
    | resolved _ rest => rw [others rest]
    | found unresolved | failed unresolved => cases resolved.symm.trans unresolved
  | found unresolved means _ others =>
    cases again with
    | resolved resolved => cases resolved.symm.trans unresolved
    | found _ means' rest => rw [others rest, decided.value means means']
    | failed _ fails => exact absurd fails (decided.failure means)
  | failed unresolved fails _ _ others =>
    cases again with
    | resolved resolved => cases resolved.symm.trans unresolved
    | found _ means => exact absurd fails (decided.failure means)
    | failed _ _ _ rest => rw [others rest]
  | plain alone _ _ below others =>
    cases again with
    | plain _ own rest => rw [below own, others rest]
    | orphan names | heir names | cut names => cases alone.symm.trans names
  | orphan names misses _ _ _ below others =>
    cases again with
    | plain alone => cases alone.symm.trans names
    | orphan _ _ _ own rest => rw [below own, others rest]
    | heir names' finds | cut names' finds =>
      cases names.symm.trans names'
      exact absurd misses (decided.misses finds)
  | heir names finds _ _ _ above below others =>
    cases again with
    | plain alone => cases alone.symm.trans names
    | orphan names' misses =>
      cases names.symm.trans names'
      exact absurd misses (decided.misses finds)
    | heir names' finds' inherited own rest =>
      cases names.symm.trans names'
      cases decided.finds finds finds'
      rw [above inherited, below own, others rest]
    | cut _ _ cuts => exact absurd cuts decided.whole
  | cut _ _ cuts => exact absurd cuts decided.whole

theorem expandsTo_unique {value last other : Resolved} (expands : outlook.ExpandsTo value last)
    (again : outlook.ExpandsTo value other) : last = other := by
  cases expands with
  | element expands =>
    cases again with
    | element again => cases decided.unique expands again; rfl
  | document expands =>
    cases again with
    | document again => rw [decided.unique expands again]
  | data | text => cases again; rfl

end Decided

namespace Expands

/-- What siblings are expanded to, in two parts. -/
theorem append_inv {first second : List Node} (expands : outlook.Expands (first ++ second) after) :
    ∃ early late, after = early ++ late ∧ outlook.Expands first early ∧
      outlook.Expands second late := by
  induction first generalizing after with
  | nil => exact ⟨[], after, rfl, .nil, expands⟩
  | cons node rest ih =>
    have step {part : Node} {others : List Node} (found : outlook.Expands (rest ++ second) others)
        (here : ∀ {others}, outlook.Expands rest others →
          outlook.Expands (node :: rest) (part :: others)) :
        ∃ early late, part :: others = early ++ late ∧ outlook.Expands (node :: rest) early ∧
          outlook.Expands second late := by
      obtain ⟨early, late, rfl, expands, behind⟩ := ih found
      exact ⟨part :: early, late, rfl, here expands, behind⟩
    cases expands with
    | content c others => exact step others (.content c)
    | resolved resolved others => exact step others (.resolved resolved)
    | found unresolved means others => exact step others (.found unresolved means)
    | failed unresolved means passes others => exact step others (.failed unresolved means passes)
    | plain alone below others => exact step others (.plain alone below)
    | orphan names misses passes below others => exact step others (.orphan names misses passes below)
    | heir names finds above below others => exact step others (.heir names finds above below)
    | cut names finds cuts below others => exact step others (.cut names finds cuts below)

/-- What is open after an expansion is known if what references mean leads to known references only. -/
theorem opens {known : Uri → Prop} (expands : outlook.Expands nodes after)
    (leads : ∀ {uri value}, known uri → outlook.means uri (.ok value) →
      ∀ next ∈ value.opens, known next)
    (member : ∀ uri ∈ Node.opensOf nodes, known uri) : ∀ uri ∈ Node.opensOf after, known uri := by
  have merged (e a : Element) : ∀ uri ∈ (Inheritance.head e a).ancestor?.toList, known uri := by
    simp [Inheritance.ancestor?_head]
  have inherits {e a : Element} {target : String} (names : e.extends? = some target)
      (finds : outlook.Finds target a) (head : ∀ uri ∈ e.ancestor?.toList, known uri) :
      ∀ uri ∈ Node.opensOf (outlook.legacy e a), known uri :=
    fun uri inside => finds.opens names leads head uri (Inheritance.opensOf_children_subset _ _ inside)
  induction expands with
  | nil => exact member
  | content c _ others => exact others member
  | resolved resolved _ others | failed _ _ _ _ others =>
    rw [Node.opensOf, List.forall_mem_append] at member ⊢
    exact ⟨member.1, others member.2⟩
  | found _ _ _ others =>
    rw [Node.opensOf, List.forall_mem_append] at member ⊢
    rw [Node.opens, Reference.opens_resolveTo]
    exact ⟨by simp, others member.2⟩
  | plain _ _ _ below others | orphan _ _ _ _ _ below others =>
    rw [Node.forall_opensOf_element] at member ⊢
    exact ⟨member.1, below member.2.1, others member.2.2⟩
  | heir names finds _ _ _ above below others =>
    rw [Node.forall_opensOf_element] at member ⊢
    refine ⟨merged _ _, ?_, others member.2.2⟩
    rw [Node.opensOf_append, List.forall_mem_append]
    exact ⟨above (inherits names finds member.1), below member.2.1⟩
  | cut names finds _ _ _ below others =>
    rw [Node.forall_opensOf_element] at member ⊢
    refine ⟨merged _ _, ?_, others member.2.2⟩
    rw [Node.opensOf_append, List.forall_mem_append]
    exact ⟨inherits names finds member.1, below member.2.1⟩

end Expands

/-- What is open in an expanded value is known as well. -/
theorem ExpandsTo.opens {known : Uri → Prop} {value last : Resolved}
    (expands : outlook.ExpandsTo value last)
    (leads : ∀ {uri value}, known uri → outlook.means uri (.ok value) →
      ∀ next ∈ value.opens, known next)
    (member : ∀ uri ∈ value.opens, known uri) : ∀ uri ∈ last.opens, known uri := by
  cases expands with
  | @element e after expands =>
    have single (e : Element) : Node.opensOf [.element e] = e.opens := by
      simp [Node.opensOf, Node.opens]
    have opens := expands.opens leads (by rwa [single])
    rwa [single] at opens
  | document expands => exact expands.opens leads member
  | data | text => exact member

end Outlook

namespace Resolver
variable {resolver : Resolver} {session : Session} {uri other : Uri}

/-- What is known of expansions when references have a meaning, which is a value, or nothing if they
fail. -/
def sense (resolver : Resolver) (session : Session) (means : Uri → Option Resolved → Prop) :
    Outlook where
  means uri outcome := means uri outcome.toOption
  passes := Tolerated session.context.mode
  tags := resolver.tags
  cuts := False

/-- The meaning of a reference that is reached by less than so many steps from value to value. -/
def MeansBy (resolver : Resolver) (session : Session) : Nat → Uri → Option Resolved → Prop
  | 0, _, _ => False
  | steps + 1, uri, meant =>
    match session.shared.results.find? uri.key, resolver.found? session uri with
    | some value, _ => meant = some value
    | none, some value => ∃ after,
        (resolver.sense session (MeansBy resolver session steps)).ExpandsTo value after ∧
          meant = some after
    | none, none => meant = none

/-- The meaning of a reference. -/
def Means (resolver : Resolver) (session : Session) (uri : Uri) (meant : Option Resolved) : Prop :=
  ∃ steps, resolver.MeansBy session steps uri meant

private theorem sense_implies {strong weak : Uri → Option Resolved → Prop}
    (more : ∀ {uri meant}, strong uri meant → weak uri meant) :
    (resolver.sense session strong).Implies (resolver.sense session weak) :=
  ⟨more, fun means _ => more means, id, rfl, id⟩

private theorem MeansBy.succ {steps : Nat} {meant : Option Resolved}
    (means : resolver.MeansBy session steps uri meant) :
    resolver.MeansBy session (steps + 1) uri meant := by
  induction steps generalizing uri meant with
  | zero => exact False.elim means
  | succ steps ih =>
    rw [MeansBy] at means ⊢
    split at means
    · exact means
    · obtain ⟨after, expands, same⟩ := means
      exact ⟨after, (sense_implies ih).expandsTo expands, same⟩
    · exact means

private theorem MeansBy.mono {few many : Nat} (enough : few ≤ many) {meant : Option Resolved}
    (means : resolver.MeansBy session few uri meant) : resolver.MeansBy session many uri meant := by
  induction enough with
  | refl => exact means
  | step _ ih => exact ih.succ

private theorem expands_by {nodes after : List Node}
    (expands : (resolver.sense session (resolver.Means session)).Expands nodes after) :
    ∃ steps, (resolver.sense session (resolver.MeansBy session steps)).Expands nodes after := by
  have lift {few many : Nat} (enough : few ≤ many) :
      (resolver.sense session (resolver.MeansBy session few)).Implies
        (resolver.sense session (resolver.MeansBy session many)) :=
    sense_implies (MeansBy.mono enough)
  have finds {target : String} {a : Element}
      (finds : (resolver.sense session (resolver.Means session)).Finds target a) :
      ∃ steps, (resolver.sense session (resolver.MeansBy session steps)).Finds target a := by
    obtain ⟨uri, value, wellFormed, ⟨steps, means⟩, meant⟩ := finds
    exact ⟨steps, uri, value, wellFormed, means, meant⟩
  have misses {target : String} {error : ReferenceError}
      (misses : (resolver.sense session (resolver.Means session)).Misses target error) :
      ∃ steps, (resolver.sense session (resolver.MeansBy session steps)).Misses target error := by
    rcases misses with malformed | ⟨uri, wellFormed, ⟨steps, means⟩ | ⟨value, ⟨steps, means⟩, meant⟩⟩
    · exact ⟨0, .inl malformed⟩
    · exact ⟨steps, .inr ⟨uri, wellFormed, .inl means⟩⟩
    · exact ⟨steps, .inr ⟨uri, wellFormed, .inr ⟨value, means, meant⟩⟩⟩
  induction expands with
  | nil => exact ⟨0, .nil⟩
  | content c _ others =>
    obtain ⟨steps, rest⟩ := others
    exact ⟨steps, .content c rest⟩
  | resolved resolved _ others =>
    obtain ⟨steps, rest⟩ := others
    exact ⟨steps, .resolved resolved rest⟩
  | found unresolved means _ others =>
    obtain ⟨first, means⟩ := means
    obtain ⟨second, rest⟩ := others
    exact ⟨max first second, .found unresolved (means.mono (Nat.le_max_left _ _))
      ((lift (Nat.le_max_right _ _)).expands rest)⟩
  | failed unresolved means passes _ others =>
    obtain ⟨first, means⟩ := means
    obtain ⟨second, rest⟩ := others
    exact ⟨max first second, .failed unresolved (means.mono (Nat.le_max_left _ _)) passes
      ((lift (Nat.le_max_right _ _)).expands rest)⟩
  | plain alone _ _ below others =>
    obtain ⟨first, own⟩ := below
    obtain ⟨second, rest⟩ := others
    exact ⟨max first second, .plain alone ((lift (Nat.le_max_left _ _)).expands own)
      ((lift (Nat.le_max_right _ _)).expands rest)⟩
  | orphan names fails passes _ _ below others =>
    obtain ⟨first, fails⟩ := misses fails
    obtain ⟨second, own⟩ := below
    obtain ⟨third, rest⟩ := others
    exact ⟨max first (max second third),
      .orphan names ((lift (by omega)).misses passes fails) passes ((lift (by omega)).expands own)
        ((lift (by omega)).expands rest)⟩
  | heir names meets _ _ _ above below others =>
    obtain ⟨first, meets⟩ := finds meets
    obtain ⟨second, inherited⟩ := above
    obtain ⟨third, own⟩ := below
    obtain ⟨fourth, rest⟩ := others
    exact ⟨max (max first second) (max third fourth),
      .heir names ((lift (by omega)).finds meets) ((lift (by omega)).expands inherited)
        ((lift (by omega)).expands own) ((lift (by omega)).expands rest)⟩
  | cut _ _ cuts => exact False.elim cuts

/-- The meaning of a reference is the known value, or what the value found is expanded to in the sense
of all meanings. -/
theorem means_iff {meant : Option Resolved} : resolver.Means session uri meant ↔
    match session.shared.results.find? uri.key, resolver.found? session uri with
    | some value, _ => meant = some value
    | none, some value => ∃ after,
        (resolver.sense session (resolver.Means session)).ExpandsTo value after ∧ meant = some after
    | none, none => meant = none := by
  constructor
  · rintro ⟨steps, means⟩
    cases steps with
    | zero => exact False.elim means
    | succ steps =>
      rw [MeansBy] at means
      split at means
      · exact means
      · obtain ⟨after, expands, same⟩ := means
        exact ⟨after, (sense_implies fun means => ⟨steps, means⟩).expandsTo expands, same⟩
      · exact means
  · intro means
    suffices enough : ∃ steps, resolver.MeansBy session (steps + 1) uri meant from
      enough.imp' (· + 1) fun _ => id
    simp only [MeansBy]
    split at means
    · exact ⟨0, means⟩
    · obtain ⟨after, expands, same⟩ := means
      cases expands with
      | element expands =>
        obtain ⟨steps, expands⟩ := expands_by expands
        exact ⟨steps, _, .element expands, same⟩
      | document expands =>
        obtain ⟨steps, expands⟩ := expands_by expands
        exact ⟨steps, _, .document expands, same⟩
      | data value => exact ⟨0, _, .data value, same⟩
      | text text => exact ⟨0, _, .text text, same⟩
    · exact ⟨0, means⟩

private theorem MeansBy.unique {steps : Nat} {meant again : Option Resolved}
    (means : resolver.MeansBy session steps uri meant)
    (means' : resolver.MeansBy session steps uri again) : meant = again := by
  induction steps generalizing uri meant again with
  | zero => exact False.elim means
  | succ steps ih =>
    rw [MeansBy] at means means'
    cases known : session.shared.results.find? uri.key with
    | some value =>
      rw [known] at means means'
      exact means.trans means'.symm
    | none =>
      rw [known] at means means'
      cases found : resolver.found? session uri with
      | none =>
        rw [found] at means means'
        exact means.trans means'.symm
      | some value =>
        rw [found] at means means'
        obtain ⟨after, expands, rfl⟩ := means
        obtain ⟨after', expands', rfl⟩ := means'
        have decided : (resolver.sense session (resolver.MeansBy session steps)).Decided :=
          ⟨fun means means' => Option.some.inj (ih means means'),
            fun means fails => (nomatch ih means fails), id⟩
        rw [decided.expandsTo_unique expands expands']

theorem Means.unique {meant again : Option Resolved} (means : resolver.Means session uri meant)
    (means' : resolver.Means session uri again) : meant = again := by
  obtain ⟨first, means⟩ := means
  obtain ⟨second, means'⟩ := means'
  exact (means.mono (Nat.le_max_left first second)).unique (means'.mono (Nat.le_max_right _ _))

theorem decided_means (resolver : Resolver) (session : Session) :
    (resolver.sense session (resolver.Means session)).Decided :=
  ⟨fun means means' => Option.some.inj (Means.unique means means'),
    fun means fails => (nomatch Means.unique means fails), id⟩

/-- References that share a key and a value mean the same. -/
theorem Means.congr {meant : Option Resolved} (means : resolver.Means session uri meant)
    (key : uri.key = other.key) (found : resolver.found? session uri = resolver.found? session other) :
    resolver.Means session other meant := by
  rw [means_iff] at means ⊢
  rwa [key, found] at means

/-- The meaning of a reference in play leads to references in play. -/
theorem Means.opens {others : List Uri} {value : Resolved}
    (means : resolver.Means session uri (some value)) (played : resolver.InPlay session others uri) :
    ∀ next ∈ value.opens, resolver.InPlay session others next := by
  obtain ⟨steps, means⟩ := means
  induction steps generalizing uri value with
  | zero => exact False.elim means
  | succ steps ih =>
    rw [MeansBy] at means
    split at means
    · rename_i known
      cases means
      exact fun next opens => played.leads ⟨value, by simp only [found?, known], opens⟩
    · rename_i found
      obtain ⟨after, expands, same⟩ := means
      cases same
      exact expands.opens (fun played means => ih played means)
        fun next opens => played.leads ⟨_, found, opens⟩
    · cases means

end Resolver
end LinkedMarkup
