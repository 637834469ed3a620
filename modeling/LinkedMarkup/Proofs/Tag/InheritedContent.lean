import LinkedMarkup.Proofs.Tag.Violations
import LinkedMarkup.Resolution.Inheritance

namespace LinkedMarkup
open Validation

namespace TagRegistry

/-- The children of an element obey the content model of the definition of its tag, if there is
one. -/
def Obeys (registry : TagRegistry) (e : Element) : Prop :=
  ∀ definition, registry.find? e.tag = some definition → modelFaults definition e = []

variable {registry : TagRegistry} {e ancestor : Element} {definition : TagDefinition}

theorem model_of_find? {tag : String} (defined : registry.find? tag = some definition) :
    registry.model tag = definition.model := by
  rw [model, defined]

theorem modelFaults_eq_nil :
    modelFaults definition e = [] ↔ ∀ found, ¬ Excludes definition.model e found := by
  constructor
  · intro faultless found excluded
    have fault := (mem_modelFaults e definition _).mpr ⟨found, rfl, excluded⟩
    rw [faultless] at fault
    cases fault
  · intro admits
    apply List.eq_nil_iff_forall_not_mem.mpr
    intro fault member
    obtain ⟨found, _, excluded⟩ := (mem_modelFaults e definition fault).mp member
    exact admits found excluded

/-- A tag without a definition has the mixed model, which admits everything. -/
theorem obeys_iff : registry.Obeys e ↔ ∀ found, ¬ Excludes (registry.model e.tag) e found := by
  cases defined : registry.find? e.tag with
  | some definition =>
    rw [Obeys, model_of_find? defined, ← modelFaults_eq_nil, defined]
    constructor
    · intro obeys
      exact obeys definition rfl
    · intro faultless other same
      cases same
      exact faultless
  | none =>
    have mixed : registry.model e.tag = .mixed := by rw [model, defined]
    rw [Obeys, mixed, defined]
    simp [Excludes]

end TagRegistry

namespace Inheritance
variable {registry : TagRegistry} {e ancestor : Element}

theorem excludes_childrenOnly (e : Element) (found : String) :
    Excludes .childrenOnly e found ↔ found = "text content" ∧ ∃ child ∈ e.children, isWritten child := by
  simp [Excludes]

/-- The merged element breaks its content model as it has done before, or by text that it inherits
although it admits element children only. -/
theorem excludes_merge (found : String) :
    Excludes (registry.model e.tag) (merge registry e ancestor) found ↔
      Excludes (registry.model e.tag) e found ∨
        registry.model e.tag = .childrenOnly ∧ found = "text content" ∧
          ∃ child ∈ ancestor.children, isWritten child := by
  cases model : registry.model e.tag with
  | mixed => simp [Excludes]
  | contentOnly =>
    simp [Excludes, merge, model, children, ContentModel.acceptsInheritedChildren]
  | empty =>
    simp [Excludes, merge, model, children, ContentModel.acceptsInheritedChildren]
  | childrenOnly =>
    have inherits : (merge registry e ancestor).children = ancestor.children ++ e.children := by
      rw [merge, model]
      rfl
    simp only [excludes_childrenOnly, inherits, List.mem_append]
    constructor
    · rintro ⟨words, child, among | own, written⟩
      · exact .inr ⟨trivial, words, child, among, written⟩
      · exact .inl ⟨words, child, own, written⟩
    · rintro (⟨words, child, own, written⟩ | ⟨-, words, child, among, written⟩)
      · exact ⟨words, child, .inr own, written⟩
      · exact ⟨words, child, .inl among, written⟩

/-- An element that obeys its content model obeys it with the children that it inherits, unless it
admits element children only and its ancestor holds text. It then inherits the text, which the tag of
the ancestor admits, and text is all that is wrong with it. -/
theorem merge_obeys (own : registry.Obeys e) (others : registry.Obeys ancestor) :
    (registry.Obeys (merge registry e ancestor) ↔
      ¬ (registry.model e.tag = .childrenOnly ∧ ∃ child ∈ ancestor.children, isWritten child)) ∧
    (registry.model e.tag = .childrenOnly → (∃ child ∈ ancestor.children, isWritten child) →
      (registry.model ancestor.tag).allowsContent = true ∧
      ∀ definition, registry.find? e.tag = some definition →
        modelFaults definition (merge registry e ancestor) =
          [.contentModel .childrenOnly "text content"]) := by
  have tag : (merge registry e ancestor).tag = e.tag := rfl
  rw [TagRegistry.obeys_iff] at own others
  constructor
  · rw [TagRegistry.obeys_iff, tag]
    constructor
    · intro obeys ⟨model, text⟩
      exact obeys "text content" ((excludes_merge _).mpr (.inr ⟨model, rfl, text⟩))
    · intro textless found excluded
      rcases (excludes_merge found).mp excluded with before | ⟨model, _, text⟩
      · exact own found before
      · exact textless ⟨model, text⟩
  · intro model text
    constructor
    · by_contra admits
      have models := allowsContent_eq_false.mp (Bool.not_eq_true _ ▸ admits)
      exact others "text content" (.inr (.inl ⟨rfl, models, text⟩))
    · intro definition defined
      have models : definition.model = .childrenOnly :=
        (TagRegistry.model_of_find? defined).symm.trans model
      have inherits : hasContent (merge registry e ancestor) = true := by
        obtain ⟨child, among, written⟩ := text
        refine (hasContent_iff _).mpr ⟨child, ?_, written⟩
        rw [merge, model]
        exact List.mem_append_left _ among
      simp [modelFaults, models, inherits, ContentModel.allowsElements, ContentModel.allowsContent]

/-- A list that inherits an item from a note still holds elements only. -/
theorem merge_obeys_list :
    let registry : TagRegistry :=
      ⟨[("list", { name := "list", model := .childrenOnly }), ("note", { name := "note" })], false⟩
    let list : Element := { tag := "list", children := [.element { tag := "item" }] }
    let note : Element := { tag := "note", children := [.element { tag := "item" }] }
    registry.Obeys list ∧ registry.Obeys note ∧ registry.Obeys (merge registry list note) := by
  intro registry list note
  have model : registry.model list.tag = .childrenOnly := by decide +kernel
  have mixed : registry.model note.tag = .mixed := by decide +kernel
  have textless (e : Element) (items : e.children = [.element { tag := "item" }]) :
      ¬ ∃ child ∈ e.children, isWritten child := by
    simp [items, isWritten]
  have own : registry.Obeys list := by
    rw [TagRegistry.obeys_iff, model]
    intro found excluded
    exact textless list rfl ((excludes_childrenOnly list found).mp excluded).2
  have others : registry.Obeys note := by
    rw [TagRegistry.obeys_iff, mixed]
    simp [Excludes]
  exact ⟨own, others, (merge_obeys own others).1.mpr fun broken => textless note rfl broken.2⟩

/-- A list that inherits text from a note no longer obeys its content model. -/
theorem list_inherits_text :
    let registry : TagRegistry :=
      ⟨[("list", { name := "list", model := .childrenOnly }), ("note", { name := "note" })], false⟩
    let list : Element := { tag := "list" }
    let note : Element := { tag := "note", children := [.content { text := "text" }] }
    registry.Obeys list ∧ registry.Obeys note ∧ ¬ registry.Obeys (merge registry list note) := by
  intro registry list note
  have model : registry.model list.tag = .childrenOnly := by decide +kernel
  have mixed : registry.model note.tag = .mixed := by decide +kernel
  have written : isWritten (.content { text := "text" }) = true := by decide +kernel
  refine ⟨fun _ _ => rfl, ?_, fun obeys => ?_⟩
  · rw [TagRegistry.obeys_iff, mixed]
    simp [Excludes]
  · have tag : (merge registry list note).tag = list.tag := rfl
    have text : ∃ child ∈ note.children, isWritten child = true :=
      ⟨.content { text := "text" }, List.mem_singleton_self _, written⟩
    rw [TagRegistry.obeys_iff, tag] at obeys
    exact obeys "text content" ((excludes_merge _).mpr (.inr ⟨model, rfl, text⟩))

end Inheritance
end LinkedMarkup
