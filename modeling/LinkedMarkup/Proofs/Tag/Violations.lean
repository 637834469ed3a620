import LinkedMarkup.Tag.Reading
import LinkedMarkup.Tag.Validation
import Mathlib.Data.List.Count

namespace LinkedMarkup

namespace TagRegistry

/-- The registries that the operations on registries make. -/
inductive Built : TagRegistry → Prop where
  | empty (strict : Bool) : Built { strict }
  | registered {registry next : TagRegistry} {given : TagDefinition} (built : Built registry)
      (accepted : registry.register given = .ok next) : Built next
  | erased {registry : TagRegistry} (built : Built registry) (name : String) :
      Built (registry.erase name)
  | cleared {registry : TagRegistry} (built : Built registry) : Built registry.clear
  | strictness {registry : TagRegistry} (built : Built registry) (strict : Bool) :
      Built { registry with strict }

theorem Built.registerAll {registry : TagRegistry} (built : registry.Built)
    (given : List TagDefinition) : (registry.registerAll given).1.Built := by
  induction given generalizing registry with
  | nil => exact built
  | cons first rest ih =>
    unfold TagRegistry.registerAll
    cases accepted : registry.register first with
    | ok next => exact ih (.registered built accepted)
    | error _ => exact built

theorem Built.load {registry : TagRegistry} (built : registry.Built) (text : String) :
    (registry.load text).1.Built := by
  unfold TagRegistry.load
  cases definitions? text with
  | none => exact built
  | some given =>
    have all := built.registerAll given
    dsimp only
    rcases outcome : registry.registerAll given with ⟨next, none | error⟩
    · rwa [outcome] at all
    · rwa [outcome] at all

theorem register_ok {registry next : TagRegistry} {given : TagDefinition}
    (accepted : registry.register given = .ok next) :
    next.definitions = registry.definitions.insert given.normalized.name given.normalized := by
  unfold register at accepted
  dsimp only at accepted
  split at accepted
  · cases accepted
  · cases accepted
    rfl

/-- Whatever a built registry holds was given under a name with the same lower case. -/
theorem Built.given {registry : TagRegistry} (built : registry.Built) :
    ∀ {key : String} {stored : TagDefinition}, registry.definitions.find? key = some stored →
      ∃ given : TagDefinition, stored = given.normalized ∧ Unicode.lowerCase given.name = key := by
  induction built with
  | empty strict =>
    intro key stored found
    cases found
  | @registered registry next given _ accepted ih =>
    intro key stored found
    rw [register_ok accepted, Table.find?_insert] at found
    by_cases same : key = given.normalized.name
    · rw [if_pos same] at found
      exact ⟨given, (Option.some.inj found).symm, same.symm⟩
    · rw [if_neg same] at found
      exact ih found
  | erased _ name ih =>
    intro key stored found
    rw [erase, Table.find?_erase] at found
    by_cases gone : key = Unicode.lowerCase name
    · simp [gone] at found
    · rw [if_neg gone] at found
      exact ih found
  | cleared _ _ =>
    intro key stored found
    cases found
  | strictness _ _ ih => exact ih

end TagRegistry

deriving instance DecidableEq for ValidationError

namespace Validation

/-- The tag is one of these names but for case. -/
def Listed (names : List String) (tag : String) : Prop :=
  ∃ name ∈ names, Unicode.lowerCase name = Unicode.lowerCase tag

instance (names : List String) (tag : String) : Decidable (Listed names tag) :=
  inferInstanceAs (Decidable (∃ name ∈ names, _))

def isWritten : Node → Bool
  | .content content => !Text.isBlank content.text
  | _ => false

/-- The element has children of a kind, by its words in a report, that the model rules out. -/
def Excludes (model : ContentModel) (e : Element) (found : String) : Prop :=
  (found = "element children" ∧ (model = .contentOnly ∨ model = .empty)
    ∧ ∃ child ∈ e.children, child.asElement?.isSome)
  ∨ (found = "text content" ∧ (model = .childrenOnly ∨ model = .empty)
    ∧ ∃ child ∈ e.children, isWritten child)
  ∨ (found = "references" ∧ model = .empty ∧ ∃ child ∈ e.children, child.asReference?.isSome)

instance (model : ContentModel) (e : Element) (found : String) :
    Decidable (Excludes model e found) := by
  unfold Excludes
  infer_instance

/-- How often an element fails in this way by the definition `given` for its tag. -/
def faultCount (given : TagDefinition) (e : Element) : ElementFault → Nat
  | .disallowedAttribute name =>
    if given.allowedAttributes ≠ [] ∧ name ∉ given.allowedAttributes
        ∧ name ∉ given.requiredAttributes then e.attributes.keys.count name else 0
  | .missingAttribute name =>
    if name ∈ e.attributes.keys then 0 else given.requiredAttributes.count name
  | .contentModel model found => if model = given.model ∧ Excludes model e found then 1 else 0
  | .custom message => if given.violation?.bind (· e) = some message then 1 else 0
  | .forbiddenChild _ | .disallowedChild _ => 0

/-- How often the definition `given` for the tag of an element finds this error at a child. -/
def childCount (given : TagDefinition) (e : Element) (position : Span) : ElementFault → Nat
  | .forbiddenChild tag =>
    if Listed given.forbiddenChildren tag then
      e.elementChildren.countP fun child => child.tag = tag ∧ child.position = position
    else 0
  | .disallowedChild tag =>
    if ¬ Listed given.forbiddenChildren tag ∧ given.allowedChildren ≠ []
        ∧ ¬ Listed given.allowedChildren tag then
      e.elementChildren.countP fun child => child.tag = tag ∧ child.position = position
    else 0
  | _ => 0

/-- How often an element must be reported with this error: a fault of its own stands at the
element, that of a child at the child, and both carry the tag of the element. -/
def violations (given : TagDefinition) (e : Element) : ValidationError → Nat
  | .element tag position fault =>
    if tag = e.tag then
      (if position = e.position then faultCount given e fault else 0)
        + childCount given e position fault
    else 0
  | .duplicateIds _ => 0

variable (given : TagDefinition) (e : Element)

theorem mem_keys {α : Type} (table : Table α) (name : String) :
    name ∈ table.keys ↔ table.contains name = true := by
  induction table with
  | nil => simp [Table.contains, Table.find?, Table.keys]
  | cons entry rest ih =>
    obtain ⟨key, value⟩ := entry
    by_cases same : name = key
    · simp [Table.contains, Table.find?, Table.keys, same]
    · simpa [Table.contains, Table.find?, Table.keys, same] using ih

theorem hasElements_iff : hasElements e = true ↔ ∃ child ∈ e.children, child.asElement?.isSome := by
  simp [hasElements, Element.elementChildren, Option.isSome_iff_ne_none]

theorem hasContent_iff : hasContent e = true ↔ ∃ child ∈ e.children, isWritten child := by
  simp only [hasContent, List.any_eq_true]
  rfl

theorem hasReferences_iff :
    hasReferences e = true ↔ ∃ child ∈ e.children, child.asReference?.isSome := by
  simp [hasReferences]

theorem allowsElements_eq_false {model : ContentModel} :
    model.allowsElements = false ↔ model = .contentOnly ∨ model = .empty := by
  cases model <;> decide

theorem allowsContent_eq_false {model : ContentModel} :
    model.allowsContent = false ↔ model = .childrenOnly ∨ model = .empty := by
  cases model <;> decide

theorem mem_modelFaults (definition : TagDefinition) (fault : ElementFault) :
    fault ∈ modelFaults definition e ↔
      ∃ found, fault = .contentModel definition.model found ∧ Excludes definition.model e found := by
  simp only [modelFaults, Excludes, List.mem_append, ← hasElements_iff, ← hasContent_iff,
    ← hasReferences_iff, ← allowsElements_eq_false, ← allowsContent_eq_false]
  aesop

theorem contains_lowerCase (names : List String) (tag : String) :
    (names.map Unicode.lowerCase).contains (Unicode.lowerCase tag) = decide (Listed names tag) := by
  rw [Bool.eq_iff_iff, decide_eq_true_iff]
  simp [Listed]

/-- The elements report one after the other. -/
theorem document_eq (registry : TagRegistry) (checks : Checks) (d : Document) :
    document registry checks d =
      ⟨d.elements.flatMap fun e => (element registry checks e).errors,
        d.elements.flatMap fun e => (element registry checks e).warnings⟩ := by
  have collected (elements : List Element) (start : ValidationResult) :
      elements.foldl (fun result e => result.append (element registry checks e)) start =
        ⟨start.errors ++ elements.flatMap fun e => (element registry checks e).errors,
          start.warnings ++ elements.flatMap fun e => (element registry checks e).warnings⟩ := by
    induction elements generalizing start with
    | nil => simp
    | cons first rest ih =>
      rw [List.foldl_cons, ih]
      simp [ValidationResult.append]
  exact collected d.elements {}

end Validation
end LinkedMarkup
