import LinkedMarkup.Proofs.Resolution.Keeping
import LinkedMarkup.Proofs.Resolution.OpenReferences
import Mathlib.Data.Finset.Card
import Mathlib.Logic.Relation
/-! What values hand on. A value that has been kept may have children that still name ancestors, and
whoever inherits the children asks for these in its turn. As long as this never leads from a key back
to it, every key has a level, and what is handed on leads to lower levels only. -/
namespace LinkedMarkup
open Relation

namespace Node

/-- The ancestors that the elements of trees name. Elements inside the value of a reference do not
belong to the tree. -/
def ancestorsOf (nodes : List Node) : List Uri := (allElements nodes).filterMap Element.ancestor?

@[simp] theorem ancestorsOf_nil : ancestorsOf [] = [] := rfl

theorem ancestorsOf_append (first second : List Node) :
    ancestorsOf (first ++ second) = ancestorsOf first ++ ancestorsOf second := by
  have all : allElements (first ++ second) = allElements first ++ allElements second := by
    induction first with
    | nil => rfl
    | cons node rest ih => rw [List.cons_append, allElements, allElements, ih, List.append_assoc]
  rw [ancestorsOf, all, List.filterMap_append, ancestorsOf, ancestorsOf]

theorem ancestorsOf_cons (node : Node) (rest : List Node) :
    ancestorsOf (node :: rest) = ancestorsOf [node] ++ ancestorsOf rest :=
  ancestorsOf_append [node] rest

@[simp] theorem ancestorsOf_element (e : Element) :
    ancestorsOf [.element e] = e.ancestor?.toList ++ ancestorsOf e.children := by
  cases e
  cases named : Element.ancestor? _ <;>
    simp [ancestorsOf, allElements, elements, Element.descendants, named]

@[simp] theorem ancestorsOf_content (c : Content) : ancestorsOf [.content c] = [] := rfl

@[simp] theorem ancestorsOf_reference (r : Reference) : ancestorsOf [.reference r] = [] := rfl

theorem ancestorsOf_subset {node : Node} {nodes : List Node} (member : node ∈ nodes) :
    ancestorsOf [node] ⊆ ancestorsOf nodes := by
  obtain ⟨before, after, rfl⟩ := List.append_of_mem member
  rw [ancestorsOf_append, ancestorsOf_cons node after]
  exact fun _ inside => List.mem_append_right _ (List.mem_append_left _ inside)

end Node

def Resolved.ancestors : Resolved → List Uri
  | .element e => Node.ancestorsOf [.element e]
  | .document d => Node.ancestorsOf d.children
  | .data _ => []
  | .text _ => []

/-- The children of the element that a target means name no ancestors but those of the target. -/
theorem Resolver.ancestorsOf_subset {uri : Uri} {value : Resolved} {a : Element}
    (means : ancestorOf uri value = .ok a) : Node.ancestorsOf a.children ⊆ value.ancestors := by
  match value with
  | .element e =>
    cases means
    rw [Resolved.ancestors, Node.ancestorsOf_element]
    exact List.subset_append_right _ _
  | .document d =>
    rw [ancestorOf] at means
    split at means
    · rename_i root first
      cases means
      obtain ⟨node, member, same⟩ := List.exists_of_findSome?_eq_some first
      cases node with
      | element e =>
        cases same
        refine fun _ inside => Node.ancestorsOf_subset member ?_
        rw [Node.ancestorsOf_element]
        exact List.mem_append_right _ inside
      | content c => cases same
      | reference r => cases same
    · cases means
  | .data _ => cases means
  | .text _ => cases means

/-- Whether a target means an element does not depend on how it is referred to. -/
theorem Resolver.ancestorOf_congr {uri : Uri} {value : Resolved} {a : Element}
    (means : ancestorOf uri value = .ok a) (other : Uri) : ancestorOf other value = .ok a := by
  unfold ancestorOf at means ⊢
  split at means
  · exact means
  · split at means
    · rename_i found
      simpa [found] using means
    · cases means
  · cases means

theorem Inheritance.ancestorsOf_children_subset (model : ContentModel) (ancestor : Element) :
    Node.ancestorsOf (children model ancestor) ⊆ Node.ancestorsOf ancestor.children := by
  rw [children]
  split
  · exact fun _ inside => inside
  · exact List.nil_subset _

namespace Shared

/-- The value of one key means an element whose children name another key that has a value. -/
inductive Bequeaths (shared : Shared) : String → String → Prop where
  | intro {uri next : Uri} {value : Resolved} {a : Element}
    (kept : shared.results.find? uri.key = some value)
    (means : Resolver.ancestorOf uri value = .ok a)
    (names : next ∈ Node.ancestorsOf a.children)
    (known : shared.results.find? next.key ≠ none) : Bequeaths shared uri.key next.key

/-- What is handed on never leads from a key back to it. -/
def Lineal (shared : Shared) : Prop := ∀ key, ¬ TransGen shared.Bequeaths key key

variable {shared : Shared}

/-- Levels that fall with every step show that nothing comes back. -/
theorem lineal_of_level (level : String → Nat)
    (falls : ∀ {first second}, shared.Bequeaths first second → level second < level first) :
    shared.Lineal := by
  have far {first second : String} (path : TransGen shared.Bequeaths first second) :
      level second < level first := by
    induction path with
    | single step => exact falls step
    | tail _ step ih => exact (falls step).trans ih
  exact fun key cycle => (far cycle).false

theorem mem_keys_of_find? {table : Table Resolved} {key : String} (known : table.find? key ≠ none) :
    key ∈ table.keys := by
  induction table with
  | nil => exact absurd rfl known
  | cons entry rest ih =>
    obtain ⟨name, value⟩ := entry
    rw [Table.find?] at known
    split at known
    · rename_i same
      simp [Table.keys, same]
    · exact List.mem_cons_of_mem _ (ih known)

open Classical in
noncomputable def heirs (shared : Shared) (key : String) : Finset String :=
  shared.results.keys.toFinset.filter (TransGen shared.Bequeaths key)

open Classical in
/-- The level of a key without a value is zero; any other is above all its heirs. -/
noncomputable def level (shared : Shared) (key : String) : Nat :=
  if shared.results.find? key = none then 0 else (shared.heirs key).card + 1

theorem mem_heirs {key heir : String} :
    heir ∈ shared.heirs key ↔ TransGen shared.Bequeaths key heir := by
  classical
  simp only [heirs, Finset.mem_filter, List.mem_toFinset, and_iff_right_iff_imp]
  intro path
  obtain ⟨_, _, step⟩ := TransGen.tail'_iff.mp path
  obtain ⟨_, _, _, known⟩ := step
  exact mem_keys_of_find? known

/-- There are no more levels than values. -/
theorem level_le (lineal : shared.Lineal) (key : String) :
    shared.level key ≤ shared.results.length := by
  classical
  rw [level]
  split
  · exact Nat.zero_le _
  · rename_i known
    have inside : shared.heirs key ⊂ shared.results.keys.toFinset := by
      refine (Finset.ssubset_iff_of_subset (Finset.filter_subset _ _)).mpr ⟨key, ?_, ?_⟩
      · exact List.mem_toFinset.mpr (mem_keys_of_find? known)
      · exact fun itself => lineal key (mem_heirs.mp itself)
    calc (shared.heirs key).card + 1 ≤ shared.results.keys.toFinset.card :=
          Finset.card_lt_card inside
      _ ≤ shared.results.keys.length := List.toFinset_card_le _
      _ = shared.results.length := List.length_map _

/-- What a value hands on leads to lower levels. -/
theorem level_lt (lineal : shared.Lineal) {uri next : Uri} {value : Resolved} {a : Element}
    (kept : shared.results.find? uri.key = some value)
    (means : Resolver.ancestorOf uri value = .ok a)
    (names : next ∈ Node.ancestorsOf a.children) : shared.level next.key < shared.level uri.key := by
  classical
  rw [level.eq_1 shared uri.key, if_neg (by simp [kept]), level]
  split
  · exact Nat.succ_pos _
  · rename_i known
    have step : shared.Bequeaths uri.key next.key := .intro kept means names known
    have inside : shared.heirs next.key ⊂ shared.heirs uri.key := by
      refine (Finset.ssubset_iff_of_subset fun heir path => ?_).mpr
        ⟨next.key, mem_heirs.mpr (.single step), fun itself => lineal _ (mem_heirs.mp itself)⟩
      exact mem_heirs.mpr (.head step (mem_heirs.mp path))
    exact Nat.succ_lt_succ (Finset.card_lt_card inside)

/-- The lock of a key is held by another task. -/
def Withheld (shared : Shared) (task : Nat) (key : String) : Prop :=
  ∃ lock, shared.locks.find? key = some lock ∧ lock.holder ≠ task

end Shared

namespace Session

/-- A task that works alone will never find an ancestor at the key: its value is no element, or it has
failed, or another task holds its lock for good. -/
def Barren (now : Session) (key : String) : Prop :=
  match now.shared.results.find? key with
  | some value => ∀ uri a, Resolver.ancestorOf uri value ≠ .ok a
  | none => key ∉ now.context.resolving ∧
      (now.shared.failures.find? key ≠ none ∨ now.shared.Withheld now.context.task key)

/-- All ancestors that trees name are barren or below a level. -/
def Below (now : Session) (level : String → Nat) (bound : Nat) (nodes : List Node) : Prop :=
  ∀ next ∈ Node.ancestorsOf nodes, now.Barren next.key ∨ level next.key < bound

/-- Whatever a value hands on is barren or below the level of its key. -/
def Layered (level : String → Nat) (now : Session) : Prop :=
  ∀ ⦃uri value a⦄, now.shared.results.find? uri.key = some value →
    Resolver.ancestorOf uri value = .ok a → now.Below level (level uri.key) a.children

variable {level : String → Nat} {now before after last : Session} {key : String}

theorem barren_of_value {value : Resolved} (kept : now.shared.results.find? key = some value) :
    now.Barren key ↔ ∀ uri a, Resolver.ancestorOf uri value ≠ .ok a := by
  rw [Barren, kept]

theorem barren_of_none (unknown : now.shared.results.find? key = none) :
    now.Barren key ↔ key ∉ now.context.resolving ∧
      (now.shared.failures.find? key ≠ none ∨ now.shared.Withheld now.context.task key) := by
  rw [Barren, unknown]

/-- The values of a session are layered if nothing comes back. -/
theorem layered_of_lineal (lineal : now.shared.Lineal) : now.Layered now.shared.level :=
  fun _ _ _ kept means _ names => .inr (Shared.level_lt lineal kept means names)

/-- In a layered session nothing comes back. -/
theorem Layered.lineal (layered : now.Layered level) : now.shared.Lineal := by
  -- A key on a cycle hands something on, so it is not barren and levels fall all along the cycle.
  have far {first second : String} (path : TransGen now.shared.Bequeaths first second)
      (fertile : ¬ now.Barren second) : level second < level first := by
    induction path with
    | single step =>
      obtain ⟨kept, means, names, known⟩ := step
      exact (layered kept means _ names).resolve_left fertile
    | tail path step ih =>
      obtain ⟨kept, means, names, known⟩ := step
      have falls := (layered kept means _ names).resolve_left fertile
      refine falls.trans (ih fun barren => ?_)
      exact (barren_of_value kept).mp barren _ _ means
  intro key cycle
  obtain ⟨_, step, _⟩ := TransGen.head'_iff.mp cycle
  have fertile : ¬ now.Barren key := by
    obtain ⟨kept, means, _, _⟩ := step
    exact fun barren => (barren_of_value kept).mp barren _ _ means
  exact (far cycle fertile).false

theorem Below.subset {bound : Nat} {nodes others : List Node} (below : now.Below level bound nodes)
    (subset : Node.ancestorsOf others ⊆ Node.ancestorsOf nodes) : now.Below level bound others :=
  fun next names => below next (subset names)

/-- How a session may become another one while one task works alone. -/
structure Proceeds (level : String → Nat) (before after : Session) : Prop where
  like : before.context.Like after.context
  barren : ∀ {key}, before.Barren key → after.Barren key
  layered : before.Layered level → after.Layered level
  spares : ∀ key ∈ before.context.resolving,
    after.shared.results.find? key = before.shared.results.find? key
  cutOff : after.shared.cutOff = before.shared.cutOff

namespace Proceeds

theorem refl (level : String → Nat) (session : Session) : Proceeds level session session :=
  ⟨rfl, id, id, fun _ _ => rfl, rfl⟩

theorem resolving_eq (proceeds : Proceeds level before after) :
    after.context.resolving = before.context.resolving := by
  rw [proceeds.like]

theorem trans (first : Proceeds level before after) (second : Proceeds level after last) :
    Proceeds level before last where
  like := first.like.trans second.like
  barren := second.barren ∘ first.barren
  layered := second.layered ∘ first.layered
  spares key member :=
    (second.spares key (first.resolving_eq ▸ member)).trans (first.spares key member)
  cutOff := second.cutOff.trans first.cutOff

theorem below (proceeds : Proceeds level before after) {bound : Nat} {nodes : List Node}
    (below : before.Below level bound nodes) : after.Below level bound nodes :=
  fun next names => (below next names).imp_left proceeds.barren

/-- Nothing changes for barren keys while values and failures stay and others keep their locks. -/
theorem of_same (like : before.context.Like after.context)
    (results : after.shared.results = before.shared.results)
    (failures : after.shared.failures = before.shared.failures)
    (withheld : ∀ {key}, before.shared.Withheld before.context.task key →
      after.shared.Withheld before.context.task key)
    (cutOff : after.shared.cutOff = before.shared.cutOff) : Proceeds level before after := by
  have barren {key : String} (barren : before.Barren key) : after.Barren key := by
    have task : after.context.task = before.context.task := by rw [like]
    have resolving : after.context.resolving = before.context.resolving := by rw [like]
    unfold Barren at barren ⊢
    rw [results]
    split at barren
    · rename_i kept
      simpa only [kept] using barren
    · rename_i unknown
      simp only [failures, task, resolving]
      exact ⟨barren.1, barren.2.imp_right withheld⟩
  refine ⟨like, barren, fun layered => ?_, fun _ _ => by rw [results], cutOff⟩
  exact fun _ _ _ kept means next names => (layered (results ▸ kept) means next names).imp_left barren

end Proceeds
end Session
end LinkedMarkup
