import LinkedMarkup.IdIndex
import LinkedMarkup.Proofs.Tree.Selection
import LinkedMarkup.Tag.Validation
import Mathlib.Data.List.Induction

namespace LinkedMarkup

namespace Table
variable {α : Type} {table : Table α}

theorem mem_insert {key : String} {value : α} {entry : String × α} (member : entry ∈ table.insert key value) :
    entry = (key, value) ∨ entry ∈ table := by
  induction table with
  | nil => exact .inl (List.mem_singleton.mp member)
  | cons first rest ih =>
    rw [insert] at member
    split at member
    · exact List.mem_cons.mp member
    · split at member
      · exact (List.mem_cons.mp member).imp_right (List.mem_cons_of_mem _)
      · rcases List.mem_cons.mp member with here | later
        · exact .inr (List.mem_cons.mpr (.inl here))
        · exact (ih later).imp_right (List.mem_cons_of_mem _)

theorem sorted_insert (sorted : table.Sorted) (key : String) (value : α) :
    (table.insert key value).Sorted := by
  induction table with
  | nil => exact List.pairwise_singleton _ _
  | cons first rest ih =>
    obtain ⟨above, others⟩ := List.pairwise_cons.mp sorted
    rw [insert]
    split
    · next below =>
      refine List.pairwise_cons.mpr ⟨List.forall_mem_cons.mpr ⟨below, fun entry member => ?_⟩, sorted⟩
      exact String.lt_trans below (above entry member)
    · next behind =>
      split
      · next same =>
        subst same
        exact List.pairwise_cons.mpr ⟨above, others⟩
      · next different =>
        refine List.pairwise_cons.mpr ⟨fun entry member => ?_, ih others⟩
        rcases mem_insert member with rfl | old
        · exact Std.lt_of_le_of_ne (String.not_lt.mp behind) (Ne.symm different)
        · exact above entry old

theorem mem_iff_find? (sorted : table.Sorted) (key : String) (value : α) :
    (key, value) ∈ table ↔ table.find? key = some value := by
  induction table with
  | nil => simp [find?]
  | cons first rest ih =>
    obtain ⟨above, others⟩ := List.pairwise_cons.mp sorted
    rw [find?, List.mem_cons, ih others]
    obtain ⟨name, old⟩ := first
    by_cases same : key = name
    · subst same
      have absent : find? rest key ≠ some value := fun found =>
        String.lt_irrefl key (above _ ((ih others).mpr found))
      simp [absent, eq_comm]
    · simp [same]

end Table

/-! ### The index -/

namespace IdIndex

/-- What the index takes down for an element at its place. -/
def noted? (found : Place × Element) : Option (String × NodePath) :=
  found.2.id?.map fun id => (id, found.1.path)

/-- The index is made from the places in document order; of several entries for one id the first counts. -/
theorem collectAll_eq_foldl (above : Place) (index : Nat) (nodes : List Node) (table : Table NodePath) :
    collectAll above.path index nodes table =
      ((Node.allPlaces above index nodes).filterMap noted?).foldl
        (fun table entry => table.insertNew entry.1 entry.2) table := by
  induction nodes using Node.forest_induction generalizing above index table with
  | nil => rw [collectAll, Node.allPlaces_nil, List.filterMap_nil, List.foldl_nil]
  | leaf node rest leaf others =>
    have stays : collect (above.path ++ [index]) node table = table := by
      cases node with
      | element e => cases leaf
      | content | reference => simp [collect]
    rw [collectAll, stays, others, Node.allPlaces_leaf leaf]
  | element e rest below others =>
    let place : Place := ⟨above.parents, above.path ++ [index]⟩
    have noted : collect (above.path ++ [index]) (.element e) table =
        collectAll (place.within e).path 0 e.children
          ((noted? (place, e)).toList.foldl (fun table entry => table.insertNew entry.1 entry.2) table) := by
      cases e
      rw [collect, collectElement, noted?, Element.id?, Element.attribute?]
      cases (Table.find? _ "id").bind Value.asText? <;> rfl
    have split : (Node.allPlaces above index (.element e :: rest)).filterMap noted? =
        (noted? (place, e)).toList ++ ((Node.allPlaces (place.within e) 0 e.children).filterMap noted? ++
          (Node.allPlaces above (index + 1) rest).filterMap noted?) := by
      rw [Node.allPlaces_element, List.filterMap_cons, List.filterMap_append]
      cases noted? (place, e) <;> rfl
    rw [collectAll, noted, others, below, split, List.foldl_append, List.foldl_append]

/-- The entries for an id are those of its carriers. -/
theorem find?_filterMap_noted? (found : List (Place × Element)) (id : String) :
    Table.find? (found.filterMap noted?) id =
      (found.find? fun found => found.2.id? == some id).map (·.1.path) := by
  induction found with
  | nil => rfl
  | cons first rest ih =>
    rw [List.filterMap_cons, List.find?_cons, noted?]
    cases own : first.2.id? with
    | none => exact ih
    | some name =>
      rw [Option.map_some, Table.find?, ih]
      by_cases same : id = name
      · simp [same]
      · have other : (some name == some id) = false := by simpa using Ne.symm same
        simp [same, other]

variable {d : Document} {id : String}

theorem path?_ofDocument (d : Document) (id : String) : (ofDocument d).path? id =
    (d.places.find? fun found => found.2.id? == some id).map (·.1.path) := by
  have collected := collectAll_eq_foldl {} 0 d.children []
  rw [path?, ofDocument]
  show Table.find? (collectAll [] 0 d.children []) id = _
  rw [collected, Table.find?_foldl_insertNew, find?_filterMap_noted?]
  exact Option.none_or

theorem find?_places (d : Document) (id : String) :
    (d.places.find? fun found => found.2.id? == some id).map Prod.snd =
      d.elements.find? (·.id? == some id) := by
  rw [← d.map_places, List.find?_map]
  rfl

theorem find?_ofDocument (d : Document) (id : String) :
    (ofDocument d).find? id = d.elements.find? (·.id? == some id) := by
  rw [find?, path?_ofDocument, ← find?_places]
  cases first : d.places.find? fun found => found.2.id? == some id with
  | none => rfl
  | some found =>
    exact (Document.mem_places_iff.mp (List.mem_of_find?_eq_some first)).1

/-- The indexed path is the first at which a carrier stands. -/
theorem path?_eq_some_iff {path : NodePath} : (ofDocument d).path? id = some path ↔
    (∃ e, d.elementAt? path = some e ∧ e.id? = some id) ∧
      ∀ other e, d.elementAt? other = some e → e.id? = some id → ¬ other < path := by
  have least {found : Place × Element}
      (first : (d.places.find? fun found => found.2.id? == some id) = some found) :
      (d.elementAt? found.1.path = some found.2 ∧ found.2.id? = some id) ∧
        ∀ other e, d.elementAt? other = some e → e.id? = some id → ¬ other < found.1.path := by
    obtain ⟨carries, before, after, split, none⟩ := List.find?_eq_some_iff_append.mp first
    have ascending := d.places_ascending
    rw [split, List.pairwise_append] at ascending
    have stands := (Document.mem_places_iff.mp (List.mem_of_find?_eq_some first)).1
    refine ⟨⟨stands, beq_iff_eq.mp carries⟩, fun other e here own => ?_⟩
    have member : ((⟨Node.framesAbove d.children other, other⟩ : Place), e) ∈ d.places :=
      Document.mem_places_iff.mpr ⟨here, rfl⟩
    rw [split, List.mem_append, List.mem_cons] at member
    rcases member with early | same | late
    · have other := none _ early
      simp [own] at other
    · rw [← same]
      exact List.lt_irrefl _
    · exact List.lt_asymm ((List.pairwise_cons.mp ascending.2.1).1 _ late)
  rw [path?_ofDocument, Option.map_eq_some_iff]
  constructor
  · rintro ⟨found, first, rfl⟩
    obtain ⟨stands, before⟩ := least first
    exact ⟨⟨found.2, stands⟩, before⟩
  · rintro ⟨⟨e, here, own⟩, before⟩
    have member : ((⟨Node.framesAbove d.children path, path⟩ : Place), e) ∈ d.places :=
      Document.mem_places_iff.mpr ⟨here, rfl⟩
    cases first : d.places.find? fun found => found.2.id? == some id with
    | none =>
      have absent := List.find?_eq_none.mp first _ member
      simp [own] at absent
    | some found =>
      obtain ⟨⟨stands, carries⟩, early⟩ := least first
      have same := List.le_antisymm (List.not_lt.mp (early path e here own))
        (List.not_lt.mp (before _ _ stands carries))
      exact ⟨found, rfl, same⟩

end IdIndex

/-! ### Repeated ids -/

namespace Validation

def positionsOf (elements : List Element) (id : String) : List Span :=
  (elements.filter (·.id? == some id)).map (·.position)

private def listed (table : Table (List Span)) (e : Element) : Table (List Span) :=
  match e.id? with
  | some id => table.insert id ((table.find? id).getD [] ++ [e.position])
  | none => table

private theorem sorted_listed {table : Table (List Span)} (sorted : table.Sorted) (e : Element) :
    (listed table e).Sorted := by
  rw [listed]
  split
  · exact Table.sorted_insert sorted _ _
  · exact sorted

private theorem find?_foldl_listed (elements : List Element) (id : String) :
    Table.find? (elements.foldl listed []) id =
      if positionsOf elements id = [] then none else some (positionsOf elements id) := by
  induction elements using List.reverseRecOn with
  | nil => rfl
  | append_singleton elements e ih =>
    have more : positionsOf (elements ++ [e]) id = positionsOf elements id ++ positionsOf [e] id := by
      rw [positionsOf, List.filter_append, List.map_append]
      rfl
    rw [List.foldl_append, List.foldl_cons, List.foldl_nil, listed, more]
    cases own : e.id? with
    | none =>
      have other : positionsOf [e] id = [] := by simp [positionsOf, own]
      rw [other, List.append_nil]
      exact ih
    | some name =>
      dsimp only
      rw [Table.find?_insert]
      by_cases same : id = name
      · subst same
        have here : positionsOf [e] id = [e.position] := by simp [positionsOf, own]
        rw [if_pos rfl, ih, here]
        by_cases first : positionsOf elements id = []
        · simp [first]
        · simp [first]
      · have other : positionsOf [e] id = [] := by simp [positionsOf, own, Ne.symm same]
        rw [if_neg same, other, List.append_nil]
        exact ih

variable {d : Document}

theorem carriers_sorted (d : Document) : (carriers d).Sorted := by
  show (d.elements.foldl listed []).Sorted
  exact List.foldlRecOn d.elements listed List.Pairwise.nil fun _ sorted e _ => sorted_listed sorted e

/-- The table of carriers has the ids that occur, each with the positions of all its carriers. -/
theorem mem_carriers_iff {id : String} {positions : List Span} : (id, positions) ∈ carriers d ↔
    positions = positionsOf d.elements id ∧ positions ≠ [] := by
  have found : (carriers d).find? id = _ := find?_foldl_listed d.elements id
  rw [Table.mem_iff_find? (carriers_sorted d), found]
  split
  · next none => exact ⟨nofun, fun ⟨same, occurs⟩ => absurd (same.trans none) occurs⟩
  · next occurs =>
    rw [Option.some.injEq]
    exact ⟨fun same => ⟨same.symm, same ▸ occurs⟩, fun ⟨same, _⟩ => same.symm⟩

/-- The ids that are listed as repeated. -/
theorem mem_repeated_iff {id : String} {positions : List Span} :
    (id, positions) ∈ (carriers d).filter (fun (_, positions) => positions.length > 1) ↔
      positions = positionsOf d.elements id ∧ 1 < positions.length := by
  rw [List.mem_filter, mem_carriers_iff, decide_eq_true_iff, and_assoc]
  refine and_congr_right fun _ => ⟨And.right, fun several => ⟨?_, several⟩⟩
  rintro rfl
  cases several

theorem duplicateIds?_eq_some {error : ValidationError} (failed : duplicateIds? d = some error) :
    ∃ duplicates, error = .duplicateIds duplicates ∧ duplicates.Sorted ∧
      ∀ id positions, (id, positions) ∈ duplicates ↔
        positions = positionsOf d.elements id ∧ 1 < positions.length := by
  rw [duplicateIds?] at failed
  dsimp only at failed
  split at failed
  · cases failed
  · cases failed
    exact ⟨_, rfl, (carriers_sorted d).filter _, fun _ _ => mem_repeated_iff⟩

theorem duplicateIds?_eq_none_iff :
    duplicateIds? d = none ↔ ∀ id, (positionsOf d.elements id).length ≤ 1 := by
  have repeated : duplicateIds? d = none ↔
      (carriers d).filter (fun (_, positions) => positions.length > 1) = [] := by
    rw [duplicateIds?, ← List.isEmpty_iff]
    dsimp only
    split
    · next none => simp [none]
    · next some => simp [some]
  rw [repeated, List.eq_nil_iff_forall_not_mem]
  constructor
  · intro unique id
    by_contra several
    exact unique (id, positionsOf d.elements id) (mem_repeated_iff.mpr ⟨rfl, Nat.lt_of_not_le several⟩)
  · rintro single ⟨id, positions⟩ member
    obtain ⟨rfl, several⟩ := mem_repeated_iff.mp member
    exact absurd (single id) (Nat.not_le_of_lt several)

end Validation

namespace Document

/-- The index of ids, the selector of an id and the check for repeated ids agree on the order of the document.
An id stands for the first element that has it, in the order of all elements, which is also the order of
their paths; and the check fails if and only if elements share an id, with all such ids, once each and
in ascending order, and with the positions of all their carriers in document order. -/
theorem ids_agree (d : Document) (around : Surroundings) :
    (∀ id, let index := IdIndex.ofDocument d
      index.find? id = d.elements.find? (·.id? == some id) ∧
      (∀ path, index.path? id = some path → d.nodeAt? path = (index.find? id).map .element) ∧
      (∀ path, index.path? id = some path ↔
        (∃ e, d.elementAt? path = some e ∧ e.id? = some id) ∧
          ∀ other e, d.elementAt? other = some e → e.id? = some id → ¬ other < path) ∧
      Selector.select d around (.id id) = ((index.find? id).map .element).toList) ∧
    ((Validation.duplicateIds? d).isSome = true ↔
      ∃ id, 1 < (d.elements.filter (·.id? == some id)).length) ∧
    ∀ error, Validation.duplicateIds? d = some error →
      ∃ duplicates, error = .duplicateIds duplicates ∧ duplicates.Sorted ∧
        ∀ id positions, (id, positions) ∈ duplicates ↔
          positions = (d.elements.filter (·.id? == some id)).map (·.position) ∧ 1 < positions.length := by
  refine ⟨fun id => ⟨IdIndex.find?_ofDocument d id, fun path indexed => ?_,
    fun path => IdIndex.path?_eq_some_iff, ?_⟩, ?_, fun error => Validation.duplicateIds?_eq_some⟩
  · obtain ⟨⟨e, here, _⟩, _⟩ := IdIndex.path?_eq_some_iff.mp indexed
    have found : (IdIndex.ofDocument d).find? id = some e := by
      rw [IdIndex.find?, indexed]
      exact here
    rw [found]
    exact elementAt?_eq_some_iff.mp here
  · rw [IdIndex.find?_ofDocument]
    rfl
  · rw [Option.isSome_iff_ne_none, ne_eq, Validation.duplicateIds?_eq_none_iff]
    simp [Validation.positionsOf, List.length_map]

/-- Two elements share an id, and a third one has its own behind a text and a reference. -/
theorem ids_agree_repeated :
    let named (tag id : String) (position : Span) (children : List Node) : Node :=
      .element ⟨tag, [("id", .text id)], children, [], position⟩
    let d : Document := ⟨[.content { text := "text" },
      named "a" "x" ⟨⟨1, 5, 4⟩, ⟨1, 9, 8⟩⟩ [.reference { protocol := "id", path := "x" }, named "b" "y" {} []],
      named "c" "x" ⟨⟨2, 1, 9⟩, ⟨2, 5, 13⟩⟩ []], {}⟩
    d.nodeAt? [1, 1] = ((IdIndex.ofDocument d).find? "y").map .element ∧
      ∃ duplicates, Validation.duplicateIds? d = some (.duplicateIds duplicates) ∧
        ("x", [⟨⟨1, 5, 4⟩, ⟨1, 9, 8⟩⟩, ⟨⟨2, 1, 9⟩, ⟨2, 5, 13⟩⟩]) ∈ duplicates := by
  intro named d
  obtain ⟨known, fails, tells⟩ := ids_agree d {}
  have indexed : (IdIndex.ofDocument d).path? "y" = some [1, 1] := by decide +kernel
  obtain ⟨error, failed⟩ := Option.isSome_iff_exists.mp (fails.mpr ⟨"x", by decide +kernel⟩)
  obtain ⟨duplicates, rfl, _, lists⟩ := tells error failed
  exact ⟨(known "y").2.1 [1, 1] indexed, duplicates, failed, (lists _ _).mpr ⟨by decide +kernel, by decide⟩⟩

end Document
end LinkedMarkup
