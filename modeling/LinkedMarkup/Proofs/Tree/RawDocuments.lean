import LinkedMarkup.Markup
import LinkedMarkup.Proofs.Text.UriText
import LinkedMarkup.Proofs.Tree.Ids
import LinkedMarkup.Proofs.Tree.Outline
import Mathlib.Data.List.Forall2

namespace LinkedMarkup

namespace Table
variable {α : Type} {table other : Table α}

/-- Tables that are sorted are known by their look-ups. -/
theorem Sorted.ext (sorted : table.Sorted) (sorted' : other.Sorted)
    (same : ∀ key, table.find? key = other.find? key) : table = other := by
  have distinct {table : Table α} (sorted : table.Sorted) : table.Nodup := by
    refine List.Pairwise.imp ?_ sorted
    rintro entry _ below rfl
    exact String.lt_irrefl _ below
  have members (entry : String × α) : entry ∈ table ↔ entry ∈ other := by
    rw [mem_iff_find? sorted, mem_iff_find? sorted', same]
  refine ((List.perm_ext_iff_of_nodup (distinct sorted) (distinct sorted')).mpr members).eq_of_pairwise ?_
    sorted sorted'
  intro first second _ _ below above
  exact absurd above (String.lt_asymm below)

end Table

def Xml.Tree.isSolid : Xml.Tree → Bool
  | .element .. => true
  | .text words _ => words.toList.any fun c => !Unicode.isBlank c
  | .comment => false
  | .instruction => false

/-- A node that no pass has touched. The reference tag is `chosen`. -/
inductive Node.Raw (chosen : String) : Node → Prop where
  | element {e : Element} (other : Text.asciiLower e.tag ≠ Text.asciiLower chosen)
      (written : ∀ entry ∈ e.attributes, ∃ text, entry.2 = .text text) (fresh : e.metadata = []) :
      Raw chosen (.element e)
  | content {c : Content} (solid : ∃ char ∈ c.text.toList, Unicode.isBlank char = false) :
      Raw chosen (.content c)
  | reference {r : Reference} (unresolved : r.resolved = none) (scheme : Uri.Scheme r.protocol.toList)
      (lower : Text.asciiLower r.protocol = r.protocol) (path : r.path ≠ "")
      (own : Uri.parse r.key = .ok ⟨r.protocol, r.path⟩) : Raw chosen (.reference r)

namespace Markup

/-- None of the tags is that of references. The case of ASCII letters does not count. -/
def Clear (chosen : String) (tags : List String) : Prop :=
  ∀ tag ∈ tags, Text.asciiLower tag ≠ Text.asciiLower chosen

instance (chosen : String) (tags : List String) : Decidable (Clear chosen tags) :=
  inferInstanceAs (Decidable (∀ tag ∈ tags, _))

/-- A part that a document shows: what is solid and stands in no element for a reference. -/
def shows (chosen : String) (part : List String × Xml.Tree) : Bool :=
  decide (Clear chosen part.1) && part.2.isSolid

/-- A part of a tree and the node that it becomes, each without what it holds. Of attributes with one name
the last counts. -/
inductive Becomes (chosen : String) : Xml.Tree → Node → Prop where
  | element {tag : String} {attributes : List Xml.Attribute} {below : List Xml.Tree} {span : Span}
      {table : Table Value} {children : List Node} (other : Text.asciiLower tag ≠ Text.asciiLower chosen)
      (sorted : table.Sorted)
      (valued : ∀ name, table.find? name =
        (attributes.reverse.find? (·.name == name)).map fun a => .text a.value) :
      Becomes chosen (.element tag attributes below span)
        (.element { tag, attributes := table, children, position := span })
  | text {text : String} {span : Span} (solid : ∃ c ∈ text.toList, Unicode.isBlank c = false) :
      Becomes chosen (.text text span) (.content { text, position := span })
  | reference {tag target : String} {attributes : List Xml.Attribute} {below : List Xml.Tree} {span : Span}
      {scheme path : List Char} (own : Text.asciiLower tag = Text.asciiLower chosen)
      (given : target? attributes = some target)
      (names : Uri.Names (Text.trimChars target.toList) scheme path) :
      Becomes chosen (.element tag attributes below span)
        (.reference
          { protocol := Text.asciiLower (String.ofList scheme), path := String.ofList path, position := span })

/-- A part becomes a node in the same place. -/
def Stands (chosen : String) (part : List String × Xml.Tree) (shown : List String × Node) : Prop :=
  shown.1 = part.1 ∧ Becomes chosen part.2 shown.2

/-- An element for a reference has a target that is one. -/
def Aims (chosen : String) : Xml.Tree → Prop
  | .element tag attributes _ _ => Text.asciiLower tag = Text.asciiLower chosen →
      ∃ target scheme path, target? attributes = some target ∧
        Uri.Names (Text.trimChars target.toList) scheme path
  | _ => True

/-- Why an element for a reference becomes none. -/
def fault? (chosen : String) : Xml.Tree → Option SyntaxError
  | .element tag attributes _ span =>
    if Text.asciiLower tag = Text.asciiLower chosen then
      match reference tag attributes span with
      | .error error => some error
      | .ok _ => none
    else none
  | _ => none

/-- The fault of the foremost part that has one. -/
def foremost? (chosen : String) (parts : List (List String × Xml.Tree)) : Option SyntaxError :=
  parts.findSome? fun part => fault? chosen part.2

/-- What comes of reading parts one after another. -/
inductive Reads (chosen : String) (parts : List (List String × Xml.Tree)) :
    Except SyntaxError (List (List String × Node)) → Prop where
  | fails {error : SyntaxError} (fault : foremost? chosen parts = some error) : Reads chosen parts (.error error)
  | ends {shown : List (List String × Node)} (faultless : foremost? chosen parts = none)
      (stand : List.Forall₂ (Stands chosen) parts shown) : Reads chosen parts (.ok shown)

variable {chosen : String} {around : List String} {parts more : List (List String × Xml.Tree)}

/-! ### Single parts -/

theorem isReferenceTag_iff {tag : String} :
    isReferenceTag chosen tag = true ↔ Text.asciiLower tag = Text.asciiLower chosen := beq_iff_eq

theorem find?_attributeTable (attributes : List Xml.Attribute) (name : String) :
    (attributeTable attributes).find? name =
      (attributes.reverse.find? (·.name == name)).map fun a => .text a.value := by
  induction attributes using List.reverseRecOn with
  | nil => rfl
  | append_singleton before last ih =>
    have more : attributeTable (before ++ [last]) =
        (attributeTable before).insert last.name (.text last.value) := by
      simp only [attributeTable, Table.ofList, List.map_append, List.foldl_append]
      rfl
    rw [more, Table.find?_insert, ih, List.reverse_append, List.reverse_singleton, List.singleton_append,
      List.find?_cons]
    by_cases same : name = last.name
    · simp [same]
    · have other : (last.name == name) = false := beq_eq_false_iff_ne.mpr (Ne.symm same)
      rw [if_neg same, other]

theorem sorted_attributeTable (attributes : List Xml.Attribute) : (attributeTable attributes).Sorted :=
  List.foldlRecOn _ _ List.Pairwise.nil fun _ sorted entry _ => Table.sorted_insert sorted entry.1 entry.2

theorem reference_eq_ok {tag : String} {attributes : List Xml.Attribute} {span : Span} {r : Reference}
    (made : reference tag attributes span = .ok r) :
    ∃ target scheme path, target? attributes = some target ∧
      Uri.Names (Text.trimChars target.toList) scheme path ∧
      r = .ofUri (.make (String.ofList scheme) (String.ofList path)) span := by
  unfold reference at made
  split at made
  · cases made
  · next target given =>
    split at made
    · cases made
    · next uri parsed =>
      obtain ⟨scheme, path, names, rfl⟩ := Uri.parse_eq_ok_iff.mp parsed
      cases made
      exact ⟨target, scheme, path, given, names, rfl⟩

theorem fault?_eq_none_iff {tree : Xml.Tree} : fault? chosen tree = none ↔ Aims chosen tree := by
  cases tree with
  | text | comment | instruction => simp [fault?, Aims]
  | element tag attributes below span =>
    rw [fault?, Aims]
    by_cases own : Text.asciiLower tag = Text.asciiLower chosen
    · rw [if_pos own]
      constructor
      · intro faultless _
        split at faultless
        · cases faultless
        · next r made =>
          obtain ⟨target, scheme, path, given, names, _⟩ := reference_eq_ok made
          exact ⟨target, scheme, path, given, names⟩
      · intro aims
        obtain ⟨target, scheme, path, given, names⟩ := aims own
        simp [reference, given, Uri.parse_eq_ok_iff.mpr ⟨scheme, path, names, rfl⟩]
    · simp [own]

theorem Becomes.aims {tree : Xml.Tree} {node : Node} (becomes : Becomes chosen tree node) : Aims chosen tree := by
  cases becomes with
  | element other => exact fun own => absurd own other
  | text => trivial
  | @reference tag target attributes below span scheme path _ given names =>
    exact fun _ => ⟨target, scheme, path, given, names⟩

theorem Becomes.alone_eq {tree : Xml.Tree} {node node' : Node} (becomes : Becomes chosen tree node)
    (becomes' : Becomes chosen tree node') : node.alone = node'.alone := by
  cases becomes with
  | element other sorted valued =>
    cases becomes' with
    | element _ sorted' valued' =>
      cases sorted.ext sorted' fun name => (valued name).trans (valued' name).symm
      rfl
    | reference own => exact absurd own other
  | text => cases becomes'; rfl
  | reference own given names =>
    cases becomes' with
    | element other => exact absurd own other
    | reference _ given' names' =>
      cases given.symm.trans given'
      have first := Uri.parse_eq_ok_iff.mpr ⟨_, _, names, rfl⟩
      have second := Uri.parse_eq_ok_iff.mpr ⟨_, _, names', rfl⟩
      obtain ⟨protocols, paths⟩ := Uri.mk.inj (Except.ok.inj (first.symm.trans second))
      rw [protocols, paths]

/-- What parts become is raw. -/
theorem Becomes.raw {tree : Xml.Tree} {node : Node} (becomes : Becomes chosen tree node) : node.Raw chosen := by
  cases becomes with
  | element other sorted valued =>
    refine .element other (fun entry member => ?_) rfl
    have found := (Table.mem_iff_find? sorted entry.1 entry.2).mp member
    rw [valued] at found
    obtain ⟨a, _, same⟩ := Option.map_eq_some_iff.mp found
    exact ⟨a.value, same.symm⟩
  | text solid => exact .content solid
  | @reference tag target attributes below span scheme path own given names =>
    have read : Uri.parse target = .ok (.make (String.ofList scheme) (String.ofList path)) :=
      Uri.parse_eq_ok_iff.mpr ⟨scheme, path, names, rfl⟩
    have again := Uri.parse_key read
    rw [Uri.make] at again
    refine .reference rfl ?_ ?_ ?_ again
    · rw [Uri.asciiLower_ofList, String.toList_ofList]
      exact names.valid.map_toLower
    · rw [Uri.asciiLower_ofList, Uri.asciiLower_ofList, names.valid.map_toLower_twice]
    · intro empty
      exact names.written (String.ofList_inj.mp empty)

/-! ### Trees -/

/-- Nothing shows of what an element for a reference holds. -/
theorem filter_shows_eq_nil {tag : String} (own : Text.asciiLower tag = Text.asciiLower chosen)
    (around : List String) (trees : List Xml.Tree) :
    (Xml.Tree.allParts (tag :: around) trees).filter (shows chosen) = [] := by
  rw [List.filter_eq_nil_iff]
  intro part member shown
  have inside : tag ∈ part.1 :=
    (Xml.Tree.suffix_of_mem_allParts (tag :: around) trees part member).subset List.mem_cons_self
  have clear : Clear chosen part.1 := of_decide_eq_true (Bool.and_eq_true_iff.mp shown).1
  exact clear tag inside own

namespace Reads

theorem append {shown : List (List String × Node)} {outcome : Except SyntaxError (List (List String × Node))}
    (first : Reads chosen parts (.ok shown)) (second : Reads chosen more outcome) :
    Reads chosen (parts ++ more) (outcome.map (shown ++ ·)) := by
  cases first with
  | ends faultless stand =>
    have behind : foremost? chosen (parts ++ more) = foremost? chosen more := by
      rw [foremost?, List.findSome?_append, ← foremost?, faultless]
      exact Option.none_or
    cases second with
    | fails fault => exact .fails (behind.trans fault)
    | ends faultless' stand' => exact .ends (behind.trans faultless') (List.rel_append stand stand')

theorem append_error {error : SyntaxError} (first : Reads chosen parts (.error error))
    (more : List (List String × Xml.Tree)) : Reads chosen (parts ++ more) (.error error) := by
  cases first with
  | fails fault =>
    refine .fails ?_
    rw [foremost?, List.findSome?_append, ← foremost?, fault]
    rfl

theorem nil : Reads chosen [] (.ok []) := .ends rfl .nil

/-- An element that is for no reference. -/
theorem element {tag : String} (other : Text.asciiLower tag ≠ Text.asciiLower chosen) (around : List String)
    (attributes : List Xml.Attribute) (below : List Xml.Tree) (children : List Node) (span : Span) :
    Reads chosen [(around, .element tag attributes below span)]
      (.ok [(around, .element { tag, attributes := attributeTable attributes, children, position := span })]) := by
  refine .ends (by simp [foremost?, fault?, other]) (.cons ⟨rfl, ?_⟩ .nil)
  exact .element other (sorted_attributeTable attributes) (find?_attributeTable attributes)

theorem reference {tag : String} (own : Text.asciiLower tag = Text.asciiLower chosen) (around : List String)
    (attributes : List Xml.Attribute) (below : List Xml.Tree) (span : Span) :
    Reads chosen [(around, .element tag attributes below span)]
      ((Markup.reference tag attributes span).map fun r => [(around, .reference r)]) := by
  cases made : Markup.reference tag attributes span with
  | error error => exact .fails (by simp [foremost?, fault?, own, made])
  | ok r =>
    obtain ⟨target, scheme, path, given, names, rfl⟩ := reference_eq_ok made
    exact .ends (by simp [foremost?, fault?, own, made]) (.cons ⟨rfl, .reference own given names⟩ .nil)

end Reads

theorem shows_of_clear (clear : Clear chosen around) (tree : Xml.Tree) :
    shows chosen (around, tree) = tree.isSolid := by
  rw [shows, decide_eq_true clear, Bool.true_and]

theorem isBlank_eq_not_isSolid (text : String) (span : Span) :
    Text.isBlank text = !(Xml.Tree.text text span).isSolid := by
  rw [Text.isBlank, Xml.Tree.isSolid, List.not_any_eq_all_not]
  simp only [Bool.not_not]

mutual
/-- Reading a tree that stands in no element for a reference is reading the parts of it that show. -/
theorem node_reads (chosen : String) : ∀ (around : List String) (tree : Xml.Tree), Clear chosen around →
    Reads chosen ((tree.parts around).filter (shows chosen))
      ((node chosen tree).map fun made => Node.allParts around made.toList)
  | around, .element tag attributes children span, clear => by
    have here : shows chosen (around, .element tag attributes children span) = true := shows_of_clear clear _
    rw [Xml.Tree.parts, List.filter_cons_of_pos here, node]
    by_cases own : Text.asciiLower tag = Text.asciiLower chosen
    · rw [if_pos (isReferenceTag_iff.mpr own), filter_shows_eq_nil own]
      have single := Reads.reference own around attributes children span
      cases made : reference tag attributes span with
      | error error => rw [made] at single; exact single
      | ok r => rw [made] at single; exact single
    · rw [if_neg (mt isReferenceTag_iff.mp own)]
      have inner := nodes_reads chosen (tag :: around) children (List.forall_mem_cons.mpr ⟨own, clear⟩)
      have outer (below : List Node) := Reads.element own around attributes children below span
      cases read : nodes chosen children with
      | error error =>
        rw [read] at inner
        -- The children that are put in for those that fail do not count: only the fault is left.
        exact (outer []).append inner
      | ok below =>
        rw [read] at inner
        show Reads chosen _ (.ok (Node.allParts around [.element _]))
        rw [Node.allParts_single]
        exact (outer below).append inner
  | around, .text text span, clear => by
    rw [Xml.Tree.parts, node, isBlank_eq_not_isSolid text span]
    cases solid : (Xml.Tree.text text span).isSolid with
    | false =>
      rw [List.filter_cons_of_neg (by simp [shows_of_clear clear, solid])]
      exact .nil
    | true =>
      rw [List.filter_cons_of_pos (by simp [shows_of_clear clear, solid])]
      have seen : ∃ c ∈ text.toList, Unicode.isBlank c = false := by
        simpa [Xml.Tree.isSolid] using solid
      exact .ends rfl (.cons ⟨rfl, .text seen⟩ .nil)
  | around, .comment, clear
  | around, .instruction, clear => by
    rw [Xml.Tree.parts, List.filter_cons_of_neg (by simp [shows_of_clear clear, Xml.Tree.isSolid])]
    exact .nil
theorem nodes_reads (chosen : String) : ∀ (around : List String) (trees : List Xml.Tree), Clear chosen around →
    Reads chosen ((Xml.Tree.allParts around trees).filter (shows chosen))
      ((nodes chosen trees).map (Node.allParts around))
  | _, [], _ => .nil
  | around, tree :: rest, clear => by
    have first := node_reads chosen around tree clear
    have others := nodes_reads chosen around rest clear
    rw [Xml.Tree.allParts, List.filter_append, nodes]
    cases here : node chosen tree with
    | error error =>
      rw [here] at first
      exact first.append_error _
    | ok made =>
      rw [here] at first
      have both := first.append others
      cases read : nodes chosen rest with
      | error error => rw [read] at both; exact both
      | ok below =>
        rw [read] at both
        show Reads chosen _ (.ok (Node.allParts around (made.toList ++ below)))
        rw [Node.allParts_append]
        exact both
end

/-! ### Documents -/

def shown (chosen : String) (trees : List Xml.Tree) : List (List String × Xml.Tree) :=
  (Xml.Tree.allParts [] trees).filter (shows chosen)

theorem read_reads (chosen : String) {text : String} {trees : List Xml.Tree}
    (wellFormed : Xml.read text = .ok trees) :
    Reads chosen (shown chosen trees) ((read text chosen).map Document.parts) := by
  have reads := nodes_reads chosen [] trees (List.forall_mem_nil _)
  rw [read, wellFormed]
  dsimp only
  cases made : nodes chosen trees with
  | error error => rw [made] at reads; exact reads
  | ok children => rw [made] at reads; exact reads

/-- Reading fails where the text is no markup, and else at the foremost element for a reference that names
no target, however deep it stands. -/
theorem read_eq_error_iff {text : String} {error : SyntaxError} : read text chosen = .error error ↔
    (∃ fault, Xml.read text = .error fault ∧ error = .ofXml fault) ∨
      ∃ trees, Xml.read text = .ok trees ∧ foremost? chosen (shown chosen trees) = some error := by
  cases made : Xml.read text with
  | error fault => simp [read, made, eq_comm]
  | ok trees =>
    have reads := read_reads chosen made
    cases result : read text chosen with
    | error other =>
      rw [result] at reads
      cases reads with
      | fails fault => simp [fault]
    | ok document =>
      rw [result] at reads
      cases reads with
      | ends faultless => simp [faultless]

/-- Parts of trees stand for the parts of one list of nodes at most. -/
theorem eq_of_stands {nodes others : List Node}
    (stand : List.Forall₂ (Stands chosen) parts (Node.allParts around nodes))
    (stand' : List.Forall₂ (Stands chosen) parts (Node.allParts around others)) : nodes = others := by
  let Alone (part : List String × Xml.Tree) (single : List String × Node) : Prop :=
    ∃ node, Becomes chosen part.2 node ∧ single = (part.1, node.alone)
  have unique : Relator.RightUnique Alone := by
    rintro part _ _ ⟨node, becomes, rfl⟩ ⟨node', becomes', rfl⟩
    rw [becomes.alone_eq becomes']
  have single {nodes : List Node} (stand : List.Forall₂ (Stands chosen) parts (Node.allParts around nodes)) :
      List.Forall₂ Alone parts (Node.outline around nodes) :=
    List.forall₂_map_right_iff.mpr (stand.imp fun _ shown stands => ⟨shown.2, stands.2, by rw [stands.1]⟩)
  exact Node.outline_inj (List.right_unique_forall₂' unique (single stand) (single stand'))

theorem foremost?_eq_none_iff : foremost? chosen parts = none ↔ ∀ part ∈ parts, Aims chosen part.2 := by
  simp only [foremost?, List.findSome?_eq_none_iff, fault?_eq_none_iff]

theorem stands_of_read {text : String} {document : Document} (made : read text chosen = .ok document) :
    ∃ trees, Xml.read text = .ok trees ∧ (∀ part ∈ shown chosen trees, Aims chosen part.2) ∧
      List.Forall₂ (Stands chosen) (shown chosen trees) document.parts := by
  cases wellFormed : Xml.read text with
  | error fault => simp [read, wellFormed] at made
  | ok trees =>
    have reads := read_reads chosen wellFormed
    rw [made] at reads
    cases reads with
    | ends faultless stand => exact ⟨trees, rfl, foremost?_eq_none_iff.mp faultless, stand⟩

theorem exists_read {text : String} {trees : List Xml.Tree} (wellFormed : Xml.read text = .ok trees)
    (aims : ∀ part ∈ shown chosen trees, Aims chosen part.2) :
    ∃ document, read text chosen = .ok document := by
  cases result : read text chosen with
  | ok document => exact ⟨document, rfl⟩
  | error error =>
    have reads := read_reads chosen wellFormed
    rw [result] at reads
    cases reads with
    | fails fault =>
      rw [foremost?_eq_none_iff.mpr aims] at fault
      cases fault

theorem position_read {text : String} {document : Document} (made : read text chosen = .ok document) :
    document.position = spanOf text := by
  unfold read at made
  split at made
  · cases made
  · split at made
    · cases made
    · cases made
      rfl

theorem read_of_stands {text : String} {trees : List Xml.Tree} {document : Document}
    (wellFormed : Xml.read text = .ok trees)
    (stand : List.Forall₂ (Stands chosen) (shown chosen trees) document.parts)
    (position : document.position = spanOf text) : read text chosen = .ok document := by
  have aims := ((List.forall₂_and_left _ _).mp (stand.imp fun _ _ stands => ⟨stands.2.aims, stands⟩)).1
  obtain ⟨other, made⟩ := exists_read wellFormed aims
  obtain ⟨trees', wellFormed', _, stand'⟩ := stands_of_read made
  cases wellFormed.symm.trans wellFormed'
  have children : document.children = other.children := eq_of_stands stand stand'
  have places : document.position = other.position := position.trans (position_read made).symm
  rw [made]
  cases document
  cases other
  cases children
  cases places
  rfl

theorem raw_of_read {text : String} {document : Document} {path : NodePath} {node : Node}
    (made : read text chosen = .ok document) (found : document.nodeAt? path = some node) : node.Raw chosen := by
  obtain ⟨trees, _, _, stand⟩ := stands_of_read made
  have raw : List.Forall₂ (fun (node : List String × Node) part =>
      node.2.Raw chosen ∧ Stands chosen part node) document.parts (shown chosen trees) :=
    (stand.imp fun _ _ stands => ⟨stands.2.raw, stands⟩).flip
  obtain ⟨around, member⟩ := Node.exists_mem_allParts found []
  exact ((List.forall₂_and_left _ _).mp raw).1 _ member

/-- A document that has been read is raw, which is to say that no pass has touched its nodes, at any depth.
It is the one document that the trees of its text show: part by part, in document order and each in its
place, their elements and the texts that are not blank, where an element for a reference and all that it
holds are one reference. A text is read exactly if it has trees and the elements for references that show in
them name targets. -/
theorem read_raw (text chosen : String) :
    (∀ document, read text chosen = .ok document ↔ ∃ trees, Xml.read text = .ok trees ∧
      List.Forall₂ (Stands chosen) (shown chosen trees) document.parts ∧ document.position = spanOf text) ∧
    (∀ document, read text chosen = .ok document →
      ∀ path node, document.nodeAt? path = some node → node.Raw chosen) ∧
    ((∃ document, read text chosen = .ok document) ↔
      ∃ trees, Xml.read text = .ok trees ∧ ∀ part ∈ shown chosen trees, Aims chosen part.2) := by
  refine ⟨fun document => ⟨fun made => ?_, ?_⟩, fun _ made _ _ found => raw_of_read made found, ?_, ?_⟩
  · obtain ⟨trees, wellFormed, _, stand⟩ := stands_of_read made
    exact ⟨trees, wellFormed, stand, position_read made⟩
  · rintro ⟨trees, wellFormed, stand, position⟩
    exact read_of_stands wellFormed stand position
  · rintro ⟨document, made⟩
    obtain ⟨trees, wellFormed, aims, _⟩ := stands_of_read made
    exact ⟨trees, wellFormed, aims⟩
  · rintro ⟨trees, wellFormed, aims⟩
    exact exists_read wellFormed aims

/-- Blank text, a comment and what stands in a reference do not show. -/
theorem read_raw_collapsed :
    let text := "<a> <REF href=' ID:i '><b/></REF> c <!----><b/></a>"
    ∃ document trees, read text "REF" = .ok document ∧ Xml.read text = .ok trees ∧
      (document.parts.map fun part => (part.1, part.2.kind)) =
        [([], "element"), (["a"], "reference"), (["a"], "content"), (["a"], "element")] ∧
      (∀ path node, document.nodeAt? path = some node → node.Raw "REF") ∧
      List.Forall₂ (Stands "REF") (shown "REF" trees) document.parts := by
  intro text
  have kinds : (read text "REF").toOption.map (fun d => d.parts.map fun part => (part.1, part.2.kind)) =
      some [([], "element"), (["a"], "reference"), (["a"], "content"), (["a"], "element")] := by
    decide +kernel
  cases made : read text "REF" with
  | error error =>
    rw [made] at kinds
    cases kinds
  | ok document =>
    rw [made] at kinds
    obtain ⟨exactly, raw, _⟩ := read_raw text "REF"
    obtain ⟨trees, wellFormed, stand, _⟩ := (exactly document).mp made
    exact ⟨document, trees, rfl, wellFormed, Option.some.inj kinds, raw document made, stand⟩

end Markup
end LinkedMarkup
