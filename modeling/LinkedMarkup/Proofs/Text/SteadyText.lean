import LinkedMarkup.Proofs.Text.NormalForm
import LinkedMarkup.Proofs.Tree.Places
import LinkedMarkup.Proofs.Visitor.Descent
/-! Normalization for a second time. It leaves a normal form as it is, but in two cases: a carriage return
has come to stand before a line feed, or a text of several lines has become a single line with other gaps
than single spaces. A second pass over the texts of a document changes it in these cases only. -/
namespace LinkedMarkup.Normalization
open Text

variable {cs line : List Char}

/-- No carriage return stands before a line feed, and on a single line the only gaps are single spaces. -/
structure Steady (cs : List Char) : Prop where
  ends : ¬ ['\r', '\n'] <:+: cs
  gaps : '\n' ∉ cs → '\t' ∉ cs ∧ ¬ [' ', ' '] <:+: cs

/-! ### Line ends -/

theorem foldLineEnds_of_apart (apart : ¬ ['\r', '\n'] <:+: cs) : foldLineEnds cs = cs := by
  fun_induction foldLineEnds cs with
  | case1 rest ih => exact absurd (List.prefix_append ['\r', '\n'] rest).isInfix apart
  | case2 c rest _ ih => rw [ih fun within => apart (within.trans (List.suffix_cons c rest).isInfix)]
  | case3 => rfl

theorem intercalate_concat {parts : List (List Char)} (some : parts ≠ []) (last : List Char) :
    ['\n'].intercalate (parts ++ [last]) = ['\n'].intercalate parts ++ '\n' :: last := by
  induction parts with
  | nil => exact absurd rfl some
  | cons part others ih =>
    cases others with
    | nil => simp
    | cons next others =>
      rw [List.cons_append, List.intercalate_cons_of_ne_nil (by simp), ih (List.cons_ne_nil _ _),
        List.intercalate_cons_cons]
      simp

/-- A line that is not the last one stands before a line feed. -/
theorem ended_within {front : List (List Char)} (last : List Char) (member : line ∈ front) :
    line ++ ['\n'] <:+: ['\n'].intercalate (front ++ [last]) := by
  induction front with
  | nil => cases member
  | cons first others ih =>
    rw [List.cons_append, List.intercalate_cons_of_ne_nil (by simp)]
    rcases List.mem_cons.mp member with rfl | later
    · exact (List.prefix_append _ _).isInfix
    · exact (ih later).trans (List.suffix_append _ _).isInfix

/-- The lines of a text without surplus line ends are the parts between its line feeds. -/
theorem lines_of_apart (filled : cs ≠ []) (final : cs.getLast? ≠ some '\n') (apart : ¬ ['\r', '\n'] <:+: cs) :
    Text.lines cs = splitChars '\n' cs := by
  obtain ⟨front, last, split⟩ : ∃ front last, splitChars '\n' cs = front ++ [last] :=
    ⟨_, _, (List.dropLast_concat_getLast (splitChars_ne_nil '\n' cs)).symm⟩
  have whole := intercalate_splitChars '\n' cs
  rw [split] at whole
  have kept : (front.map fun line => if line.getLast? = some '\r' then line.dropLast else line) = front := by
    refine (List.map_congr_left fun line member => ?_).trans (List.map_id front)
    rw [if_neg, id]
    intro ends
    obtain ⟨before, rfl⟩ := List.getLast?_eq_some_iff.mp ends
    have within := ended_within last member
    rw [whole, List.append_assoc] at within
    exact apart ((List.suffix_append before _).isInfix.trans within)
  have ink : last ≠ [] := by
    rintro rfl
    by_cases alone : front = []
    · subst alone
      exact filled (by simpa using whole.symm)
    · rw [intercalate_concat alone] at whole
      exact final (by rw [← whole]; exact List.getLast?_concat)
  obtain ⟨c, rest, rfl⟩ := List.exists_cons_of_ne_nil ink
  rw [Text.lines, split, List.dropLast_concat, List.getLast?_concat, kept]

/-! ### Texts of several lines -/

/-- Nothing is dropped where no run of line feeds, with those just before, is too long. -/
private theorem collapse_of_few {run : Nat}
    (runs : ¬ ['\n', '\n', '\n'] <:+: List.replicate run '\n' ++ cs) : collapse run cs = cs := by
  induction cs generalizing run with
  | nil => rfl
  | cons c rest ih =>
    by_cases feed : c = '\n'
    · subst feed
      have few : run < 2 := by
        by_contra many
        obtain ⟨more, rfl⟩ : ∃ more, run = more + 2 := ⟨run - 2, by omega⟩
        refine runs ⟨List.replicate more '\n', rest, ?_⟩
        rw [List.replicate_add]
        simp [List.replicate]
      have longer : List.replicate run '\n' ++ '\n' :: rest = List.replicate (run + 1) '\n' ++ rest := by
        rw [List.replicate_succ', List.append_assoc]
        rfl
      rw [longer] at runs
      rw [collapse, if_pos (beq_self_eq_true _), if_pos few, ih runs]
    · have others : ¬ ['\n', '\n', '\n'] <:+: List.replicate 0 '\n' ++ rest := fun within =>
        runs (within.trans ((List.suffix_cons c rest).trans (List.suffix_append _ _)).isInfix)
      rw [collapse, if_neg (by simpa using feed), ih others]

theorem collapse_of_no_run (runs : ¬ ['\n', '\n', '\n'] <:+: cs) : collapse 0 cs = cs :=
  collapse_of_few runs

theorem stripLineFeeds_of_bare (first : cs.head? ≠ some '\n') (last : cs.getLast? ≠ some '\n') :
    stripLineFeeds cs = cs := by
  have begins : ∀ c ∈ cs.head?, (c == '\n') = false := by
    intro c head
    rw [beq_eq_false_iff_ne]
    rintro rfl
    exact first head
  have ends : ∀ c ∈ cs.reverse.head?, (c == '\n') = false := by
    intro c head
    rw [List.head?_reverse] at head
    rw [beq_eq_false_iff_ne]
    rintro rfl
    exact last head
  rw [stripLineFeeds, dropWhile_of_head begins, dropWhile_of_head ends, List.reverse_reverse]

theorem stripEnd_of_ends (ends : ∀ c ∈ line.getLast?, isGap c = false) : stripEnd line = line := by
  have turned : ∀ c ∈ line.reverse.head?, isGap c = false := by
    rw [List.head?_reverse]
    exact ends
  rw [stripEnd, dropWhile_of_head turned, List.reverse_reverse]

theorem isBlankLine_iff (line : List Char) : isBlankLine line = true ↔ visible line = [] := by
  simp [isBlankLine, visible]

/-- A line of which something can be seen is not blank when it has been tidied. -/
theorem Tidy.filled {tidied : List Char} (tidy : Tidy line tidied) (filled : isBlankLine line = false) :
    isBlankLine tidied = false := by
  obtain ⟨marked, hyphened, shown⟩ := tidy.shown
  rw [← Bool.not_eq_true, isBlankLine_iff] at filled ⊢
  intro none
  have count := hyphened.length_visible
  rw [← shown, none] at count
  exact filled (List.length_eq_zero_iff.mp count.symm)

/-- No line of a normal form is blank without being empty. -/
theorem filled_normal {line : List Char} (member : line ∈ splitChars '\n'
      (stripLineFeeds (collapse 0 (['\n'].intercalate (tidyLines (Text.lines cs))))))
    (blank : isBlankLine line = true) : line = [] := by
  by_contra ink
  have kept : line ∈ written (stripLineFeeds (collapse 0 (['\n'].intercalate (tidyLines (Text.lines cs))))) :=
    List.mem_filter.mpr ⟨member, by simpa using ink⟩
  rw [written_normal] at kept
  obtain ⟨before, among, rfl⟩ := List.mem_map.mp (List.mem_filter.mp kept).1
  cases before' : isBlankLine before with
  | true =>
    rw [dedent, if_pos before'] at ink
    exact ink rfl
  | false =>
    have filled := (tidy_line among).filled before'
    rw [blank] at filled
    cases filled

/-- Several lines in canonical form stay as they are. -/
theorem Canonical.normalizeChars_eq (canonical : Canonical cs)
    (filled : ∀ line ∈ splitChars '\n' cs, isBlankLine line = true → line = [])
    (several : '\n' ∈ cs) (apart : ¬ ['\r', '\n'] <:+: cs) : normalizeChars cs = cs := by
  have written : cs ≠ [] := List.ne_nil_of_mem several
  have same : foldLineEnds cs = cs := foldLineEnds_of_apart apart
  have lines : Text.lines cs = splitChars '\n' cs := lines_of_apart written canonical.last apart
  have margin : commonIndentation (splitChars '\n' cs) = 0 := by
    obtain ⟨line, member, c, head, solid⟩ := canonical.margin written
    obtain ⟨rest, rfl⟩ := List.head?_eq_some_iff.mp head
    have inked : isBlankLine (c :: rest) = false :=
      Bool.eq_false_iff.mpr fun blank => List.cons_ne_nil _ _ (filled _ member blank)
    have least := commonIndentation_le member inked
    rw [indentation, List.takeWhile_cons_of_neg (by simp [solid])] at least
    exact Nat.le_zero.mp least
  have tidied : tidyLines (splitChars '\n' cs) = splitChars '\n' cs := by
    rw [tidyLines, margin]
    refine (List.map_congr_left fun line member => ?_).trans (List.map_id _)
    have kept : dedent 0 line = line := by
      rw [dedent]
      split
      · next blank => exact (filled line member blank).symm
      · rfl
    rw [kept, stripEnd_of_ends (canonical.ends line member), hyphenate_other (canonical.bare line member), id]
  rw [normalizeChars_of_lines (same.symm ▸ several), same, lines, tidied, intercalate_splitChars,
    collapse_of_no_run canonical.runs, stripLineFeeds_of_bare canonical.first canonical.last]

/-! ### Carriage returns -/

/-- Folding takes away the carriage returns before line feeds. -/
theorem count_foldLineEnds (cs : List Char) : (foldLineEnds cs).count '\r' ≤ cs.count '\r' ∧
    (['\r', '\n'] <:+: cs → (foldLineEnds cs).count '\r' < cs.count '\r') := by
  fun_induction foldLineEnds cs with
  | case1 rest ih =>
    have fewer : ('\n' :: foldLineEnds rest).count '\r' < ('\r' :: '\n' :: rest).count '\r' := by
      rw [List.count_cons_of_ne (by decide), List.count_cons_self, List.count_cons_of_ne (by decide)]
      exact Nat.lt_succ_of_le ih.1
    exact ⟨fewer.le, fun _ => fewer⟩
  | case2 c rest other ih =>
    rw [List.count_cons, List.count_cons]
    refine ⟨Nat.add_le_add_right ih.1 _, fun within => Nat.add_lt_add_right (ih.2 ?_) _⟩
    rcases List.infix_cons_iff.mp within with ⟨behind, same⟩ | later
    · obtain ⟨first, second⟩ := List.cons.inj same
      exact (other behind first.symm second.symm).elim
    · exact later
  | case3 => exact ⟨Nat.le_refl _, fun within => by simp at within⟩

theorem count_intercalate (parts : List (List Char)) :
    (['\n'].intercalate parts).count '\r' = parts.flatten.count '\r' := by
  induction parts with
  | nil => rfl
  | cons part others ih =>
    cases others with
    | nil => simp
    | cons next others =>
      have feed : ['\n'].count '\r' = 0 := rfl
      rw [List.intercalate_cons_cons, List.count_append, List.count_append, ih, feed, Nat.add_zero,
        ← List.count_append]
      rfl

/-- What leaves no line with more carriage returns leaves no text with more of them. -/
theorem count_flatten_map {f : List Char → List Char} (fewer : ∀ line, (f line).count '\r' ≤ line.count '\r')
    (lines : List (List Char)) : (lines.map f).flatten.count '\r' ≤ lines.flatten.count '\r' := by
  induction lines with
  | nil => exact Nat.le_refl _
  | cons line others ih =>
    rw [List.map_cons, List.flatten_cons, List.flatten_cons, List.count_append, List.count_append]
    exact Nat.add_le_add (fewer line) ih

theorem count_lines (cs : List Char) : (Text.lines cs).flatten.count '\r' ≤ cs.count '\r' := by
  have ended (line : List Char) :
      (if line.getLast? = some '\r' then line.dropLast else line).count '\r' ≤ line.count '\r' := by
    split
    · exact (List.dropLast_sublist line).count_le '\r'
    · exact Nat.le_refl _
  rw [← intercalate_splitChars '\n' cs, count_intercalate, Text.lines, intercalate_splitChars]
  generalize splitChars '\n' cs = parts
  cases parts using List.reverseRecOn with
  | nil => exact Nat.le_refl _
  | append_singleton front last =>
    have fewer := count_flatten_map ended front
    rw [List.dropLast_concat, List.getLast?_concat, List.flatten_append, List.count_append]
    cases last with
    | nil => exact fewer
    | cons c rest =>
      rw [List.flatten_append, List.count_append]
      exact Nat.add_le_add_right fewer _

theorem count_tidied (indent : Nat) (line : List Char) :
    (hyphenate (stripEnd (dedent indent line))).count '\r' ≤ line.count '\r' := by
  have hyphened (line : List Char) : (hyphenate line).count '\r' ≤ line.count '\r' := by
    by_cases item : IsItem line
    · obtain ⟨front, mark, gap, rest, opens, rfl⟩ := item
      rw [hyphenate_item opens, List.count_append, List.count_append, List.count_cons_of_ne (by decide),
        List.count_cons_of_ne (by decide)]
      refine Nat.add_le_add_left (((List.dropWhile_sublist _).count_le '\r').trans ?_) _
      exact ((List.sublist_cons_self gap rest).trans (List.sublist_cons_self mark _)).count_le '\r'
    · rw [hyphenate_other item]
  have stripped (line : List Char) : (stripEnd line).count '\r' ≤ line.count '\r' := by
    obtain ⟨_, back, split, _⟩ := stripEnd_spec line
    have within : stripEnd line <+: line := ⟨back, split.symm⟩
    exact within.sublist.count_le '\r'
  refine (hyphened _).trans ((stripped _).trans ?_)
  rw [dedent]
  split
  · exact Nat.zero_le _
  · exact (List.drop_sublist indent line).count_le '\r'

theorem collapse_sublist (run : Nat) (cs : List Char) : (collapse run cs).Sublist cs := by
  induction cs generalizing run with
  | nil => exact .slnil
  | cons c rest ih =>
    rw [collapse]
    split
    · split
      · exact (ih _).cons_cons c
      · exact (ih _).cons c
    · exact (ih _).cons_cons c

/-- The only carriage returns of a normal form are those that are left when line ends are folded. -/
theorem count_normalizeChars (several : '\n' ∈ cs) :
    (normalizeChars cs).count '\r' ≤ (foldLineEnds cs).count '\r' := by
  rw [normalizeChars_of_lines ((mem_foldLineEnds cs).mpr several)]
  refine ((stripLineFeeds_within _).sublist.count_le '\r').trans (((collapse_sublist 0 _).count_le '\r').trans ?_)
  rw [count_intercalate, tidyLines]
  exact (count_flatten_map (count_tidied _) _).trans (count_lines _)

/-! ### Single lines -/

/-- Single spaces are the only gaps; if a run has begun before, the text does not begin with one. -/
structure Spaced (inside : Bool) (cs : List Char) : Prop where
  tabs : '\t' ∉ cs
  runs : ¬ [' ', ' '] <:+: cs
  first : inside = true → cs.head? ≠ some ' '

theorem spaced_squeeze (inside : Bool) (cs : List Char) : Spaced inside (squeeze inside cs) := by
  induction cs generalizing inside with
  | nil => exact ⟨List.not_mem_nil, fun within => by simp [squeeze] at within, fun _ none => by cases none⟩
  | cons c rest ih =>
    by_cases gap : isGap c = true
    · cases inside with
      | true =>
        rw [squeeze, if_pos gap, if_pos rfl]
        exact ih true
      | false =>
        rw [squeeze, if_pos gap, if_neg Bool.false_ne_true]
        obtain ⟨tabs, runs, first⟩ := ih true
        refine ⟨fun member => ?_, fun within => ?_, fun never => by cases never⟩
        · rcases List.mem_cons.mp member with tab | later
          · exact absurd tab (by decide)
          · exact tabs later
        · rcases List.infix_cons_iff.mp within with ⟨behind, same⟩ | later
          · refine first rfl ?_
            rw [← (List.cons.inj same).2]
            rfl
          · exact runs later
    · rw [squeeze, if_neg gap]
      obtain ⟨tabs, runs, _⟩ := ih false
      have other : c ≠ ' ' ∧ c ≠ '\t' := by simpa [isGap] using gap
      refine ⟨fun member => ?_, fun within => ?_, fun _ same => other.1 (Option.some.inj same)⟩
      · rcases List.mem_cons.mp member with tab | later
        · exact other.2 tab.symm
        · exact tabs later
      · rcases List.infix_cons_iff.mp within with ⟨behind, same⟩ | later
        · exact other.1 (List.cons.inj same).1.symm
        · exact runs later

theorem Spaced.squeeze_eq {inside : Bool} (spaced : Spaced inside cs) : squeeze inside cs = cs := by
  induction cs generalizing inside with
  | nil => rfl
  | cons c rest ih =>
    have tabs : '\t' ∉ rest := fun member => spaced.tabs (List.mem_cons_of_mem c member)
    have runs : ¬ [' ', ' '] <:+: rest := fun within =>
      spaced.runs (within.trans (List.suffix_cons c rest).isInfix)
    by_cases space : c = ' '
    · subst space
      cases inside with
      | true => exact absurd rfl (spaced.first rfl)
      | false =>
        have apart : rest.head? ≠ some ' ' := by
          intro first
          obtain ⟨behind, rfl⟩ := List.head?_eq_some_iff.mp first
          exact spaced.runs (List.prefix_append [' ', ' '] behind).isInfix
        rw [squeeze, if_pos (by rfl), if_neg Bool.false_ne_true, ih ⟨tabs, runs, fun _ => apart⟩]
    · have solid : ¬ isGap c = true := by
        have tab : c ≠ '\t' := fun same => spaced.tabs (same ▸ List.mem_cons_self)
        simp [isGap, space, tab]
      rw [squeeze, if_neg solid, ih ⟨tabs, runs, fun never => by cases never⟩]

theorem not_mem_squeeze (single : '\n' ∉ cs) (inside : Bool) : '\n' ∉ squeeze inside cs := by
  induction cs generalizing inside with
  | nil => exact List.not_mem_nil
  | cons c rest ih =>
    have later (inside : Bool) : '\n' ∉ squeeze inside rest :=
      ih (fun member => single (List.mem_cons_of_mem c member)) inside
    have here : '\n' ≠ c := fun same => single (same ▸ List.mem_cons_self)
    rw [squeeze]
    split
    · split
      · exact later true
      · exact List.not_mem_cons_of_ne_of_not_mem (by decide) (later true)
    · exact List.not_mem_cons_of_ne_of_not_mem here (later false)

/-! ### The second time -/

theorem not_infix_of_not_mem (single : '\n' ∉ cs) : ¬ ['\r', '\n'] <:+: cs :=
  fun within => single (within.subset (by simp))

/-- On a single line normalization changes gaps only. -/
theorem normalizeChars_line_iff (single : '\n' ∉ cs) : normalizeChars cs = cs ↔ Steady cs := by
  rw [normalizeChars_of_line single]
  constructor
  · intro same
    have spaced := spaced_squeeze false cs
    rw [same] at spaced
    exact ⟨not_infix_of_not_mem single, fun _ => ⟨spaced.tabs, spaced.runs⟩⟩
  · intro steady
    obtain ⟨tabs, runs⟩ := steady.gaps single
    exact Spaced.squeeze_eq ⟨tabs, runs, fun never => by cases never⟩

/-- A text of one line stays one. -/
theorem several_of_normal (several : '\n' ∈ normalizeChars cs) : '\n' ∈ cs := by
  by_contra single
  rw [normalizeChars_of_line single] at several
  exact not_mem_squeeze single false several

theorem steady_of_line (single : '\n' ∉ cs) : Steady (normalizeChars cs) := by
  rw [normalizeChars_of_line single]
  obtain ⟨tabs, runs, _⟩ := spaced_squeeze false cs
  exact ⟨not_infix_of_not_mem (not_mem_squeeze single false), fun _ => ⟨tabs, runs⟩⟩

/-- Where all carriage returns stand in line ends, none is left. -/
theorem steady_of_lines (returns : '\r' ∉ foldLineEnds cs) (several : '\n' ∈ normalizeChars cs) :
    Steady (normalizeChars cs) := by
  have none := count_normalizeChars (several_of_normal several)
  rw [List.count_eq_zero.mpr returns, Nat.le_zero, List.count_eq_zero] at none
  exact ⟨fun within => none (within.subset (by simp)), fun single => absurd several single⟩

/-- Of several lines a second time leaves fewer carriage returns, if one stands before a line feed. -/
theorem apart_of_again (several : '\n' ∈ cs) (again : normalizeChars cs = cs) : ¬ ['\r', '\n'] <:+: cs := by
  intro within
  have fewer := (count_normalizeChars several).trans_lt ((count_foldLineEnds cs).2 within)
  rw [again] at fewer
  exact Nat.lt_irrefl _ fewer

/-- A second time leaves a normal form as it is exactly if that is steady. -/
theorem normalizeChars_again_iff (cs : List Char) :
    normalizeChars (normalizeChars cs) = normalizeChars cs ↔ Steady (normalizeChars cs) := by
  by_cases several : '\n' ∈ normalizeChars cs
  · constructor
    · intro again
      exact ⟨apart_of_again several again, fun single => absurd several single⟩
    · intro steady
      have lines := normalizeChars_of_lines ((mem_foldLineEnds cs).mpr (several_of_normal several))
      have canonical := canonical_normal (foldLineEnds cs)
      rw [← lines] at canonical
      refine canonical.normalizeChars_eq (fun line member blank => ?_) several steady.ends
      rw [lines] at member
      exact filled_normal member blank
  · exact normalizeChars_line_iff several

theorem normalize_again_iff (text : String) :
    normalize (normalize text) = normalize text ↔ Steady (normalize text).toList := by
  rw [normalize, normalize, String.toList_ofList, ← normalizeChars_again_iff, String.ofList_inj]

end LinkedMarkup.Normalization

namespace LinkedMarkup

mutual
/-- What the pass over texts makes of a node. -/
def Node.polish : Node → List Node
  | .element e => [.element e.polish]
  | .content c => Visitor.polished c
  | .reference r => [.reference r]
def Node.allPolish : List Node → List Node
  | [] => []
  | node :: rest => node.polish ++ Node.allPolish rest
def Element.polish : Element → Element
  | ⟨tag, attributes, children, metadata, position⟩ =>
    ⟨tag, attributes, Node.allPolish children, metadata, position⟩
end

theorem Visitor.polished_of_empty {c : Content} (empty : (Normalization.normalize c.text).isEmpty = true) :
    polished c = [] := by
  rw [polished]
  exact if_pos empty

theorem Visitor.polished_of_filled {c : Content} (filled : (Normalization.normalize c.text).isEmpty = false) :
    polished c = [.content { c with text := Normalization.normalize c.text }] := by
  rw [polished]
  exact if_neg (Bool.eq_false_iff.mp filled)

namespace Node

theorem allPolish_element (e : Element) (rest : List Node) :
    allPolish (.element e :: rest) = .element { e with children := allPolish e.children } :: allPolish rest := by
  cases e
  rw [allPolish, polish, Element.polish]
  rfl

theorem allPolish_content (c : Content) (rest : List Node) :
    allPolish (.content c :: rest) = Visitor.polished c ++ allPolish rest := by
  rw [allPolish, polish]

theorem allPolish_reference (r : Reference) (rest : List Node) :
    allPolish (.reference r :: rest) = .reference r :: allPolish rest := by
  rw [allPolish, polish, List.singleton_append]

theorem length_allPolish (nodes : List Node) : (allPolish nodes).length ≤ nodes.length := by
  induction nodes with
  | nil => exact Nat.le_refl _
  | cons node rest ih =>
    have few : node.polish.length ≤ 1 := by
      cases node with
      | content c =>
        rw [polish, Visitor.polished]
        split <;> simp
      | element | reference => rw [polish, List.length_singleton]
    rw [allPolish, List.length_append, List.length_cons]
    omega

theorem heights_allPolish (nodes : List Node) : heights (allPolish nodes) ≤ heights nodes := by
  induction nodes using forest_induction with
  | nil => exact Nat.le_refl _
  | leaf node rest leaf others =>
    have stays : heights (allPolish (node :: rest)) ≤ max node.height (heights (allPolish rest)) := by
      cases node with
      | element e => cases leaf
      | reference r => rw [allPolish_reference, heights]
      | content c =>
        rw [allPolish_content, Visitor.polished]
        split
        · exact Nat.le_max_right _ _
        · exact Nat.le_refl _
    rw [heights]
    exact stays.trans (max_le_max (Nat.le_refl _) others)
  | element e rest below others =>
    rw [allPolish_element, heights, heights, height_element, height_element]
    exact max_le_max (Nat.succ_le_succ below) others

/-- A second time keeps a text exactly if it leaves the normal form alone, which it then does not drop. -/
theorem allPolish_content_again_iff (c : Content) (rest : List Node) :
    allPolish (allPolish (.content c :: rest)) = allPolish (.content c :: rest) ↔
      Normalization.normalize (Normalization.normalize c.text) = Normalization.normalize c.text ∧
        allPolish (allPolish rest) = allPolish rest := by
  rw [allPolish_content]
  cases empty : (Normalization.normalize c.text).isEmpty with
  | true =>
    have none : Normalization.normalize c.text = "" := String.isEmpty_iff.mp empty
    have again : Normalization.normalize "" = "" := by decide +kernel
    rw [Visitor.polished_of_empty empty, none, again]
    simp
  | false =>
    let once : Content := { c with text := Normalization.normalize c.text }
    rw [Visitor.polished_of_filled empty, List.singleton_append, allPolish_content]
    cases gone : (Normalization.normalize once.text).isEmpty with
    | true =>
      -- The second pass would drop the text, and it adds no node in its place.
      have fewer := length_allPolish (allPolish rest)
      rw [Visitor.polished_of_empty gone, List.nil_append]
      constructor
      · intro same
        rw [same, List.length_cons] at fewer
        omega
      · rintro ⟨same, _⟩
        rw [show once.text = Normalization.normalize c.text from rfl, same, empty] at gone
        cases gone
    | false =>
      rw [Visitor.polished_of_filled gone, List.singleton_append]
      simp [once]

/-- A second time leaves a polished tree as it is exactly if the normal forms of its texts are steady. -/
theorem allPolish_again_iff (nodes : List Node) : allPolish (allPolish nodes) = allPolish nodes ↔
    ∀ c ∈ allWording nodes, Normalization.Steady (Normalization.normalize c.text).toList := by
  induction nodes using forest_induction with
  | nil => simp [allPolish, allWording]
  | element e rest below others =>
    rw [allWording_element, List.forall_mem_append, ← below, ← others, allPolish_element, allPolish_element]
    simp
  | leaf node rest leaf others =>
    cases node with
    | element e => cases leaf
    | reference r =>
      rw [allWording_reference, ← others, allPolish_reference, allPolish_reference]
      simp
    | content c =>
      rw [allWording, wording, List.singleton_append, List.forall_mem_cons, ← others,
        ← Normalization.normalize_again_iff]
      exact allPolish_content_again_iff c rest

end Node

namespace Visitor
variable {parents : List Frame} {path : NodePath} {session : Session} {nodes : List Node}

theorem visit_normalization_empty {c : Content} (empty : (Normalization.normalize c.text).isEmpty = true)
    (place : Place) (session : Session) :
    normalization.visit place session (.content c) = (session, .ok (.replace [])) := by
  simp only [visit, offer, normalization, empty, if_true, Visitor.decide]

theorem visit_normalization_filled {c : Content} (filled : (Normalization.normalize c.text).isEmpty = false)
    (place : Place) (session : Session) :
    normalization.visit place session (.content c) = (session, .ok .keep) ∧
      (normalization.offer place session (.content c)).part =
        .content { c with text := Normalization.normalize c.text } := by
  simp only [visit, offer, normalization, filled, Bool.false_eq_true, if_false, Visitor.decide, Visited.keep,
    and_self]

/-- The pass over texts polishes siblings if it does so with what is below them. -/
theorem walkSiblings_normalization {levels : Nat} {session : Session}
    (lower : ∀ (parents : List Frame) (path : NodePath) (nodes : List Node), Node.heights nodes ≤ levels →
      walkNodes normalization levels parents path session nodes = ⟨Node.allPolish nodes, session, none⟩)
    (index : Nat) (shallow : Node.heights nodes ≤ levels + 1) :
    walkSiblings normalization (walkNodes normalization levels) parents path index session nodes =
      ⟨Node.allPolish nodes, session, none⟩ := by
  induction nodes generalizing index with
  | nil => rfl
  | cons node rest others =>
    rw [Node.heights, Nat.max_le] at shallow
    cases node with
    | content c =>
      rw [Node.allPolish_content]
      cases empty : (Normalization.normalize c.text).isEmpty with
      | true =>
        rw [walkSiblings_of_replace (visit_normalization_empty empty _ _), others _ shallow.2,
          polished_of_empty empty]
      | false =>
        obtain ⟨decided, part⟩ := visit_normalization_filled empty ⟨parents, path ++ [index]⟩ session
        rw [walkSiblings_of_leaf decided (part ▸ rfl), others _ shallow.2, part, polished_of_filled empty]
        rfl
    | reference r =>
      have decided : normalization.visit ⟨parents, path ++ [index]⟩ session (.reference r) =
          (session, .ok .keep) := rfl
      rw [walkSiblings_of_leaf decided rfl, others _ shallow.2, Node.allPolish_reference]
      rfl
    | element e =>
      have decided : normalization.visit ⟨parents, path ++ [index]⟩ session (.element e) =
          (session, .ok .keep) := rfl
      have low : Node.heights e.children ≤ levels := by
        rw [Node.height_element] at shallow
        exact Nat.le_of_succ_le_succ shallow.1
      have part : (normalization.offer ⟨parents, path ++ [index]⟩ session (.element e)).part = .element e := rfl
      rw [walkSiblings_of_keep decided, Node.allPolish_element]
      simp only [part, below, lower _ _ _ low, others _ shallow.2]

/-- The pass over texts polishes every tree that is no deeper than it goes, and leaves the session. -/
theorem walkNodes_normalization {levels : Nat} (shallow : Node.heights nodes ≤ levels) :
    walkNodes normalization levels parents path session nodes = ⟨Node.allPolish nodes, session, none⟩ := by
  induction levels generalizing parents path nodes with
  | zero =>
    cases nodes with
    | nil => rfl
    | cons node rest =>
      have positive : 0 < node.height := by
        cases node with
        | element e => simp
        | content | reference => exact Nat.one_pos
      rw [Node.heights] at shallow
      omega
  | succ levels ih =>
    exact walkSiblings_normalization (fun _ _ _ lower => ih lower) 0 shallow

theorem walk_normalization {d : Document} {levels : Nat} (enough : Node.heights d.children ≤ levels)
    (parents : List Frame) (session : Session) : normalization.walk parents session d levels =
      ⟨{ d with children := Node.allPolish d.children }, session, none⟩ := by
  have walked : normalization.walk parents session d levels = _ := walk_nodes rfl rfl session d levels
  rw [walked]
  simp only [walkNodes_normalization enough]

end Visitor

namespace Normalization

/-- What a second normalization does. It leaves the normal form of a text as it is exactly if that is steady.
The normal form of a single line is, and so is one of several lines, if all carriage returns of the text
stand in its line ends. A second pass over the texts of a document changes nothing exactly if the normal
forms of all its texts are steady. Both passes go down to enough levels. -/
theorem normalize_again :
    (∀ text : String, normalize (normalize text) = normalize text ↔ Steady (normalize text).toList) ∧
    (∀ text : String, '\n' ∉ text.toList → Steady (normalize text).toList) ∧
    (∀ text : String, '\r' ∉ foldLineEnds text.toList → '\n' ∈ (normalize text).toList →
      Steady (normalize text).toList) ∧
    ∀ parents (session later : Session) (d : Document), ∀ levels ≥ Node.heights d.children,
      let once := Visitor.normalization.walk parents session d levels
      let twice := Visitor.normalization.walk parents later once.part levels
      once.halt = none ∧ twice.halt = none ∧
        (twice.part = once.part ↔ ∀ c ∈ Node.allWording d.children, Steady (normalize c.text).toList) := by
  have chars (text : String) : (normalize text).toList = normalizeChars text.toList := String.toList_ofList
  refine ⟨normalize_again_iff, fun text single => ?_, fun text returns several => ?_,
    fun parents session later d levels enough => ?_⟩
  · rw [chars]
    exact steady_of_line single
  · rw [chars] at several ⊢
    exact steady_of_lines returns several
  · intro once twice
    have first : once = _ := Visitor.walk_normalization enough parents session
    have again : Node.heights once.part.children ≤ levels := by
      rw [first]
      exact (Node.heights_allPolish d.children).trans enough
    have second : twice = _ := Visitor.walk_normalization again parents later
    rw [second, first, ← Node.allPolish_again_iff]
    simp

/-- Marks, margins and a surplus blank line, with line ends of two characters. -/
theorem normalize_again_list :
    let text := "  + one\r\n\r\n\r\n\r\n    + two  three\t\r\n"
    let d : Document := { children := [.element { tag := "p", children := [.content { text }] }] }
    let once := Visitor.normalization.walk [] {} d 2
    normalize (normalize text) = normalize text ∧
      (Visitor.normalization.walk [] {} once.part 2).part = once.part := by
  intro text d once
  obtain ⟨again, _, lines, documents⟩ := normalize_again
  have steady := lines text (by decide +kernel) (by decide +kernel)
  refine ⟨(again text).mpr steady, (documents [] {} {} d 2 (by decide +kernel)).2.2.mpr fun c member => ?_⟩
  have same : c = { text } := by simpa [d, Node.allWording, Node.wording, Element.wording] using member
  rw [same]
  exact steady

/-- Two lines become one, on which a second time looks at gaps; and the gaps go that have stood between a
carriage return and a line feed. -/
theorem normalize_changes_again :
    normalize (normalize "a  b\n") ≠ normalize "a  b\n" ∧
      normalize (normalize "a\r \nb") ≠ normalize "a\r \nb" ∧
      let d : Document := { children := [.content { text := "a  b\n" }] }
      let once := Visitor.normalization.walk [] {} d
      (Visitor.normalization.walk [] {} once.part).part ≠ once.part := by
  refine ⟨by decide +kernel, by decide +kernel, fun same => ?_⟩
  have texts := congrArg Document.text same
  revert texts
  decide +kernel

end Normalization
end LinkedMarkup
