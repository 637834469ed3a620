import LinkedMarkup.Proofs.Text.NormalLines
import LinkedMarkup.Proofs.Visitor.Whereabouts

namespace LinkedMarkup.Normalization
open Text

variable {cs line : List Char}

/-! ### Texts of several lines -/

/-- The normal form of a text of several lines. -/
structure Canonical (cs : List Char) : Prop where
  first : cs.head? ≠ some '\n'
  last : cs.getLast? ≠ some '\n'
  runs : ¬ ['\n', '\n', '\n'] <:+: cs
  ends : ∀ line ∈ splitChars '\n' cs, ∀ c ∈ line.getLast?, isGap c = false
  bare : ∀ line ∈ splitChars '\n' cs, ¬ IsItem line
  margin : cs ≠ [] → ∃ line ∈ splitChars '\n' cs, ∃ c ∈ line.head?, isGap c = false

theorem not_mem_lines (member : line ∈ Text.lines cs) : '\n' ∉ line := by
  have whole {line : List Char} (inside : line ∈ splitChars '\n' cs) : '\n' ∉ line := not_mem_splitChars inside
  have ended {line : List Char} (inside : line ∈ (splitChars '\n' cs).dropLast.map fun line =>
      if line.getLast? = some '\r' then line.dropLast else line) : '\n' ∉ line := by
    obtain ⟨part, kept, rfl⟩ := List.mem_map.mp inside
    have absent := whole (List.dropLast_subset _ kept)
    split
    · exact fun member => absent (List.dropLast_subset _ member)
    · exact absent
  rw [Text.lines] at member
  split at member
  · next last =>
    rcases List.mem_append.mp member with before | here
    · exact ended before
    · cases List.mem_singleton.mp here
      exact whole (List.mem_of_getLast? last)
  · exact ended member

/-- The lines of the normal form that are not empty are those that have been tidied. -/
theorem written_normal (cs : List Char) :
    written (stripLineFeeds (collapse 0 (['\n'].intercalate (tidyLines (Text.lines cs))))) =
      (tidyLines (Text.lines cs)).filter (!·.isEmpty) := by
  have plain : ∀ tidied ∈ tidyLines (Text.lines cs), '\n' ∉ tidied := by
    intro tidied member
    obtain ⟨line, among, rfl⟩ := List.mem_map.mp member
    exact (tidy_line among).feeds (not_mem_lines among)
  rw [written_stripLineFeeds, written_collapse, written]
  by_cases none : tidyLines (Text.lines cs) = []
  · rw [none]
    rfl
  · rw [splitChars_intercalate plain none]

theorem canonical_normal (cs : List Char) :
    Canonical (stripLineFeeds (collapse 0 (['\n'].intercalate (tidyLines (Text.lines cs))))) := by
  have lines := written_normal cs
  generalize made : collapse 0 (['\n'].intercalate (tidyLines (Text.lines cs))) = collapsed at lines ⊢
  have tidied {line : List Char} (member : line ∈ splitChars '\n' (stripLineFeeds collapsed)) :
      line = [] ∨ ∃ before, Tidy before line := by
    by_cases empty : line = []
    · exact .inl empty
    · right
      have kept : line ∈ written (stripLineFeeds collapsed) :=
        List.mem_filter.mpr ⟨member, by simpa using empty⟩
      rw [lines] at kept
      obtain ⟨before, among, rfl⟩ := List.mem_map.mp (List.mem_filter.mp kept).1
      exact ⟨before, tidy_line among⟩
  refine ⟨head_stripLineFeeds _, last_stripLineFeeds _, fun run => ?_, fun line member => ?_,
    fun line member => ?_, fun some => ?_⟩
  · rw [← made] at run
    exact collapse_no_run _ (run.trans (stripLineFeeds_within _))
  · rcases tidied member with rfl | ⟨before, tidy⟩
    · exact fun c found => by cases found
    · exact tidy.ends
  · rcases tidied member with rfl | ⟨before, tidy⟩
    · rintro ⟨front, mark, gap, rest, _, same⟩
      simp at same
    · exact tidy.bare
  · have begins := written_ne_nil some (head_stripLineFeeds collapsed)
    rw [lines] at begins
    obtain ⟨tidied, kept⟩ := List.exists_mem_of_ne_nil _ begins
    obtain ⟨member, filled⟩ := List.mem_filter.mp kept
    obtain ⟨line, among, rfl⟩ := List.mem_map.mp member
    have inked : isBlankLine line = false := by
      cases blank : isBlankLine line with
      | false => rfl
      | true =>
        rw [dedent, if_pos blank] at filled
        cases filled
    obtain ⟨tidied, member, c, head, solid⟩ := margin_tidyLines ⟨line, among, inked⟩
    have stays : tidied ∈ written (stripLineFeeds collapsed) := by
      rw [lines]
      refine List.mem_filter.mpr ⟨member, ?_⟩
      cases tidied with
      | nil => cases head
      | cons => rfl
    exact ⟨tidied, (List.mem_filter.mp stays).1, c, head, solid⟩

/-- No text is lost: a visible character stays, or is a mark that becomes a hyphen. -/
theorem visible_normal (cs : List Char) : ∃ marked,
    List.Forall₂ Hyphened (Text.lines cs) marked ∧
      visible (stripLineFeeds (collapse 0 (['\n'].intercalate (tidyLines (Text.lines cs))))) =
        marked.flatMap visible := by
  have shown (lines : List (List Char)) (f : List Char → List Char)
      (tidy : ∀ line ∈ lines, Tidy line (f line)) : ∃ marked, List.Forall₂ Hyphened lines marked ∧
        (lines.map f).flatMap visible = marked.flatMap visible := by
    induction lines with
    | nil => exact ⟨[], .nil, rfl⟩
    | cons line others ih =>
      obtain ⟨here, later⟩ := List.forall_mem_cons.mp tidy
      obtain ⟨first, hyphened, same⟩ := here.shown
      obtain ⟨rest, all, others'⟩ := ih later
      refine ⟨first :: rest, .cons hyphened all, ?_⟩
      rw [List.map_cons, List.flatMap_cons, List.flatMap_cons, same, others']
  obtain ⟨marked, all, same⟩ := shown (Text.lines cs) _ fun line member => tidy_line member
  refine ⟨marked, all, ?_⟩
  rw [visible_eq_written, written_normal, flatMap_visible_filter]
  exact same

/-! ### Single lines -/

/-- Each run of gaps becomes one space, and all other characters stay. -/
inductive Squeezed : List Char → List Char → Prop where
  | nil : Squeezed [] []
  | char {c : Char} {rest rest' : List Char} (solid : isGap c = false) (others : Squeezed rest rest') :
      Squeezed (c :: rest) (c :: rest')
  | run {gaps rest rest' : List Char} (some : gaps ≠ []) (all : ∀ c ∈ gaps, isGap c = true)
      (ends : ∀ c ∈ rest.head?, isGap c = false) (others : Squeezed rest rest') :
      Squeezed (gaps ++ rest) (' ' :: rest')

private theorem squeeze_inside (cs : List Char) : squeeze true cs = squeeze false (cs.dropWhile isGap) := by
  induction cs with
  | nil => rfl
  | cons c rest ih =>
    by_cases gap : isGap c = true
    · rw [squeeze, if_pos gap, if_pos rfl, ih, List.dropWhile_cons_of_pos gap]
    · rw [List.dropWhile_cons_of_neg gap, squeeze, squeeze, if_neg gap, if_neg gap]

theorem squeezed_squeeze (cs : List Char) : Squeezed cs (squeeze false cs) := by
  induction length : cs.length using Nat.strong_induction_on generalizing cs with
  | _ n ih =>
    cases cs with
    | nil => exact .nil
    | cons c rest =>
      by_cases gap : isGap c = true
      · have parts := List.takeWhile_append_dropWhile (p := isGap) (l := rest)
        have shorter : (rest.dropWhile isGap).length < n := by
          rw [← length, List.length_cons]
          exact Nat.lt_succ_of_le (List.dropWhile_sublist isGap).length_le
        have all : ∀ d ∈ c :: rest.takeWhile isGap, isGap d = true :=
          List.forall_mem_cons.mpr ⟨gap, fun _ => List.mem_takeWhile_imp⟩
        have run := Squeezed.run (List.cons_ne_nil _ _) all (head_dropWhile rest) (ih _ shorter _ rfl)
        rw [List.cons_append, parts] at run
        rw [squeeze, if_pos gap, if_neg Bool.false_ne_true, squeeze_inside]
        exact run
      · have shorter : rest.length < n := by
          rw [← length]
          exact Nat.lt_succ_self _
        rw [squeeze, if_neg gap]
        exact .char (Bool.eq_false_iff.mpr gap) (ih _ shorter rest rfl)

theorem visible_of_squeezed {squeezed : List Char} (squeezes : Squeezed cs squeezed) :
    visible squeezed = visible cs := by
  induction squeezes with
  | nil => rfl
  | @char c rest rest' _ _ ih =>
    have one : visible [c] ++ visible rest' = visible [c] ++ visible rest := congrArg _ ih
    rwa [← visible_append, ← visible_append] at one
  | @run gaps rest rest' _ all _ _ ih =>
    have space : visible (' ' :: rest') = visible rest' := rfl
    rw [space, ih, visible_append, visible_of_gaps all, List.nil_append]

theorem mem_foldLineEnds (cs : List Char) : '\n' ∈ foldLineEnds cs ↔ '\n' ∈ cs := by
  fun_induction foldLineEnds cs with
  | case1 => simp
  | case2 c rest _ ih => rw [List.mem_cons, List.mem_cons, ih]
  | case3 => rfl

theorem foldLineEnds_of_not_mem (single : '\n' ∉ cs) : foldLineEnds cs = cs := by
  fun_induction foldLineEnds cs with
  | case1 => simp at single
  | case2 c rest _ ih => rw [ih fun member => single (List.mem_cons_of_mem c member)]
  | case3 => rfl

/-! ### Normal forms -/

theorem normalizeChars_of_lines (several : '\n' ∈ foldLineEnds cs) : normalizeChars cs =
    stripLineFeeds (collapse 0 (['\n'].intercalate (tidyLines (Text.lines (foldLineEnds cs))))) := by
  rw [normalizeChars]
  exact if_pos (List.contains_iff_mem.mpr several)

theorem normalizeChars_of_line (single : '\n' ∉ cs) : normalizeChars cs = squeeze false cs := by
  have absent : ¬ (foldLineEnds cs).contains '\n' = true := by
    rwa [List.contains_iff_mem, mem_foldLineEnds]
  rw [normalizeChars]
  exact (if_neg absent).trans (by rw [foldLineEnds_of_not_mem single])

/-- As much can be seen as before. -/
theorem length_visible_normalizeChars (cs : List Char) :
    (visible (normalizeChars cs)).length = (visible cs).length := by
  by_cases several : '\n' ∈ cs
  · obtain ⟨marked, all, same⟩ := visible_normal (foldLineEnds cs)
    rw [normalizeChars_of_lines ((mem_foldLineEnds cs).mpr several), same, ← visible_foldLineEnds cs,
      ← flatMap_visible_lines]
    generalize Text.lines (foldLineEnds cs) = lines at all
    clear same
    induction all with
    | nil => rfl
    | cons hyphened _ ih =>
      rw [List.flatMap_cons, List.flatMap_cons, List.length_append, List.length_append, ih,
        hyphened.length_visible]
  · rw [normalizeChars_of_line several, visible_of_squeezed (squeezed_squeeze cs)]

theorem not_isEmpty_normalize {text : String} (shown : visible text.toList ≠ []) :
    (normalize text).isEmpty = false := by
  rw [← Bool.not_eq_true, String.isEmpty_iff]
  intro empty
  have none : normalizeChars text.toList = [] := by
    rw [← String.toList_ofList (l := normalizeChars text.toList)]
    exact congrArg String.toList empty
  have length := length_visible_normalizeChars text.toList
  rw [none] at length
  exact shown (List.length_eq_zero_iff.mp length.symm)

/-- The pass over texts leaves of the texts of a tree the normal forms that are not empty. -/
theorem wording_of_polishing {nodes after : List Node} (passes : Visitor.polishing.Passes nodes after) :
    Node.allWording after = ((Node.allWording nodes).map fun c => { c with text := normalize c.text }).filter
      (!·.text.isEmpty) := by
  induction passes with
  | nil => rfl
  | @element e visited own rest rest' here _ _ below others =>
    cases here
    rw [Node.allWording_element, Node.allWording_element, List.map_append, List.filter_append, below, others]
  | @leaf node parts rest rest' here _ others =>
    rw [Node.allWording_append, others]
    rcases here with ⟨c, rfl, rfl⟩ | ⟨r, rfl, rfl⟩
    · rw [Visitor.polished, Node.allWording, Node.wording, List.singleton_append, List.map_cons,
        List.filter_cons]
      dsimp only
      cases (normalize c.text).isEmpty <;> rfl
    · rfl

/-- What normalization makes of texts. Several lines get the canonical form; what can be seen in it are the
characters of the text one after another, line by line, with the marks of lists as hyphens. On a single
line only runs of spaces and tabs change, each to one space. A text of which something can be seen is
kept by the pass over texts, and the texts of the whole document that are left are all normal forms but
the empty ones. -/
theorem normalize_lawful :
    (∀ text : String, '\n' ∈ foldLineEnds text.toList →
      Canonical (normalize text).toList ∧
      (Text.lines (foldLineEnds text.toList)).flatMap visible = visible text.toList ∧
      ∃ marked, List.Forall₂ Hyphened (Text.lines (foldLineEnds text.toList)) marked ∧
        visible (normalize text).toList = marked.flatMap visible) ∧
    (∀ text : String, '\n' ∉ text.toList → Squeezed text.toList (normalize text).toList) ∧
    (∀ place session (c : Content), visible c.text.toList ≠ [] →
      Visitor.normalization.content place session c = .keep { c with text := normalize c.text } session) ∧
    ∀ session d levels, (Visitor.normalization.walk [] session d levels).halt = none →
      Node.allWording (Visitor.normalization.walk [] session d levels).part.children =
        ((Node.allWording d.children).map fun c => { c with text := normalize c.text }).filter
          (!·.text.isEmpty) := by
  have chars (text : String) : (normalize text).toList = normalizeChars text.toList := String.toList_ofList
  refine ⟨fun text several => ?_, fun text single => ?_, fun place session c shown => ?_,
    fun session d levels ended =>
      wording_of_polishing (Visitor.normalization_polishes session d levels ended)⟩
  · rw [chars, normalizeChars_of_lines several, flatMap_visible_lines, visible_foldLineEnds]
    exact ⟨canonical_normal _, rfl, visible_normal _⟩
  · rw [chars, normalizeChars_of_line single]
    exact squeezed_squeeze _
  · simp only [Visitor.normalization, not_isEmpty_normalize shown, Bool.false_eq_true, if_false]

/-- Margins, marks and surplus blank lines. -/
theorem normalize_lawful_list :
    let text := "\n    Hello\n      * item\n    World  \n\n\n\n    End\n  "
    normalize text = "Hello\n  - item\nWorld\n\nEnd" ∧ Canonical (normalize text).toList :=
  ⟨by decide +kernel, (normalize_lawful.1 _ (by decide +kernel)).1⟩

end LinkedMarkup.Normalization
