import LinkedMarkup.Normalization
import LinkedMarkup.Proofs.Text.TextParts
import Mathlib.Data.List.DropRight
import Mathlib.Data.List.Infix
/-! The lines of normalized text. Each is tidied by itself: its margin and the gaps at its end go, and the
mark of a list becomes a hyphen. Line feeds are dropped only between lines and around them, so the lines
that are not empty stay. -/
namespace LinkedMarkup.Normalization
open Text

variable {cs line front rest : List Char} {mark gap : Char}

/-! ### What can be seen -/

def visible (cs : List Char) : List Char := cs.filter (!Unicode.isBlank ·)

theorem visible_append (cs ds : List Char) : visible (cs ++ ds) = visible cs ++ visible ds :=
  List.filter_append cs ds

theorem visible_of_blank (blank : ∀ c ∈ cs, Unicode.isBlank c = true) : visible cs = [] := by
  rw [visible, List.filter_eq_nil_iff]
  intro c member
  simp [blank c member]

theorem isBlank_of_isGap {c : Char} (gap : isGap c = true) : Unicode.isBlank c = true := by
  rcases Bool.or_eq_true_iff.mp gap with space | tab
  · rw [beq_iff_eq.mp space]
    decide
  · rw [beq_iff_eq.mp tab]
    decide

theorem visible_of_gaps (gaps : ∀ c ∈ cs, isGap c = true) : visible cs = [] :=
  visible_of_blank fun c member => isBlank_of_isGap (gaps c member)

theorem visible_intercalate (parts : List (List Char)) :
    visible (['\n'].intercalate parts) = parts.flatMap visible := by
  induction parts with
  | nil => rfl
  | cons part others ih =>
    cases others with
    | nil => simp
    | cons next others =>
      have feed : visible ['\n'] = [] := rfl
      rw [List.intercalate_cons_cons, visible_append, visible_append, feed, List.append_nil, ih]
      rfl

theorem flatMap_visible_splitChars (cs : List Char) : (splitChars '\n' cs).flatMap visible = visible cs := by
  rw [← visible_intercalate, intercalate_splitChars]

/-- Line ends are white space. -/
theorem flatMap_visible_lines (cs : List Char) : (Text.lines cs).flatMap visible = visible cs := by
  have ended (parts : List (List Char)) : (parts.map fun line =>
      if line.getLast? = some '\r' then line.dropLast else line).flatMap visible = parts.flatMap visible := by
    rw [List.flatMap_map]
    congr 1
    funext line
    split
    · next last =>
      obtain ⟨front, rfl⟩ := List.getLast?_eq_some_iff.mp last
      rw [List.dropLast_concat, visible_append]
      exact (List.append_nil _).symm
    · rfl
  rw [Text.lines, ← flatMap_visible_splitChars cs]
  generalize splitChars '\n' cs = parts
  cases parts using List.reverseRecOn with
  | nil => rfl
  | append_singleton before last =>
    rw [List.dropLast_concat, List.getLast?_concat, List.flatMap_append]
    cases last with
    | nil => exact (ended before).trans (List.append_nil _).symm
    | cons c rest => rw [List.flatMap_append, ended]

theorem visible_foldLineEnds (cs : List Char) : visible (foldLineEnds cs) = visible cs := by
  fun_induction foldLineEnds cs with
  | case1 rest ih => exact ih
  | case2 c rest _ ih =>
    rw [visible, visible, List.filter_cons, List.filter_cons]
    split
    · exact congrArg (c :: ·) ih
    · exact ih
  | case3 => rfl

/-! ### Lines that are not empty -/

def written (cs : List Char) : List (List Char) := (splitChars '\n' cs).filter (!·.isEmpty)

theorem written_separator (rest : List Char) : written ('\n' :: rest) = written rest := by
  rw [written, splitChars_separator]
  rfl

theorem written_concat (cs : List Char) : written (cs ++ ['\n']) = written cs := by
  rw [written, splitChars_concat, List.filter_append]
  exact List.append_nil _

/-- Line feeds are dropped between lines only: the line that has begun goes on. -/
private theorem written_collapse_line (run : Nat) (cs : List Char) :
    written (collapse run cs) = written cs ∧ (run = 0 → ∃ line others others',
      splitChars '\n' (collapse 0 cs) = line :: others ∧ splitChars '\n' cs = line :: others' ∧
        others.filter (!·.isEmpty) = others'.filter (!·.isEmpty)) := by
  induction cs generalizing run with
  | nil => exact ⟨rfl, fun _ => ⟨[], [], [], rfl, rfl, rfl⟩⟩
  | cons c rest ih =>
    by_cases feed : c = '\n'
    · subst feed
      have first : collapse 0 ('\n' :: rest) = '\n' :: collapse 1 rest := rfl
      refine ⟨?_, fun _ => ⟨[], _, _, ?_, splitChars_separator _ _, (ih 1).1⟩⟩
      · rw [collapse, if_pos (beq_self_eq_true _), written_separator]
        split
        · rw [written_separator, (ih _).1]
        · exact (ih run).1
      · rw [first, splitChars_separator]
    · obtain ⟨line, others, others', here, before, same⟩ := (ih 0).2 rfl
      have stays (run : Nat) : collapse run (c :: rest) = c :: collapse 0 rest := by
        rw [collapse, if_neg (by simpa using feed)]
      refine ⟨?_, fun _ => ⟨c :: line, others, others', ?_, splitChars_cons feed before, same⟩⟩
      · rw [stays, written, written, splitChars_cons feed here, splitChars_cons feed before]
        exact congrArg (_ :: ·) same
      · rw [stays, splitChars_cons feed here]

theorem written_collapse (cs : List Char) : written (collapse 0 cs) = written cs :=
  (written_collapse_line 0 cs).1

theorem written_stripLineFeeds (cs : List Char) : written (stripLineFeeds cs) = written cs := by
  have front (cs : List Char) : written (cs.dropWhile (· == '\n')) = written cs := by
    induction cs with
    | nil => rfl
    | cons c rest ih =>
      by_cases feed : c = '\n'
      · subst feed
        exact ih.trans (written_separator rest).symm
      · rw [List.dropWhile_cons_of_neg (by simpa using feed)]
  have back (cs : List Char) : written (cs.dropWhile (· == '\n')).reverse = written cs.reverse := by
    induction cs with
    | nil => rfl
    | cons c rest ih =>
      by_cases feed : c = '\n'
      · subst feed
        rw [List.reverse_cons, written_concat]
        exact ih
      · rw [List.dropWhile_cons_of_neg (by simpa using feed)]
  rw [stripLineFeeds, back, List.reverse_reverse, front]

theorem flatMap_visible_filter (lines : List (List Char)) :
    (lines.filter (!·.isEmpty)).flatMap visible = lines.flatMap visible := by
  induction lines with
  | nil => rfl
  | cons line others ih =>
    cases line with
    | nil => exact ih
    | cons c line => exact congrArg (visible (c :: line) ++ ·) ih

/-- Whatever can be seen stands on a line that is not empty. -/
theorem visible_eq_written (cs : List Char) : visible cs = (written cs).flatMap visible := by
  rw [written, flatMap_visible_filter, flatMap_visible_splitChars]

/-- A text that begins with something else than a line feed begins with a line that is not empty. -/
theorem written_ne_nil (filled : cs ≠ []) (first : cs.head? ≠ some '\n') : written cs ≠ [] := by
  obtain ⟨c, rest, rfl⟩ := List.exists_cons_of_ne_nil filled
  have solid : c ≠ '\n' := fun feed => first (congrArg some feed)
  obtain ⟨part, parts, split⟩ := List.exists_cons_of_ne_nil (splitChars_ne_nil '\n' rest)
  rw [written, splitChars_cons solid split]
  exact List.cons_ne_nil _ _

/-! ### Line feeds -/

theorem collapse_no_run (cs : List Char) : ¬ ['\n', '\n', '\n'] <:+: collapse 0 cs := by
  have after (run : Nat) (few : run ≤ 2) :
      ¬ ['\n', '\n', '\n'] <:+: List.replicate run '\n' ++ collapse run cs := by
    induction cs generalizing run with
    | nil =>
      intro within
      have longer : 3 ≤ (List.replicate run '\n' ++ []).length := within.length_le
      rw [List.append_nil, List.length_replicate] at longer
      omega
    | cons c rest ih =>
      rw [collapse]
      by_cases feed : c = '\n'
      · rw [if_pos (by simpa using feed), feed]
        split
        · next fewer =>
          have one := ih (run + 1) (by omega)
          rwa [List.replicate_succ', List.append_assoc] at one
        · exact ih run few
      · rw [if_neg (by simpa using feed)]
        have others : ¬ ['\n', '\n', '\n'] <:+: collapse 0 rest := ih 0 (Nat.zero_le 2)
        have fed : '\n' ≠ c := Ne.symm feed
        obtain rfl | rfl | rfl : run = 0 ∨ run = 1 ∨ run = 2 := by omega
        all_goals simp [List.replicate, List.infix_cons_iff, fed, others]
  exact after 0 (Nat.zero_le 2)

theorem stripLineFeeds_within (cs : List Char) : stripLineFeeds cs <:+: cs :=
  (List.rdropWhile_prefix _ _).isInfix.trans (List.dropWhile_suffix _).isInfix

theorem head_stripLineFeeds (cs : List Char) : (stripLineFeeds cs).head? ≠ some '\n' := by
  intro first
  obtain ⟨dropped, split⟩ : stripLineFeeds cs <+: cs.dropWhile (· == '\n') :=
    List.rdropWhile_prefix _ _
  have begins : (cs.dropWhile (· == '\n')).head? = some '\n' := by
    rw [← split, List.head?_append, first]
    rfl
  have other := head_dropWhile cs '\n' begins
  simp at other

theorem last_stripLineFeeds (cs : List Char) : (stripLineFeeds cs).getLast? ≠ some '\n' := by
  intro last
  rw [stripLineFeeds, List.getLast?_reverse] at last
  have other := head_dropWhile _ '\n' last
  simp at other

/-! ### Single lines -/

/-- What stands at the beginning of a list item: gaps, an asterisk or a plus sign, and a gap. -/
structure Opens (front : List Char) (mark gap : Char) : Prop where
  gaps : ∀ c ∈ front, isGap c = true
  marks : mark = '*' ∨ mark = '+'
  apart : isGap gap = true

def IsItem (line : List Char) : Prop :=
  ∃ front mark gap rest, Opens front mark gap ∧ line = front ++ mark :: gap :: rest

/-- A line with its mark, if it has one, as a hyphen. A mark has more than gaps behind it: these go before
marks are looked for, so an asterisk that is alone on its line stays. -/
inductive Hyphened : List Char → List Char → Prop where
  | item {front rest : List Char} {mark gap : Char} (opens : Opens front mark gap)
      (more : ∃ c ∈ rest, isGap c = false) :
      Hyphened (front ++ mark :: gap :: rest) (front ++ '-' :: gap :: rest)
  | other {line : List Char} (bare : ∀ front mark gap rest, Opens front mark gap →
      line = front ++ mark :: gap :: rest → ∀ c ∈ rest, isGap c = true) : Hyphened line line

namespace Opens

theorem not_gap (opens : Opens front mark gap) : isGap mark = false := by
  rcases opens.marks with rfl | rfl <;> rfl

theorem takeWhile_eq (opens : Opens front mark gap) (rest : List Char) :
    (front ++ mark :: rest).takeWhile isGap = front := by
  rw [List.takeWhile_append_of_pos opens.gaps, List.takeWhile_cons_of_neg (by simp [opens.not_gap]),
    List.append_nil]

theorem dropWhile_eq (opens : Opens front mark gap) (rest : List Char) :
    (front ++ mark :: rest).dropWhile isGap = mark :: rest := by
  rw [List.dropWhile_append_of_pos opens.gaps, List.dropWhile_cons_of_neg (by simp [opens.not_gap])]

end Opens

theorem hyphenate_item (opens : Opens front mark gap) (rest : List Char) :
    hyphenate (front ++ mark :: gap :: rest) = front ++ '-' :: ' ' :: rest.dropWhile isGap := by
  have marked : ((mark == '*' || mark == '+') && isGap gap) = true := by
    rcases opens.marks with rfl | rfl <;> simp [opens.apart]
  rw [hyphenate, opens.dropWhile_eq, opens.takeWhile_eq]
  exact if_pos marked

/-- A hyphen is no mark. -/
theorem not_isItem_hyphen (gaps : ∀ c ∈ front, isGap c = true) : ¬ IsItem (front ++ '-' :: rest) := by
  rintro ⟨front', mark, gap, rest', opens, same⟩
  have first := congrArg (List.dropWhile isGap) same
  rw [opens.dropWhile_eq, List.dropWhile_append_of_pos gaps, List.dropWhile_cons_of_neg (by decide)] at first
  have hyphen : mark = '-' := (List.cons.inj first).1.symm
  rcases opens.marks with star | plus
  · exact absurd (star.symm.trans hyphen) (by decide)
  · exact absurd (plus.symm.trans hyphen) (by decide)

theorem hyphenate_other (bare : ¬ IsItem line) : hyphenate line = line := by
  rw [hyphenate]
  split
  · next mark gap rest found =>
    rw [if_neg]
    intro marked
    simp only [Bool.and_eq_true, Bool.or_eq_true, beq_iff_eq] at marked
    have parts := List.takeWhile_append_dropWhile (p := isGap) (l := line)
    rw [found] at parts
    exact bare ⟨_, mark, gap, rest, ⟨fun _ => List.mem_takeWhile_imp, marked.1, marked.2⟩, parts.symm⟩
  · rfl

/-- A line that begins at once does so with its mark as a hyphen, too. -/
theorem head_hyphenate {c : Char} (solid : isGap c = false) (rest : List Char) :
    ∃ d ∈ (hyphenate (c :: rest)).head?, isGap d = false := by
  by_cases item : IsItem (c :: rest)
  · obtain ⟨front, mark, gap, more, opens, same⟩ := item
    cases front with
    | nil => exact ⟨'-', by rw [same, hyphenate_item opens]; rfl, rfl⟩
    | cons d front =>
      have gapped := opens.gaps d List.mem_cons_self
      rw [← (List.cons.inj same).1, solid] at gapped
      cases gapped
  · exact ⟨c, by rw [hyphenate_other item]; rfl, solid⟩

/-- The line with gaps around it. -/
structure Around (core line : List Char) : Prop where
  parts : ∃ front back, line = front ++ core ++ back ∧ (∀ c ∈ front, isGap c = true) ∧
    ∀ c ∈ back, isGap c = true
  ends : ∀ c ∈ core.getLast?, isGap c = false

theorem Around.visible (around : Around cs line) : visible line = visible cs := by
  obtain ⟨front, back, rfl, before, behind⟩ := around.parts
  rw [visible_append, visible_append, visible_of_gaps before, visible_of_gaps behind, List.nil_append,
    List.append_nil]

theorem stripEnd_spec (cs : List Char) : (∀ c ∈ (stripEnd cs).getLast?, isGap c = false) ∧
    ∃ back, cs = stripEnd cs ++ back ∧ ∀ c ∈ back, isGap c = true := by
  have parts := List.takeWhile_append_dropWhile (p := isGap) (l := cs.reverse)
  have turned := congrArg List.reverse parts
  rw [List.reverse_append, List.reverse_reverse] at turned
  refine ⟨fun c last => ?_, _, turned.symm, fun c member => List.mem_takeWhile_imp (List.mem_reverse.mp member)⟩
  rw [stripEnd, List.getLast?_reverse] at last
  exact head_dropWhile _ c last

/-- A line that is not blank loses gaps only. -/
theorem stripEnd_dedent {indent : Nat} (filled : isBlankLine line = false) (fits : indent ≤ indentation line) :
    Around (stripEnd (dedent indent line)) line := by
  have kept : dedent indent line = line.drop indent := by
    rw [dedent, filled]
    rfl
  obtain ⟨ends, back, split, behind⟩ := stripEnd_spec (line.drop indent)
  rw [kept]
  refine ⟨⟨line.take indent, back, ?_, fun c member => ?_, behind⟩, ends⟩
  · rw [List.append_assoc, ← split, List.take_append_drop]
  · have margin : (line.takeWhile isGap ++ line.dropWhile isGap).take indent =
        (line.takeWhile isGap).take indent := List.take_append_of_le_length fits
    rw [List.takeWhile_append_dropWhile] at margin
    rw [margin] at member
    exact List.mem_takeWhile_imp (List.mem_of_mem_take member)

/-- Something stands behind the mark of a line that does not end with a gap. -/
theorem Opens.more (opens : Opens front mark gap)
    (ends : ∀ c ∈ (front ++ mark :: gap :: rest).getLast?, isGap c = false) :
    ∃ last ∈ rest.getLast?, isGap last = false := by
  cases rest using List.reverseRecOn with
  | nil =>
    have gapped := ends gap (by simp)
    rw [opens.apart] at gapped
    cases gapped
  | append_singleton before last =>
    have whole : front ++ mark :: gap :: (before ++ [last]) = front ++ mark :: gap :: before ++ [last] := by simp
    rw [whole] at ends
    exact ⟨last, List.getLast?_concat, ends last List.getLast?_concat⟩

/-- A line and its core begin with the same mark, and then something stands behind it. -/
theorem Around.opens {core : List Char} (around : Around core line) (opens : Opens front mark gap)
    (same : line = front ++ mark :: gap :: rest) (more : ∃ c ∈ rest, isGap c = false) : IsItem core := by
  obtain ⟨before, behind, split, gaps, gaps'⟩ := around.parts
  rw [same, List.append_assoc] at split
  -- The margin ends before the mark.
  obtain ⟨inner, rfl, core'⟩ : ∃ inner, front = before ++ inner ∧
      core ++ behind = inner ++ mark :: gap :: rest := by
    rcases List.append_eq_append_iff.mp split with ⟨inner, margin, tail⟩ | ⟨inner, margin, tail⟩
    · cases inner with
      | nil => exact ⟨[], by simpa using margin.symm, by simpa using tail.symm⟩
      | cons c inner =>
        have marked : mark = c := (List.cons.inj tail).1
        have gapped := gaps c (by simp [margin])
        rw [← marked, opens.not_gap] at gapped
        cases gapped
    · exact ⟨inner, margin, tail⟩
  have within : Opens inner mark gap :=
    ⟨fun c member => opens.gaps c (List.mem_append_right _ member), opens.marks, opens.apart⟩
  -- The gaps at the end begin behind it.
  have whole : core ++ behind = (inner ++ [mark, gap]) ++ rest := by simpa using core'
  rcases List.append_eq_append_iff.mp whole with ⟨middle, short, tail⟩ | ⟨middle, long, _⟩
  · obtain ⟨c, member, solid⟩ := more
    have gapped := gaps' c (by simp [tail, member])
    rw [solid] at gapped
    cases gapped
  · exact ⟨inner, mark, gap, middle, within, by simpa using long⟩

/-- Between gaps one character can be seen. -/
theorem visible_between {c : Char} (gaps : ∀ c ∈ front, isGap c = true) (solid : Unicode.isBlank c = false)
    (apart : isGap gap = true) (rest : List Char) : visible (front ++ c :: gap :: rest) = c :: visible rest := by
  have behind : visible (c :: gap :: rest) = c :: visible rest := by
    rw [visible, List.filter_cons_of_pos (by simp [solid]),
      List.filter_cons_of_neg (by simp [isBlank_of_isGap apart])]
    rfl
  rw [visible_append, visible_of_gaps gaps, List.nil_append, behind]

/-- As much can be seen as before. -/
theorem Hyphened.length_visible {marked : List Char} (hyphened : Hyphened line marked) :
    (visible marked).length = (visible line).length := by
  cases hyphened with
  | @item front rest mark gap opens more =>
    have solid : Unicode.isBlank mark = false := by rcases opens.marks with rfl | rfl <;> rfl
    rw [visible_between opens.gaps rfl opens.apart, visible_between opens.gaps solid opens.apart]
    rfl
  | other => rfl

theorem visible_dropWhile (cs : List Char) : visible (cs.dropWhile isGap) = visible cs := by
  have parts := List.takeWhile_append_dropWhile (p := isGap) (l := cs)
  have none : visible (cs.takeWhile isGap) = [] := visible_of_gaps fun c => List.mem_takeWhile_imp
  rw [← parts, visible_append, none, List.nil_append, parts]

theorem getLast?_dropWhile {last : Char} (final : cs.getLast? = some last) (solid : isGap last = false) :
    (cs.dropWhile isGap).getLast? = some last := by
  obtain ⟨front, rfl⟩ := List.getLast?_eq_some_iff.mp final
  have stays : [last].dropWhile isGap = [last] := List.dropWhile_cons_of_neg (by simp [solid])
  rw [List.dropWhile_append, stays]
  split
  · rfl
  · exact List.getLast?_concat

/-- What holds of a line that has been tidied. -/
structure Tidy (line tidied : List Char) : Prop where
  ends : ∀ c ∈ tidied.getLast?, isGap c = false
  bare : ¬ IsItem tidied
  shown : ∃ marked, Hyphened line marked ∧ visible tidied = visible marked
  feeds : '\n' ∉ line → '\n' ∉ tidied

theorem Around.tidy_item (around : Around (front ++ mark :: gap :: rest) line) (opens : Opens front mark gap) :
    Tidy line (front ++ '-' :: ' ' :: rest.dropWhile isGap) := by
  obtain ⟨last, final, solid⟩ := opens.more around.ends
  obtain ⟨before, behind, split, gaps, gaps'⟩ := around.parts
  refine ⟨fun c found => ?_, not_isItem_hyphen opens.gaps, ?_, fun absent => ?_⟩
  · rw [List.getLast?_append, List.getLast?_cons_cons, List.getLast?_cons,
      getLast?_dropWhile final solid] at found
    cases found
    exact solid
  · have wider : Opens (before ++ front) mark gap :=
      ⟨List.forall_mem_append.mpr ⟨gaps, opens.gaps⟩, opens.marks, opens.apart⟩
    have longer : ∃ c ∈ rest ++ behind, isGap c = false :=
      ⟨last, List.mem_append_left _ (List.mem_of_getLast? final), solid⟩
    have whole : line = before ++ front ++ mark :: gap :: (rest ++ behind) := by simp [split]
    refine ⟨before ++ front ++ '-' :: gap :: (rest ++ behind), ?_, ?_⟩
    · rw [whole]
      exact .item wider longer
    · rw [visible_between opens.gaps rfl (by rfl), visible_between wider.gaps rfl opens.apart,
        visible_dropWhile, visible_append, visible_of_gaps gaps', List.append_nil]
  · have kept : '\n' ∈ rest.dropWhile isGap → '\n' ∈ rest :=
      fun member => (List.dropWhile_sublist isGap).subset member
    simp only [split, List.mem_append, List.mem_cons, not_or] at absent ⊢
    exact ⟨absent.1.2.1, by decide, by decide, fun member => absent.1.2.2.2.2 (kept member)⟩

theorem Around.tidy_other {core : List Char} (around : Around core line) (item : ¬ IsItem core) :
    Tidy line core := by
  obtain ⟨before, behind, split, _⟩ := around.parts
  refine ⟨around.ends, item, ⟨line, .other fun front mark gap rest opens same => ?_, around.visible.symm⟩,
    fun absent member => absent ?_⟩
  · by_contra solid
    simp only [not_forall, Bool.not_eq_true] at solid
    obtain ⟨c, member, other⟩ := solid
    exact item (around.opens opens same ⟨c, member, other⟩)
  · rw [split]
    exact List.mem_append_left _ (List.mem_append_right _ member)

theorem Around.tidy {core : List Char} (around : Around core line) : Tidy line (hyphenate core) := by
  by_cases item : IsItem core
  · obtain ⟨front, mark, gap, rest, opens, rfl⟩ := item
    rw [hyphenate_item opens]
    exact around.tidy_item opens
  · rw [hyphenate_other item]
    exact around.tidy_other item

/-- There is nothing in a blank line. -/
theorem tidy_of_blank (blank : isBlankLine line = true) : Tidy line [] := by
  rw [isBlankLine, List.all_eq_true] at blank
  refine ⟨fun c found => (by cases found), ?_, ⟨line, .other fun front mark gap rest opens same => ?_,
    (visible_of_blank blank).symm⟩, fun _ => List.not_mem_nil⟩
  · rintro ⟨front, mark, gap, rest, _, same⟩
    simp at same
  · have white := blank mark (by simp [same])
    rcases opens.marks with rfl | rfl <;> cases white

theorem commonIndentation_le {lines : List (List Char)} (member : line ∈ lines)
    (filled : isBlankLine line = false) : commonIndentation lines ≤ indentation line := by
  have among : indentation line ∈ (lines.filter fun line => !isBlankLine line).map indentation :=
    List.mem_map_of_mem (List.mem_filter.mpr ⟨member, by simp [filled]⟩)
  rw [commonIndentation]
  cases least : ((lines.filter fun line => !isBlankLine line).map indentation).min? with
  | none => exact Nat.zero_le _
  | some least' => exact (List.min?_eq_some_iff.mp least).2 _ among

theorem tidy_line {lines : List (List Char)} (member : line ∈ lines) :
    Tidy line (hyphenate (stripEnd (dedent (commonIndentation lines) line))) := by
  cases blank : isBlankLine line with
  | true =>
    rw [dedent, if_pos blank]
    exact tidy_of_blank blank
  | false => exact (stripEnd_dedent blank (commonIndentation_le member blank)).tidy

/-- If not all lines are blank, one has the common indentation. -/
theorem exists_commonIndentation {lines : List (List Char)}
    (filled : ∃ line ∈ lines, isBlankLine line = false) :
    ∃ line ∈ lines, commonIndentation lines = indentation line ∧ isBlankLine line = false := by
  obtain ⟨other, among, inked⟩ := filled
  have some : ((lines.filter fun line => !isBlankLine line).map indentation) ≠ [] :=
    List.ne_nil_of_mem (List.mem_map_of_mem (List.mem_filter.mpr ⟨among, by simp [inked]⟩))
  rw [commonIndentation]
  cases least : ((lines.filter fun line => !isBlankLine line).map indentation).min? with
  | none => exact absurd (List.min?_eq_none_iff.mp least) some
  | some margin =>
    obtain ⟨line, kept, same⟩ := List.mem_map.mp (List.min?_eq_some_iff.mp least).1
    obtain ⟨member, inked⟩ := List.mem_filter.mp kept
    exact ⟨line, member, same.symm, by simpa using inked⟩

/-- The line with the least margin begins at once. -/
theorem margin_tidyLines {lines : List (List Char)} (filled : ∃ line ∈ lines, isBlankLine line = false) :
    ∃ tidied ∈ tidyLines lines, ∃ c ∈ tidied.head?, isGap c = false := by
  obtain ⟨line, member, least, inked⟩ := exists_commonIndentation filled
  have parts := List.takeWhile_append_dropWhile (p := isGap) (l := line)
  have begun : dedent (commonIndentation lines) line = line.dropWhile isGap := by
    rw [dedent, inked, least, indentation]
    nth_rewrite 2 [← parts]
    exact List.drop_left
  refine ⟨_, List.mem_map_of_mem member, ?_⟩
  rw [begun]
  obtain ⟨ends, back, split, behind⟩ := stripEnd_spec (line.dropWhile isGap)
  have first := head_dropWhile (p := isGap) line
  cases core : stripEnd (line.dropWhile isGap) with
  | nil =>
    -- The line would be blank.
    rw [core, List.nil_append] at split
    rw [isBlankLine, List.all_eq_false] at inked
    obtain ⟨c, inside, solid⟩ := inked
    rw [← parts, split, List.mem_append] at inside
    have gap : isGap c = true := inside.elim List.mem_takeWhile_imp (behind c)
    exact absurd (isBlank_of_isGap gap) solid
  | cons c rest =>
    rw [core] at split
    have solid : isGap c = false := first c (by rw [split]; rfl)
    exact head_hyphenate solid rest

end LinkedMarkup.Normalization
