import LinkedMarkup.Mapping.Selector.Text
import LinkedMarkup.Proofs.Text.LetterCase
import LinkedMarkup.Proofs.Text.TextParts
/-! Tags as selectors. A tag is read as the selector of its lower case by the full mapping, but tags are
compared by ASCII folding only. So a selector finds the tags with the same lower case that ASCII folding
lowers, and a tag that has another capital does not find itself. -/
namespace LinkedMarkup.Selector

/-! ### Names -/

theorem not_blank_of_isNameChar {c : Char} (name : isNameChar c = true) : Unicode.isBlank c = false :=
  Text.not_blank_of (by decide +kernel) name

variable {cs : List Char}

theorem splitAttribute?_of_not_mem (plain : '@' ∉ cs) (depth : Int) : splitAttribute? depth cs = none := by
  induction cs generalizing depth with
  | nil => rfl
  | cons c rest ih =>
    rw [List.mem_cons, not_or] at plain
    have other : (c == '@') = false := beq_eq_false_iff_ne.mpr (Ne.symm plain.1)
    simp [splitAttribute?, ih plain.2, other]

theorem not_mem_of_isName (name : isName cs = true) {mark : Char} (special : isNameChar mark = false) :
    mark ∉ cs := by
  rw [isName, Bool.and_eq_true, List.all_eq_true] at name
  intro member
  rw [name.2 mark member] at special
  cases special

theorem parseSimple_name (name : isName cs = true) :
    parseSimple cs = .ok (.tag (Unicode.lowerCase (String.ofList cs))) := by
  have slash : '/' ∉ cs := not_mem_of_isName name rfl
  rw [parseSimple.eq_def]
  split
  · exact absurd List.mem_cons_self slash
  · exact absurd List.mem_cons_self (not_mem_of_isName name rfl)
  · exact absurd List.mem_cons_self (not_mem_of_isName name rfl)
  · rw [if_neg (by simpa using slash), if_pos name]

theorem parseChars_simple {core : List Char} (trimmed : Text.trimChars cs = core) (written : core ≠ [])
    (plain : '@' ∉ core) (unmarked : ¬ firstMark <+: core) :
    parseChars cs = (parseSimple core).mapError (.invalidSelector (String.ofList core)) := by
  subst trimmed
  rw [parseChars]
  dsimp only
  rw [if_neg (by simpa using written)]
  split
  · next split =>
    rw [splitAttribute?_of_not_mem plain 0] at split
    cases split
  · rw [dif_neg fun marked => unmarked (List.isPrefixOf_iff_prefix.mp marked)]

theorem parseChars_name (name : isName cs = true) :
    parseChars cs = .ok (.tag (Unicode.lowerCase (String.ofList cs))) := by
  have trimmed : Text.trimChars cs = cs := by
    rw [isName, Bool.and_eq_true, List.all_eq_true] at name
    exact Text.trimChars_of_not_blank fun c member => not_blank_of_isNameChar (name.2 c member)
  have written : cs ≠ [] := by
    rintro rfl
    cases name
  have unmarked : ¬ firstMark <+: cs := fun marked =>
    absurd (marked.subset (by decide : '(' ∈ firstMark)) (not_mem_of_isName name rfl)
  rw [parseChars_simple trimmed written (not_mem_of_isName name rfl) unmarked, parseSimple_name name]
  rfl

/-! ### Selection -/

/-- The selector of a lower-case name finds the tags that ASCII folding makes that name. -/
theorem tagMatches_lowerCase (tag : String) (e : Element) :
    tagMatches (Unicode.lowerCase tag) e = decide (Unicode.lowerCase e.tag = Unicode.lowerCase tag ∧
      Text.asciiLower e.tag = Unicode.lowerCase e.tag) := by
  rw [tagMatches, Unicode.asciiLower_lowerCase, beq_eq_decide, decide_eq_decide]
  exact Unicode.asciiLower_eq_lowerCase_iff

theorem select_tag (d : Document) (around : Surroundings) (tag : String) :
    select d around (.tag (Unicode.lowerCase tag)) = (d.elements.filter fun e =>
      Unicode.lowerCase e.tag = Unicode.lowerCase tag ∧
        Text.asciiLower e.tag = Unicode.lowerCase e.tag).map .element := by
  rw [select, funext (tagMatches_lowerCase tag)]

/-- A tag that is a name can be read as a selector. It selects, in document order, the elements with the same
tag in lower case, except those whose tag has capitals that ASCII folding keeps. -/
theorem select_by_name (d : Document) (around : Surroundings) (e : Element) (member : e ∈ d.elements)
    (name : isName e.tag.toList = true) :
    ∃ selector, parse e.tag = .ok selector ∧
      select d around selector = (d.elements.filter fun other =>
        Unicode.lowerCase other.tag = Unicode.lowerCase e.tag ∧
          Text.asciiLower other.tag = Unicode.lowerCase other.tag).map .element ∧
      (Selected.element e ∈ select d around selector ↔
        Text.asciiLower e.tag = Unicode.lowerCase e.tag) := by
  have read : parse e.tag = .ok (.tag (Unicode.lowerCase e.tag)) := by
    rw [parse, parseChars_name name, String.ofList_toList]
  refine ⟨_, read, select_tag d around e.tag, ?_⟩
  rw [select_tag, List.mem_map]
  constructor
  · rintro ⟨other, found, same⟩
    cases same
    exact (of_decide_eq_true (List.mem_filter.mp found).2).2
  · intro folded
    exact ⟨e, List.mem_filter.mpr ⟨member, decide_eq_true ⟨rfl, folded⟩⟩, rfl⟩

/-- The only capital is one of ASCII, so the element finds itself. -/
theorem select_by_name_measure :
    isName "Maß".toList = true ∧
      ∃ selector, parse "Maß" = .ok selector ∧
        Selected.element { tag := "Maß" } ∈ select ⟨[.element { tag := "Maß" }], {}⟩ {} selector := by
  have name : isName "Maß".toList = true := by decide +kernel
  obtain ⟨selector, read, _, found⟩ :=
    select_by_name ⟨[.element { tag := "Maß" }], {}⟩ {} { tag := "Maß" } List.mem_cons_self name
  exact ⟨name, selector, read, found.mpr (by decide +kernel)⟩

/-- The only element of the document is not selected by its own tag. -/
theorem name_overlooks_accented_capital :
    isName "É".toList = true ∧ parse "É" = .ok (.tag (Unicode.lowerCase "É")) ∧
      Document.elements ⟨[.element { tag := "É" }], {}⟩ = [{ tag := "É" }] ∧
      select ⟨[.element { tag := "É" }], {}⟩ {} (.tag (Unicode.lowerCase "É")) = [] := by
  have name : isName "É".toList = true := by decide +kernel
  have kept : Text.asciiLower "É" ≠ Unicode.lowerCase "É" := by decide +kernel
  refine ⟨name, ?_, rfl, ?_⟩
  · rw [parse, parseChars_name name, String.ofList_toList]
  · rw [select_tag, List.map_eq_nil_iff, List.filter_eq_nil_iff]
    intro e member
    cases List.mem_singleton.mp member
    simp [kept]

end LinkedMarkup.Selector
