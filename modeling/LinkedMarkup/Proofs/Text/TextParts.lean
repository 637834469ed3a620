import LinkedMarkup.Numeral
import LinkedMarkup.Text
import Mathlib.Data.List.Basic
import Mathlib.Data.List.TakeWhile

namespace LinkedMarkup

namespace Text
variable {separator : Char} {cs before after core : List Char}

/-! ### Separators -/

theorem splitChars_eq_splitOn (separator : Char) (cs : List Char) :
    splitChars separator cs = cs.splitOn separator := by
  induction cs with
  | nil => simp [splitChars]
  | cons c rest ih =>
    rw [List.splitOn_cons_eq_if_modifyHead, splitChars, ih]
    by_cases here : c = separator
    · simp [here]
    · simp only [here, if_false, beq_iff_eq]
      cases parts : rest.splitOn separator with
      | nil => exact absurd parts (List.splitOn_ne_nil separator rest)
      | cons part others => rfl

theorem splitChars_append (plain : separator ∉ before) (after : List Char) :
    splitChars separator (before ++ separator :: after) = before :: splitChars separator after := by
  simp only [splitChars_eq_splitOn, List.splitOn_append_cons_self_of_not_mem plain]

theorem splitChars_single (plain : separator ∉ cs) : splitChars separator cs = [cs] := by
  rw [splitChars_eq_splitOn, List.splitOn_eq_singleton plain]

theorem not_mem_splitChars {part : List Char} (member : part ∈ splitChars separator cs) :
    separator ∉ part := by
  induction cs generalizing part with
  | nil =>
    cases List.mem_singleton.mp member
    exact List.not_mem_nil
  | cons c rest ih =>
    rw [splitChars] at member
    by_cases here : c = separator
    · rw [if_pos here] at member
      rcases List.mem_cons.mp member with rfl | later
      · exact List.not_mem_nil
      · exact ih later
    · rw [if_neg here] at member
      cases parts : splitChars separator rest with
      | nil => exact absurd parts (splitChars_ne_nil separator rest)
      | cons first others =>
        rw [parts] at member ih
        rcases List.mem_cons.mp member with rfl | later
        · rw [List.mem_cons, not_or]
          exact ⟨Ne.symm here, ih List.mem_cons_self⟩
        · exact ih (List.mem_cons_of_mem first later)

theorem splitChars_separator (separator : Char) (rest : List Char) :
    splitChars separator (separator :: rest) = [] :: splitChars separator rest := by
  rw [splitChars, if_pos rfl]

theorem splitChars_cons {c : Char} {rest part : List Char} {parts : List (List Char)} (other : c ≠ separator)
    (split : splitChars separator rest = part :: parts) :
    splitChars separator (c :: rest) = (c :: part) :: parts := by
  rw [splitChars, if_neg other, split]

theorem splitChars_concat (separator : Char) (cs : List Char) :
    splitChars separator (cs ++ [separator]) = splitChars separator cs ++ [[]] := by
  induction cs with
  | nil => simp [splitChars]
  | cons c rest ih =>
    rw [List.cons_append]
    by_cases here : c = separator
    · subst here
      rw [splitChars_separator, splitChars_separator, ih, List.cons_append]
    · obtain ⟨part, parts, split⟩ := List.exists_cons_of_ne_nil (splitChars_ne_nil separator rest)
      rw [splitChars_cons here split]
      rw [split] at ih
      exact splitChars_cons here ih

theorem intercalate_splitChars (separator : Char) (cs : List Char) :
    [separator].intercalate (splitChars separator cs) = cs := by
  rw [splitChars_eq_splitOn, List.intercalate_splitOn]

theorem splitChars_intercalate {parts : List (List Char)} (plain : ∀ part ∈ parts, separator ∉ part)
    (written : parts ≠ []) : splitChars separator ([separator].intercalate parts) = parts := by
  rw [splitChars_eq_splitOn, List.splitOn_intercalate separator plain written]

theorem mem_intercalate {parts : List (List Char)} {c : Char}
    (member : c ∈ [separator].intercalate parts) : c = separator ∨ ∃ part ∈ parts, c ∈ part := by
  induction parts with
  | nil => simp at member
  | cons part rest ih =>
    cases rest with
    | nil => exact .inr ⟨part, List.mem_cons_self, by simpa using member⟩
    | cons next rest =>
      rw [List.intercalate_cons_cons, List.mem_append, List.mem_append, List.mem_singleton] at member
      rcases member with (here | same) | later
      · exact .inr ⟨part, List.mem_cons_self, here⟩
      · exact .inl same
      · refine (ih later).imp_right ?_
        rintro ⟨other, among, inside⟩
        exact ⟨other, List.mem_cons_of_mem _ among, inside⟩

theorem cutChars?_eq_some_iff :
    cutChars? separator cs = some (before, after) ↔
      separator ∉ before ∧ cs = before ++ separator :: after := by
  induction cs generalizing before with
  | nil => simp [cutChars?]
  | cons c rest ih =>
    rw [cutChars?]
    by_cases here : c = separator
    · subst here
      cases before with
      | nil => simp [eq_comm]
      | cons first more => simp +contextual [eq_comm]
    · cases before with
      | nil => simp [here]
      | cons first more =>
        simp only [here, if_false, Option.map_eq_some_iff, Prod.exists, Prod.mk.injEq, List.cons.injEq,
          List.cons_append, List.mem_cons, not_or]
        constructor
        · rintro ⟨front, back, found, ⟨rfl, rfl⟩, rfl⟩
          obtain ⟨plain, same⟩ := ih.mp found
          exact ⟨⟨Ne.symm here, plain⟩, rfl, same⟩
        · rintro ⟨⟨_, plain⟩, rfl, same⟩
          exact ⟨more, after, ih.mpr ⟨plain, same⟩, ⟨rfl, rfl⟩, rfl⟩

/-! ### White space -/

def blankPoints : List Nat :=
  List.range' 9 5 ++ List.range' 0x2000 11 ++
    [0x20, 0x85, 0xA0, 0x1680, 0x2028, 0x2029, 0x202F, 0x205F, 0x3000]

theorem mem_blankPoints {c : Char} (blank : Unicode.isBlank c = true) : c.toNat ∈ blankPoints := by
  simp only [Unicode.isBlank, Bool.or_eq_true, Bool.and_eq_true, decide_eq_true_eq, beq_iff_eq] at blank
  simp only [blankPoints, List.mem_append, List.mem_range'_1, List.mem_cons]
  omega

/-- A character with a property that no white space has. -/
theorem not_blank_of {p : Char → Bool} (none : ∀ n ∈ blankPoints, p (Char.ofNat n) = false) {c : Char}
    (holds : p c = true) : Unicode.isBlank c = false := by
  by_contra blank
  have other := none c.toNat (mem_blankPoints (Bool.of_not_eq_false blank))
  rw [Char.ofNat_toNat, holds] at other
  cases other

structure Trimmed (cs : List Char) : Prop where
  front : ∀ c ∈ cs.head?, Unicode.isBlank c = false
  back : ∀ c ∈ cs.getLast?, Unicode.isBlank c = false

theorem Trimmed.congr (trimmed : Trimmed cs) (first : core.head? = cs.head?)
    (last : core.getLast? = cs.getLast?) : Trimmed core :=
  ⟨first ▸ trimmed.front, last ▸ trimmed.back⟩

theorem dropWhile_of_head {p : Char → Bool} (stays : ∀ c ∈ cs.head?, p c = false) :
    cs.dropWhile p = cs := by
  cases cs with
  | nil => rfl
  | cons c rest => simp [stays c rfl]

theorem head_dropWhile {p : Char → Bool} (cs : List Char) :
    ∀ c ∈ (cs.dropWhile p).head?, p c = false := by
  intro c first
  have some := List.head?_dropWhile_not p cs
  rw [first] at some
  simpa using some

theorem trimChars_of_trimmed (trimmed : Trimmed cs) : trimChars cs = cs := by
  have back : ∀ c ∈ cs.reverse.head?, Unicode.isBlank c = false := by
    rw [List.head?_reverse]
    exact trimmed.back
  rw [trimChars, trimStart, dropWhile_of_head trimmed.front, trimEnd, dropWhile_of_head back,
    List.reverse_reverse]

theorem trimChars_of_not_blank (visible : ∀ c ∈ cs, Unicode.isBlank c = false) : trimChars cs = cs :=
  trimChars_of_trimmed ⟨fun c first => visible c (List.mem_of_head? first),
    fun c last => visible c (List.mem_of_getLast? last)⟩

/-- White space around a text makes no difference. -/
theorem trimChars_around (front : ∀ c ∈ before, Unicode.isBlank c = true)
    (back : ∀ c ∈ after, Unicode.isBlank c = true) (trimmed : Trimmed core) (written : core ≠ []) :
    trimChars (before ++ core ++ after) = core := by
  have stays : ∀ c ∈ (core ++ after).head?, Unicode.isBlank c = false := by
    rw [List.head?_append_of_ne_nil _ written]
    exact trimmed.front
  have stays' : ∀ c ∈ core.reverse.head?, Unicode.isBlank c = false := by
    rw [List.head?_reverse]
    exact trimmed.back
  have back' : ∀ c ∈ after.reverse, Unicode.isBlank c = true := fun c member =>
    back c (List.mem_reverse.mp member)
  rw [trimChars, trimStart, List.append_assoc, List.dropWhile_append_of_pos front,
    dropWhile_of_head stays, trimEnd, List.reverse_append, List.dropWhile_append_of_pos back',
    dropWhile_of_head stays', List.reverse_reverse]

/-- What trimming takes away is white space, and none is left at the ends. -/
theorem trimChars_spec (cs : List Char) : Trimmed (trimChars cs) ∧
    ∃ before after, cs = before ++ trimChars cs ++ after ∧
      (∀ c ∈ before, Unicode.isBlank c = true) ∧ ∀ c ∈ after, Unicode.isBlank c = true := by
  let front := trimStart cs
  let back := front.reverse.takeWhile Unicode.isBlank
  have split : front = trimChars cs ++ back.reverse := by
    have parts := List.takeWhile_append_dropWhile (p := Unicode.isBlank) (l := front.reverse)
    have turned := congrArg List.reverse parts
    rw [List.reverse_append, List.reverse_reverse] at turned
    exact turned.symm
  have first : ∀ c ∈ front.head?, Unicode.isBlank c = false := head_dropWhile cs
  refine ⟨⟨fun c head => ?_, fun c last => ?_⟩, cs.takeWhile Unicode.isBlank, back.reverse, ?_, ?_, ?_⟩
  · refine first c ?_
    rw [split]
    exact List.mem_head?_append_of_mem_head? head
  · rw [trimChars, trimEnd, List.getLast?_reverse] at last
    exact head_dropWhile _ c last
  · rw [List.append_assoc, ← split]
    exact List.takeWhile_append_dropWhile.symm
  · exact fun c member => List.mem_takeWhile_imp member
  · exact fun c member => List.mem_takeWhile_imp (List.mem_reverse.mp member)

end Text

namespace Numeral

private theorem foldl_digits? (cs : List Char) (sum n : Nat) :
    cs.foldl (fun sum c => if c.isDigit then sum.map (10 * · + (c.toNat - 48)) else none) (some sum) =
        some n ↔
      (∀ c ∈ cs, c.isDigit = true) ∧ n = Nat.ofDigitChars 10 cs sum := by
  induction cs generalizing sum with
  | nil => rw [List.foldl_nil, Option.some.injEq, Nat.ofDigitChars_nil, eq_comm]; simp
  | cons c rest ih =>
    by_cases digit : c.isDigit = true
    · rw [List.foldl_cons, if_pos digit, Option.map_some, ih, List.forall_mem_cons,
        Nat.ofDigitChars_cons]
      exact ⟨fun ⟨others, value⟩ => ⟨⟨digit, others⟩, value⟩, fun ⟨⟨_, others⟩, value⟩ => ⟨others, value⟩⟩
    · have stuck : rest.foldl (fun sum c => if c.isDigit then sum.map (10 * · + (c.toNat - 48)) else none)
          none = none := by
        clear ih
        induction rest with
        | nil => rfl
        | cons next rest ih => by_cases digit : next.isDigit = true <;> simpa [digit] using ih
      simp [digit, stuck]

/-- Digits are read as the number that they write in the decimal system. -/
theorem digits?_eq_some_iff {cs : List Char} {n : Nat} :
    digits? cs = some n ↔ cs ≠ [] ∧ (∀ c ∈ cs, c.isDigit = true) ∧ n = Nat.ofDigitChars 10 cs 0 := by
  cases cs with
  | nil => simp [digits?]
  | cons c rest =>
    rw [digits?, foldl_digits?]
    simp

theorem unsigned?_eq_some_iff {bound n : Nat} {cs : List Char} :
    unsigned? bound cs = some n ↔ ∃ sign digits, cs = sign ++ digits ∧ (sign = [] ∨ sign = ['+']) ∧
      digits ≠ [] ∧ (∀ c ∈ digits, c.isDigit = true) ∧ n = Nat.ofDigitChars 10 digits 0 ∧ n < bound := by
  have filtered (digits : List Char) : (digits? digits).filter (· < bound) = some n ↔
      digits ≠ [] ∧ (∀ c ∈ digits, c.isDigit = true) ∧ n = Nat.ofDigitChars 10 digits 0 ∧ n < bound := by
    rw [Option.filter_eq_some_iff, digits?_eq_some_iff, decide_eq_true_eq, and_assoc, and_assoc]
  constructor
  · intro read
    unfold unsigned? at read
    split at read
    · rename_i rest
      exact ⟨['+'], rest, rfl, .inr rfl, (filtered rest).mp read⟩
    · exact ⟨[], cs, rfl, .inl rfl, (filtered cs).mp read⟩
  · rintro ⟨sign, digits, rfl, rfl | rfl, written⟩
    · unfold unsigned?
      split
      · rename_i rest same
        have plus := written.2.1 '+' ((show digits = '+' :: rest from same) ▸ List.mem_cons_self)
        cases plus
      · exact (filtered digits).mpr written
    · exact (filtered digits).mpr written

end Numeral
end LinkedMarkup
