import LinkedMarkup.Mapping.Target
import LinkedMarkup.Proofs.Text.TextParts

namespace LinkedMarkup.TargetPath

/-! ### The grammar -/

/-- A number of 64 bits in decimal digits. A plus sign may stand before it and white space around it. -/
inductive WritesIndex : List Char → Nat → Prop where
  | number {before sign digits after : List Char}
      (front : ∀ c ∈ before, Unicode.isBlank c = true) (signed : sign = [] ∨ sign = ['+'])
      (written : digits ≠ []) (decimal : ∀ c ∈ digits, c.isDigit = true)
      (back : ∀ c ∈ after, Unicode.isBlank c = true) (fits : Nat.ofDigitChars 10 digits 0 < UInt64.size) :
      WritesIndex (before ++ (sign ++ digits) ++ after) (Nat.ofDigitChars 10 digits 0)

/-- Indices in brackets, one behind the other. -/
inductive WritesIndices : List Char → List Segment → Prop where
  | none : WritesIndices [] []
  | next {number rest : List Char} {n : Nat} {segments : List Segment}
      (index : WritesIndex number n) (others : WritesIndices rest segments) :
      WritesIndices ('[' :: number ++ ']' :: rest) (.index n :: segments)

/-- A key with indices behind it. The first part of a path may be indices alone. -/
inductive WritesPart : Bool → List Char → List Segment → Prop where
  | keyed {first : Bool} {key brackets : List Char} {segments : List Segment}
      (named : key ≠ []) (unbracketed : '[' ∉ key) (dotless : '.' ∉ key)
      (indices : WritesIndices brackets segments) :
      WritesPart first (key ++ brackets) (.key (String.ofList key) :: segments)
  | bare {brackets : List Char} {segments : List Segment} (written : brackets ≠ [])
      (indices : WritesIndices brackets segments) : WritesPart true brackets segments

/-- Parts with dots between them. -/
inductive WritesParts : Bool → List Char → List Segment → Prop where
  | last {first : Bool} {part : List Char} {segments : List Segment}
      (here : WritesPart first part segments) : WritesParts first part segments
  | dot {first : Bool} {part rest : List Char} {segments others : List Segment}
      (here : WritesPart first part segments) (further : WritesParts false rest others) :
      WritesParts first (part ++ '.' :: rest) (segments ++ others)

variable {first : Bool} {cs : List Char} {n : Nat} {segments : List Segment}

/-! ### Reading -/

private theorem digit_not_blank {c : Char} (digit : c.isDigit = true) : Unicode.isBlank c = false :=
  Text.not_blank_of (by decide) digit

theorem WritesIndex.plain (index : WritesIndex cs n) {c : Char} (blank : Unicode.isBlank c = false)
    (unsigned : c ≠ '+') (other : c.isDigit = false) : c ∉ cs := by
  cases index with
  | @number before sign digits after front signed written decimal back fits =>
    simp only [List.mem_append, not_or]
    refine ⟨⟨fun member => ?_, fun member => ?_, fun member => ?_⟩, fun member => ?_⟩
    · exact absurd (front c member) (by simp [blank])
    · rcases signed with rfl | rfl
      · cases member
      · exact unsigned (List.mem_singleton.mp member)
    · exact absurd (decimal c member) (by simp [other])
    · exact absurd (back c member) (by simp [blank])

theorem unsigned?_trimChars : Numeral.unsigned? Numeral.unsignedLimit (Text.trimChars cs) = some n ↔
    WritesIndex cs n := by
  rw [Numeral.unsigned?_eq_some_iff]
  constructor
  · rintro ⟨sign, digits, trimmed, signed, written, decimal, rfl, fits⟩
    obtain ⟨_, before, after, whole, front, back⟩ := Text.trimChars_spec cs
    rw [whole, trimmed]
    exact .number front signed written decimal back fits
  · intro index
    cases index with
    | @number before sign digits after front signed written decimal back fits =>
      have starts : ∀ c ∈ (sign ++ digits).head?, Unicode.isBlank c = false := by
        intro c head
        rcases signed with rfl | rfl
        · exact digit_not_blank (decimal c (List.mem_of_mem_head? head))
        · cases head
          decide
      have ends : ∀ c ∈ (sign ++ digits).getLast?, Unicode.isBlank c = false := by
        intro c last
        rw [List.getLast?_append_of_ne_nil _ written] at last
        exact digit_not_blank (decimal c (List.mem_of_mem_getLast? last))
      have some : sign ++ digits ≠ [] := List.append_ne_nil_of_right_ne_nil _ written
      exact ⟨sign, digits, Text.trimChars_around front back ⟨starts, ends⟩ some, signed, written, decimal,
        rfl, fits⟩

theorem indices?_eq_some_iff : indices? cs = some segments ↔ WritesIndices cs segments := by
  constructor
  · intro read
    fun_induction indices? cs generalizing segments with
    | case1 =>
      cases read
      exact .none
    | case2 => cases read
    | case3 => cases read
    | case4 rest number tail cut n index ih =>
      obtain ⟨others, found, rfl⟩ := Option.map_eq_some_iff.mp read
      obtain ⟨_, rfl⟩ := Text.cutChars?_eq_some_iff.mp cut
      exact .next (unsigned?_trimChars.mp index) (ih found)
    | case5 => cases read
  · intro written
    induction written with
    | none => rw [indices?]
    | @next number rest n segments index others ih =>
      have cut : Text.cutChars? ']' (number ++ ']' :: rest) = some (number, rest) :=
        Text.cutChars?_eq_some_iff.mpr ⟨index.plain (by decide) (by decide) (by decide), rfl⟩
      rw [List.cons_append, indices?]
      split
      · rename_i missing
        cases cut.symm.trans missing
      · rename_i found
        cases cut.symm.trans found
        rw [unsigned?_trimChars.mpr index]
        simp only [ih, Option.map_some]

/-- Indices begin with a bracket, if there are any. -/
theorem WritesIndices.takeWhile (indices : WritesIndices cs segments) :
    cs.takeWhile (· != '[') = [] ∧ cs.dropWhile (· != '[') = cs := by
  cases indices with
  | none => exact ⟨rfl, rfl⟩
  | next => exact ⟨by simp, by simp⟩

theorem WritesPart.dotless (part : WritesPart first cs segments) : '.' ∉ cs := by
  have among {brackets : List Char} {segments : List Segment} (indices : WritesIndices brackets segments) :
      '.' ∉ brackets := by
    induction indices with
    | none => exact List.not_mem_nil
    | next index _ ih =>
      have number := index.plain (c := '.') (by decide) (by decide) (by decide)
      simp [number, ih]
  cases part with
  | keyed _ _ dotless indices =>
    rw [List.mem_append, not_or]
    exact ⟨dotless, among indices⟩
  | bare _ indices => exact among indices

theorem part?_eq_some_iff (dotless : '.' ∉ cs) :
    part? first cs = some segments ↔ WritesPart first cs segments := by
  have whole : cs.takeWhile (· != '[') ++ cs.dropWhile (· != '[') = cs := List.takeWhile_append_dropWhile
  constructor
  · intro read
    simp only [part?] at read
    split at read
    · rename_i named
      obtain ⟨others, found, rfl⟩ := Option.map_eq_some_iff.mp read
      have unbracketed : '[' ∉ cs.takeWhile (· != '[') := fun member => by
        simpa using List.mem_takeWhile_imp member
      have sub : '.' ∉ cs.takeWhile (· != '[') := fun member =>
        dotless ((List.takeWhile_sublist _).subset member)
      have keyed : WritesPart first (cs.takeWhile (· != '[') ++ cs.dropWhile (· != '['))
          (.key (String.ofList (cs.takeWhile (· != '['))) :: others) :=
        .keyed (by simpa using named) unbracketed sub (indices?_eq_some_iff.mp found)
      rwa [whole] at keyed
    · rename_i unnamed
      have all : cs.dropWhile (· != '[') = cs := by
        have empty : cs.takeWhile (· != '[') = [] := by simpa using unnamed
        rw [empty] at whole
        exact whole
      rw [all] at read
      split at read
      · rename_i allowed
        obtain ⟨leads, some⟩ := (Bool.and_eq_true _ _).mp allowed
        cases leads
        exact .bare (by simpa using some) (indices?_eq_some_iff.mp read)
      · cases read
  · intro written
    cases written with
    | @keyed _ key brackets _ named unbracketed _ indices =>
      have passes : ∀ c ∈ key, (c != '[') = true := fun c member => by
        simpa using fun same : c = '[' => unbracketed (same ▸ member)
      obtain ⟨stops, stays⟩ := indices.takeWhile
      simp only [part?, List.takeWhile_append_of_pos passes, List.dropWhile_append_of_pos passes, stops,
        stays, List.append_nil, indices?_eq_some_iff.mpr indices]
      simp [named]
    | bare some indices =>
      obtain ⟨stops, stays⟩ := indices.takeWhile
      simp only [part?, stops, stays, indices?_eq_some_iff.mpr indices]
      simp [some]

private theorem parts_read : (∃ part rest segments' others, Text.splitChars '.' cs = part :: rest ∧
      part? first part = some segments' ∧ parts? rest = some others ∧ segments = segments' ++ others) ↔
    WritesParts first cs segments := by
  constructor
  · rintro ⟨part, rest, here, others, split, read, further, rfl⟩
    have dotless (other : List Char) (member : other ∈ part :: rest) : '.' ∉ other :=
      Text.not_mem_splitChars (split ▸ member)
    have joined := Text.intercalate_splitChars '.' cs
    induction rest generalizing first cs part here others with
    | nil =>
      rw [split, List.intercalate_singleton] at joined
      cases further
      subst joined
      rw [List.append_nil]
      exact .last ((part?_eq_some_iff (dotless _ List.mem_cons_self)).mp read)
    | cons next rest ih =>
      rw [split, List.intercalate_cons_cons, List.append_assoc, List.singleton_append] at joined
      have plain := dotless part List.mem_cons_self
      have below : Text.splitChars '.' (['.'].intercalate (next :: rest)) = next :: rest := by
        rw [← joined, Text.splitChars_append plain] at split
        exact (List.cons.inj split).2
      rw [parts?] at further
      split at further
      · rename_i own more found others'
        cases further
        subst joined
        exact .dot ((part?_eq_some_iff plain).mp read) (ih next own more below found others'
          (fun other member => dotless other (List.mem_cons_of_mem part member))
          (Text.intercalate_splitChars '.' _))
      · cases further
  · intro written
    induction written with
    | @last first part segments here =>
      have plain := here.dotless
      exact ⟨part, [], segments, [], Text.splitChars_single plain, (part?_eq_some_iff plain).mpr here, rfl,
        (List.append_nil _).symm⟩
    | @dot first part rest segments others here further ih =>
      have plain := here.dotless
      obtain ⟨next, more, own, tail, split, read, found, rfl⟩ := ih
      refine ⟨part, next :: more, segments, own ++ tail, ?_, (part?_eq_some_iff plain).mpr here, ?_, rfl⟩
      · rw [Text.splitChars_append plain, split]
      · simp only [parts?, read, found]

/-- Reading accepts the texts of the grammar, and reads the path that they write. -/
theorem parse?_eq_some_iff {text : String} {path : TargetPath} : parse? text = some path ↔
    WritesParts true (Text.trimChars text.toList) path.segments := by
  rw [← parts_read, parse?]
  constructor
  · intro read
    split at read
    · cases read
    · rename_i part rest split
      split at read
      · rename_i here others found further
        cases read
        exact ⟨part, rest, here, others, split, found, further, rfl⟩
      · cases read
  · rintro ⟨part, rest, here, others, split, found, further, same⟩
    simp only [split, found, further, ← same]

theorem parse_eq_ok_iff {text : String} {path : TargetPath} : parse text = .ok path ↔
    WritesParts true (Text.trimChars text.toList) path.segments := by
  rw [← parse?_eq_some_iff, parse]
  cases parse? text <;> simp

theorem parse_eq_error_iff {text : String} : parse text = .error (.invalidTarget text) ↔
    ∀ segments, ¬ WritesParts true (Text.trimChars text.toList) segments := by
  have refuses : parse text = .error (.invalidTarget text) ↔ parse? text = none := by
    rw [parse]
    cases parse? text <;> simp
  rw [refuses, Option.eq_none_iff_forall_ne_some]
  exact ⟨fun missing segments written => missing ⟨segments⟩ (parse?_eq_some_iff.mpr written),
    fun unwritten path read => unwritten path.segments (parse?_eq_some_iff.mp read)⟩

/-! ### Display -/

private def spellBehind (segments : List Segment) : List Char :=
  segments.flatMap fun segment => (displaySegment segment).toList

private def spell : List Segment → List Char
  | .key key :: rest => key.toList ++ spellBehind rest
  | segments => spellBehind segments

private theorem toList_display (path : TargetPath) : path.display.toList = spell path.segments := by
  have joined (segments : List Segment) :
      (String.join (segments.map displaySegment)).toList = spellBehind segments := by
    rw [String.toList_join, List.flatMap_map]
    rfl
  obtain ⟨segments⟩ := path
  match segments with
  | [] => rfl
  | .key key :: rest => rw [display, spell, String.toList_append, joined]
  | .index n :: rest => exact joined (.index n :: rest)

private theorem writesIndex_toDigits (fits : n < UInt64.size) : WritesIndex (Nat.toDigits 10 n) n := by
  have value : Nat.ofDigitChars 10 (Nat.toDigits 10 n) 0 = n := Nat.ofDigitChars_ten_toDigits
  have decimal : ∀ c ∈ Nat.toDigits 10 n, c.isDigit = true := fun _ member =>
    Nat.isDigit_of_mem_toDigits (by decide) (by decide) member
  have written : WritesIndex ([] ++ ([] ++ Nat.toDigits 10 n) ++ []) (Nat.ofDigitChars 10 (Nat.toDigits 10 n) 0) :=
    .number nofun (.inl rfl) Nat.toDigits_ne_nil decimal nofun (by rwa [value])
  simpa [value] using written

private theorem WritesIndices.spell (indices : WritesIndices cs segments) :
    WritesIndices (spellBehind segments) segments ∧ (spellBehind segments).getLast? = cs.getLast? := by
  induction indices with
  | none => exact ⟨.none, rfl⟩
  | @next number rest n segments index others ih =>
    obtain ⟨written, ends⟩ := ih
    have text : spellBehind (.index n :: segments) =
        '[' :: Nat.toDigits 10 n ++ ']' :: spellBehind segments := by
      simp [spellBehind, displaySegment, Numeral.text]
    have fits : n < UInt64.size := by
      cases index
      assumption
    rw [text]
    refine ⟨.next (writesIndex_toDigits fits) written, ?_⟩
    simp only [List.getLast?_append, List.getLast?_cons, ends, Option.some_or]

private theorem WritesPart.spell (part : WritesPart first cs segments) :
    WritesPart first (spell segments) segments ∧ (spell segments).head? = cs.head? ∧
      (spell segments).getLast? = cs.getLast? := by
  cases part with
  | @keyed _ key brackets segments named unbracketed dotless indices =>
    obtain ⟨written, ends⟩ := indices.spell
    have text : TargetPath.spell (.key (String.ofList key) :: segments) = key ++ spellBehind segments := by
      rw [TargetPath.spell, String.toList_ofList]
    rw [text]
    refine ⟨.keyed named unbracketed dotless written, ?_, ?_⟩
    · rw [List.head?_append_of_ne_nil _ named, List.head?_append_of_ne_nil _ named]
    · rw [List.getLast?_append, List.getLast?_append, ends]
  | bare some indices =>
    obtain ⟨written, ends⟩ := indices.spell
    cases indices with
    | none => exact absurd rfl some
    | @next number rest n segments index others =>
      have starts : (spellBehind (.index n :: segments)).head? = '[' := by
        simp [spellBehind, displaySegment]
      refine ⟨.bare ?_ written, starts, ends⟩
      intro empty
      rw [show spellBehind (.index n :: segments) = [] from empty] at starts
      cases starts

private theorem WritesPart.key_first (part : WritesPart false cs segments) :
    ∃ key rest, segments = .key key :: rest := by
  cases part with
  | keyed => exact ⟨_, _, rfl⟩

private theorem WritesPart.ne_nil (part : WritesPart first cs segments) : cs ≠ [] ∧ segments ≠ [] := by
  cases part with
  | keyed named => exact ⟨List.append_ne_nil_of_left_ne_nil named _, List.cons_ne_nil _ _⟩
  | bare some indices =>
    refine ⟨some, ?_⟩
    rintro rfl
    cases indices
    exact some rfl

private theorem spell_append (some : segments ≠ []) (key : String) (rest : List Segment) :
    spell (segments ++ .key key :: rest) = spell segments ++ '.' :: spell (.key key :: rest) := by
  have behind (segments : List Segment) : spellBehind (segments ++ .key key :: rest) =
      spellBehind segments ++ '.' :: spell (.key key :: rest) := by
    simp [spellBehind, spell, displaySegment]
  match segments with
  | .key first :: more => rw [List.cons_append, spell, spell, behind, List.append_assoc]
  | .index n :: more => exact behind (.index n :: more)

private theorem WritesParts.spell (parts : WritesParts first cs segments) :
    WritesParts first (spell segments) segments ∧ (spell segments).head? = cs.head? ∧
      (spell segments).getLast? = cs.getLast? := by
  induction parts with
  | last here =>
    obtain ⟨written, starts, ends⟩ := here.spell
    exact ⟨.last written, starts, ends⟩
  | @dot first part rest segments others here further ih =>
    obtain ⟨written, starts, _⟩ := here.spell
    obtain ⟨more, _, ends⟩ := ih
    obtain ⟨key, behind, rfl⟩ : ∃ key behind, others = .key key :: behind := by
      cases further with
      | last next => exact next.key_first
      | dot next _ =>
        obtain ⟨key, behind, rfl⟩ := next.key_first
        exact ⟨key, behind ++ _, rfl⟩
    rw [spell_append here.ne_nil.2]
    refine ⟨.dot written more, ?_, ?_⟩
    · rw [List.head?_append_of_ne_nil _ written.ne_nil.1, starts,
        List.head?_append_of_ne_nil _ here.ne_nil.1]
    · simp only [List.getLast?_append, List.getLast?_cons, ends, Option.some_or]

/-- Reading accepts just the texts that write a path after trimming, and reads the path that they write.
What a path is displayed as is read as this path again. -/
theorem display_reads_back (text : String) :
    (∀ path, parse text = .ok path ↔ WritesParts true (Text.trimChars text.toList) path.segments) ∧
    (parse text = .error (.invalidTarget text) ↔
      ∀ segments, ¬ WritesParts true (Text.trimChars text.toList) segments) ∧
    ∀ path, parse text = .ok path → parse path.display = .ok path := by
  refine ⟨fun _ => parse_eq_ok_iff, parse_eq_error_iff, fun path read => ?_⟩
  obtain ⟨written, starts, ends⟩ := (parse_eq_ok_iff.mp read).spell
  have trimmed := (Text.trimChars_spec text.toList).1.congr starts ends
  rw [parse_eq_ok_iff, toList_display, Text.trimChars_of_trimmed trimmed]
  exact written

/-- White space at the ends and in brackets, a sign and zeros are not displayed; a key keeps the blanks and
the bracket in it. -/
theorem display_reads_back_spaced :
    let path : TargetPath := ⟨[.key "my list] ", .index 7, .key " name"]⟩
    parse " my list] [ +007 ]. name " = .ok path ∧ path.display = "my list] [7]. name" ∧
      parse path.display = .ok path := by
  intro path
  have read : parse " my list] [ +007 ]. name " = .ok path := by decide +kernel
  exact ⟨read, by decide +kernel, (display_reads_back " my list] [ +007 ]. name ").2.2 path read⟩

end LinkedMarkup.TargetPath
