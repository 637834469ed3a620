import LinkedMarkup.Proofs.Mapping.TagSelection
/-! The texts of selectors. What a selector is displayed as is read again, part by part: parentheses are
balanced in it, and an attribute follows the last `@` outside of them. Two selectors do not come back. The
slash that begins a path is not displayed, so a path of one segment is read as a tag. And a tag is read
as a name before it is lowered, but its lower case may hold a combining dot, which no name has. -/
namespace LinkedMarkup.Selector
open Text

/-! ### Marks -/

/-- The characters that names do not have and that mean something in selectors, white space among them. -/
def markPoints : List Nat := blankPoints ++ "@()/#$".toList.map Char.toNat

def IsPlain (c : Char) : Prop := c.toNat ∉ markPoints

instance (c : Char) : Decidable (IsPlain c) := inferInstanceAs (Decidable (_ ∉ _))

theorem IsPlain.not_blank {c : Char} (plain : IsPlain c) : Unicode.isBlank c = false := by
  by_contra blank
  exact plain (List.mem_append_left _ (mem_blankPoints (Bool.of_not_eq_false blank)))

theorem isPlain_of_isNameChar {c : Char} (name : isNameChar c = true) : IsPlain c := by
  have marks : ∀ n ∈ "@()/#$".toList.map Char.toNat, isNameChar (Char.ofNat n) = false := by decide +kernel
  have blanks : ∀ n ∈ blankPoints, Unicode.isBlank (Char.ofNat n) = true := by decide +kernel
  intro mark
  rcases List.mem_append.mp mark with blank | special
  · have white := blanks c.toNat blank
    rw [Char.ofNat_toNat, not_blank_of_isNameChar name] at white
    cases white
  · have other := marks c.toNat special
    rw [Char.ofNat_toNat, name] at other
    cases other

private theorem images_apart : Unicode.bits (Unicode.lowerCaseRuns.map Unicode.CaseRun.images) &&&
    Unicode.bits [markPoints] = 0 := by
  decide +kernel

private theorem isPlain_ofNat {n : Nat} (other : n ∉ markPoints) : IsPlain (Char.ofNat n) := by
  by_cases valid : n.isValidChar
  · have point : (Char.ofNat n).toNat = n := by
      rw [Char.ofNat, dif_pos valid]
      rfl
    rwa [IsPlain, point]
  · rw [Char.ofNat, dif_neg valid]
    decide

theorem isPlain_of_mem_lowerCaseChar {c d : Char} (plain : IsPlain c) (member : d ∈ Unicode.lowerCaseChar c) :
    IsPlain d := by
  have ascii : ∀ n < 128, IsPlain (Char.ofNat n) → IsPlain (Char.ofNat n).toLower := by decide +kernel
  rw [Unicode.lowerCaseChar] at member
  split at member
  · next low =>
    rw [List.mem_singleton.mp member]
    have lowered := ascii c.toNat low
    rw [Char.ofNat_toNat] at lowered
    exact lowered plain
  · split at member
    · have special : IsPlain 'i' ∧ IsPlain '\u0307' := by decide +kernel
      rw [List.mem_cons, List.mem_singleton] at member
      rcases member with rfl | rfl
      · exact special.1
      · exact special.2
    · rw [List.mem_singleton.mp member]
      apply isPlain_ofNat
      rcases Unicode.lowerCaseShift_eq_or c.toNat Unicode.lowerCaseRuns with stays | ⟨run, found, moved, shift⟩
      · rw [stays, Int.add_zero, Int.toNat_natCast]
        exact plain
      · rw [shift]
        have image : (c.toNat + run.shift).toNat ∈ run.images :=
          List.mem_map_of_mem (f := fun n : Nat => (n + run.shift).toNat) moved
        exact Unicode.not_mem_of_bits_apart images_apart (List.mem_map_of_mem found) List.mem_cons_self image

/-- The lower case of a name has no mark, though it may have a character that is in no name. -/
theorem isPlain_of_mem_lowerCaseAfter {before cs : List Char} (name : ∀ c ∈ cs, isNameChar c = true)
    {d : Char} (member : d ∈ Unicode.lowerCaseAfter before cs) : IsPlain d := by
  have sigmas : IsPlain 'ς' ∧ IsPlain 'σ' := by decide +kernel
  induction cs generalizing before with
  | nil => cases member
  | cons c rest ih =>
    obtain ⟨own, others⟩ := List.forall_mem_cons.mp name
    rw [Unicode.lowerCaseAfter, List.mem_append] at member
    rcases member with here | later
    · split at here
      · split at here
        · rw [List.mem_singleton.mp here]
          exact sigmas.1
        · rw [List.mem_singleton.mp here]
          exact sigmas.2
      · exact isPlain_of_mem_lowerCaseChar (isPlain_of_isNameChar own) here
    · exact ih others later

variable {selector : Selector} {cs base name : List Char} {depth : Int}

theorem isNameChar_of_isName (named : isName cs = true) : ∀ c ∈ cs, isNameChar c = true := by
  rw [isName, Bool.and_eq_true, List.all_eq_true] at named
  exact named.2

theorem ne_nil_of_isName (named : isName cs = true) : cs ≠ [] := by
  rintro rfl
  cases named

/-! ### Reading part by part -/

theorem parseChars_attribute (split : splitAttribute? 0 (trimChars cs) = some (base, name))
    (written : base ≠ []) (named : isName name = true) :
    parseChars cs = (parseChars base).map (.attr · (String.ofList name)) := by
  have some : ¬ (trimChars cs).isEmpty = true := by
    intro empty
    rw [List.isEmpty_iff.mp empty] at split
    cases split
  rw [parseChars]
  dsimp only
  rw [if_neg some]
  split
  · next found =>
    cases split.symm.trans found
    rw [if_neg (by simpa using written), if_neg (by simp [named])]
    cases parseChars base <;> rfl
  · next whole => cases split.symm.trans whole

theorem parseChars_first {inner : List Char} (marked : trimChars cs = firstMark ++ inner ++ [')'])
    (whole : splitAttribute? 0 (trimChars cs) = none) :
    parseChars cs = (parseChars inner).map .first := by
  have begins : firstMark.isPrefixOf (trimChars cs) = true := by
    rw [marked, List.append_assoc]
    exact List.isPrefixOf_iff_prefix.mpr (List.prefix_append _ _)
  have inside : (trimChars cs).drop 6 = inner ++ [')'] := by
    rw [marked, List.append_assoc]
    exact List.drop_left' rfl
  rw [parseChars]
  dsimp only
  rw [if_neg (by simp [marked])]
  split
  · next found => cases whole.symm.trans found
  · rw [dif_pos begins, inside, if_pos (by simp), List.dropLast_concat]
    cases parseChars inner <;> rfl

/-! ### What is read -/

/-- The selector without `first(…)` and attributes. -/
def stem : Selector → Selector
  | .first selector => selector.stem
  | .attr base _ => base.stem
  | selector => selector

def IsStem : Selector → Bool
  | .first _ => false
  | .attr _ _ => false
  | _ => true

/-- The selector with another one in place of its stem. -/
def withStem : Selector → Selector → Selector
  | .first selector, inner => .first (selector.withStem inner)
  | .attr base name, inner => .attr (base.withStem inner) name
  | _, inner => inner

theorem isStem_stem (selector : Selector) : selector.stem.IsStem = true := by
  induction selector with
  | first _ ih => exact ih
  | attr _ _ ih => exact ih
  | root | id | named | path | tag => rfl

theorem withStem_stem (selector : Selector) : selector.withStem selector.stem = selector := by
  induction selector with
  | first _ ih => rw [withStem, stem, ih]
  | attr _ _ ih => rw [withStem, stem, ih]
  | root | id | named | path | tag => rfl

theorem withStem_inj {one other : Selector} (same : selector.withStem one = selector.withStem other) :
    one = other := by
  induction selector with
  | first _ ih => exact ih (Selector.first.inj same)
  | attr _ _ ih => exact ih (Selector.attr.inj same).1
  | root | id | named | path | tag => exact same

/-- What is read from a text has names where names are asked for, and lower case for tags. -/
def WellFormed : Selector → Prop
  | .root => True
  | .id name => isName name.toList = true
  | .named dotted => (splitChars '.' dotted.toList).all isName = true
  | .first selector => selector.WellFormed
  | .path segments => segments ≠ [] ∧
      ∀ segment ∈ segments, isName segment.toList = true ∧ Unicode.lowerCase segment = segment
  | .tag text => ∃ name, isName name = true ∧ text = Unicode.lowerCase (String.ofList name)
  | .attr base name => base.WellFormed ∧ isName name.toList = true

theorem wellFormed_of_parseSimple (read : parseSimple cs = .ok selector) : selector.WellFormed := by
  rw [parseSimple.eq_def] at read
  split at read
  · cases read
    exact trivial
  · split at read
    · next named =>
      cases read
      rwa [WellFormed, String.toList_ofList]
    · cases read
  · split at read
    · next named =>
      cases read
      rwa [WellFormed, String.toList_ofList]
    · cases read
  · split at read
    · dsimp only at read
      split at read
      · next named =>
        cases read
        refine ⟨by simpa using splitChars_ne_nil '/' _, fun segment member => ?_⟩
        refine ⟨List.all_eq_true.mp named segment member, ?_⟩
        obtain ⟨part, _, rfl⟩ := List.mem_map.mp member
        exact Unicode.lowerCase_lowerCase _
      · cases read
    · split at read
      · next named =>
        cases read
        exact ⟨cs, named, rfl⟩
      · cases read

theorem wellFormed_of_parseChars (read : parseChars cs = .ok selector) : selector.WellFormed := by
  fun_induction parseChars cs generalizing selector with
  | case1 => cases read
  | case2 => cases read
  | case3 => cases read
  | case4 _ _ _ _ _ _ _ named =>
    rename_i below
    cases read
    rw [WellFormed, String.toList_ofList]
    exact ⟨below (by assumption), by simpa using named⟩
  | case5 => cases read
  | case6 =>
    rename_i below
    cases read
    rw [WellFormed]
    exact below (by assumption)
  | case7 => cases read
  | case8 => cases read
  | case9 _ trimmed =>
    cases simple : parseSimple trimmed with
    | ok inner =>
      rw [simple] at read
      cases read
      exact wellFormed_of_parseSimple simple
    | error fault =>
      rw [simple] at read
      cases read

/-! ### Displayed texts -/

def IsTame (c : Char) : Prop := IsPlain c ∨ c = '/' ∨ c = '#' ∨ c = '$'

theorem IsTame.not_blank {c : Char} (tame : IsTame c) : Unicode.isBlank c = false := by
  rcases tame with plain | rfl | rfl | rfl
  · exact plain.not_blank
  all_goals decide

theorem not_tame {c : Char} (mark : c ∈ "@()".toList) : ¬ IsTame c := by
  have special : c.toNat ∈ markPoints :=
    List.mem_append_right blankPoints (List.mem_map_of_mem (List.mem_append_left "/#$".toList mark))
  rintro (plain | rfl | rfl | rfl)
  · exact plain special
  all_goals exact absurd mark (by decide)

theorem toList_display_path (segments : List String) :
    (display (.path segments)).toList = ['/'].intercalate (segments.map String.toList) :=
  String.toList_intercalate

theorem toList_display_first (selector : Selector) :
    (display (.first selector)).toList = firstMark ++ selector.display.toList ++ [')'] := by
  rw [display, String.toList_append, String.toList_append]
  rfl

theorem toList_display_attr (base : Selector) (name : String) :
    (display (.attr base name)).toList = base.display.toList ++ '@' :: name.toList := by
  rw [display, String.toList_append, String.toList_append, List.append_assoc]
  rfl

private theorem tame_of_isName (named : isName cs = true) : ∀ c ∈ cs, IsTame c :=
  fun c member => .inl (isPlain_of_isNameChar (isNameChar_of_isName named c member))

theorem tame_of_isStem (formed : selector.WellFormed) (whole : selector.IsStem = true) :
    ∀ c ∈ selector.display.toList, IsTame c := by
  intro c member
  cases selector with
  | root => cases List.mem_singleton.mp member; exact .inr (.inl rfl)
  | id name =>
    rw [display, String.toList_append, List.mem_append] at member
    rcases member with mark | inside
    · cases List.mem_singleton.mp mark; exact .inr (.inr (.inl rfl))
    · exact tame_of_isName formed c inside
  | named dotted =>
    rw [display, String.toList_append, List.mem_append] at member
    rcases member with mark | inside
    · cases List.mem_singleton.mp mark; exact .inr (.inr (.inr rfl))
    · rw [← intercalate_splitChars '.' dotted.toList] at inside
      rcases mem_intercalate inside with rfl | ⟨part, among, inside⟩
      · exact .inl (by decide)
      · exact tame_of_isName (List.all_eq_true.mp formed part among) c inside
  | path segments =>
    rw [toList_display_path] at member
    rcases mem_intercalate member with rfl | ⟨part, among, inside⟩
    · exact .inr (.inl rfl)
    · obtain ⟨segment, found, rfl⟩ := List.mem_map.mp among
      exact tame_of_isName (formed.2 segment found).1 c inside
  | tag text =>
    obtain ⟨name, named, rfl⟩ := formed
    rw [display, Unicode.lowerCase, String.toList_ofList, String.toList_ofList] at member
    exact .inl (isPlain_of_mem_lowerCaseAfter (isNameChar_of_isName named) member)
  | first | attr => cases whole

theorem not_mem_display (formed : selector.WellFormed) (whole : selector.IsStem = true) {c : Char}
    (mark : c ∈ "@()".toList) : c ∉ selector.display.toList :=
  fun member => not_tame mark (tame_of_isStem formed whole c member)

theorem not_blank_of_mem_display (formed : selector.WellFormed) :
    ∀ c ∈ selector.display.toList, Unicode.isBlank c = false := by
  induction selector with
  | first selector ih =>
    have unblank : firstMark.any Unicode.isBlank = false := by decide
    intro c member
    rw [toList_display_first, List.mem_append, List.mem_append, List.mem_singleton] at member
    rcases member with (mark | inside) | rfl
    · exact Bool.eq_false_iff.mpr (List.any_eq_false.mp unblank c mark)
    · exact ih formed c inside
    · rfl
  | attr base name ih =>
    intro c member
    rw [toList_display_attr, List.mem_append, List.mem_cons] at member
    rcases member with inside | rfl | behind
    · exact ih formed.1 c inside
    · rfl
    · exact not_blank_of_isNameChar (isNameChar_of_isName formed.2 c behind)
  | root | id | named | path | tag =>
    exact fun c member => (tame_of_isStem formed rfl c member).not_blank

theorem trimChars_display (formed : selector.WellFormed) :
    trimChars selector.display.toList = selector.display.toList :=
  trimChars_of_not_blank (not_blank_of_mem_display formed)

/-! ### Parentheses -/

/-- How many parentheses a text opens more than it closes. -/
def surplus (cs : List Char) : Int := (cs.count '(' : Int) - cs.count ')'

theorem surplus_append (front back : List Char) : surplus (front ++ back) = surplus front + surplus back := by
  rw [surplus, surplus, surplus, List.count_append, List.count_append]
  omega

/-- The last `@` outside parentheses is looked for in the second part of a text first. -/
theorem splitAttribute?_append (front back : List Char) (depth : Int) :
    splitAttribute? depth (front ++ back) =
      ((splitAttribute? (depth + surplus front) back).map fun (base, name) => (front ++ base, name)).or
        ((splitAttribute? depth front).map fun (base, name) => (base, name ++ back)) := by
  induction front generalizing depth with
  | nil =>
    have none : depth + surplus [] = depth := Int.add_zero depth
    rw [List.nil_append, none]
    cases splitAttribute? depth back <;> rfl
  | cons c rest ih =>
    have inside : (if c == '(' then depth + 1 else if c == ')' then depth - 1 else depth) + surplus rest =
        depth + surplus (c :: rest) := by
      simp only [surplus, List.count_cons]
      by_cases opens : c = '('
      · subst opens
        simp
        omega
      · by_cases closes : c = ')'
        · subst closes
          simp
          omega
        · simp [opens, closes]
    rw [List.cons_append, splitAttribute?, ih, inside, splitAttribute?]
    cases splitAttribute? (depth + surplus (c :: rest)) back with
    | some found => rfl
    | none =>
      dsimp only
      cases splitAttribute? (if c == '(' then depth + 1 else if c == ')' then depth - 1 else depth) rest with
      | some found => rfl
      | none =>
        by_cases here : (c == '@' && depth == 0) = true
        · simp [here]
        · simp [here]

theorem splitAttribute?_first (inner : List Char) (depth : Int) :
    splitAttribute? depth (firstMark ++ inner ++ [')']) =
      (splitAttribute? (depth + 1) inner).map fun (base, name) => (firstMark ++ base, name ++ [')']) := by
  have opening : surplus firstMark = 1 := rfl
  have front : splitAttribute? depth firstMark = none := splitAttribute?_of_not_mem (by decide) depth
  have back (depth : Int) : splitAttribute? depth [')'] = none :=
    splitAttribute?_of_not_mem (by decide) depth
  rw [splitAttribute?_append, splitAttribute?_append, back, front, opening]
  cases splitAttribute? (depth + 1) inner <;> rfl

/-- Displayed texts close what they open, and inside of parentheses no attribute is found in them. -/
theorem closed_display (formed : selector.WellFormed) : surplus selector.display.toList = 0 ∧
    ∀ depth, 0 < depth → splitAttribute? depth selector.display.toList = none := by
  induction selector with
  | first selector ih =>
    obtain ⟨closed, none⟩ := ih formed
    have opening : surplus firstMark = 1 := rfl
    have closing : surplus [')'] = -1 := rfl
    rw [toList_display_first]
    constructor
    · rw [surplus_append, surplus_append, opening, closed, closing]
      rfl
    · intro depth inside
      rw [splitAttribute?_first, none (depth + 1) (by omega)]
      rfl
  | attr base name ih =>
    obtain ⟨closed, none⟩ := ih formed.1
    have named : ∀ mark, isNameChar mark = false → mark ∉ name.toList :=
      fun _ => not_mem_of_isName formed.2
    have rest : surplus ('@' :: name.toList) = 0 := by
      simp [surplus, List.count_eq_zero_of_not_mem (named '(' rfl),
        List.count_eq_zero_of_not_mem (named ')' rfl)]
    rw [toList_display_attr]
    constructor
    · rw [surplus_append, closed, rest]
      rfl
    · intro depth inside
      have back : splitAttribute? depth ('@' :: name.toList) = Option.none := by
        have outside : (depth == 0) = false := by
          rw [beq_eq_false_iff_ne]
          omega
        simp [splitAttribute?, splitAttribute?_of_not_mem (named '@' rfl), outside]
      rw [splitAttribute?_append, closed, Int.add_zero, back, none depth inside]
      rfl
  | root | id | named | path | tag =>
    constructor
    · rw [surplus, List.count_eq_zero_of_not_mem (not_mem_display formed rfl (by simp)),
        List.count_eq_zero_of_not_mem (not_mem_display formed rfl (by simp))]
      rfl
    · intro depth _
      exact splitAttribute?_of_not_mem (not_mem_display formed rfl (by simp)) depth

theorem display_ne_nil (formed : selector.WellFormed) : selector.display.toList ≠ [] := by
  cases selector with
  | root => decide
  | id | named =>
    rw [display, String.toList_append]
    exact List.append_ne_nil_of_left_ne_nil (by decide) _
  | first =>
    rw [toList_display_first]
    exact List.append_ne_nil_of_right_ne_nil _ (List.cons_ne_nil _ _)
  | attr =>
    rw [toList_display_attr]
    exact List.append_ne_nil_of_right_ne_nil _ (List.cons_ne_nil _ _)
  | path segments =>
    obtain ⟨some, names⟩ := formed
    obtain ⟨segment, rest, rfl⟩ := List.exists_cons_of_ne_nil some
    have written := ne_nil_of_isName (names segment List.mem_cons_self).1
    rw [toList_display_path, List.map_cons]
    cases rest with
    | nil => simpa using written
    | cons next rest =>
      rw [List.map_cons, List.intercalate_cons_cons, List.append_assoc]
      exact List.append_ne_nil_of_left_ne_nil written _
  | tag text =>
    obtain ⟨name, named, rfl⟩ := formed
    obtain ⟨c, rest, rfl⟩ := List.exists_cons_of_ne_nil (ne_nil_of_isName named)
    rw [display, Unicode.lowerCase, String.toList_ofList, String.toList_ofList]
    exact Unicode.lowerCaseAfter_ne_nil [] c rest

/-- What stands around the stem is read as it was. -/
theorem parseChars_display (formed : selector.WellFormed) :
    parseChars selector.display.toList =
      (parseChars selector.stem.display.toList).map selector.withStem := by
  induction selector with
  | first selector ih =>
    have own : selector.WellFormed := formed
    have trimmed : trimChars (display (.first selector)).toList = firstMark ++ selector.display.toList ++ [')'] :=
      (trimChars_display formed).trans (toList_display_first selector)
    have whole : splitAttribute? 0 (trimChars (display (.first selector)).toList) = none := by
      rw [trimmed, splitAttribute?_first, (closed_display own).2 (0 + 1) (by decide)]
      rfl
    rw [parseChars_first trimmed whole, ih own, stem]
    cases parseChars selector.stem.display.toList <;> rfl
  | attr base name ih =>
    have split : splitAttribute? 0 (trimChars (display (.attr base name)).toList) =
        some (base.display.toList, name.toList) := by
      have closed : surplus base.display.toList = 0 := (closed_display formed.1).1
      rw [trimChars_display formed, toList_display_attr, splitAttribute?_append, closed, splitAttribute?,
        splitAttribute?_of_not_mem (not_mem_of_isName formed.2 rfl)]
      simp
    rw [parseChars_attribute split (display_ne_nil formed.1) formed.2, ih formed.1, stem,
      String.ofList_toList]
    cases parseChars base.stem.display.toList <;> rfl
  | root | id | named | path | tag =>
    exact (id_map (parseChars _)).symm

/-! ### Stems -/

private theorem parseChars_stem (formed : selector.WellFormed) (whole : selector.IsStem = true) :
    parseChars selector.display.toList =
      (parseSimple selector.display.toList).mapError (.invalidSelector selector.display) := by
  have opened (marked : firstMark <+: selector.display.toList) : False :=
    not_mem_display formed whole (by simp) (marked.subset (by decide : '(' ∈ firstMark))
  have simple := parseChars_simple (trimChars_display formed) (display_ne_nil formed)
    (not_mem_display formed whole (by simp)) opened
  rwa [String.ofList_toList] at simple

private theorem parseSimple_unmarked (unmarked : ∀ c ∈ cs.head?, IsPlain c) : parseSimple cs =
    if cs.contains '/' then
      let segments := (splitChars '/' (cs.dropWhile (· == '/'))).map (Unicode.lowerCase ∘ String.ofList)
      if segments.all fun segment => isName segment.toList then .ok (.path segments)
      else .error .pathSegment
    else if isName cs then .ok (.tag (Unicode.lowerCase (String.ofList cs)))
    else .error .tagName := by
  have special : ¬ IsPlain '/' ∧ ¬ IsPlain '#' ∧ ¬ IsPlain '$' := by decide
  rw [parseSimple.eq_def]
  split
  · exact absurd (unmarked '/' rfl) special.1
  · exact absurd (unmarked '#' rfl) special.2.1
  · exact absurd (unmarked '$' rfl) special.2.2
  · rfl

private theorem parseSimple_path {first next : String} {rest : List String}
    (formed : WellFormed (.path (first :: next :: rest))) :
    parseSimple (display (.path (first :: next :: rest))).toList = .ok (.path (first :: next :: rest)) := by
  obtain ⟨_, names⟩ := formed
  have plain : ∀ part ∈ (first :: next :: rest).map String.toList, '/' ∉ part := by
    intro part member
    obtain ⟨segment, among, rfl⟩ := List.mem_map.mp member
    exact not_mem_of_isName (names segment among).1 rfl
  have joined : (display (.path (first :: next :: rest))).toList =
      first.toList ++ '/' :: ['/'].intercalate ((next :: rest).map String.toList) := by
    rw [toList_display_path, List.map_cons, List.map_cons, List.intercalate_cons_cons, List.append_assoc]
    rfl
  have begins : ∀ c ∈ (display (.path (first :: next :: rest))).toList.head?, isNameChar c = true := by
    intro c head
    have name := (names first List.mem_cons_self).1
    rw [joined, List.head?_append_of_ne_nil _ (ne_nil_of_isName name)] at head
    exact isNameChar_of_isName name c (List.mem_of_head? head)
  have slash : (display (.path (first :: next :: rest))).toList.contains '/' = true := by
    rw [joined]
    simp
  have unmarked : (display (.path (first :: next :: rest))).toList.dropWhile (· == '/') =
      (display (.path (first :: next :: rest))).toList := by
    apply dropWhile_of_head
    intro c head
    rw [beq_eq_false_iff_ne]
    rintro rfl
    cases begins '/' head
  have lowered : (splitChars '/' (display (.path (first :: next :: rest))).toList).map
      (Unicode.lowerCase ∘ String.ofList) = first :: next :: rest := by
    rw [toList_display_path, splitChars_intercalate plain (by simp), List.map_map]
    refine (List.map_congr_left fun segment among => ?_).trans (List.map_id _)
    exact (congrArg Unicode.lowerCase String.ofList_toList).trans (names segment among).2
  have named : (first :: next :: rest).all (fun segment => isName segment.toList) = true :=
    List.all_eq_true.mpr fun segment among => (names segment among).1
  rw [parseSimple_unmarked fun c head => isPlain_of_isNameChar (begins c head), if_pos slash, unmarked, lowered,
    if_pos named]

/-- The stem is read again as it is, but for paths of one segment and for tags. -/
theorem parseChars_display_stem (formed : selector.WellFormed) (whole : selector.IsStem = true)
    (path : ∀ segment, selector ≠ .path [segment]) (tag : ∀ text, selector ≠ .tag text) :
    parseChars selector.display.toList = .ok selector := by
  have read : parseSimple selector.display.toList = .ok selector := by
    cases selector with
    | root => rfl
    | id name =>
      have names : isName name.toList = true := formed
      rw [display, String.toList_append]
      show parseSimple ('#' :: name.toList) = _
      rw [parseSimple, if_pos names, String.ofList_toList]
    | named dotted =>
      have names : (splitChars '.' dotted.toList).all isName = true := formed
      rw [display, String.toList_append]
      show parseSimple ('$' :: dotted.toList) = _
      rw [parseSimple, if_pos names, String.ofList_toList]
    | path segments =>
      obtain ⟨one, others, rfl⟩ := List.exists_cons_of_ne_nil formed.1
      have longer : others ≠ [] := fun none => path one (by rw [none])
      obtain ⟨next, rest, rfl⟩ := List.exists_cons_of_ne_nil longer
      exact parseSimple_path formed
    | tag text => exact absurd rfl (tag text)
    | first | attr => cases whole
  rw [parseChars_stem formed whole, read]
  rfl

theorem parseChars_segment {segment : String} (formed : WellFormed (.path [segment])) :
    parseChars (display (.path [segment])).toList = .ok (.tag segment) := by
  obtain ⟨name, lowered⟩ := formed.2 segment List.mem_cons_self
  have text : (display (.path [segment])).toList = segment.toList := by
    rw [toList_display_path]
    exact List.intercalate_singleton
  rw [text, parseChars_name name, String.ofList_toList, lowered]

theorem parseChars_tag {text : String} (formed : WellFormed (.tag text)) : parseChars text.toList =
    if isName text.toList then .ok (.tag text) else .error (.invalidSelector text .tagName) := by
  obtain ⟨name, named, same⟩ := formed
  by_cases legible : isName text.toList = true
  · rw [if_pos legible, parseChars_name legible, String.ofList_toList, same, Unicode.lowerCase_lowerCase]
  · have plain : ∀ c ∈ text.toList, IsPlain c := by
      intro c member
      rw [same, Unicode.lowerCase, String.toList_ofList, String.toList_ofList] at member
      exact isPlain_of_mem_lowerCaseAfter (isNameChar_of_isName named) member
    have slash : ¬ text.toList.contains '/' = true := by
      rw [List.contains_iff_mem]
      exact fun member => absurd (plain '/' member) (by decide)
    have formed : WellFormed (.tag text) := ⟨name, named, same⟩
    have read := parseChars_stem formed rfl
    rw [display, parseSimple_unmarked fun c head => plain c (List.mem_of_head? head), if_neg slash,
      if_neg legible] at read
    rw [if_neg legible, read]
    rfl

/-! ### Selectors that come back -/

theorem wellFormed_stem (formed : selector.WellFormed) : selector.stem.WellFormed := by
  induction selector with
  | first _ ih => exact ih formed
  | attr _ _ ih => exact ih formed.1
  | root | id | named | path | tag => exact formed

/-- Reading what an accepted selector is displayed as gives the selector back, unless it is made of a path of
one segment, which comes back as a tag, or of a tag whose lower case is no name, which is refused. What
stands around, `first(…)` to any depth and attributes, always comes back. -/
theorem display_read_again (text : String) (selector : Selector) (read : parse text = .ok selector) :
    (parse selector.display = .ok selector ↔
      (∀ segment, selector.stem ≠ .path [segment]) ∧
        ∀ tag, selector.stem = .tag tag → isName tag.toList = true) ∧
    (∀ segment, selector.stem = .path [segment] →
      parse selector.display = .ok (selector.withStem (.tag segment))) ∧
    (∀ tag, selector.stem = .tag tag → isName tag.toList = false →
      parse selector.display = .error (.invalidSelector tag .tagName)) := by
  have formed := wellFormed_of_parseChars read
  have inner := wellFormed_stem formed
  have whole := parseChars_display formed
  have single (segment : String) (path : selector.stem = .path [segment]) :
      parse selector.display = .ok (selector.withStem (.tag segment)) := by
    rw [path] at whole inner
    rw [parse, whole, parseChars_segment inner]
    rfl
  have illegible (tag : String) (stem : selector.stem = .tag tag) (unnamed : isName tag.toList = false) :
      parse selector.display = .error (.invalidSelector tag .tagName) := by
    rw [stem] at whole inner
    rw [parse, whole, display, parseChars_tag inner, if_neg (by simp [unnamed])]
    rfl
  refine ⟨?_, single, illegible⟩
  constructor
  · intro same
    constructor
    · intro segment path
      have back := Except.ok.inj (same.symm.trans (single segment path))
      have stems := withStem_inj ((withStem_stem selector).trans back)
      rw [path] at stems
      cases stems
    · intro tag stem
      by_contra unnamed
      cases same.symm.trans (illegible tag stem (Bool.eq_false_iff.mpr unnamed))
  · intro back
    have stays : parseChars selector.stem.display.toList = .ok selector.stem := by
      by_cases tagged : ∃ tag, selector.stem = .tag tag
      · obtain ⟨tag, stem⟩ := tagged
        rw [stem] at inner ⊢
        rw [display, parseChars_tag inner, if_pos (back.2 tag stem)]
      · exact parseChars_display_stem inner (isStem_stem selector) back.1 fun tag stem => tagged ⟨tag, stem⟩
    rw [parse, whole, stays]
    exact congrArg Except.ok (withStem_stem selector)

/-- Blanks and capitals are not displayed, nor the slash that begins a path of several segments. -/
theorem display_read_again_nested :
    let selector : Selector := .attr (.first (.attr (.path ["list", "item"]) "Key")) "x"
    parse " first( /List/ITEM@Key )@x" = .ok selector ∧ selector.display = "first(list/item@Key)@x" ∧
      parse selector.display = .ok selector := by
  intro selector
  have path : parseChars "/List/ITEM".toList = .ok (.path ["list", "item"]) := by
    have trimmed : trimChars "/List/ITEM".toList = "/List/ITEM".toList := by decide +kernel
    have simple : parseSimple "/List/ITEM".toList = .ok (.path ["list", "item"]) := by decide +kernel
    rw [parseChars_simple trimmed (by decide) (by decide) (by decide), simple]
    rfl
  have inner : parseChars " /List/ITEM@Key ".toList = .ok (.attr (.path ["list", "item"]) "Key") := by
    have split : splitAttribute? 0 (trimChars " /List/ITEM@Key ".toList) =
        some ("/List/ITEM".toList, "Key".toList) := by decide +kernel
    rw [parseChars_attribute split (by decide) (by decide +kernel), path]
    rfl
  have base : parseChars "first( /List/ITEM@Key )".toList =
      .ok (.first (.attr (.path ["list", "item"]) "Key")) := by
    have marked : trimChars "first( /List/ITEM@Key )".toList =
        firstMark ++ " /List/ITEM@Key ".toList ++ [')'] := by
      decide +kernel
    rw [parseChars_first marked (by decide +kernel), inner]
    rfl
  have read : parse " first( /List/ITEM@Key )@x" = .ok selector := by
    have split : splitAttribute? 0 (trimChars " first( /List/ITEM@Key )@x".toList) =
        some ("first( /List/ITEM@Key )".toList, "x".toList) := by decide +kernel
    rw [parse, parseChars_attribute split (by decide) (by decide +kernel), base]
    rfl
  have longer (segment : String) (same : selector.stem = .path [segment]) : False := by
    cases Selector.path.inj same
  have untagged (tag : String) (same : selector.stem = .tag tag) : isName tag.toList = true := by cases same
  exact ⟨read, by decide +kernel, (display_read_again _ selector read).1.mpr ⟨longer, untagged⟩⟩

/-- The slash of the one is lost, so what is read selects elements anywhere; the lower case of the other is
a letter and a combining dot. -/
theorem display_loses_single_segment :
    (parse "/a" = .ok (.path ["a"]) ∧ display (.path ["a"]) = "a" ∧ parse "a" = .ok (.tag "a")) ∧
    parse "İ" = .ok (.tag "i\u0307") ∧ display (.tag "i\u0307") = "i\u0307" ∧
      parse "i\u0307" = .error (.invalidSelector "i\u0307" .tagName) := by
  have capital : Unicode.lowerCase "İ" = "i\u0307" := by decide +kernel
  have dotted : WellFormed (.tag "i\u0307") := ⟨"İ".toList, by decide +kernel, by
    rw [String.ofList_toList, capital]⟩
  refine ⟨⟨?_, by decide +kernel, ?_⟩, ?_, rfl, ?_⟩
  · have trimmed : trimChars "/a".toList = "/a".toList := by decide +kernel
    have simple : parseSimple "/a".toList = .ok (.path ["a"]) := by decide +kernel
    rw [parse, parseChars_simple trimmed (by decide) (by decide) (by decide), simple]
    rfl
  · have lowered : Unicode.lowerCase "a" = "a" := by decide +kernel
    rw [parse, parseChars_name (by decide +kernel), String.ofList_toList, lowered]
  · rw [parse, parseChars_name (by decide +kernel), String.ofList_toList, capital]
  · rw [parse, parseChars_tag dotted, if_neg (by decide +kernel)]

end LinkedMarkup.Selector
