import LinkedMarkup.Text
import LinkedMarkup.Unicode.LowerCase

namespace LinkedMarkup
namespace Unicode

/-! ### The table -/

def CaseRun.moved (run : CaseRun) : List Nat :=
  (List.range' run.first (run.last + 1 - run.first)).filter fun n => (n - run.first) % run.step == 0

def CaseRun.images (run : CaseRun) : List Nat := run.moved.map fun n : Nat => (n + run.shift).toNat

theorem lowerCaseShift_eq_or (n : Nat) (runs : List CaseRun) :
    lowerCaseShift n runs = 0 ∨ ∃ run ∈ runs, n ∈ run.moved ∧ lowerCaseShift n runs = run.shift := by
  induction runs with
  | nil => exact .inl rfl
  | cons run rest ih =>
    rw [lowerCaseShift]
    split
    · exact .inl rfl
    · split
      · next above inside =>
        rw [Bool.and_eq_true, decide_eq_true_iff] at inside
        have member : n ∈ run.moved :=
          List.mem_filter.mpr ⟨List.mem_range'_1.mpr (by omega), inside.2⟩
        exact .inr ⟨run, List.mem_cons_self, member, rfl⟩
      · rcases ih with stays | ⟨other, member, moved⟩
        · exact .inl stays
        · exact .inr ⟨other, List.mem_cons_of_mem _ member, moved⟩

/-- Sets of numbers as the bits of one number. Number by number it would take long to compare the sets of
the table; as bits they are compared at once. -/
def bits (sets : List (List Nat)) : Nat :=
  sets.foldr (fun set others => set.foldr (fun n rest => 1 <<< n ||| rest) 0 ||| others) 0

theorem testBit_bits {sets : List (List Nat)} {n : Nat} :
    (bits sets).testBit n = true ↔ ∃ set ∈ sets, n ∈ set := by
  have single (set : List Nat) :
      (set.foldr (fun n rest => 1 <<< n ||| rest) 0).testBit n = true ↔ n ∈ set := by
    induction set with
    | nil => simp
    | cons m rest ih =>
      rw [List.foldr_cons, Nat.testBit_or, Bool.or_eq_true, ih, List.mem_cons, Nat.one_shiftLeft,
        Nat.testBit_two_pow, decide_eq_true_iff, eq_comm]
  induction sets with
  | nil => simp [bits]
  | cons set others ih =>
    rw [bits, List.foldr_cons, Nat.testBit_or, Bool.or_eq_true, single]
    simp only [List.mem_cons, exists_eq_or_imp]
    exact or_congr_right ih

/-- Sets that have no bit in common have no number in common. -/
theorem not_mem_of_bits_apart {sets others : List (List Nat)} (apart : bits sets &&& bits others = 0)
    {set other : List Nat} (left : set ∈ sets) (right : other ∈ others) {n : Nat} (member : n ∈ set) :
    n ∉ other := by
  intro shared
  have both := Nat.testBit_and (bits sets) (bits others) n
  rw [apart, Nat.zero_testBit, testBit_bits.mpr ⟨set, left, member⟩,
    testBit_bits.mpr ⟨other, right, shared⟩] at both
  cases both

/-- The capitals of ASCII and the dotted capital I, which the table does not hold. -/
def otherCapitals : List Nat := 0x130 :: List.range' 0x41 26

private theorem bits_apart : bits (lowerCaseRuns.map CaseRun.images) &&&
    bits (otherCapitals :: lowerCaseRuns.map CaseRun.moved) = 0 := by
  decide +kernel

/-- No run leads to capitals. -/
theorem not_moved_of_mem_images {run : CaseRun} {n : Nat} (found : run ∈ lowerCaseRuns)
    (image : n ∈ run.images) : n ∉ otherCapitals ∧ lowerCaseShift n lowerCaseRuns = 0 := by
  have own : run.images ∈ lowerCaseRuns.map CaseRun.images := List.mem_map_of_mem found
  refine ⟨not_mem_of_bits_apart bits_apart own List.mem_cons_self image, ?_⟩
  rcases lowerCaseShift_eq_or n lowerCaseRuns with stays | ⟨other, found', moved, _⟩
  · exact stays
  · have there : other.moved ∈ otherCapitals :: lowerCaseRuns.map CaseRun.moved :=
      List.mem_cons_of_mem _ (List.mem_map_of_mem found')
    exact absurd moved (not_mem_of_bits_apart bits_apart own there image)

/-! ### Characters -/

def Settled (c : Char) : Prop := lowerCaseChar c = [c]

instance (c : Char) : Decidable (Settled c) := inferInstanceAs (Decidable (_ = _))

/-- ASCII folding moves no character beyond ASCII. -/
theorem toLower_of_not_ascii {c : Char} (high : ¬ c.toNat < 128) : c.toLower = c := by
  have kept : ¬ (c.val ≥ 'A'.val ∧ c.val ≤ 'Z'.val) := by
    intro capital
    have last : c.toNat ≤ 'Z'.toNat := capital.2
    exact high (Nat.lt_of_le_of_lt last (by decide))
  exact dif_neg kept

/-- ASCII folding of a character makes no difference to its lower case, nor to the words around it. -/
structure Folds (c : Char) : Prop where
  image : lowerCaseChar c.toLower = lowerCaseChar c
  cased : isCased c.toLower = isCased c
  ignorable : isCaseIgnorable c.toLower = isCaseIgnorable c
  sigma : (c.toLower == 'Σ') = (c == 'Σ')

/-- The characters of ASCII, one by one. All that is said of them is evaluated here, once. -/
private theorem ascii_checked : ∀ n < 128,
    let c := Char.ofNat n
    (lowerCaseChar c.toLower = lowerCaseChar c ∧ isCased c.toLower = isCased c ∧
      isCaseIgnorable c.toLower = isCaseIgnorable c ∧ (c.toLower == 'Σ') = (c == 'Σ')) ∧
    Settled c.toLower ∧ (n ∉ otherCapitals → Settled c) ∧ (Settled c → c.toLower = c) := by
  decide +kernel

theorem folds (c : Char) : Folds c := by
  by_cases low : c.toNat < 128
  · obtain ⟨⟨image, cased, ignorable, sigma⟩, _⟩ := ascii_checked c.toNat low
    rw [Char.ofNat_toNat] at image cased ignorable sigma
    exact ⟨image, cased, ignorable, sigma⟩
  · have stays := toLower_of_not_ascii low
    exact ⟨by rw [stays], by rw [stays], by rw [stays], by rw [stays]⟩

theorem Settled.toLower {c : Char} (settled : Settled c) : c.toLower = c := by
  by_cases low : c.toNat < 128
  · obtain ⟨_, _, _, stays⟩ := ascii_checked c.toNat low
    rw [Char.ofNat_toNat] at stays
    exact stays settled
  · exact toLower_of_not_ascii low

theorem settled_toLower {c : Char} (low : c.toNat < 128) : Settled c.toLower := by
  obtain ⟨_, settled, _⟩ := ascii_checked c.toNat low
  rwa [Char.ofNat_toNat] at settled

theorem settled_ofNat {n : Nat} (other : n ∉ otherCapitals) (stays : lowerCaseShift n lowerCaseRuns = 0) :
    Settled (Char.ofNat n) := by
  have dotted : n ≠ 0x130 := fun same => other (same ▸ List.mem_cons_self)
  by_cases valid : n.isValidChar
  · by_cases low : n < 128
    · obtain ⟨_, _, settled, _⟩ := ascii_checked n low
      exact settled other
    · have point : (Char.ofNat n).toNat = n := by
        rw [Char.ofNat, dif_pos valid]
        rfl
      rw [Settled, lowerCaseChar, point, if_neg low, if_neg (by simpa using dotted), stays]
      rfl
  · have none : Char.ofNat n = '\x00' := by
      rw [Char.ofNat, dif_neg valid]
      rfl
    rw [none]
    decide

private theorem special_checked :
    (Settled 'i' ∧ Settled '\u0307') ∧ (Settled 'ς' ∧ Settled 'σ') ∧ ¬ Settled 'Σ' := by
  decide +kernel

theorem settled_of_mem_lowerCaseChar {c d : Char} (member : d ∈ lowerCaseChar c) : Settled d := by
  rw [lowerCaseChar] at member
  split at member
  · next low =>
    rw [List.mem_singleton.mp member]
    exact settled_toLower low
  · split at member
    · rw [List.mem_cons, List.mem_singleton] at member
      obtain ⟨⟨letter, dot⟩, _⟩ := special_checked
      rcases member with rfl | rfl
      · exact letter
      · exact dot
    · next high dotted =>
      rw [List.mem_singleton.mp member]
      rcases lowerCaseShift_eq_or c.toNat lowerCaseRuns with stays | ⟨run, found, moved, shift⟩
      · rw [stays, Int.add_zero, Int.toNat_natCast]
        refine settled_ofNat ?_ stays
        simp only [otherCapitals, List.mem_cons, List.mem_range'_1, not_or]
        exact ⟨by simpa using dotted, by omega⟩
      · have image : (c.toNat + lowerCaseShift c.toNat lowerCaseRuns).toNat ∈ run.images := by
          rw [shift]
          exact List.mem_map_of_mem (f := fun n : Nat => (n + run.shift).toNat) moved
        obtain ⟨other, stays⟩ := not_moved_of_mem_images found image
        exact settled_ofNat other stays

/-! ### Texts -/

theorem settled_of_mem_lowerCaseAfter {before cs : List Char} {c : Char}
    (member : c ∈ lowerCaseAfter before cs) : Settled c := by
  induction cs generalizing before with
  | nil => cases member
  | cons first rest ih =>
    rw [lowerCaseAfter, List.mem_append] at member
    rcases member with here | later
    · split at here
      · obtain ⟨_, ⟨final, inner⟩, _⟩ := special_checked
        split at here
        · rwa [List.mem_singleton.mp here]
        · rwa [List.mem_singleton.mp here]
      · exact settled_of_mem_lowerCaseChar here
    · exact ih later

theorem lowerCaseAfter_ne_nil (before : List Char) (c : Char) (rest : List Char) :
    lowerCaseAfter before (c :: rest) ≠ [] := by
  have image : lowerCaseChar c ≠ [] := by
    unfold lowerCaseChar
    split
    · exact List.cons_ne_nil _ _
    · split <;> exact List.cons_ne_nil _ _
  rw [lowerCaseAfter]
  refine List.append_ne_nil_of_left_ne_nil ?_ _
  split
  · split <;> exact List.cons_ne_nil _ _
  · exact image

theorem lowerCaseAfter_of_settled {before cs : List Char} (settled : ∀ c ∈ cs, Settled c) :
    lowerCaseAfter before cs = cs := by
  induction cs generalizing before with
  | nil => rfl
  | cons c rest ih =>
    have own : Settled c := settled c List.mem_cons_self
    have other : ¬ (c == 'Σ') = true := by
      obtain ⟨_, _, sigma⟩ := special_checked
      rw [beq_iff_eq]
      rintro rfl
      exact sigma own
    rw [lowerCaseAfter, if_neg other, own, ih fun d member => settled d (List.mem_cons_of_mem c member)]
    rfl

theorem nextIsCased_map_toLower (cs : List Char) : nextIsCased (cs.map Char.toLower) = nextIsCased cs := by
  have skip : isCaseIgnorable ∘ Char.toLower = isCaseIgnorable := funext fun c => (folds c).ignorable
  rw [nextIsCased, nextIsCased, List.dropWhile_map, skip]
  cases cs.dropWhile isCaseIgnorable with
  | nil => rfl
  | cons c rest => exact (folds c).cased

theorem lowerCaseAfter_map_toLower (before cs : List Char) :
    lowerCaseAfter (before.map Char.toLower) (cs.map Char.toLower) = lowerCaseAfter before cs := by
  induction cs generalizing before with
  | nil => rfl
  | cons c rest ih =>
    rw [List.map_cons, lowerCaseAfter, lowerCaseAfter, (folds c).sigma, (folds c).image,
      nextIsCased_map_toLower, nextIsCased_map_toLower, ← List.map_cons, ih]

theorem lowerCase_lowerCase (text : String) : lowerCase (lowerCase text) = lowerCase text := by
  rw [lowerCase, lowerCase, String.toList_ofList,
    lowerCaseAfter_of_settled fun c => settled_of_mem_lowerCaseAfter]

theorem asciiLower_lowerCase (text : String) : Text.asciiLower (lowerCase text) = lowerCase text := by
  rw [Text.asciiLower, ← String.toList_inj, String.toList_map, lowerCase, String.toList_ofList]
  rw [List.map_congr_left (g := id) fun c member => (settled_of_mem_lowerCaseAfter member).toLower,
    List.map_id]

theorem lowerCase_asciiLower (text : String) : lowerCase (Text.asciiLower text) = lowerCase text := by
  rw [lowerCase, lowerCase, Text.asciiLower, String.toList_map]
  exact congrArg String.ofList (lowerCaseAfter_map_toLower [] text.toList)

/-- ASCII folding leads to the lower case of another text only where it lowers all of the own one. -/
theorem asciiLower_eq_lowerCase_iff {first second : String} : Text.asciiLower first = lowerCase second ↔
    lowerCase first = lowerCase second ∧ Text.asciiLower first = lowerCase first := by
  constructor
  · intro same
    have lowered : lowerCase first = lowerCase second := by
      rw [← lowerCase_asciiLower, same, lowerCase_lowerCase]
    exact ⟨lowered, same.trans lowered.symm⟩
  · rintro ⟨lowered, folded⟩
    exact folded.trans lowered

end Unicode
end LinkedMarkup
