import LinkedMarkup.Mapping.Rule
import LinkedMarkup.Proofs.Mapping.Assignment
import Mathlib.Logic.Equiv.Basic

namespace LinkedMarkup

namespace MappingError

def number? : MappingError → Option Nat
  | .rule index _ _ => some index
  | _ => none

/-- The error under the number that its rule has in another order of the rules. -/
def renumber (number : Nat → Nat) : MappingError → MappingError
  | .rule index selector cause => .rule (number index) selector cause
  | error => error

end MappingError

namespace MappingRule
variable {rule later first second : MappingRule} {rules before after : List MappingRule}
  {d : Document} {around : Surroundings} {output value : Value}

/-- The value that a rule writes, if any. -/
def written? (rule : MappingRule) (d : Document) (around : Surroundings) : Option Value :=
  match rule.outcome d around with
  | .written value => some value
  | .unmatched => none
  | .failed _ => rule.default?

/-- The error that a rule records under its number, if any. -/
def error? (rule : MappingRule) (index : Nat) (d : Document) (around : Surroundings) :
    Option MappingError :=
  match rule.outcome d around with
  | .failed cause => some (.rule index rule.selector.display cause)
  | _ => none

def applied (d : Document) (around : Surroundings) (output : Value) (rule : MappingRule) : Value :=
  ((rule.written? d around).map (rule.write output)).getD output

/-- The errors of rules, the first one with the number `index`. -/
def errorsFrom (d : Document) (around : Surroundings) : Nat → List MappingRule → List MappingError
  | _, [] => []
  | index, rule :: rest =>
    (rule.error? index d around).toList ++ errorsFrom d around (index + 1) rest

/-! ### Runs -/

theorem run_value (rule : MappingRule) (index : Nat) (result : MappingResult) :
    (rule.run index d around result).value = applied d around result.value rule := by
  rw [run, applied, written?]
  cases rule.outcome d around with
  | written value => rfl
  | unmatched => rfl
  | failed cause => rfl

theorem run_errors (rule : MappingRule) (index : Nat) (result : MappingResult) :
    (rule.run index d around result).errors =
      result.errors ++ (rule.error? index d around).toList := by
  rw [run, error?]
  cases rule.outcome d around with
  | written value => exact (List.append_nil _).symm
  | unmatched => exact (List.append_nil _).symm
  | failed cause => rfl

theorem runAll_value (rules : List MappingRule) (index : Nat) (result : MappingResult) :
    (runAll d around index rules result).value = rules.foldl (applied d around) result.value := by
  induction rules generalizing index result with
  | nil => rfl
  | cons rule rest ih => rw [runAll, ih, run_value, List.foldl_cons]

theorem runAll_errors (rules : List MappingRule) (index : Nat) (result : MappingResult) :
    (runAll d around index rules result).errors =
      result.errors ++ errorsFrom d around index rules := by
  induction rules generalizing index result with
  | nil => exact (List.append_nil _).symm
  | cons rule rest ih => rw [runAll, ih, run_errors, errorsFrom, List.append_assoc]

theorem mapDocument_value (rules : List MappingRule) (d : Document) (around : Surroundings) :
    (mapDocument rules d around).value =
      rules.foldl (applied d around) (around.previous.getD (.object [])) := by
  rw [mapDocument, runAll_value]

theorem mapDocument_errors (rules : List MappingRule) (d : Document) (around : Surroundings) :
    (mapDocument rules d around).errors = errorsFrom d around 0 rules := by
  rw [mapDocument, runAll_errors]
  exact List.nil_append _

/-! ### Errors and their numbers -/

theorem errorsFrom_append (index : Nat) (before after : List MappingRule) :
    errorsFrom d around index (before ++ after) =
      errorsFrom d around index before ++ errorsFrom d around (index + before.length) after := by
  induction before generalizing index with
  | nil => rfl
  | cons rule rest ih =>
    have shifted : index + 1 + rest.length = index + (rest.length + 1) := by omega
    rw [List.cons_append, errorsFrom, ih, errorsFrom, List.append_assoc, shifted, List.length_cons]

theorem renumber_error? (rule : MappingRule) (index : Nat) (number : Nat → Nat) :
    (rule.error? index d around).toList.map (.renumber number) =
      (rule.error? (number index) d around).toList := by
  rw [error?, error?]
  cases rule.outcome d around with
  | written value => rfl
  | unmatched => rfl
  | failed cause => rfl

theorem renumber_errorsFrom {number : Nat → Nat} {index start : Nat} (rules : List MappingRule)
    (moves : ∀ place < rules.length, number (index + place) = start + place) :
    (errorsFrom d around index rules).map (.renumber number) = errorsFrom d around start rules := by
  induction rules generalizing index start with
  | nil => rfl
  | cons rule rest ih =>
    have here : number index = start := moves 0 (Nat.succ_pos _)
    have below : ∀ place < rest.length, number (index + 1 + place) = start + 1 + place := by
      intro place inside
      have moved := moves (place + 1) (Nat.succ_lt_succ inside)
      rwa [Nat.add_comm place 1, ← Nat.add_assoc, ← Nat.add_assoc] at moved
    rw [errorsFrom, List.map_append, renumber_error?, here, ih below, errorsFrom]

theorem number?_of_error? {error : MappingError} {index : Nat}
    (recorded : error ∈ (rule.error? index d around).toList) : error.number? = some index := by
  rw [error?] at recorded
  cases ends : rule.outcome d around with
  | written value => simp [ends] at recorded
  | unmatched => simp [ends] at recorded
  | failed cause =>
    simp only [ends, Option.toList_some, List.mem_singleton] at recorded
    rw [recorded]
    rfl

theorem number?_of_errorsFrom {error : MappingError} {index : Nat}
    (recorded : error ∈ errorsFrom d around index rules) :
    ∃ place < rules.length, error.number? = some (index + place) := by
  induction rules generalizing index with
  | nil => cases recorded
  | cons rule rest ih =>
    rcases List.mem_append.mp recorded with own | further
    · exact ⟨0, Nat.succ_pos _, number?_of_error? own⟩
    · obtain ⟨place, inside, number⟩ := ih further
      refine ⟨place + 1, Nat.succ_lt_succ inside, number.trans ?_⟩
      rw [Nat.add_assoc, Nat.add_comm 1 place]

theorem filter_errorsFrom (before : List MappingRule) (rule : MappingRule)
    (after : List MappingRule) :
    (errorsFrom d around 0 (before ++ rule :: after)).filter
        (·.number? == some before.length) = (rule.error? before.length d around).toList := by
  have earlier : (errorsFrom d around 0 before).filter (·.number? == some before.length) = [] := by
    apply List.filter_eq_nil_iff.mpr
    intro error recorded
    obtain ⟨place, inside, number⟩ := number?_of_errorsFrom recorded
    have different : place ≠ before.length := Nat.ne_of_lt inside
    simp [number, different]
  have further : (errorsFrom d around (before.length + 1) after).filter
      (·.number? == some before.length) = [] := by
    apply List.filter_eq_nil_iff.mpr
    intro error recorded
    obtain ⟨place, _, number⟩ := number?_of_errorsFrom recorded
    have different : before.length + 1 + place ≠ before.length := by omega
    simp [number, different]
  have own : (rule.error? before.length d around).toList.filter
      (·.number? == some before.length) = (rule.error? before.length d around).toList := by
    apply List.filter_eq_self.mpr
    intro error recorded
    simp [number?_of_error? recorded]
  rw [errorsFrom_append, errorsFrom, List.filter_append, List.filter_append, earlier, Nat.zero_add,
    own, further, List.append_nil, List.nil_append]

/-- Two adjacent rules that change places change the numbers of their errors only. -/
theorem errors_swap (before : List MappingRule) (first second : MappingRule)
    (after : List MappingRule) :
    (errorsFrom d around 0 (before ++ second :: first :: after)).Perm
      ((errorsFrom d around 0 (before ++ first :: second :: after)).map
        (.renumber (Equiv.swap before.length (before.length + 1)))) := by
  have earlier : (errorsFrom d around 0 before).map
      (.renumber (Equiv.swap before.length (before.length + 1))) = errorsFrom d around 0 before := by
    apply renumber_errorsFrom
    intro place inside
    exact Equiv.swap_apply_of_ne_of_ne (by omega) (by omega)
  have further : (errorsFrom d around (before.length + 1 + 1) after).map
      (.renumber (Equiv.swap before.length (before.length + 1))) =
        errorsFrom d around (before.length + 1 + 1) after := by
    apply renumber_errorsFrom
    intro place _
    exact Equiv.swap_apply_of_ne_of_ne (by omega) (by omega)
  simp only [errorsFrom_append, errorsFrom, List.map_append, renumber_error?, Nat.zero_add, earlier,
    further, Equiv.swap_apply_left, Equiv.swap_apply_right]
  apply List.Perm.append_left
  rw [← List.append_assoc, ← List.append_assoc]
  exact List.perm_append_comm.append_right _

/-! ### Values at their targets -/

theorem write_eq_put (fits : rule.target.Fits) (output value : Value) :
    rule.write output value = TargetPath.put value rule.target.segments output := by
  rw [write, TargetPath.assign?_eq_put fits, Option.getD_some]

theorem applied_comm (fits : first.target.Fits) (fits' : second.target.Fits)
    (apart : first.target.Apart second.target) (output : Value) :
    applied d around (applied d around output first) second =
      applied d around (applied d around output second) first := by
  rw [applied, applied, applied, applied]
  cases first.written? d around with
  | none => rfl
  | some value =>
    cases second.written? d around with
    | none => rfl
    | some other =>
      simp only [Option.map_some, Option.getD_some, write_eq_put fits, write_eq_put fits']
      exact TargetPath.put_comm apart value other output

/-- A rule that writes at another place leaves a value where it is. -/
theorem get?_applied (fits : later.target.Fits)
    (apart : later.written? d around ≠ none → later.target.Apart rule.target)
    (found : rule.target.get? output = some value) :
    rule.target.get? (applied d around output later) = some value := by
  rw [applied]
  cases writes : later.written? d around with
  | none => exact found
  | some other =>
    have apart := apart (by rw [writes]; nofun)
    rw [Option.map_some, Option.getD_some, write_eq_put fits]
    rcases TargetPath.below?_put_of_parts apart other output with same | ⟨missing, _⟩
    · exact same.trans found
    · cases missing.symm.trans found

theorem get?_foldl_applied (fits : ∀ later ∈ after, later.target.Fits)
    (apart : ∀ later ∈ after, later.written? d around ≠ none → later.target.Apart rule.target)
    (found : rule.target.get? output = some value) :
    rule.target.get? (after.foldl (applied d around) output) = some value := by
  induction after generalizing output with
  | nil => exact found
  | cons later rest ih =>
    have kept := get?_applied (fits later List.mem_cons_self) (apart later List.mem_cons_self) found
    exact ih (fun other member => fits other (List.mem_cons_of_mem later member))
      (fun other member => apart other (List.mem_cons_of_mem later member)) kept

/-- Where a conversion fails, a list of matches fails with the error of one of them. -/
private theorem mapM_of_refused {convert : Selected → Except MappingError Value}
    {matched : List Selected}
    (refused : ∃ selected ∈ matched, ∃ cause, convert selected = .error cause) :
    ∃ selected ∈ matched, ∃ cause,
      convert selected = .error cause ∧ matched.mapM convert = .error cause := by
  induction matched with
  | nil =>
    obtain ⟨_, member, _⟩ := refused
    cases member
  | cons head rest ih =>
    cases converted : convert head with
    | error cause =>
      refine ⟨head, List.mem_cons_self, cause, converted, ?_⟩
      rw [List.mapM_cons, converted]
      rfl
    | ok value =>
      obtain ⟨selected, member, cause, fails⟩ := refused
      have below : selected ∈ rest := by
        rcases List.mem_cons.mp member with same | below
        · rw [same, converted] at fails
          cases fails
        · exact below
      obtain ⟨first, among, why, failed, ended⟩ := ih ⟨selected, below, cause, fails⟩
      refine ⟨first, List.mem_cons_of_mem head among, why, failed, ?_⟩
      rw [List.mapM_cons, converted, ended]
      rfl

/-- A rule with a match that cannot be converted fails with the error of such a match. -/
theorem outcome_of_refused
    (refused : ∃ selected ∈ rule.selector.select d around, ∃ cause,
      rule.conversion.apply selected around = .error cause) :
    ∃ selected ∈ rule.selector.select d around, ∃ cause,
      rule.conversion.apply selected around = .error cause ∧
        rule.outcome d around = .failed cause := by
  obtain ⟨selected, member, cause, fails, ended⟩ := mapM_of_refused refused
  refine ⟨selected, member, cause, fails, ?_⟩
  rw [outcome]
  cases matched : rule.selector.select d around with
  | nil =>
    rw [matched] at member
    cases member
  | cons head rest =>
    rw [matched] at ended
    simp only [ended]

/-- The order of rules counts only where one writes at the place of another. Adjacent rules with
targets apart may change places, which gives the same output and the same errors under the new
numbers; a rule that writes nothing may be left out; a rule that cannot convert a match records one
error and writes its default, if any; and a value is found at its target unless a later rule writes
at a target that is not apart. -/
theorem rules_lawful (rules : List MappingRule) (d : Document) (around : Surroundings)
    (fits : ∀ rule ∈ rules, rule.target.Fits) :
    (∀ before first second after, rules = before ++ first :: second :: after →
      first.target.Apart second.target →
      let swapped := mapDocument (before ++ second :: first :: after) d around
      swapped.value = (mapDocument rules d around).value ∧
      swapped.errors.Perm ((mapDocument rules d around).errors.map
        (.renumber (Equiv.swap before.length (before.length + 1))))) ∧
    ∀ before rule after, rules = before ++ rule :: after →
      (rule.written? d around = none →
        (mapDocument (before ++ after) d around).value = (mapDocument rules d around).value) ∧
      ((∃ selected ∈ rule.selector.select d around, ∃ cause,
          rule.conversion.apply selected around = .error cause) →
        (∃ selected ∈ rule.selector.select d around, ∃ cause,
          rule.conversion.apply selected around = .error cause ∧
          (mapDocument rules d around).errors.filter (·.number? == some before.length) =
            [.rule before.length rule.selector.display cause]) ∧
        rule.written? d around = rule.default?) ∧
      (∀ value, rule.written? d around = some value →
        (mapDocument (before ++ [rule]) d around).value =
          rule.write (mapDocument before d around).value value ∧
        ((∀ later ∈ after, later.written? d around ≠ none → later.target.Apart rule.target) →
          rule.target.get? (mapDocument rules d around).value = some value)) := by
  simp only [mapDocument_value, mapDocument_errors]
  refine ⟨?_, ?_⟩
  · rintro before first second after rfl apart
    have fitsFirst := fits first (by simp)
    have fitsSecond := fits second (by simp)
    refine ⟨?_, errors_swap before first second after⟩
    simp only [List.foldl_append, List.foldl_cons]
    rw [applied_comm fitsFirst fitsSecond apart]
  · rintro before rule after rfl
    have fitsRule := fits rule (by simp)
    have fitsAfter : ∀ later ∈ after, later.target.Fits :=
      fun later member => fits later (by simp [member])
    refine ⟨?_, ?_, ?_⟩
    · intro silent
      simp only [List.foldl_append, List.foldl_cons, applied, silent, Option.map_none,
        Option.getD_none]
    · intro refused
      obtain ⟨selected, member, cause, fails, failed⟩ := outcome_of_refused refused
      refine ⟨⟨selected, member, cause, fails, ?_⟩, ?_⟩
      · rw [filter_errorsFrom, error?, failed]
        rfl
      · rw [written?, failed]
    · intro value writes
      refine ⟨?_, fun apart => ?_⟩
      · simp only [List.foldl_append, List.foldl_cons, List.foldl_nil, applied, writes,
          Option.map_some, Option.getD_some]
      · rw [List.foldl_append, List.foldl_cons]
        refine get?_foldl_applied fitsAfter apart ?_
        rw [applied, writes, Option.map_some, Option.getD_some, write_eq_put fitsRule]
        exact TargetPath.below?_put value _ rule.target.segments

/-- A text for the end of a list, a number for its beginning that cannot be read, and an element
that is missing. -/
theorem rules_lawful_list :
    let d : Document := ⟨[.content ⟨"seven", {}⟩], {}⟩
    let name : MappingRule :=
      { selector := .root, target := ⟨[.key "list", .index 2]⟩, conversion := .text }
    let count : MappingRule :=
      { selector := .root, target := ⟨[.key "list", .index 0]⟩, conversion := .number,
        default? := some (.int 0) }
    let silent : MappingRule := { selector := .id "intro", target := ⟨[.key "list"]⟩ }
    let result := mapDocument [name, count, silent] d {}
    let swapped := mapDocument [count, name, silent] d {}
    name.target.get? result.value = some (.text "seven") ∧
      swapped.value = result.value ∧
      swapped.errors.Perm (result.errors.map (.renumber (Equiv.swap 0 1))) ∧
      result.errors.filter (·.number? == some 1) = [.rule 1 "/" (.conversion "seven" "number")] ∧
      (mapDocument [name, count] d {}).value = result.value := by
  intro d name count silent result swapped
  have fits : ∀ rule ∈ [name, count, silent], rule.target.Fits := by decide
  obtain ⟨swaps, places⟩ := rules_lawful [name, count, silent] d {} fits
  have text : d.text = "seven" := by decide +kernel
  have apart : name.target.Apart count.target := .deeper (.here (.indices (by decide)))
  have writes : name.written? d {} = some (.text "seven") :=
    (show name.written? d {} = some (.text d.text) from rfl).trans (by rw [text])
  have unread : Conversion.number? (Selected.document d).text = none :=
    Option.isNone_iff_eq_none.mp (by decide +kernel)
  have cut : Conversion.excerpt d.text = "seven" := by decide +kernel
  have refused : count.conversion.apply (.document d) {} =
      .error (.conversion "seven" "number") := by
    show Conversion.apply .number (.document d) {} = _
    rw [← cut, Conversion.apply, unread]
    · rfl
    · nofun
    · nofun
  obtain ⟨same, renumbered⟩ := swaps [] name count [silent] rfl apart
  obtain ⟨left, -, -⟩ := places [name, count] silent [] rfl
  obtain ⟨-, fails, -⟩ := places [name] count [silent] rfl
  obtain ⟨-, -, finds⟩ := places [] name [count, silent] rfl
  refine ⟨(finds _ writes).2 ?_, same, renumbered, ?_, left rfl⟩
  · intro later member further
    rcases List.mem_cons.mp member with rfl | last
    · exact .deeper (.here (.indices (by decide)))
    · cases List.mem_singleton.mp last
      exact absurd rfl further
  · obtain ⟨⟨selected, member, cause, why, errors⟩, -⟩ :=
      fails ⟨.document d, List.mem_singleton_self _, _, refused⟩
    cases List.mem_singleton.mp member
    cases refused.symm.trans why
    exact errors

end MappingRule
end LinkedMarkup
