import LinkedMarkup.Mapping.Target
import Mathlib.Data.List.Basic

namespace LinkedMarkup

namespace Segment

/-- An array can be long enough to have the index. -/
def Fits : Segment → Prop
  | .key _ => True
  | .index n => n + 1 < Numeral.unsignedLimit

instance : DecidablePred Fits := fun segment =>
  match segment with
  | .key _ => .isTrue trivial
  | .index n => inferInstanceAs (Decidable (n + 1 < Numeral.unsignedLimit))

/-- Two places of one container. -/
inductive Beside : Segment → Segment → Prop where
  | keys {key name : String} (different : key ≠ name) : Beside (.key key) (.key name)
  | indices {m n : Nat} (different : m ≠ n) : Beside (.index m) (.index n)

theorem Beside.symm {segment other : Segment} (beside : segment.Beside other) :
    other.Beside segment := by
  cases beside with
  | keys different => exact .keys different.symm
  | indices different => exact .indices different.symm

end Segment

namespace TargetPath
variable {segment other : Segment} {path others : List Segment}

/-! ### One segment -/

/-- What an array holds after a value has been put into it. -/
theorem getElem?_putAt (items : List Value) (n i : Nat) (value : Value) :
    (putAt items n value)[i]? =
      if i = n then some value
      else if i < n then some (items[i]?.getD .null)
      else items[i]? := by
  have filled : (items.take n ++ List.replicate (n - items.length) Value.null).length = n := by
    simp only [List.length_append, List.length_take, List.length_replicate]
    omega
  rw [putAt, List.getElem?_append, filled]
  by_cases below : i < n
  · have different : i ≠ n := Nat.ne_of_lt below
    rw [if_pos below, if_neg different, if_pos below]
    by_cases inside : i < items.length
    · have early : i < (items.take n).length := by
        rw [List.length_take]
        exact Nat.lt_min.mpr ⟨below, inside⟩
      rw [List.getElem?_append_left early, List.getElem?_take_of_lt below,
        List.getElem?_eq_getElem inside]
      rfl
    · have shorter : (items.take n).length = items.length := by
        rw [List.length_take]
        omega
      have late : (items.take n).length ≤ i := by omega
      have missing : items[i]? = none := List.getElem?_eq_none (by omega)
      rw [List.getElem?_append_right late, shorter, missing]
      exact List.getElem?_replicate_of_lt (by omega)
  · rw [if_neg below, if_neg below]
    by_cases same : i = n
    · simp [same]
    · obtain ⟨more, rfl⟩ : ∃ more, i = n + 1 + more := ⟨i - (n + 1), by omega⟩
      have shifted : n + 1 + more - n = more + 1 := by omega
      rw [if_neg same, shifted, List.getElem?_cons_succ, List.getElem?_drop]

theorem putAt_putAt (items : List Value) (n : Nat) (first second : Value) :
    putAt (putAt items n first) n second = putAt items n second := by
  apply List.ext_getElem?
  intro i
  simp only [getElem?_putAt]
  by_cases same : i = n
  · simp [same]
  · by_cases below : i < n <;> simp [same, below]

theorem putAt_comm (items : List Value) {m n : Nat} (different : m ≠ n) (first second : Value) :
    putAt (putAt items m first) n second = putAt (putAt items n second) m first := by
  apply List.ext_getElem?
  intro i
  simp only [getElem?_putAt]
  by_cases one : i = m
  · subst one
    simp [different]
  · by_cases two : i = n
    · subst two
      simp [one]
    · by_cases below : i < m <;> by_cases further : i < n <;> simp [one, two, below, further]

def putChild (root : Value) (segment : Segment) (inner : Value) : Value :=
  match segment with
  | .key key => .object ((root.asObject?.getD []).insert key inner)
  | .index n => .array (putAt (root.asArray?.getD []) n inner)

theorem child?_putChild (root : Value) (segment : Segment) (inner : Value) :
    child? (putChild root segment inner) segment = some inner := by
  cases segment with
  | key key => simp [putChild, child?, Value.asObject?, Table.find?_insert]
  | index n => simp [putChild, child?, Value.asArray?, getElem?_putAt]

theorem putChild_putChild (root : Value) (segment : Segment) (first second : Value) :
    putChild (putChild root segment first) segment second = putChild root segment second := by
  cases segment with
  | key key => simp [putChild, Value.asObject?, Table.insert_insert]
  | index n => simp [putChild, Value.asArray?, putAt_putAt]

theorem putChild_comm (beside : segment.Beside other) (root first second : Value) :
    putChild (putChild root segment first) other second =
      putChild (putChild root other second) segment first := by
  cases beside with
  | keys different => simp [putChild, Value.asObject?, Table.insert_comm _ different]
  | indices different => simp [putChild, Value.asArray?, putAt_comm _ different]

/-- What was there is there still; where nothing was, there is nothing or a null. -/
def Spares (before after : Option Value) : Prop :=
  after = before ∨ before = none ∧ after = some .null

theorem Spares.getD_null {before after : Option Value} (spares : Spares before after) :
    after.getD .null = before.getD .null := by
  rcases spares with same | ⟨missing, filled⟩
  · rw [same]
  · rw [missing, filled]
    rfl

theorem child?_putChild_beside (beside : segment.Beside other) (root inner : Value) :
    Spares (child? root other) (child? (putChild root segment inner) other) := by
  cases beside with
  | keys different =>
    left
    cases root <;>
      simp [putChild, child?, Value.asObject?, Table.find?_insert, different.symm, Table.find?]
  | @indices m n different =>
    have after : child? (putChild root (.index m) inner) (.index n) =
        if n < m then some (((root.asArray?.getD [])[n]?).getD .null)
        else (root.asArray?.getD [])[n]? := by
      simp [putChild, child?, Value.asArray?, getElem?_putAt, different.symm]
    have before : child? root (.index n) = (root.asArray?.getD [])[n]? := by
      cases root <;> simp [child?, Value.asArray?]
    rw [after, before]
    cases (root.asArray?.getD [])[n]? with
    | some found => left; simp
    | none => by_cases below : n < m <;> simp [Spares, below]

/-! ### Whole paths -/

/-- The value with `value` at the segments, however long its arrays become. -/
def put (value : Value) : List Segment → Value → Value
  | [], _ => value
  | segment :: rest, root =>
    putChild root segment (put value rest ((child? root segment).getD .null))

theorem put?_eq_put (fits : ∀ segment ∈ path, segment.Fits) (value root : Value) :
    put? value path root = some (put value path root) := by
  induction path generalizing root with
  | nil => rfl
  | cons segment rest ih =>
    have further := ih fun other member => fits other (List.mem_cons_of_mem segment member)
    have here : segment.Fits := fits segment List.mem_cons_self
    cases segment with
    | key key =>
      have same : ((root.asObject?.getD []).find? key).getD .null =
          (child? root (.key key)).getD .null := by
        cases root <;> simp [child?, Value.asObject?, Table.find?]
      rw [put?, same, further]
      rfl
    | index n =>
      have same : ((root.asArray?.getD [])[n]?).getD .null =
          (child? root (.index n)).getD .null := by
        cases root <;> simp [child?, Value.asArray?]
      rw [put?, if_pos (show n + 1 < Numeral.unsignedLimit from here), same, further]
      rfl

/-- The value at segments below `root`. -/
abbrev below? (root : Value) (path : List Segment) : Option Value := path.foldlM child? root

theorem below?_null (beyond : path ≠ []) : below? .null path = none := by
  cases path with
  | nil => exact absurd rfl beyond
  | cons segment rest => cases segment <;> rfl

theorem below?_put (value root : Value) (path : List Segment) :
    below? (put value path root) path = some value := by
  induction path generalizing root with
  | nil => rfl
  | cons segment rest ih =>
    rw [put, below?, List.foldlM_cons, child?_putChild]
    exact ih _

theorem put_put (first second root : Value) (path : List Segment) :
    put second path (put first path root) = put second path root := by
  induction path generalizing root with
  | nil => rfl
  | cons segment rest ih =>
    rw [put, put, child?_putChild, putChild_putChild, Option.getD_some, ih]
    rfl

/-- Two paths that part from each other at two places of one container. -/
inductive Parts : List Segment → List Segment → Prop where
  | here {segment other : Segment} {path others : List Segment} (beside : segment.Beside other) :
    Parts (segment :: path) (other :: others)
  | deeper {segment : Segment} {path others : List Segment} (parts : Parts path others) :
    Parts (segment :: path) (segment :: others)

theorem below?_put_of_parts (parts : Parts path others) (value root : Value) :
    Spares (below? root others) (below? (put value path root) others) := by
  induction parts generalizing root with
  | @here segment other path others beside =>
    rw [put, below?, below?, List.foldlM_cons, List.foldlM_cons]
    rcases child?_putChild_beside beside root (put value path ((child? root segment).getD .null))
      with same | ⟨missing, filled⟩
    · rw [same]
      exact .inl rfl
    · rw [missing, filled]
      by_cases ends : others = []
      · subst ends
        exact .inr ⟨rfl, rfl⟩
      · exact .inl (below?_null ends)
  | @deeper segment path others parts ih =>
    rw [put, below?, below?, List.foldlM_cons, List.foldlM_cons, child?_putChild]
    cases found : child? root segment with
    | some child => exact ih child
    | none =>
      -- The other path ended in nothing here, and in a fresh container it leads on.
      have beyond : others ≠ [] := by
        rintro rfl
        cases parts
      have nothing := below?_null beyond
      rcases ih .null with same | ⟨_, filled⟩
      · exact .inl (same.trans nothing)
      · exact .inr ⟨rfl, filled⟩

theorem put_comm (parts : Parts path others) (first second root : Value) :
    put second others (put first path root) = put first path (put second others root) := by
  induction parts generalizing root with
  | @here segment other path others beside =>
    have kept := (child?_putChild_beside beside root
      (put first path ((child? root segment).getD .null))).getD_null
    have kept' := (child?_putChild_beside beside.symm root
      (put second others ((child? root other).getD .null))).getD_null
    simp only [put, kept, kept']
    exact putChild_comm beside root _ _
  | @deeper segment path others parts ih =>
    simp only [put, child?_putChild, putChild_putChild, Option.getD_some, ih]

def Fits (path : TargetPath) : Prop := ∀ segment ∈ path.segments, segment.Fits

instance (path : TargetPath) : Decidable path.Fits :=
  inferInstanceAs (Decidable (∀ segment ∈ path.segments, segment.Fits))

/-- The first segments in which the paths differ are two keys or two indices. -/
def Apart (path other : TargetPath) : Prop := Parts path.segments other.segments

theorem assign?_eq_put {path : TargetPath} (fits : path.Fits) (root value : Value) :
    path.assign? root value = some (put value path.segments root) := put?_eq_put fits value root

/-- A value is found where it was assigned, the last one of several. A path that is apart leads to
the same value as before, or to nothing or a null where it led to nothing. -/
theorem assign_lawful {path : TargetPath} (fits : path.Fits) :
    (∀ root value, ∃ output,
      path.assign? root value = some output ∧ path.get? output = some value) ∧
    (∀ root first second,
      (path.assign? root first).bind (path.assign? · second) = path.assign? root second) ∧
    ∀ other : TargetPath, path.Apart other → ∀ root value, ∃ output,
      path.assign? root value = some output ∧
      (∀ found, other.get? root = some found → other.get? output = some found) ∧
      (other.get? root = none → other.get? output = none ∨ other.get? output = some .null) := by
  refine ⟨?_, ?_, ?_⟩
  · intro root value
    exact ⟨_, assign?_eq_put fits root value, below?_put value root path.segments⟩
  · intro root first second
    simp only [assign?_eq_put fits, Option.bind_some, put_put]
  · intro other apart root value
    have spares := below?_put_of_parts apart value root
    refine ⟨_, assign?_eq_put fits root value, ?_, ?_⟩
    · intro found before
      rcases spares with same | ⟨missing, _⟩
      · exact same.trans before
      · cases before.symm.trans missing
    · intro before
      rcases spares with same | ⟨_, filled⟩
      · exact .inl (same.trans before)
      · exact .inr filled

/-- A name is written behind the end of a list; the place between holds a null. -/
theorem assign_lawful_list :
    let name : TargetPath := ⟨[.key "list", .index 2, .key "name"]⟩
    let between : TargetPath := ⟨[.key "list", .index 1]⟩
    let root := Value.object [("list", .array [.int 7])]
    TargetPath.parse "list[2].name" = .ok name ∧ TargetPath.parse "list[1]" = .ok between ∧
      between.get? root = none ∧ ∃ output, name.assign? root (.text "Ada") = some output ∧
        name.get? output = some (.text "Ada") ∧ between.get? output = some .null := by
  intro name between root
  have fits : name.Fits := by decide
  have apart : name.Apart between := .deeper (.here (.indices (by decide)))
  obtain ⟨found, _, spares⟩ := assign_lawful fits
  obtain ⟨output, written, same⟩ := found root (.text "Ada")
  obtain ⟨again, rewritten, _, filled⟩ := spares between apart root (.text "Ada")
  cases written.symm.trans rewritten
  refine ⟨by decide +kernel, by decide +kernel, rfl, output, written, same, ?_⟩
  rcases filled rfl with missing | null
  · cases written
    cases missing
  · exact null

end TargetPath
end LinkedMarkup
