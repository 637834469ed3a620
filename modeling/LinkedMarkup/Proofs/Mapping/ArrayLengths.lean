import LinkedMarkup.Proofs.Mapping.Assignment
import LinkedMarkup.Proofs.Mapping.TargetText

namespace LinkedMarkup.TargetPath
variable {path : List Segment} {root value : Value}

/-! ### What is read -/

theorem WritesIndices.index_lt {cs : List Char} {segments : List Segment} {n : Nat}
    (indices : WritesIndices cs segments) (member : .index n ∈ segments) : n < UInt64.size := by
  induction indices with
  | none => cases member
  | next index _ ih =>
    rcases List.mem_cons.mp member with same | later
    · cases same
      cases index
      assumption
    · exact ih later

theorem WritesParts.index_lt {first : Bool} {cs : List Char} {segments : List Segment} {n : Nat}
    (parts : WritesParts first cs segments) (member : .index n ∈ segments) : n < UInt64.size := by
  have within {first : Bool} {cs : List Char} {segments : List Segment}
      (part : WritesPart first cs segments) (member : .index n ∈ segments) : n < UInt64.size := by
    cases part with
    | keyed _ _ _ indices =>
      rcases List.mem_cons.mp member with same | later
      · cases same
      · exact indices.index_lt later
    | bare _ indices => exact indices.index_lt member
  induction parts with
  | last here => exact within here member
  | dot here _ ih =>
    rcases List.mem_append.mp member with own | other
    · exact within here own
    · exact ih other

/-! ### What is written -/

/-- One item more than the number of an index is counted in 64 bits. -/
theorem counts_iff {n : Nat} (small : n < UInt64.size) :
    (UInt64.ofNat n + 1).toNat = n + 1 ↔ n ≠ UInt64.size - 1 := by
  rw [UInt64.toNat_add, UInt64.toNat_ofNat']
  simp only [UInt64.toNat_one, UInt64.size] at small ⊢
  omega

theorem fits_index_iff {n : Nat} (small : n < UInt64.size) : (Segment.index n).Fits ↔ n ≠ UInt64.size - 1 := by
  have limit : Numeral.unsignedLimit = UInt64.size := rfl
  rw [Segment.Fits, limit]
  omega

theorem put?_isSome_iff : (put? value path root).isSome ↔ ∀ segment ∈ path, segment.Fits := by
  constructor
  · intro written
    induction path generalizing root with
    | nil => exact List.forall_mem_nil _
    | cons segment rest ih =>
      cases segment with
      | key key =>
        rw [put?, Option.isSome_map] at written
        exact List.forall_mem_cons.mpr ⟨trivial, ih written⟩
      | index n =>
        rw [put?] at written
        split at written
        · rename_i fits
          rw [Option.isSome_map] at written
          exact List.forall_mem_cons.mpr ⟨fits, ih written⟩
        · cases written
  · intro fits
    rw [put?_eq_put fits]
    rfl

theorem length_putAt (items : List Value) (n : Nat) (value : Value) :
    (putAt items n value).length = max items.length (n + 1) := by
  simp only [putAt, List.length_append, List.length_take, List.length_replicate, List.length_cons,
    List.length_drop]
  omega

def itemsAt (root : Value) (path : List Segment) : List Value :=
  ((below? root path).bind Value.asArray?).getD []

theorem itemsAt_cons (root : Value) (segment : Segment) (path : List Segment) :
    itemsAt root (segment :: path) = itemsAt ((child? root segment).getD .null) path := by
  rw [itemsAt, below?, List.foldlM_cons]
  cases found : child? root segment with
  | some child => rfl
  | none =>
    rw [Option.getD_none, itemsAt]
    by_cases ends : path = []
    · subst ends
      rfl
    · rw [below?_null ends]
      rfl

/-- The array at an index on the path has grown so far that the index is inside, if it had to. -/
theorem below?_put_prefix {front : List Segment} {n : Nat} (value root : Value)
    (begins : front ++ [.index n] <+: path) :
    ∃ items, below? (put value path root) front = some (.array items) ∧
      items.length = max (itemsAt root front).length (n + 1) := by
  obtain ⟨rest, rfl⟩ := begins
  induction front generalizing root with
  | nil =>
    refine ⟨_, rfl, ?_⟩
    rw [length_putAt]
    rfl
  | cons segment front ih =>
    obtain ⟨items, found, length⟩ := ih ((child? root segment).getD .null)
    refine ⟨items, ?_, itemsAt_cons root segment front ▸ length⟩
    rw [List.cons_append, List.cons_append, put, below?, List.foldlM_cons, child?_putChild]
    exact found

/-- A path that was read can be assigned to, unless it has the greatest index of 64 bits. Then no array
length on it overflows, and each index is inside the array that has been made long enough for it. -/
theorem lengths_counted {text : String} {path : TargetPath} (read : parse text = .ok path) :
    (∀ root value, (∃ output, path.assign? root value = some output) ↔
      .index (UInt64.size - 1) ∉ path.segments) ∧
    (∀ n, .index n ∈ path.segments → ((UInt64.ofNat n + 1).toNat = n + 1 ↔ n ≠ UInt64.size - 1)) ∧
    ∀ root value output, path.assign? root value = some output →
      ∀ front n, front ++ [.index n] <+: path.segments →
        (UInt64.ofNat n + 1).toNat = n + 1 ∧
        ∃ items, below? output front = some (.array items) ∧
          items.length = max (itemsAt root front).length (UInt64.ofNat n + 1).toNat ∧
          n < items.length := by
  have small {n : Nat} (member : .index n ∈ path.segments) : n < UInt64.size :=
    (parse_eq_ok_iff.mp read).index_lt member
  have fits_iff : path.Fits ↔ .index (UInt64.size - 1) ∉ path.segments := by
    constructor
    · intro fits member
      exact (fits_index_iff (small member)).mp (fits _ member) rfl
    · intro absent segment member
      cases segment with
      | key => trivial
      | index n =>
        refine (fits_index_iff (small member)).mpr ?_
        rintro rfl
        exact absent member
  have written_iff (root value : Value) : (∃ output, path.assign? root value = some output) ↔ path.Fits := by
    rw [← Option.isSome_iff_exists]
    exact put?_isSome_iff
  refine ⟨fun root value => (written_iff root value).trans fits_iff, fun n member => counts_iff (small member),
    fun root value output assigned front n begins => ?_⟩
  have fits := (written_iff root value).mp ⟨output, assigned⟩
  have member : .index n ∈ path.segments := begins.subset (List.mem_append_right front List.mem_cons_self)
  have counted : (UInt64.ofNat n + 1).toNat = n + 1 :=
    (counts_iff (small member)).mpr ((fits_index_iff (small member)).mp (fits _ member))
  cases assigned.symm.trans (assign?_eq_put fits root value)
  obtain ⟨items, found, length⟩ := below?_put_prefix value root begins
  refine ⟨counted, items, found, counted.symm ▸ length, ?_⟩
  rw [length]
  exact Nat.lt_of_lt_of_le (Nat.lt_succ_self n) (Nat.le_max_right _ _)

/-- The second item of a short array is written: a null fills the place before it. -/
theorem lengths_counted_short :
    let path : TargetPath := ⟨[.key "list", .index 1]⟩
    let root := Value.object [("list", .array [])]
    parse "list[1]" = .ok path ∧ ∃ output items, path.assign? root (.int 7) = some output ∧
      below? output [.key "list"] = some (.array items) ∧ items.length = 2 ∧ 1 < items.length := by
  intro path root
  have read : parse "list[1]" = .ok path := by decide +kernel
  obtain ⟨writable, _, lengths⟩ := lengths_counted read
  obtain ⟨output, assigned⟩ := (writable root (.int 7)).mpr (by decide)
  obtain ⟨_, items, found, length, inside⟩ := lengths root (.int 7) output assigned [.key "list"] 1 ⟨[], rfl⟩
  exact ⟨read, output, items, assigned, found, length, inside⟩

/-- The greatest index is read, its array length overflows, and nothing can be assigned to it. -/
theorem greatest_index_overflows :
    let path : TargetPath := ⟨[.index (UInt64.size - 1)]⟩
    parse "[18446744073709551615]" = .ok path ∧ (UInt64.ofNat (UInt64.size - 1) + 1).toNat = 0 ∧
      path.assign? .null (.int 1) = none := by
  decide +kernel

end LinkedMarkup.TargetPath
