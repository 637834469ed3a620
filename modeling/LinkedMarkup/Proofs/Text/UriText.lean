import LinkedMarkup.Proofs.Text.TextParts
import LinkedMarkup.Resolution.State

namespace LinkedMarkup.Uri

/-! ### The grammar -/

def IsLetter (c : Char) : Prop := ('A' ≤ c ∧ c ≤ 'Z') ∨ ('a' ≤ c ∧ c ≤ 'z')

def IsDigit (c : Char) : Prop := '0' ≤ c ∧ c ≤ '9'

/-- What may stand in a scheme behind its first letter. -/
def IsInner (c : Char) : Prop := IsLetter c ∨ IsDigit c ∨ c ∈ ['+', '-', '.']

instance (c : Char) : Decidable (IsLetter c) := inferInstanceAs (Decidable (_ ∨ _))

instance (c : Char) : Decidable (IsInner c) := inferInstanceAs (Decidable (_ ∨ (_ ∧ _) ∨ _))

/-- A letter, then letters, digits, plus signs, hyphens and full stops. -/
inductive Scheme : List Char → Prop where
  | letters {first : Char} {rest : List Char} (letter : IsLetter first) (inner : ∀ c ∈ rest, IsInner c) :
      Scheme (first :: rest)

/-- A reference without white space around it, and the scheme and the path that it names. -/
inductive Names : List Char → List Char → List Char → Prop where
  | fragment {id : List Char} (written : id ≠ []) : Names ('#' :: id) idProtocol.toList id
  | scheme {scheme path : List Char} (valid : Scheme scheme) (written : path ≠ []) :
      Names (scheme ++ ':' :: path) scheme path

variable {cs scheme path scheme' path' : List Char} {text : String} {uri : Uri}

/-! ### Schemes -/

theorem isScheme_iff (cs : List Char) : isScheme cs = true ↔ Scheme cs := by
  have letters (c : Char) : c.isAlpha = true ↔ IsLetter c := by
    have upper : c.isUpper = decide ('A' ≤ c ∧ c ≤ 'Z') := rfl
    have lower : c.isLower = (decide ('a' ≤ c) && decide (c ≤ 'z')) := rfl
    have either : c.isAlpha = (c.isUpper || c.isLower) := rfl
    rw [either, upper, lower, Bool.or_eq_true, Bool.and_eq_true]
    simp only [decide_eq_true_eq, IsLetter]
  have digits (c : Char) : c.isDigit = true ↔ IsDigit c := by
    simp [Char.isDigit, IsDigit, Char.le_def]
  have inner (c : Char) : (c.isAlphanum || c == '+' || c == '-' || c == '.') = true ↔ IsInner c := by
    simp only [Char.isAlphanum, Bool.or_eq_true, letters, digits, beq_iff_eq, IsInner, List.mem_cons,
      List.not_mem_nil, or_false, or_assoc]
  cases cs with
  | nil =>
    constructor
    · intro never
      cases never
    · intro never
      cases never
  | cons first rest =>
    simp only [isScheme, Bool.and_eq_true, List.all_eq_true, inner, letters]
    constructor
    · rintro ⟨letter, inside⟩
      exact .letters letter inside
    · rintro ⟨letter, inside⟩
      exact ⟨letter, inside⟩

theorem IsLetter.inner {c : Char} (letter : IsLetter c) : IsInner c := .inl letter

theorem IsInner.ascii {c : Char} (inner : IsInner c) : c.toNat < 128 := by
  have small {low high : Char} (between : low ≤ c ∧ c ≤ high) (bound : high.toNat < 128) : c.toNat < 128 :=
    Nat.lt_of_le_of_lt between.2 bound
  rcases inner with (upper | lower) | digit | mark
  · exact small upper (by decide)
  · exact small lower (by decide)
  · exact small digit (by decide)
  · simp only [List.mem_cons, List.not_mem_nil, or_false] at mark
    rcases mark with rfl | rfl | rfl <;> decide

/-- What the characters of a scheme have in common. -/
structure Plain (c : Char) : Prop where
  solid : Unicode.isBlank c = false
  apart : c ≠ ':'
  unmarked : c ≠ '#'
  lower : IsInner c.toLower
  letter : IsLetter c → IsLetter c.toLower
  settled : c.toLower.toLower = c.toLower

theorem IsInner.plain {c : Char} (inner : IsInner c) : Plain c := by
  have checked : ∀ n < 128, IsInner (Char.ofNat n) →
      (Unicode.isBlank (Char.ofNat n) = false ∧ Char.ofNat n ≠ ':' ∧ Char.ofNat n ≠ '#') ∧
        IsInner (Char.ofNat n).toLower ∧ (IsLetter (Char.ofNat n) → IsLetter (Char.ofNat n).toLower) ∧
        (Char.ofNat n).toLower.toLower = (Char.ofNat n).toLower := by
    decide +kernel
  have here := checked c.toNat inner.ascii
  rw [Char.ofNat_toNat] at here
  obtain ⟨⟨solid, apart, unmarked⟩, lower, letter, settled⟩ := here inner
  exact ⟨solid, apart, unmarked, lower, letter, settled⟩

namespace Scheme

theorem inner (valid : Scheme scheme) : ∀ c ∈ scheme, IsInner c := by
  obtain ⟨letter, inside⟩ := valid
  exact List.forall_mem_cons.mpr ⟨letter.inner, inside⟩

theorem ne_nil (valid : Scheme scheme) : scheme ≠ [] := by
  cases valid
  exact List.cons_ne_nil _ _

theorem apart (valid : Scheme scheme) : ':' ∉ scheme :=
  fun member => (valid.inner ':' member).plain.apart rfl

theorem map_toLower (valid : Scheme scheme) : Scheme (scheme.map Char.toLower) := by
  obtain ⟨letter, inside⟩ := valid
  refine .letters (letter.inner.plain.letter letter) fun c member => ?_
  obtain ⟨d, among, rfl⟩ := List.mem_map.mp member
  exact (inside d among).plain.lower

theorem map_toLower_twice (valid : Scheme scheme) :
    (scheme.map Char.toLower).map Char.toLower = scheme.map Char.toLower := by
  rw [List.map_map]
  exact List.map_congr_left fun c member => (valid.inner c member).plain.settled

end Scheme

/-! ### Reading -/

theorem parseTrimmed_eq_ok_iff : parseTrimmed cs = .ok uri ↔
    ∃ scheme path, Names cs scheme path ∧ uri = make (String.ofList scheme) (String.ofList path) := by
  constructor
  · intro read
    unfold parseTrimmed at read
    split at read
    · cases read
    · next id other =>
      cases read
      exact ⟨_, id, .fragment (fun empty => other (by rw [empty])), by rw [String.ofList_toList]⟩
    · cases cut : Text.cutChars? ':' cs with
      | none =>
        rw [cut] at read
        cases read
      | some parts =>
        obtain ⟨scheme, path⟩ := parts
        obtain ⟨_, rfl⟩ := Text.cutChars?_eq_some_iff.mp cut
        simp only [cut] at read
        cases valid : isScheme scheme with
        | false => simp [valid] at read
        | true =>
          by_cases written : path = []
          · simp [valid, written] at read
          · simp [valid, written] at read
            exact ⟨scheme, path, .scheme ((isScheme_iff scheme).mp valid) written, read.symm⟩
  · rintro ⟨scheme, path, names, rfl⟩
    cases names with
    | fragment written =>
      obtain ⟨c, rest, rfl⟩ := List.exists_cons_of_ne_nil written
      rw [String.ofList_toList]
      rfl
    | scheme valid written =>
      have cut : Text.cutChars? ':' (scheme ++ ':' :: path) = some (scheme, path) :=
        Text.cutChars?_eq_some_iff.mpr ⟨valid.apart, rfl⟩
      have readable := (isScheme_iff scheme).mpr valid
      have unmarked (rest : List Char) : scheme ++ ':' :: path ≠ '#' :: rest := by
        intro marked
        obtain ⟨letter, _⟩ := valid
        exact letter.inner.plain.unmarked (List.cons.inj marked).1
      unfold parseTrimmed
      split
      · next marked => exact absurd marked (unmarked _)
      · next marked => exact absurd marked (unmarked _)
      · simp [cut, readable, written]

theorem parse_eq_ok_iff : parse text = .ok uri ↔ ∃ scheme path,
    Names (Text.trimChars text.toList) scheme path ∧ uri = make (String.ofList scheme) (String.ofList path) :=
  parseTrimmed_eq_ok_iff

/-! ### Keys -/

namespace Names

theorem valid (names : Names cs scheme path) : Scheme scheme := by
  cases names with
  | fragment => exact (isScheme_iff _).mp rfl
  | scheme valid => exact valid

theorem written (names : Names cs scheme path) : path ≠ [] := by
  cases names with
  | fragment written => exact written
  | scheme _ written => exact written

theorem getLast? (names : Names cs scheme path) : path.getLast? = cs.getLast? := by
  obtain ⟨c, rest, rfl⟩ := List.exists_cons_of_ne_nil names.written
  cases names with
  | fragment => rw [List.getLast?_cons_cons]
  | @scheme scheme => rw [List.getLast?_append_of_ne_nil _ (List.cons_ne_nil _ _), List.getLast?_cons_cons]

end Names

theorem asciiLower_ofList (cs : List Char) :
    Text.asciiLower (String.ofList cs) = String.ofList (cs.map Char.toLower) := by
  rw [Text.asciiLower, ← String.toList_inj, String.toList_map, String.toList_ofList, String.toList_ofList]

theorem toList_key (scheme path : List Char) : (make (String.ofList scheme) (String.ofList path)).key.toList =
    scheme.map Char.toLower ++ ':' :: path := by
  simp only [key, make, asciiLower_ofList, String.toList_append, String.toList_ofList, List.append_assoc]
  rfl

/-- The key of a reference that has been read is read as the same reference. -/
theorem parse_key (read : parse text = .ok uri) : parse uri.key = .ok uri := by
  obtain ⟨scheme, path, names, rfl⟩ := parse_eq_ok_iff.mp read
  have lower : Scheme (scheme.map Char.toLower) := names.valid.map_toLower
  have own : Names (scheme.map Char.toLower ++ ':' :: path) (scheme.map Char.toLower) path :=
    .scheme lower names.written
  have trimmed : Text.Trimmed (scheme.map Char.toLower ++ ':' :: path) := by
    constructor
    · obtain ⟨c, rest, same⟩ := List.exists_cons_of_ne_nil lower.ne_nil
      rw [same]
      intro d first
      cases first
      exact (lower.inner c (same ▸ List.mem_cons_self)).plain.solid
    · rw [← own.getLast?, names.getLast?]
      exact (Text.trimChars_spec text.toList).1.back
  rw [parse_eq_ok_iff, toList_key, Text.trimChars_of_trimmed trimmed]
  refine ⟨_, path, own, ?_⟩
  rw [make, make, asciiLower_ofList, asciiLower_ofList, names.valid.map_toLower_twice]

/-- References that have been read have one key only if they are the same. -/
theorem key_inj {first second : String} {u v : Uri} (reads : parse first = .ok u) (reads' : parse second = .ok v)
    (same : u.key = v.key) : u = v := by
  have again := parse_key reads
  rw [same, parse_key reads'] at again
  exact (Except.ok.inj again).symm

/-- References are the same if they name one path by one scheme, but for the case of the scheme. -/
theorem make_eq_iff : make (String.ofList scheme) (String.ofList path) =
      make (String.ofList scheme') (String.ofList path') ↔
    scheme.map Char.toLower = scheme'.map Char.toLower ∧ path = path' := by
  simp only [make, asciiLower_ofList, Uri.mk.injEq, String.ofList_inj]

/-- What is kept under the key of one reference is found under that of another one, of which nothing is known,
exactly if both have the same key. -/
theorem find?_keep_value_iff {shared : Shared} {key other : String} (unknown : shared.results.find? other = none)
    (value : Resolved) : (shared.keep key (.ok value)).results.find? other = some value ↔ key = other := by
  rw [Shared.keep, Shared.store]
  exact Table.find?_insertNew_eq_some_iff value unknown

theorem find?_keep_failure_iff {shared : Shared} {key other : String}
    (unknown : shared.failures.find? other = none) {error : ReferenceError} (own : error.isPathDependent = false) :
    (shared.keep key (.error error)).failures.find? other = some error ↔ key = other := by
  rw [Shared.keep, Shared.storeFailure, own, if_neg Bool.false_ne_true]
  exact Table.find?_insertNew_eq_some_iff error unknown

/-- Keys are faithful. A text is read exactly if, but for the white space around it, it is a reference by the
grammar, and then as what that names. The key of a reference that has been read is read as the same
reference, so keys are equal only where the protocols and the paths are. A value or a failure that is kept for
one reference is found for another one exactly if both name one path by one scheme, but for the case of the
scheme. -/
theorem parse_faithful :
    (∀ text uri, parse text = .ok uri ↔ ∃ scheme path, Names (Text.trimChars text.toList) scheme path ∧
      uri = make (String.ofList scheme) (String.ofList path)) ∧
    (∀ text uri, parse text = .ok uri → parse uri.key = .ok uri) ∧
    (∀ first second u v, parse first = .ok u → parse second = .ok v →
      (u.key = v.key ↔ u.protocol = v.protocol ∧ u.path = v.path)) ∧
    ∀ (first second : String) (scheme path scheme' path' : List Char),
      Names (Text.trimChars first.toList) scheme path → Names (Text.trimChars second.toList) scheme' path' →
      ∃ u v, parse first = .ok u ∧ parse second = .ok v ∧ ∀ shared : Shared,
        let same := scheme.map Char.toLower = scheme'.map Char.toLower ∧ path = path'
        (∀ value, shared.results.find? v.key = none →
          ((shared.keep u.key (.ok value)).results.find? v.key = some value ↔ same)) ∧
        ∀ error : ReferenceError, error.isPathDependent = false → shared.failures.find? v.key = none →
          ((shared.keep u.key (.error error)).failures.find? v.key = some error ↔ same) := by
  refine ⟨fun text uri => parse_eq_ok_iff, fun text uri => parse_key, fun first second u v reads reads' => ?_,
    fun first second scheme path scheme' path' names names' => ?_⟩
  · constructor
    · intro same
      rw [key_inj reads reads' same]
      exact ⟨rfl, rfl⟩
    · rintro ⟨protocols, paths⟩
      rw [key, key, protocols, paths]
  · let u := make (String.ofList scheme) (String.ofList path)
    let v := make (String.ofList scheme') (String.ofList path')
    have reads : parse first = .ok u := parse_eq_ok_iff.mpr ⟨scheme, path, names, rfl⟩
    have reads' : parse second = .ok v := parse_eq_ok_iff.mpr ⟨scheme', path', names', rfl⟩
    have keys : u.key = v.key ↔ scheme.map Char.toLower = scheme'.map Char.toLower ∧ path = path' := by
      rw [← make_eq_iff]
      exact ⟨key_inj reads reads', congrArg key⟩
    refine ⟨u, v, reads, reads', fun shared => ⟨fun value unknown => ?_, fun error own unknown => ?_⟩⟩
    · rw [find?_keep_value_iff unknown, keys]
    · rw [find?_keep_failure_iff unknown own, keys]

/-- The short form of a reference into the document, and the long one in capitals and with space around it. -/
theorem parse_faithful_fragment :
    let long : Uri := ⟨"id", "part one:#2"⟩
    parse " ID:part one:#2\n" = .ok long ∧ parse long.key = .ok long ∧
      ∃ u v, parse "#part one:#2" = .ok u ∧ parse " ID:part one:#2\n" = .ok v ∧
        (({} : Shared).keep u.key (.ok (.text "found"))).results.find? v.key = some (.text "found") := by
  intro long
  obtain ⟨_, again, _, shares⟩ := parse_faithful
  have reads : parse " ID:part one:#2\n" = .ok long := by decide +kernel
  have short : Names (Text.trimChars "#part one:#2".toList) idProtocol.toList "part one:#2".toList := by
    have trimmed : Text.trimChars "#part one:#2".toList = '#' :: "part one:#2".toList := by decide +kernel
    rw [trimmed]
    exact .fragment (by decide +kernel)
  have spaced : Names (Text.trimChars " ID:part one:#2\n".toList) ['I', 'D'] "part one:#2".toList := by
    have trimmed : Text.trimChars " ID:part one:#2\n".toList = ['I', 'D'] ++ ':' :: "part one:#2".toList := by
      decide +kernel
    rw [trimmed]
    exact .scheme ((isScheme_iff _).mp rfl) (by decide +kernel)
  obtain ⟨u, v, reads', reads'', found⟩ := shares _ _ _ _ _ _ short spaced
  exact ⟨reads, again _ _ reads, u, v, reads', reads'', ((found {}).1 _ rfl).mpr (by decide +kernel)⟩

end LinkedMarkup.Uri
