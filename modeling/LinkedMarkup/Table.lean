/-! Tables keyed by text. Entries stand in strictly ascending order of their keys (by code
point), so a key has at most one value and two tables with the same content are equal. Every
table of the library is made by `Table.insert`, which keeps that order. -/
namespace LinkedMarkup

abbrev Table (α : Type) := List (String × α)

namespace Table
variable {α β : Type}

/-- Keys ascend strictly; all tables built by the operations below satisfy this. -/
def Sorted (table : Table α) : Prop := table.Pairwise (fun first second => first.1 < second.1)

def find? : Table α → String → Option α
  | [], _ => none
  | (name, value) :: rest, key => if key = name then some value else find? rest key

def contains (table : Table α) (key : String) : Bool := (table.find? key).isSome

/-- Put `value` under `key`; the value it had before is lost. -/
def insert (key : String) (value : α) : Table α → Table α
  | [] => [(key, value)]
  | (name, old) :: rest =>
    if key < name then (key, value) :: (name, old) :: rest
    else if key = name then (key, value) :: rest
    else (name, old) :: insert key value rest

/-- Put `value` under `key` unless the key is taken. -/
def insertNew (key : String) (value : α) (table : Table α) : Table α :=
  if table.contains key then table else table.insert key value

def erase : Table α → String → Table α
  | [], _ => []
  | (name, value) :: rest, key =>
    if name = key then erase rest key else (name, value) :: erase rest key

def keys (table : Table α) : List String := table.map (·.1)

/-- Of several entries under one key the last counts. -/
def ofList (entries : List (String × α)) : Table α :=
  entries.foldl (fun table entry => table.insert entry.1 entry.2) []

theorem find?_insert (table : Table α) (key name : String) (value : α) :
    (table.insert key value).find? name = if name = key then some value else table.find? name := by
  induction table with
  | nil => simp [insert, find?]
  | cons entry rest ih =>
    obtain ⟨first, old⟩ := entry
    by_cases below : key < first
    · simp [insert, below, find?]
    · by_cases same : key = first
      · subst same
        by_cases hit : name = key <;> simp [insert, find?, hit]
      · simp only [insert, below, same, if_false, find?, ih]
        by_cases hit : name = first
        · subst hit; simp [Ne.symm same]
        · simp [hit]

/-- Of two values under one key the later one stays. -/
theorem insert_insert (table : Table α) (key : String) (first second : α) :
    (table.insert key first).insert key second = table.insert key second := by
  induction table with
  | nil => simp [insert]
  | cons entry rest ih =>
    obtain ⟨name, old⟩ := entry
    by_cases below : key < name
    · simp [insert, below]
    · by_cases same : key = name
      · simp [insert, same]
      · simp [insert, below, same, ih]

private theorem insert_ascending (table : Table α) {key name : String} (ascending : key < name)
    (first second : α) :
    (table.insert key first).insert name second = (table.insert name second).insert key first := by
  have behind : ¬ name < key := String.lt_asymm ascending
  have different : name ≠ key := fun same => String.lt_irrefl key (same ▸ ascending)
  induction table with
  | nil => simp [insert, ascending, behind, different]
  | cons entry rest ih =>
    obtain ⟨other, old⟩ := entry
    by_cases below : key < other
    · by_cases further : name < other
      · simp [insert, below, further, ascending, behind, different]
      · by_cases hit : name = other
        · simp [insert, hit, below, String.lt_asymm below, (hit ▸ different : other ≠ key)]
        · simp [insert, below, further, hit, behind, different]
    · by_cases same : key = other
      · subst same
        simp [insert, behind, different]
      · have above : other < key := Std.lt_of_le_of_ne (String.not_lt.mp below) (Ne.symm same)
        have further : ¬ name < other := String.lt_asymm (String.lt_trans above ascending)
        have apart : name ≠ other := fun hit => String.lt_asymm ascending (hit ▸ above)
        simp [insert, below, same, further, apart, ih]

/-- Values under different keys may be put in any order. -/
theorem insert_comm (table : Table α) {key name : String} (different : key ≠ name)
    (first second : α) :
    (table.insert key first).insert name second = (table.insert name second).insert key first := by
  by_cases ascending : key < name
  · exact table.insert_ascending ascending first second
  · have descending : name < key :=
      Std.lt_of_le_of_ne (String.not_lt.mp ascending) (Ne.symm different)
    exact (table.insert_ascending descending second first).symm

theorem find?_erase (table : Table α) (key name : String) :
    (table.erase key).find? name = if name = key then none else table.find? name := by
  induction table with
  | nil => simp [erase, find?]
  | cons entry rest ih =>
    obtain ⟨first, old⟩ := entry
    by_cases gone : first = key
    · subst gone
      by_cases hit : name = first
      · subst hit; simpa [erase] using ih
      · simp [erase, find?, hit, ih]
    · by_cases hit : name = first
      · subst hit; simp [erase, find?, gone]
      · simp [erase, find?, gone, hit, ih]

theorem find?_insertNew (table : Table α) (key name : String) (value : α) :
    (table.insertNew key value).find? name =
      if name = key then some ((table.find? key).getD value) else table.find? name := by
  unfold insertNew contains
  cases known : table.find? key with
  | none => simpa using find?_insert table key name value
  | some old =>
    by_cases same : name = key
    · simp [same, known]
    · simp [same]

/-- Under a key that was free, a new entry is found exactly if the key is its own. -/
theorem find?_insertNew_eq_some_iff {table : Table α} {key name : String} (value : α)
    (free : table.find? name = none) :
    (table.insertNew key value).find? name = some value ↔ key = name := by
  rw [find?_insertNew]
  by_cases same : name = key
  · simp [← same, free]
  · simp [same, free, Ne.symm same]

/-- Of several new entries under one key the first counts. -/
theorem find?_foldl_insertNew (entries table : Table α) (name : String) :
    find? (entries.foldl (fun table entry => table.insertNew entry.1 entry.2) table) name =
      (table.find? name).or (entries.find? name) := by
  induction entries generalizing table with
  | nil => exact (Option.or_none).symm
  | cons entry rest ih =>
    rw [List.foldl_cons, ih, find?_insertNew, find?]
    by_cases same : name = entry.1
    · subst same
      cases table.find? entry.1 <;> simp
    · simp [same]

theorem insert_perm {table : Table α} {key : String} (value : α)
    (absent : table.find? key = none) : (table.insert key value).Perm ((key, value) :: table) := by
  induction table with
  | nil => exact .refl _
  | cons entry rest ih =>
    obtain ⟨first, old⟩ := entry
    have other : key ≠ first := fun same => by simp [find?, same] at absent
    have below : find? rest key = none := by simpa [find?, other] using absent
    by_cases before : key < first
    · simp [insert, before]
    · simpa [insert, before, other] using
        ((ih below).cons (first, old)).trans (.swap _ _ rest)

theorem insertNew_perm {table : Table α} {key : String} (value : α)
    (absent : table.find? key = none) :
    (table.insertNew key value).Perm ((key, value) :: table) := by
  rw [insertNew, contains, absent]
  exact insert_perm value absent

end Table
end LinkedMarkup
