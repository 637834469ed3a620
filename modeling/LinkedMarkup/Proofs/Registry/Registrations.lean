import LinkedMarkup.Proofs.Tag.Violations
import LinkedMarkup.Proofs.Text.LetterCase
import LinkedMarkup.Proofs.Tree.Ids
/-! The registry of tags as a map that does not distinguish case. Whatever is done to a registry comes
down to the definitions it accepts and the names it gives up, one after the other. What it holds is read
off that history, name by name, and a strict registry never accepts what would replace a definition. -/
namespace LinkedMarkup

namespace Table
variable {α : Type} (table : Table α)

theorem erase_eq_filter (key : String) : table.erase key = table.filter (·.1 ≠ key) := by
  induction table with
  | nil => rfl
  | cons entry rest ih =>
    by_cases gone : entry.1 = key
    · rw [erase, if_pos gone, ih, List.filter_cons_of_neg (by simpa using gone)]
    · rw [erase, if_neg gone, ih, List.filter_cons_of_pos (by simpa using gone)]

variable {table}

theorem sorted_erase (sorted : table.Sorted) (key : String) : (table.erase key).Sorted := by
  rw [erase_eq_filter]
  exact sorted.filter _

end Table

namespace TagRegistry

/-- What can be done to a registry. -/
inductive Operation where
  | register (given : TagDefinition)
  | registerAll (given : List TagDefinition)
  | load (text : String)
  | erase (name : String)
  | clear
  | strictness (strict : Bool)

def Operation.apply (registry : TagRegistry) : Operation → TagRegistry
  | .register given =>
    match registry.register given with
    | .ok next => next
    | .error _ => registry
  | .registerAll given => (registry.registerAll given).1
  | .load text => (registry.load text).1
  | .erase name => registry.erase name
  | .clear => registry.clear
  | .strictness strict => { registry with strict }

def run (registry : TagRegistry) (operations : List Operation) : TagRegistry :=
  operations.foldl Operation.apply registry

/-! ### The history -/

/-- What happens to the definitions of a registry. -/
inductive Deed where
  | accepted (given : TagDefinition)
  | erased (name : String)
  | cleared

/-- The deed sets or removes the definition of a name. -/
def Deed.Concerns (name : String) : Deed → Prop
  | .accepted given => Unicode.lowerCase given.name = Unicode.lowerCase name
  | .erased other => Unicode.lowerCase other = Unicode.lowerCase name
  | .cleared => True

/-- The definitions of a list that are accepted, up to the first that is not. -/
def acceptedOf (registry : TagRegistry) : List TagDefinition → List TagDefinition
  | [] => []
  | given :: rest =>
    match registry.register given with
    | .ok next => given :: next.acceptedOf rest
    | .error _ => []

/-- What an operation does to the definitions. -/
def Operation.deeds (registry : TagRegistry) : Operation → List Deed
  | .register given => (registry.acceptedOf [given]).map .accepted
  | .registerAll given => (registry.acceptedOf given).map .accepted
  | .load text => (registry.acceptedOf ((definitions? text).getD [])).map .accepted
  | .erase name => [.erased name]
  | .clear => [.cleared]
  | .strictness _ => []

/-- What a sequence of operations does to the definitions, in the order of time. -/
def history (registry : TagRegistry) : List Operation → List Deed
  | [] => []
  | operation :: rest => operation.deeds registry ++ (operation.apply registry).history rest

/-! ### What the registry has to satisfy -/

/-- The operation is meant to take away the definition of a name. -/
def Operation.Removes (name : String) : Operation → Prop
  | .erase other => Unicode.lowerCase other = Unicode.lowerCase name
  | .clear => True
  | _ => False

/-- No definition of the list is for a name that is taken, by the registry or earlier in the list. -/
def Fresh (registry : TagRegistry) (given : List TagDefinition) : Prop :=
  (∀ definition ∈ given, registry.has definition.name = false) ∧
    given.Pairwise fun first second =>
      Unicode.lowerCase first.name ≠ Unicode.lowerCase second.name

/-- The definitions given end at the first duplicate among them: the registry `next` has exactly those
before it in addition, and `error` tells its name. -/
structure StopsAtDuplicate (registry next : TagRegistry) (given : List TagDefinition)
    (error : DuplicateTag) (front : List TagDefinition) (duplicate : TagDefinition) : Prop where
  strict : registry.strict = true ∧ next.strict = true
  split : ∃ rest, given = front ++ duplicate :: rest
  fresh : registry.Fresh front
  taken : registry.has duplicate.name = true ∨
    ∃ definition ∈ front, Unicode.lowerCase definition.name = Unicode.lowerCase duplicate.name
  named : error = ⟨Unicode.lowerCase duplicate.name⟩
  added : ∀ name, next.find? name = (registry.find? name).or
    ((front.find? fun given => Unicode.lowerCase given.name = Unicode.lowerCase name).map (·.normalized))

/-- The registry is the map that its history describes, and it guards what it holds if it is strict. -/
structure Refines (registry : TagRegistry) (history : List Deed) : Prop where
  /-- A name has the definition that was last accepted under it and not taken away since, with the
  names of tags in lower case. -/
  definition : ∀ name stored, registry.find? name = some stored ↔
    ∃ before given after, history = before ++ .accepted given :: after ∧
      Unicode.lowerCase given.name = Unicode.lowerCase name ∧
      (∀ deed ∈ after, ¬ deed.Concerns name) ∧
      stored = { given with
        name := Unicode.lowerCase given.name
        allowedChildren := given.allowedChildren.map Unicode.lowerCase
        forbiddenChildren := given.forbiddenChildren.map Unicode.lowerCase }
  has : ∀ name, registry.has name = true ↔ ∃ stored, registry.find? name = some stored
  names : ∀ name, registry.has name = true ↔ Unicode.lowerCase name ∈ registry.names
  lowered : ∀ key ∈ registry.names, Unicode.lowerCase key = key
  ascending : registry.names.Pairwise (· < ·)
  size : registry.size = registry.names.length
  refuses : ∀ given error, registry.register given = .error error ↔
    registry.strict = true ∧ registry.has given.name = true ∧
      error = ⟨Unicode.lowerCase given.name⟩
  unchanged : ∀ given error, registry.register given = .error error →
    (Operation.register given).apply registry = registry
  /-- A strict registry keeps its definitions until they are taken away. -/
  keeps : registry.strict = true → ∀ (operation : Operation) name stored,
    registry.find? name = some stored → ¬ operation.Removes name →
      (operation.apply registry).find? name = some stored
  removes : ∀ (operation : Operation) name, operation.Removes name →
    (operation.apply registry).find? name = none
  /-- A list of definitions is taken as a whole, or up to the first duplicate. -/
  whole : ∀ given, (registry.registerAll given).2 = none ↔
    (registry.strict = true → registry.Fresh given)
  stops : ∀ given next error, registry.registerAll given = (next, some error) →
    ∃ front duplicate, registry.StopsAtDuplicate next given error front duplicate
  loading : ∀ text next error, registry.load text = (next, .error (.duplicate error)) →
    ∃ given front duplicate, definitions? text = some given ∧
      registry.StopsAtDuplicate next given error front duplicate
  unread : ∀ text, definitions? text = none → registry.load text = (registry, .error .yaml)

/-! ### One definition -/

variable {registry next : TagRegistry} {given : TagDefinition} {error : DuplicateTag}

theorem contains_lowerCase (registry : TagRegistry) (name : String) :
    registry.definitions.contains (Unicode.lowerCase name) = registry.has name := rfl

theorem has_iff {name : String} :
    registry.has name = true ↔ ∃ stored, registry.find? name = some stored :=
  Option.isSome_iff_exists

theorem register_eq_error_iff : registry.register given = .error error ↔
    registry.strict = true ∧ registry.has given.name = true ∧
      error = ⟨Unicode.lowerCase given.name⟩ := by
  have key : given.normalized.name = Unicode.lowerCase given.name := rfl
  unfold register
  simp only [key, contains_lowerCase]
  by_cases refused : (registry.strict && registry.has given.name) = true
  · rw [if_pos refused]
    rw [Bool.and_eq_true] at refused
    constructor
    · intro same
      cases same
      exact ⟨refused.1, refused.2, rfl⟩
    · rintro ⟨_, _, rfl⟩
      rfl
  · rw [if_neg refused]
    constructor
    · intro same
      cases same
    · rintro ⟨strict, taken, _⟩
      exact absurd (by rw [strict, taken]; rfl) refused

theorem strict_of_register (accepted : registry.register given = .ok next) :
    next.strict = registry.strict := by
  unfold register at accepted
  dsimp only at accepted
  split at accepted
  · cases accepted
  · cases accepted
    rfl

/-- What a strict registry accepts is for a name that was free. -/
theorem free_of_register (accepted : registry.register given = .ok next)
    (strict : registry.strict = true) : registry.has given.name = false := by
  by_contra taken
  have refused : registry.register given = .error ⟨Unicode.lowerCase given.name⟩ :=
    register_eq_error_iff.mpr ⟨strict, by simpa using taken, rfl⟩
  rw [refused] at accepted
  cases accepted

theorem find?_register (accepted : registry.register given = .ok next) (name : String) :
    next.find? name = if Unicode.lowerCase name = Unicode.lowerCase given.name
      then some given.normalized else registry.find? name := by
  unfold find?
  rw [register_ok accepted, Table.find?_insert]
  rfl

theorem has_register (accepted : registry.register given = .ok next) (name : String) :
    next.has name = true ↔
      Unicode.lowerCase name = Unicode.lowerCase given.name ∨ registry.has name = true := by
  unfold has
  rw [find?_register accepted]
  by_cases same : Unicode.lowerCase name = Unicode.lowerCase given.name
  · simp [same]
  · simp [same]

/-! ### Lists of definitions -/

theorem registerAll_nil (registry : TagRegistry) : registry.registerAll [] = (registry, none) := rfl

theorem registerAll_cons (accepted : registry.register given = .ok next)
    (rest : List TagDefinition) : registry.registerAll (given :: rest) = next.registerAll rest := by
  rw [registerAll, accepted]

theorem registerAll_refused (refused : registry.register given = .error error)
    (rest : List TagDefinition) :
    registry.registerAll (given :: rest) = (registry, some error) := by
  rw [registerAll, refused]

theorem fresh_cons (accepted : registry.register given = .ok next)
    (free : registry.has given.name = false) {rest : List TagDefinition} :
    registry.Fresh (given :: rest) ↔ next.Fresh rest := by
  have later (definition : TagDefinition) : next.has definition.name = false ↔
      Unicode.lowerCase given.name ≠ Unicode.lowerCase definition.name ∧
        registry.has definition.name = false := by
    rw [← Bool.not_eq_true, has_register accepted, not_or, Bool.not_eq_true, ne_comm]
  simp only [Fresh, List.forall_mem_cons, List.pairwise_cons, later, forall_and]
  constructor
  · rintro ⟨⟨_, absent⟩, apart, others⟩
    exact ⟨⟨apart, absent⟩, others⟩
  · rintro ⟨⟨apart, absent⟩, others⟩
    exact ⟨⟨free, absent⟩, apart, others⟩

/-- The first duplicate of a list stays the first one behind a definition that is accepted. -/
theorem StopsAtDuplicate.cons (accepted : registry.register given = .ok next) {last : TagRegistry}
    {rest front : List TagDefinition} {duplicate : TagDefinition}
    (stops : next.StopsAtDuplicate last rest error front duplicate) :
    registry.StopsAtDuplicate last (given :: rest) error (given :: front) duplicate := by
  have strict : registry.strict = true := strict_of_register accepted ▸ stops.strict.1
  have free := free_of_register accepted strict
  refine ⟨⟨strict, stops.strict.2⟩, ?_, (fresh_cons accepted free).mpr stops.fresh, ?_,
    stops.named, ?_⟩
  · obtain ⟨behind, split⟩ := stops.split
    exact ⟨behind, by rw [split, List.cons_append]⟩
  · rcases stops.taken with held | ⟨definition, member, same⟩
    · rcases (has_register accepted duplicate.name).mp held with same | held
      · exact .inr ⟨given, List.mem_cons_self, same.symm⟩
      · exact .inl held
    · exact .inr ⟨definition, List.mem_cons_of_mem _ member, same⟩
  · intro name
    rw [stops.added, find?_register accepted]
    by_cases same : Unicode.lowerCase name = Unicode.lowerCase given.name
    · have absent : registry.find? name = none := by
        rw [has, find?, ← same] at free
        exact Option.isSome_eq_false_iff.mp free |> Option.isNone_iff_eq_none.mp
      rw [if_pos same, absent, List.find?_cons_of_pos (by simp [same])]
      rfl
    · rw [if_neg same, List.find?_cons_of_neg (by simpa using Ne.symm same)]

theorem registerAll_stops {given : List TagDefinition}
    (failed : registry.registerAll given = (next, some error)) :
    ∃ front duplicate, registry.StopsAtDuplicate next given error front duplicate := by
  induction given generalizing registry with
  | nil =>
    rw [registerAll_nil] at failed
    cases failed
  | cons first rest ih =>
    cases outcome : registry.register first with
    | ok second =>
      rw [registerAll_cons outcome] at failed
      obtain ⟨front, duplicate, stops⟩ := ih failed
      exact ⟨first :: front, duplicate, stops.cons outcome⟩
    | error refused =>
      rw [registerAll_refused outcome] at failed
      cases failed
      obtain ⟨strict, taken, named⟩ := register_eq_error_iff.mp outcome
      refine ⟨[], first, ⟨strict, strict⟩, ⟨rest, rfl⟩, ⟨?_, .nil⟩, .inl taken, named, ?_⟩
      · exact List.forall_mem_nil _
      · exact fun name => (Option.or_none).symm

theorem registerAll_whole_iff {given : List TagDefinition} :
    (registry.registerAll given).2 = none ↔ (registry.strict = true → registry.Fresh given) := by
  induction given generalizing registry with
  | nil => exact iff_of_true rfl fun _ => ⟨List.forall_mem_nil _, .nil⟩
  | cons first rest ih =>
    cases outcome : registry.register first with
    | ok second =>
      rw [registerAll_cons outcome, ih, strict_of_register outcome]
      exact forall_congr' fun strict =>
        (fresh_cons outcome (free_of_register outcome strict)).symm
    | error refused =>
      obtain ⟨strict, taken, _⟩ := register_eq_error_iff.mp outcome
      rw [registerAll_refused outcome]
      refine iff_of_false (Option.some_ne_none _) fun fresh => ?_
      have free := (fresh strict).1 first List.mem_cons_self
      rw [taken] at free
      cases free

theorem find?_registerAll (strict : registry.strict = true) {name : String}
    {stored : TagDefinition} (held : registry.find? name = some stored)
    (given : List TagDefinition) : (registry.registerAll given).1.find? name = some stored := by
  induction given generalizing registry with
  | nil => exact held
  | cons first rest ih =>
    cases outcome : registry.register first with
    | ok second =>
      rw [registerAll_cons outcome]
      apply ih (strict_of_register outcome ▸ strict)
      have apart : Unicode.lowerCase name ≠ Unicode.lowerCase first.name := by
        intro same
        have free := free_of_register outcome strict
        rw [has, find?, ← same, ← find?, held] at free
        cases free
      rw [find?_register outcome, if_neg apart, held]
    | error refused =>
      rw [registerAll_refused outcome]
      exact held

theorem apply_register (registry : TagRegistry) (given : TagDefinition) :
    (Operation.register given).apply registry = (registry.registerAll [given]).1 := by
  cases outcome : registry.register given with
  | ok next => rw [Operation.apply, registerAll_cons outcome, outcome, registerAll_nil]
  | error refused => rw [Operation.apply, registerAll_refused outcome, outcome]

/-- A text that does not read is loaded as if it had no definitions. -/
theorem load_eq_registerAll (registry : TagRegistry) (text : String) :
    (registry.load text).1 = (registry.registerAll ((definitions? text).getD [])).1 := by
  unfold load
  cases definitions? text with
  | none => rfl
  | some given =>
    dsimp only [Option.getD_some]
    rcases registry.registerAll given with ⟨last, none | refused⟩
    · rfl
    · rfl

/-! ### Deeds -/

def Deed.apply (definitions : Table TagDefinition) : Deed → Table TagDefinition
  | .accepted given => definitions.insert (Unicode.lowerCase given.name) given.normalized
  | .erased name => definitions.erase (Unicode.lowerCase name)
  | .cleared => []

theorem registerAll_definitions (registry : TagRegistry) (given : List TagDefinition) :
    (registry.registerAll given).1.definitions =
      ((registry.acceptedOf given).map Deed.accepted).foldl Deed.apply registry.definitions := by
  induction given generalizing registry with
  | nil => rfl
  | cons first rest ih =>
    unfold acceptedOf
    cases outcome : registry.register first with
    | ok next =>
      rw [registerAll_cons outcome, ih, register_ok outcome]
      rfl
    | error refused =>
      rw [registerAll_refused outcome]
      rfl

/-- An operation changes the definitions by its deeds. -/
theorem apply_definitions (registry : TagRegistry) (operation : Operation) :
    (operation.apply registry).definitions =
      (operation.deeds registry).foldl Deed.apply registry.definitions := by
  cases operation with
  | register given =>
    rw [apply_register]
    exact registry.registerAll_definitions [given]
  | registerAll given => exact registry.registerAll_definitions given
  | load text =>
    rw [Operation.apply, load_eq_registerAll]
    exact registry.registerAll_definitions _
  | erase name => rfl
  | clear => rfl
  | strictness strict => rfl

theorem run_definitions (registry : TagRegistry) (operations : List Operation) :
    (registry.run operations).definitions =
      (registry.history operations).foldl Deed.apply registry.definitions := by
  induction operations generalizing registry with
  | nil => rfl
  | cons operation rest ih =>
    calc (registry.run (operation :: rest)).definitions
        = ((operation.apply registry).history rest).foldl Deed.apply
            (operation.apply registry).definitions := ih _
      _ = (registry.history (operation :: rest)).foldl Deed.apply registry.definitions := by
          rw [apply_definitions, history, List.foldl_append]

/-- A deed decides about the names that it concerns and leaves all others alone. -/
theorem find?_deed_iff (definitions : Table TagDefinition) (deed : Deed) (name : String)
    (stored : TagDefinition) :
    (deed.apply definitions).find? (Unicode.lowerCase name) = some stored ↔
      (∃ given, deed = .accepted given ∧ Unicode.lowerCase given.name = Unicode.lowerCase name ∧
        stored = given.normalized) ∨
      ¬ deed.Concerns name ∧ definitions.find? (Unicode.lowerCase name) = some stored := by
  cases deed with
  | accepted given =>
    rw [Deed.apply, Table.find?_insert]
    by_cases same : Unicode.lowerCase given.name = Unicode.lowerCase name
    · simp [same, Deed.Concerns, eq_comm]
    · simp [same, Ne.symm same, Deed.Concerns]
  | erased other =>
    rw [Deed.apply, Table.find?_erase]
    by_cases same : Unicode.lowerCase other = Unicode.lowerCase name
    · simp [same, Deed.Concerns]
    · simp [same, Ne.symm same, Deed.Concerns]
  | cleared => simp [Deed.apply, Deed.Concerns, Table.find?]

/-- What is held under a name is read off the last deed that concerns it. -/
theorem find?_history_iff (history : List Deed) (name : String) (stored : TagDefinition) :
    Table.find? (history.foldl Deed.apply []) (Unicode.lowerCase name) = some stored ↔
      ∃ before given after, history = before ++ .accepted given :: after ∧
        Unicode.lowerCase given.name = Unicode.lowerCase name ∧
        (∀ deed ∈ after, ¬ deed.Concerns name) ∧ stored = given.normalized := by
  induction history using List.reverseRecOn with
  | nil => simp [Table.find?]
  | append_singleton earlier deed ih =>
    rw [List.foldl_append, List.foldl_cons, List.foldl_nil, find?_deed_iff, ih]
    constructor
    · rintro (⟨given, rfl, same, rfl⟩ | ⟨other, before, given, after, rfl, same, still, rfl⟩)
      · exact ⟨earlier, given, [], rfl, same, List.forall_mem_nil _, rfl⟩
      · refine ⟨before, given, after ++ [deed], by simp, same, ?_, rfl⟩
        intro later member
        rcases List.mem_append.mp member with old | new
        · exact still later old
        · exact List.mem_singleton.mp new ▸ other
    · rintro ⟨before, given, after, split, same, still, rfl⟩
      -- the deed accepts the definition itself, or stands behind that
      rcases List.eq_nil_or_concat after with rfl | ⟨middle, last, rfl⟩
      · obtain ⟨rfl, here⟩ := List.append_inj' split rfl
        exact .inl ⟨given, List.singleton_inj.mp here, same, rfl⟩
      · rw [List.concat_eq_append, ← List.cons_append, ← List.append_assoc] at split
        obtain ⟨rfl, here⟩ := List.append_inj' split rfl
        obtain rfl := List.singleton_inj.mp here
        refine .inr ⟨still deed (by simp), before, given, middle, rfl, same, ?_, rfl⟩
        exact fun later member => still later (by simp [member])

def Orderly (definitions : Table TagDefinition) : Prop :=
  definitions.Sorted ∧ ∀ key ∈ definitions.keys, Unicode.lowerCase key = key

theorem Orderly.deed {definitions : Table TagDefinition} (orderly : Orderly definitions)
    (deed : Deed) : Orderly (deed.apply definitions) := by
  obtain ⟨sorted, lowered⟩ := orderly
  cases deed with
  | accepted given =>
    refine ⟨Table.sorted_insert sorted _ _, ?_⟩
    intro key listed
    obtain ⟨entry, member, rfl⟩ := List.mem_map.mp listed
    rcases Table.mem_insert member with rfl | old
    · exact Unicode.lowerCase_lowerCase given.name
    · exact lowered entry.1 (List.mem_map_of_mem old)
  | erased name =>
    refine ⟨Table.sorted_erase sorted _, ?_⟩
    intro key listed
    obtain ⟨entry, member, rfl⟩ := List.mem_map.mp listed
    rw [Deed.apply, Table.erase_eq_filter] at member
    exact lowered entry.1 (List.mem_map_of_mem (List.mem_filter.mp member).1)
  | cleared => exact ⟨.nil, List.forall_mem_nil _⟩

theorem Orderly.deeds {definitions : Table TagDefinition} (orderly : Orderly definitions)
    (deeds : List Deed) : Orderly (deeds.foldl Deed.apply definitions) := by
  induction deeds generalizing definitions with
  | nil => exact orderly
  | cons deed rest ih => exact ih (orderly.deed deed)

/-! ### Operations -/

theorem apply_keeps (strict : registry.strict = true) {name : String} {stored : TagDefinition}
    (held : registry.find? name = some stored) (operation : Operation)
    (kept : ¬ operation.Removes name) : (operation.apply registry).find? name = some stored := by
  cases operation with
  | register given =>
    rw [apply_register]
    exact find?_registerAll strict held [given]
  | registerAll given => exact find?_registerAll strict held given
  | load text =>
    rw [Operation.apply, load_eq_registerAll]
    exact find?_registerAll strict held _
  | erase other =>
    have apart : Unicode.lowerCase name ≠ Unicode.lowerCase other := Ne.symm kept
    rw [Operation.apply, find?, erase, Table.find?_erase, if_neg apart]
    exact held
  | clear => exact absurd trivial kept
  | strictness changed => exact held

theorem apply_removes (registry : TagRegistry) {name : String} {operation : Operation}
    (removed : operation.Removes name) : (operation.apply registry).find? name = none := by
  cases operation with
  | erase other => rw [Operation.apply, find?, erase, Table.find?_erase, if_pos (Eq.symm removed)]
  | clear => rfl
  | register _ | registerAll _ | load _ | strictness _ => cases removed

theorem load_stops {text : String} (failed : registry.load text = (next, .error (.duplicate error))) :
    ∃ given front duplicate, definitions? text = some given ∧
      registry.StopsAtDuplicate next given error front duplicate := by
  unfold load at failed
  cases read : definitions? text with
  | none =>
    rw [read] at failed
    cases failed
  | some given =>
    rw [read] at failed
    dsimp only at failed
    rcases outcome : registry.registerAll given with ⟨last, none | refused⟩
    · rw [outcome] at failed
      cases failed
    · rw [outcome] at failed
      cases failed
      obtain ⟨front, duplicate, stops⟩ := registerAll_stops outcome
      exact ⟨given, front, duplicate, rfl, stops⟩

/-- Whatever is done to a registry that was empty, it is a map from names in any case to the definitions
accepted for them, and never replaces a definition while it is strict. -/
theorem operations_refine_map (strict : Bool) (operations : List Operation) :
    Refines (run { strict } operations) (history { strict } operations) := by
  have made := run_definitions { strict } operations
  have orderly : Orderly (run { strict } operations).definitions := by
    rw [made]
    exact Orderly.deeds ⟨.nil, List.forall_mem_nil _⟩ _
  refine {
    definition := ?_
    has := fun name => has_iff
    names := ?_
    lowered := orderly.2
    ascending := ?_
    size := ?_
    refuses := fun given error => register_eq_error_iff
    unchanged := ?_
    keeps := fun strict operation name stored held kept => apply_keeps strict held operation kept
    removes := fun operation name removed => apply_removes _ removed
    whole := fun given => registerAll_whole_iff
    stops := fun given next error failed => registerAll_stops failed
    loading := fun text next error failed => load_stops failed
    unread := ?_ }
  · intro name stored
    rw [find?, made]
    exact find?_history_iff _ name stored
  · intro name
    exact (Validation.mem_keys _ (Unicode.lowerCase name)).symm
  · exact List.pairwise_map.mpr orderly.1
  · exact (List.length_map ..).symm
  · intro given error refused
    rw [apply_register, registerAll_refused refused]
  · intro text unread
    rw [load, unread]

example : (run { strict := true } [.register { name := "P" }, .registerAll
    [{ name := "Quote" }, { name := "p" }, { name := "ref" }]]).names = ["p", "quote"] := by
  decide +kernel

end TagRegistry
end LinkedMarkup
