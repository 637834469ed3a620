import LinkedMarkup.Output.Registry
import LinkedMarkup.Proofs.Registry.Registrations

namespace LinkedMarkup

/-- The case of ASCII letters makes no difference to the formats that an adapter supports. -/
def Adapter.IgnoresCase (adapter : Adapter) : Prop := ∀ first second,
  Text.asciiLower first = Text.asciiLower second → adapter.supports first = adapter.supports second

theorem Adapter.ignoresCase_of_isNamed (names : List String) (render : RenderOptions → Value → String)
    (name : String) : (Adapter.mk name (Adapter.isNamed names) render).IgnoresCase := by
  intro first second same
  show Adapter.isNamed names first = Adapter.isNamed names second
  rw [Adapter.isNamed, Adapter.isNamed, same]

namespace AdapterRegistry

/-- What can be done to a registry of adapters. To look up a format may make an instance. -/
inductive Operation where
  | register (adapter : Adapter)
  | registerAs (formats : List String) (adapter : Adapter)
  | registerDeferred (format : String) (adapter : Adapter)
  | erase (format : String)
  | defaultFormat (format : Option String)
  | strictness (strict : Bool)
  | lookup (format : String)

def Operation.apply (registry : AdapterRegistry) : Operation → AdapterRegistry
  | .register adapter => registry.register adapter
  | .registerAs formats adapter => registry.registerAs formats adapter
  | .registerDeferred format adapter => registry.registerDeferred format adapter
  | .erase format => registry.erase format
  | .defaultFormat format => registry.withDefault format
  | .strictness strict => { registry with strict }
  | .lookup format => registry.afterLookup format

def run (operations : List Operation) : AdapterRegistry := operations.foldl Operation.apply {}

/-- What a registry holds: an adapter under some names, and the settings. -/
structure Stock where
  adapter? : String → Option Adapter := fun _ => none
  defaultFormat : Option String := none
  strict : Bool := false

/-- Put an adapter, or none, under the lower case of a name. -/
def Stock.set (stock : Stock) (format : String) (adapter : Option Adapter) : Stock :=
  { stock with adapter? := fun name => if name = Unicode.lowerCase format then adapter else stock.adapter? name }

/-- What is held after an operation. -/
def Operation.note (stock : Stock) : Operation → Stock
  | .register adapter => stock.set adapter.name (some adapter)
  | .registerAs formats adapter => formats.foldl (fun stock format => stock.set format (some adapter)) stock
  | .registerDeferred format adapter => stock.set format (some adapter)
  | .erase format => stock.set format none
  | .defaultFormat format => { stock with defaultFormat := format.map Unicode.lowerCase }
  | .strictness strict => { stock with strict }
  | .lookup _ => stock

def stocked (operations : List Operation) : Stock := operations.foldl Operation.note {}

/-- No adapter that is held supports the format. -/
def Stock.Refuses (stock : Stock) (format : String) : Prop :=
  ∀ name adapter, stock.adapter? name = some adapter → adapter.supports format = false

/-- The name of the entry that answers to a format, if one does. -/
inductive Stock.Answers (stock : Stock) (format : String) : Option String → Prop where
  | exact (held : stock.adapter? (Unicode.lowerCase format) ≠ none) :
      Answers stock format (some (Unicode.lowerCase format))
  | supporting {name : String} {adapter : Adapter} (free : stock.adapter? (Unicode.lowerCase format) = none)
      (lenient : stock.strict = false) (held : stock.adapter? name = some adapter)
      (supports : adapter.supports format = true)
      (least : ∀ other adapter', stock.adapter? other = some adapter' → adapter'.supports format = true →
        name ≤ other) : Answers stock format (some name)
  | fallback {name : String} (free : stock.adapter? (Unicode.lowerCase format) = none)
      (lenient : stock.strict = false) (refused : stock.Refuses format)
      (default : stock.defaultFormat = some name) (held : stock.adapter? name ≠ none) :
      Answers stock format (some name)
  | strict (free : stock.adapter? (Unicode.lowerCase format) = none) (strict : stock.strict = true) :
      Answers stock format none
  | missing (free : stock.adapter? (Unicode.lowerCase format) = none) (refused : stock.Refuses format)
      (default : ∀ name, stock.defaultFormat = some name → stock.adapter? name = none) :
      Answers stock format none

/-- The registry holds what the stock says. -/
structure Holds (registry : AdapterRegistry) (stock : Stock) : Prop where
  sorted : registry.entries.Sorted
  adapters : ∀ name, (registry.entries.find? name).map (·.adapter) = stock.adapter? name
  defaultFormat : registry.defaultFormat = stock.defaultFormat
  strict : registry.strict = stock.strict

variable {registry : AdapterRegistry} {stock : Stock}

/-! ### Sequences of operations -/

theorem Holds.insert (holds : registry.Holds stock) (format : String) (entry : AdapterEntry) :
    (registry.insert format entry).Holds (stock.set format (some entry.adapter)) := by
  refine ⟨Table.sorted_insert holds.sorted _ _, fun name => ?_, holds.defaultFormat, holds.strict⟩
  rw [AdapterRegistry.insert, Table.find?_insert, apply_ite (Option.map _), holds.adapters]
  rfl

theorem Holds.registerAs (holds : registry.Holds stock) (formats : List String) (adapter : Adapter) :
    (registry.registerAs formats adapter).Holds
      (formats.foldl (fun stock format => stock.set format (some adapter)) stock) := by
  suffices general : ∀ (formats : List String) {registry : AdapterRegistry} {stock : Stock},
      registry.Holds stock →
      (formats.foldl (fun registry format => registry.insert format ⟨adapter, some registry.next⟩) registry).Holds
        (formats.foldl (fun stock format => stock.set format (some adapter)) stock) by
    obtain ⟨sorted, adapters, defaultFormat, strict⟩ := general formats holds
    exact ⟨sorted, adapters, defaultFormat, strict⟩
  intro formats
  induction formats with
  | nil => exact id
  | cons format rest ih =>
    intro registry stock holds
    exact ih (holds.insert format ⟨adapter, some registry.next⟩)

theorem Holds.erase (holds : registry.Holds stock) (format : String) :
    (registry.erase format).Holds (stock.set format none) := by
  refine ⟨Table.sorted_erase holds.sorted _, fun name => ?_, holds.defaultFormat, holds.strict⟩
  rw [AdapterRegistry.erase, Table.find?_erase, apply_ite (Option.map _), holds.adapters]
  rfl

/-- To make an instance of an adapter does not change which adapters are held. -/
theorem Holds.make (holds : registry.Holds stock) (name : String) : (registry.make name).Holds stock := by
  unfold AdapterRegistry.make
  split
  · next adapter deferred =>
    refine ⟨Table.sorted_insert holds.sorted _ _, fun other => ?_, holds.defaultFormat, holds.strict⟩
    rw [Table.find?_insert, ← holds.adapters]
    by_cases same : other = name
    · rw [if_pos same, same, deferred]
      rfl
    · rw [if_neg same]
  · exact holds

theorem Holds.afterLookup (holds : registry.Holds stock) (format : String) :
    (registry.afterLookup format).Holds stock := by
  unfold AdapterRegistry.afterLookup
  generalize registry.asked format = names
  induction names generalizing registry with
  | nil => exact holds
  | cons name rest ih => exact ih (holds.make name)

theorem Holds.step (holds : registry.Holds stock) (operation : Operation) :
    (operation.apply registry).Holds (operation.note stock) := by
  cases operation with
  | register adapter => exact holds.registerAs [adapter.name] adapter
  | registerAs formats adapter => exact holds.registerAs formats adapter
  | registerDeferred format adapter => exact holds.insert format { adapter }
  | erase format => exact holds.erase format
  | defaultFormat format => exact ⟨holds.sorted, holds.adapters, rfl, holds.strict⟩
  | strictness strict => exact ⟨holds.sorted, holds.adapters, holds.defaultFormat, rfl⟩
  | lookup format => exact holds.afterLookup format

theorem run_holds (operations : List Operation) : (run operations).Holds (stocked operations) := by
  suffices general : ∀ (operations : List Operation) {registry : AdapterRegistry} {stock : Stock},
      registry.Holds stock →
        (operations.foldl Operation.apply registry).Holds (operations.foldl Operation.note stock) from
    general operations ⟨.nil, fun _ => rfl, rfl, rfl⟩
  intro operations
  induction operations with
  | nil => exact id
  | cons operation rest ih =>
    intro registry stock holds
    exact ih (holds.step operation)

/-! ### The answer -/

theorem Holds.contains (holds : registry.Holds stock) (name : String) :
    registry.entries.contains name = (stock.adapter? name).isSome := by
  rw [Table.contains, ← holds.adapters, Option.isSome_map]

theorem Holds.mem (holds : registry.Holds stock) {name : String} {adapter : Adapter} :
    stock.adapter? name = some adapter ↔
      ∃ entry, (name, entry) ∈ registry.entries ∧ entry.adapter = adapter := by
  rw [← holds.adapters, Option.map_eq_some_iff]
  simp only [Table.mem_iff_find? holds.sorted]

theorem Holds.supporting?_eq_none_iff (holds : registry.Holds stock) (format : String) :
    registry.supporting? format = none ↔ stock.Refuses format := by
  rw [supporting?, Option.map_eq_none_iff, List.find?_eq_none]
  constructor
  · intro none name adapter held
    obtain ⟨entry, member, rfl⟩ := holds.mem.mp held
    exact Bool.eq_false_iff.mpr (none _ member)
  · intro refused entry member
    exact Bool.eq_false_iff.mp (refused entry.1 entry.2.adapter (holds.mem.mpr ⟨entry.2, member, rfl⟩))

/-- The least of the names whose adapters support the format. -/
def Stock.Leads (stock : Stock) (format name : String) : Prop :=
  ∃ adapter, stock.adapter? name = some adapter ∧ adapter.supports format = true ∧
    ∀ other adapter', stock.adapter? other = some adapter' → adapter'.supports format = true → name ≤ other

theorem Stock.Leads.unique {format first second : String} (leads : stock.Leads format first)
    (leads' : stock.Leads format second) : first = second := by
  obtain ⟨adapter, held, supports, least⟩ := leads
  obtain ⟨adapter', held', supports', least'⟩ := leads'
  exact String.le_antisymm (least second adapter' held' supports') (least' first adapter held supports)

/-- The search goes by ascending names. -/
theorem Holds.leads_of_supporting? (holds : registry.Holds stock) {format name : String}
    (found : registry.supporting? format = some name) : stock.Leads format name := by
  rw [supporting?, Option.map_eq_some_iff] at found
  obtain ⟨entry, found, rfl⟩ := found
  obtain ⟨supports, front, rest, split, refused⟩ := List.find?_eq_some_iff_append.mp found
  have here : entry ∈ registry.entries := List.mem_of_find?_eq_some found
  refine ⟨entry.2.adapter, holds.mem.mpr ⟨entry.2, here, rfl⟩, supports, ?_⟩
  intro other adapter held supported
  obtain ⟨entry', member, rfl⟩ := holds.mem.mp held
  have sorted := holds.sorted
  rw [split] at member sorted
  rcases List.mem_append.mp member with before | behind
  · have against := refused _ before
    rw [supported] at against
    cases against
  · rcases List.mem_cons.mp behind with rfl | later
    · exact String.le_refl _
    · exact Std.le_of_lt ((List.pairwise_cons.mp (List.pairwise_append.mp sorted).2.1).1 _ later)

theorem Holds.supporting?_eq_some_iff (holds : registry.Holds stock) {format name : String} :
    registry.supporting? format = some name ↔ stock.Leads format name := by
  constructor
  · exact holds.leads_of_supporting?
  · intro leads
    cases found : registry.supporting? format with
    | none =>
      obtain ⟨adapter, held, supports, _⟩ := leads
      rw [(holds.supporting?_eq_none_iff format).mp found name adapter held] at supports
      cases supports
    | some other => rw [(holds.leads_of_supporting? found).unique leads]

/-- The steps of a look-up, on the stock. -/
theorem Holds.answering?_eq (holds : registry.Holds stock) (format : String) : registry.answering? format =
    if (stock.adapter? (Unicode.lowerCase format)).isSome then some (Unicode.lowerCase format)
    else if stock.strict then none
    else registry.supporting? format <|> stock.defaultFormat.filter (stock.adapter? · |>.isSome) := by
  rw [answering?, funext holds.contains, holds.strict, holds.defaultFormat]

theorem Holds.answers (holds : registry.Holds stock) (format : String) :
    stock.Answers format (registry.answering? format) := by
  rw [holds.answering?_eq]
  cases own : stock.adapter? (Unicode.lowerCase format) with
  | some adapter => exact .exact (by simp [own])
  | none =>
    cases strict : stock.strict with
    | true => exact .strict own strict
    | false =>
      cases found : registry.supporting? format with
      | some name =>
        obtain ⟨adapter, held, supports, least⟩ := holds.supporting?_eq_some_iff.mp found
        exact .supporting own strict held supports least
      | none =>
        have refused := (holds.supporting?_eq_none_iff format).mp found
        show stock.Answers format (stock.defaultFormat.filter fun name => (stock.adapter? name).isSome)
        cases default : stock.defaultFormat with
        | none =>
          refine .missing own refused fun name same => ?_
          rw [default] at same
          cases same
        | some name =>
          cases held : stock.adapter? name with
          | some adapter =>
            rw [Option.filter_some, if_pos (by simp [held])]
            exact .fallback own strict refused default (by simp [held])
          | none =>
            rw [Option.filter_some, if_neg (by simp [held])]
            refine .missing own refused fun other same => ?_
            rw [default] at same
            cases same
            exact held

theorem Holds.answering?_of_answers (holds : registry.Holds stock) {format : String} {answer : Option String}
    (answers : stock.Answers format answer) : registry.answering? format = answer := by
  rw [holds.answering?_eq]
  cases answers with
  | exact held => rw [if_pos (Option.isSome_iff_ne_none.mpr held)]
  | supporting free lenient held supports least =>
    rw [free, lenient, holds.supporting?_eq_some_iff.mpr ⟨_, held, supports, least⟩]
    rfl
  | fallback free lenient refused default held =>
    rw [free, lenient, (holds.supporting?_eq_none_iff format).mpr refused, default]
    exact if_pos (Option.isSome_iff_ne_none.mpr held)
  | strict free strict =>
    rw [free, strict]
    rfl
  | missing free refused default =>
    rw [free, (holds.supporting?_eq_none_iff format).mpr refused]
    cases stock.strict with
    | true => rfl
    | false =>
      show stock.defaultFormat.filter (fun name => (stock.adapter? name).isSome) = none
      rw [Option.filter_eq_none_iff]
      intro name same
      simp [default name same]

theorem Holds.find?_eq (holds : registry.Holds stock) (format : String) :
    registry.find? format = (registry.answering? format).bind stock.adapter? := by
  rw [AdapterRegistry.find?, lookup?, Option.map_bind]
  exact congrArg _ (funext holds.adapters)

/-- Names that differ in the case of ASCII letters have the same answers. -/
theorem Stock.Answers.recase {format other : String} {answer : Option String}
    (same : Text.asciiLower format = Text.asciiLower other)
    (ignores : ∀ name adapter, stock.adapter? name = some adapter → adapter.IgnoresCase)
    (answers : stock.Answers format answer) : stock.Answers other answer := by
  have lowered : Unicode.lowerCase format = Unicode.lowerCase other := by
    rw [← Unicode.lowerCase_asciiLower, same, Unicode.lowerCase_asciiLower]
  have supports {name : String} {adapter : Adapter} (held : stock.adapter? name = some adapter) :
      adapter.supports format = adapter.supports other := ignores name adapter held format other same
  have refuses (refused : stock.Refuses format) : stock.Refuses other := by
    intro name adapter held
    rw [← supports held]
    exact refused name adapter held
  cases answers with
  | exact held =>
    rw [lowered] at held ⊢
    exact .exact held
  | supporting free lenient held supported least =>
    refine .supporting (lowered ▸ free) lenient held (supports held ▸ supported) ?_
    intro name adapter' held' supported'
    exact least name adapter' held' (supports held' ▸ supported')
  | fallback free lenient refused default held =>
    exact .fallback (lowered ▸ free) lenient (refuses refused) default held
  | strict free strict => exact .strict (lowered ▸ free) strict
  | missing free refused default => exact .missing (lowered ▸ free) (refuses refused) default

/-- Look-ups follow the rule. Whatever was done to a registry that was empty, the entry that answers to a format is
the one that the rule gives, and its adapter is found. Registries that hold the same adapters under the same
names, and have the same settings, find the same adapters. Where the adapters do not regard the case of ASCII
letters, the look-up does not either. -/
theorem run_find?_by_rule (operations : List Operation) :
    (∀ format answer, (run operations).answering? format = answer ↔
      (stocked operations).Answers format answer) ∧
    (∀ format, (run operations).find? format =
      ((run operations).answering? format).bind (stocked operations).adapter?) ∧
    (∀ others, stocked others = stocked operations →
      ∀ format, (run others).find? format = (run operations).find? format) ∧
    ((∀ name adapter, (stocked operations).adapter? name = some adapter → adapter.IgnoresCase) →
      ∀ format other, Text.asciiLower format = Text.asciiLower other →
        (run operations).find? format = (run operations).find? other) := by
  have rule (operations : List Operation) (format : String) (answer : Option String) :
      (run operations).answering? format = answer ↔ (stocked operations).Answers format answer := by
    constructor
    · rintro rfl
      exact (run_holds operations).answers format
    · exact (run_holds operations).answering?_of_answers
  have found (operations : List Operation) := (run_holds operations).find?_eq
  refine ⟨rule operations, found operations, ?_, ?_⟩
  · intro others same format
    have answer := (rule others format _).mp rfl
    rw [same] at answer
    rw [found others, found operations, same, (rule operations format _).mpr answer]
  · intro ignores format other same
    have answer := ((rule operations format _).mp rfl).recase same ignores
    rw [found, found, (rule operations other _).mpr answer]

/-- A registry with a deferred adapter that is asked for by an alias, before and after its instance is made. -/
theorem run_find?_by_rule_alias :
    let operations : List Operation :=
      [.registerDeferred "YAML" .yaml, .defaultFormat (some "Json"), .lookup "yml", .register .json]
    (stocked operations).Answers "Yml" (some "yaml") ∧ (stocked operations).Answers "toml" (some "json") ∧
      (run operations).find? "Yml" = some .yaml ∧ (run operations).find? "yML" = some .yaml := by
  intro operations
  obtain ⟨rule, found, _, recased⟩ := run_find?_by_rule operations
  have lowered : Unicode.lowerCase "Yml" = "yml" ∧ Unicode.lowerCase "toml" = "toml" := by decide +kernel
  have named : Unicode.lowerCase "YAML" = "yaml" ∧ Unicode.lowerCase "Json" = "json" ∧
      Unicode.lowerCase "json" = "json" := by decide +kernel
  have adapters (name : String) : (stocked operations).adapter? name =
      if name = "json" then some .json else if name = "yaml" then some .yaml else none := by
    show (if name = Unicode.lowerCase "json" then some Adapter.json
      else if name = Unicode.lowerCase "YAML" then some .yaml else none) = _
    rw [named.1, named.2.2]
  have folded (text : String) : Text.asciiLower text = String.ofList (text.toList.map Char.toLower) := by
    rw [Text.asciiLower, ← String.toList_inj, String.toList_map, String.toList_ofList]
  have supported : Adapter.yaml.supports "Yml" = true ∧ Adapter.json.supports "Yml" = false ∧
      Adapter.yaml.supports "toml" = false ∧ Adapter.json.supports "toml" = false := by
    simp only [Adapter.yaml, Adapter.json, Adapter.isNamed, folded]
    decide +kernel
  have yaml : (stocked operations).Answers "Yml" (some "yaml") := by
    refine .supporting (by rw [adapters, lowered.1]; rfl) rfl (adapters "yaml") supported.1 ?_
    intro other adapter held supports
    rw [adapters] at held
    split_ifs at held with one
    · cases held
      rw [supported.2.1] at supports
      cases supports
    · next two =>
      subst two
      exact String.le_refl _
  have json : (stocked operations).Answers "toml" (some "json") := by
    have held : (stocked operations).adapter? "json" ≠ none := by
      rw [adapters]
      exact Option.some_ne_none _
    refine .fallback (by rw [adapters, lowered.2]; rfl) rfl ?_ (congrArg some named.2.1) held
    intro name adapter held
    rw [adapters] at held
    split_ifs at held
    · cases held
      exact supported.2.2.2
    · cases held
      exact supported.2.2.1
  have ignores : ∀ name adapter, (stocked operations).adapter? name = some adapter → adapter.IgnoresCase := by
    intro name adapter held
    rw [adapters] at held
    split_ifs at held
    · cases held
      exact Adapter.ignoresCase_of_isNamed _ _ _
    · cases held
      exact Adapter.ignoresCase_of_isNamed _ _ _
  have held : (run operations).find? "Yml" = some .yaml := by
    rw [found, (rule _ _).mpr yaml]
    exact adapters "yaml"
  refine ⟨yaml, json, held, ?_⟩
  rw [← recased ignores "Yml" "yML" (by rw [folded, folded]; rfl)]
  exact held

end AdapterRegistry
end LinkedMarkup
