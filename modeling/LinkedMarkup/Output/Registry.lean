import LinkedMarkup.Output.Adapter
import LinkedMarkup.Unicode.LowerCase
/-! The registry of output adapters by the name of their format, without regard to case. A name
that is not registered goes to the first entry, by name, whose adapter supports it, and else to
the default format; a strict registry knows registered names only. -/
namespace LinkedMarkup

/-- An adapter under a name. Entries with one `serial` share one instance of it; an entry without
a serial makes its instance when it is first asked. -/
structure AdapterEntry where
  adapter : Adapter
  serial : Option Nat := none

structure AdapterRegistry where
  entries : Table AdapterEntry := []
  defaultFormat : Option String := none
  strict : Bool := false
  /-- The serial of the next instance. -/
  next : Nat := 0
  /-- Instances that were made by being asked for. -/
  made : Nat := 0

/-- No adapter answers to the format. -/
structure AdapterNotFound where
  format : String
  deriving DecidableEq, Repr

def AdapterNotFound.message (error : AdapterNotFound) : String :=
  "No output adapter for format '" ++ error.format ++ "'"

namespace AdapterRegistry

def insert (registry : AdapterRegistry) (format : String) (entry : AdapterEntry) :
    AdapterRegistry :=
  { registry with entries := registry.entries.insert (Unicode.lowerCase format) entry }

/-- Register one instance under several names. -/
def registerAs (registry : AdapterRegistry) (formats : List String) (adapter : Adapter) :
    AdapterRegistry :=
  let insertOne (registry : AdapterRegistry) (format : String) : AdapterRegistry :=
    registry.insert format ⟨adapter, some registry.next⟩
  { formats.foldl insertOne registry with next := registry.next + 1 }

def register (registry : AdapterRegistry) (adapter : Adapter) : AdapterRegistry :=
  registry.registerAs [adapter.name] adapter

/-- Register an adapter that is made when it is first asked for. -/
def registerDeferred (registry : AdapterRegistry) (format : String) (adapter : Adapter) :
    AdapterRegistry :=
  registry.insert format { adapter }

def erase (registry : AdapterRegistry) (format : String) : AdapterRegistry :=
  { registry with entries := registry.entries.erase (Unicode.lowerCase format) }

def withDefault (registry : AdapterRegistry) (format : Option String) : AdapterRegistry :=
  { registry with defaultFormat := format.map Unicode.lowerCase }

/-- JSON, YAML and plain text, with JSON as the default. -/
def standard : AdapterRegistry :=
  let registry : AdapterRegistry := {}
  ((registry.register .json).registerAs ["yaml", "yml"] .yaml).registerAs ["text", "txt"] .plainText
    |>.withDefault (some "json")

def has (registry : AdapterRegistry) (format : String) : Bool :=
  registry.entries.contains (Unicode.lowerCase format)

/-- Registered names in ascending order. -/
def formats (registry : AdapterRegistry) : List String := registry.entries.keys

/-- The first entry by name whose adapter supports the format. -/
def supporting? (registry : AdapterRegistry) (format : String) : Option String :=
  (List.find? (fun entry => entry.2.adapter.supports format) registry.entries).map (·.1)

/-- The name of the entry that answers to a format. -/
def answering? (registry : AdapterRegistry) (format : String) : Option String :=
  let name := Unicode.lowerCase format
  if registry.entries.contains name then some name
  else if registry.strict then none
  else registry.supporting? format <|> registry.defaultFormat.filter registry.entries.contains

/-- The names of the entries that are asked for their adapter until one answers. -/
def asked (registry : AdapterRegistry) (format : String) : List String :=
  let name := Unicode.lowerCase format
  if registry.entries.contains name then [name]
  else if registry.strict then []
  else
    (registry.entries.takeWhile fun entry => !entry.2.adapter.supports format).map (·.1)
      ++ (registry.answering? format).toList

/-- The registry once the entry of this name has its instance. -/
def make (registry : AdapterRegistry) (name : String) : AdapterRegistry :=
  match registry.entries.find? name with
  | some ⟨adapter, none⟩ =>
    { registry with
      entries := registry.entries.insert name ⟨adapter, some registry.next⟩
      next := registry.next + 1
      made := registry.made + 1 }
  | _ => registry

def lookup? (registry : AdapterRegistry) (format : String) : Option AdapterEntry :=
  (registry.answering? format).bind registry.entries.find?

/-- The adapter for a format. -/
def find? (registry : AdapterRegistry) (format : String) : Option Adapter :=
  (registry.lookup? format).map (·.adapter)

/-- The registry after a format was looked up. -/
def afterLookup (registry : AdapterRegistry) (format : String) : AdapterRegistry :=
  (registry.asked format).foldl make registry

def render (registry : AdapterRegistry) (format : String) (options : RenderOptions)
    (value : Value) : Except AdapterNotFound String :=
  match registry.find? format with
  | some adapter => .ok (adapter.render options value)
  | none => .error ⟨format⟩

end AdapterRegistry
end LinkedMarkup
