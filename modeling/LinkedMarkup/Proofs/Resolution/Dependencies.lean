import LinkedMarkup.Proofs.Resolution.OpenReferences
import Mathlib.Data.List.TakeWhile
import Mathlib.Logic.Relation

namespace LinkedMarkup

/-- Two contexts in which handlers are asked the same and failures are reported alike. -/
structure Context.Fellow (first second : Context) : Prop where
  ids : second.ids = first.ids
  bindings : second.bindings = first.bindings
  mode : second.mode = first.mode
  file : second.file = first.file

namespace Context.Fellow
variable {first second third : Context}

theorem refl (context : Context) : context.Fellow context := ⟨rfl, rfl, rfl, rfl⟩

theorem trans (one : first.Fellow second) (other : second.Fellow third) : first.Fellow third :=
  ⟨other.ids.trans one.ids, other.bindings.trans one.bindings, other.mode.trans one.mode,
    other.file.trans one.file⟩

end Context.Fellow

/-- A key closes no cycle as long as it is not being resolved. -/
theorem Context.cycle?_eq_none_iff {context : Context} {key : String} :
    context.cycle? key = none ↔ key ∉ context.resolving := by
  have nothing : context.resolving.dropWhile (· != key) = [] ↔ key ∉ context.resolving := by
    rw [List.dropWhile_eq_nil_iff]
    refine ⟨fun passed member => by simpa using passed key member, fun absent other member => ?_⟩
    have different : other ≠ key := fun same => absent (same ▸ member)
    simpa using different
  rw [cycle?, ← nothing]
  split
  · rename_i empty
    exact ⟨fun _ => empty, fun _ => rfl⟩
  · rename_i closed
    exact ⟨nofun, fun empty => absurd empty closed⟩

theorem Protocols.mem_of_find? {protocols : Protocols} {protocol : String} {handler : Handler}
    (found : protocols.find? protocol = some handler) : handler ∈ protocols.handlers :=
  List.mem_of_find?_eq_some found

namespace Resolver
variable {resolver : Resolver} {context : Context} {uri : Uri}

def answer? (resolver : Resolver) (context : Context) (uri : Uri) : Option Answer :=
  (resolver.protocols.find? uri.protocol).map (·.answer (request ⟨{}, context⟩ uri))

theorem request_of_fellow {session : Session} (fellow : context.Fellow session.context)
    (uri : Uri) : request session uri = request ⟨{}, context⟩ uri := by
  simp only [request, Context.directory, fellow.ids, fellow.bindings, fellow.file]

theorem answer?_of_find {handler : Handler} {session : Session}
    (found : resolver.protocols.find? uri.protocol = some handler)
    (fellow : context.Fellow session.context) :
    resolver.answer? context uri = some (handler.answer (request session uri)) := by
  rw [answer?, found, request_of_fellow fellow]
  rfl

theorem answer?_eq_none : resolver.answer? context uri = none ↔
    resolver.protocols.find? uri.protocol = none := Option.map_eq_none_iff

/-- The value of a reference before it is expanded: the one that is known, or else the one that the
handler finds if no failure is known. -/
def found? (resolver : Resolver) (session : Session) (uri : Uri) : Option Resolved :=
  match session.shared.results.find? uri.key, session.shared.failures.find? uri.key with
  | some value, _ => some value
  | none, some _ => none
  | none, none => (resolver.answer? session.context uri).bind fun answer =>
    answer.outcome?.bind Except.toOption

/-- The value of the first reference has the second one open. -/
def Leads (resolver : Resolver) (session : Session) (first second : Uri) : Prop :=
  ∃ value, resolver.found? session first = some value ∧ second ∈ value.opens

/-- The references that others lead to, and those others. -/
def InPlay (resolver : Resolver) (session : Session) (others : List Uri) (uri : Uri) : Prop :=
  ∃ first ∈ others, Relation.ReflTransGen (resolver.Leads session) first uri

theorem InPlay.leads {session : Session} {others : List Uri} {next : Uri}
    (played : resolver.InPlay session others uri) (leads : resolver.Leads session uri next) :
    resolver.InPlay session others next := by
  obtain ⟨first, member, path⟩ := played
  exact ⟨first, member, path.tail leads⟩

/-- A cycle can be reached from the reference. -/
def Doomed (resolver : Resolver) (session : Session) (uri : Uri) : Prop :=
  ∃ again, Relation.ReflTransGen (resolver.Leads session) uri again ∧
    Relation.TransGen (resolver.Leads session) again again

theorem Doomed.leads {session : Session} (doomed : resolver.Doomed session uri) :
    ∃ next, resolver.Leads session uri next ∧ resolver.Doomed session next := by
  obtain ⟨again, path, cycle⟩ := doomed
  rcases path.cases_head with rfl | ⟨next, leads, rest⟩
  · obtain ⟨next, leads, rest⟩ := Relation.TransGen.head'_iff.mp cycle
    exact ⟨next, leads, uri, rest, cycle⟩
  · exact ⟨next, leads, again, rest, cycle⟩

/-- Handlers answer, and before any limit of time. -/
structure Prompt (resolver : Resolver) (context : Context) : Prop where
  answers : ∀ {uri answer}, resolver.answer? context uri = some answer → answer.outcome? ≠ none
  inTime : ∀ {uri answer}, resolver.answer? context uri = some answer → resolver.timeout = 0 →
    answer.turns = 0

def constant (answer : Answer) : Resolver :=
  { protocols := ⟨[{ name := "constant", handles := fun _ => true, answer := fun _ => answer }]⟩ }

end Resolver
end LinkedMarkup
