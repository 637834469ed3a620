import LinkedMarkup.CommandLine.Variable
import LinkedMarkup.Mapping.Selector
import LinkedMarkup.Proofs.Resolution.Rehearsal
import LinkedMarkup.Proofs.Text.TextParts

namespace LinkedMarkup

namespace CommandLine
variable {arguments rest : List String} {argument name text : String} {value : Value} {value? : Option Value}
  {start bindings : Variables}

/-- The argument is a name, an equals sign and a text. White space around the name does not count. -/
def Assigns (argument name text : String) : Prop := ∃ written : List Char,
  argument.toList = written ++ '=' :: text.toList ∧ '=' ∉ written ∧ Text.trimChars written = name.toList ∧ name ≠ ""

/-- The text that the last argument for this name gives it. -/
inductive LastGiven (name text : String) : List String → Prop
  | here {argument : String} {rest : List String} (assigns : Assigns argument name text)
      (last : ∀ other ∈ rest, ∀ text, ¬ Assigns other name text) : LastGiven name text (argument :: rest)
  | before {argument : String} {rest : List String} (given : LastGiven name text rest) :
      LastGiven name text (argument :: rest)

/-! ### From the arguments to the variables -/

theorem readVariable?_eq_some_iff : readVariable? argument = some (name, value) ↔
    ∃ text, Assigns argument name text ∧ typedValue text = value := by
  rw [readVariable?, Text.cut?]
  constructor
  · intro read
    cases cut : Text.cutChars? '=' argument.toList with
    | none =>
      rw [cut] at read
      cases read
    | some parts =>
      obtain ⟨written, text⟩ := parts
      obtain ⟨plain, split⟩ := Text.cutChars?_eq_some_iff.mp cut
      rw [cut] at read
      simp only [Option.map_some, Option.ite_none_left_eq_some] at read
      obtain ⟨visible, read⟩ := read
      cases read
      refine ⟨String.ofList text, ⟨written, ?_, plain, ?_, ?_⟩, rfl⟩
      · rw [split, String.toList_ofList]
      · rw [Text.trim, String.toList_ofList, String.toList_ofList]
      · intro empty
        rw [empty] at visible
        exact visible rfl
  · rintro ⟨text, ⟨written, split, plain, trimmed, visible⟩, rfl⟩
    have same : Text.trim (String.ofList written) = name := by
      rw [Text.trim, String.toList_ofList, trimmed, String.ofList_toList]
    rw [Text.cutChars?_eq_some_iff.mpr ⟨plain, split⟩]
    simp only [Option.map_some, same, String.ofList_toList]
    rw [if_neg (by simpa using visible)]

/-- An argument gives one value to one name. -/
theorem Assigns.unique {other text' : String} (assigns : Assigns argument name text)
    (assigns' : Assigns argument other text') : other = name ∧ typedValue text' = typedValue text := by
  have read := readVariable?_eq_some_iff.mpr ⟨text', assigns', rfl⟩
  rw [readVariable?_eq_some_iff.mpr ⟨text, assigns, rfl⟩] at read
  obtain ⟨same, same'⟩ := Prod.mk.inj (Option.some.inj read)
  exact ⟨same.symm, same'.symm⟩

theorem Assigns.only {other : String} (assigns : Assigns argument name text) (different : other ≠ name) :
    ∀ text, ¬ Assigns argument other text := by
  intro text' assigns'
  exact different (assigns.unique assigns').1

theorem readVariables_cons_eq_ok_iff : readVariables (argument :: rest) start = .ok bindings ↔
    ∃ name text, Assigns argument name text ∧
      readVariables rest (start.insert name (typedValue text)) = .ok bindings := by
  rw [readVariables]
  constructor
  · intro read
    split at read
    · next name value found =>
      obtain ⟨text, assigns, rfl⟩ := readVariable?_eq_some_iff.mp found
      exact ⟨name, text, assigns, read⟩
    · cases read
  · rintro ⟨name, text, assigns, read⟩
    rw [readVariable?_eq_some_iff.mpr ⟨text, assigns, rfl⟩]
    exact read

theorem find?_of_unnamed (read : readVariables arguments start = .ok bindings)
    (unnamed : ∀ other ∈ arguments, ∀ text, ¬ Assigns other name text) : bindings.find? name = start.find? name := by
  induction arguments generalizing start with
  | nil =>
    cases read
    rfl
  | cons argument rest ih =>
    obtain ⟨other, text, assigns, read⟩ := readVariables_cons_eq_ok_iff.mp read
    obtain ⟨here, later⟩ := List.forall_mem_cons.mp unnamed
    have different : name ≠ other := by
      rintro rfl
      exact here text assigns
    rw [ih read later, Table.find?_insert, if_neg different]

theorem find?_of_lastGiven (read : readVariables arguments start = .ok bindings)
    (given : LastGiven name text arguments) : bindings.find? name = some (typedValue text) := by
  induction given generalizing start with
  | here assigns last =>
    obtain ⟨other, text', assigns', read⟩ := readVariables_cons_eq_ok_iff.mp read
    obtain ⟨rfl, same⟩ := assigns.unique assigns'
    rw [find?_of_unnamed read last, Table.find?_insert, if_pos rfl, same]
  | before given ih =>
    obtain ⟨_, _, _, read⟩ := readVariables_cons_eq_ok_iff.mp read
    exact ih read

theorem exists_lastGiven (name : String) (arguments : List String) :
    (∃ text, LastGiven name text arguments) ∨ ∀ other ∈ arguments, ∀ text, ¬ Assigns other name text := by
  induction arguments with
  | nil => exact .inr nofun
  | cons argument rest ih =>
    rcases ih with ⟨text, given⟩ | unnamed
    · exact .inl ⟨text, .before given⟩
    · by_cases here : ∃ text, Assigns argument name text
      · obtain ⟨text, assigns⟩ := here
        exact .inl ⟨text, .here assigns unnamed⟩
      · exact .inr (List.forall_mem_cons.mpr ⟨not_exists.mp here, unnamed⟩)

/-! ### From the variables to those who read them -/

theorem child?_typedValue (text segment : String) : (typedValue text).child? segment = none := by
  unfold typedValue
  split_ifs
  · rfl
  · rfl
  · split
    · rfl
    · split <;> rfl

/-- No path leads into a value from the command line. -/
theorem path?_typedValue (text path : String) :
    (typedValue text).path? path = if path = "" then some (typedValue text) else none := by
  rw [Value.path?]
  by_cases empty : path = ""
  · rw [if_pos empty, empty]
    rfl
  · rw [if_neg empty, if_neg (by simpa using empty)]
    obtain ⟨segment, rest, split⟩ := List.exists_cons_of_ne_nil (Text.splitChars_ne_nil '.' path.toList)
    rw [Text.split, split, List.map_cons, List.foldlM_cons, child?_typedValue]
    rfl

end CommandLine

namespace Variables
variable {bindings : Variables} {name first rest : String}

theorem at?_of_plain (plain : '.' ∉ name.toList) : bindings.at? name = bindings.find? name := by
  have whole : Text.cutChars? '.' name.toList = none := by
    rw [Option.eq_none_iff_forall_ne_some]
    rintro ⟨before, after⟩ cut
    apply plain
    rw [(Text.cutChars?_eq_some_iff.mp cut).2]
    exact List.mem_append_right _ List.mem_cons_self
  rw [at?, Text.cut?, whole]
  rfl

theorem at?_of_path (plain : '.' ∉ first.toList) (path : name = first ++ "." ++ rest) :
    bindings.at? name = (bindings.find? first).bind (·.path? rest) := by
  have cut : Text.cutChars? '.' name.toList = some (first.toList, rest.toList) := by
    rw [Text.cutChars?_eq_some_iff, path]
    refine ⟨plain, ?_⟩
    rw [String.toList_append, String.toList_append, List.append_assoc]
    rfl
  simp only [at?, Text.cut?, cut, Option.map_some, String.ofList_toList]

end Variables

namespace Resolver

def variableOutcome (path : String) : Option Value → Except ReferenceError Resolved
  | some value => .ok (.data value)
  | none => .error (.notFound ("var:" ++ path))

theorem ask_variable (resolver : Resolver) (session : Session) (path : String) :
    (resolver.ask .ofVariables ⟨"var", path⟩).run.alone session =
      (variableOutcome path (session.context.bindings.at? path), session) := by
  have answered : Handler.ofVariables.answer (request session ⟨"var", path⟩) =
      { outcome? := some (variableOutcome path (session.context.bindings.at? path)) } := by
    show Answer.ofOption _ ((session.context.bindings.at? path).map .data) = _
    cases session.context.bindings.at? path <;> rfl
  simp only [ask, ExceptT.run, ExceptT.mk, Program.alone, answered]
  rw [decide_eq_false (Nat.lt_irrefl 0), Bool.and_false]
  rfl

theorem fetch_variable {resolver : Resolver} (resolve : Uri → Resolving Resolved) (session : Session)
    {path : String} (served : resolver.protocols.find? "var" = some .ofVariables) :
    ((resolver.fetch resolve ⟨"var", path⟩).run.alone session).1 =
      variableOutcome path (session.context.bindings.at? path) := by
  let asked := session.note (.asked session.context.task ⟨"var", path⟩)
  have answered : (resolver.ask .ofVariables ⟨"var", path⟩).run.alone asked =
      (variableOutcome path (session.context.bindings.at? path), asked) := ask_variable resolver asked path
  rw [fetch, served]
  show ((Resolving.update _ >>= fun _ =>
    resolver.ask .ofVariables ⟨"var", path⟩ >>= expand resolver resolve).run.alone session).1 = _
  rw [Resolving.alone_bind]
  show ((resolver.ask .ofVariables ⟨"var", path⟩ >>= expand resolver resolve).run.alone asked).1 = _
  rw [Resolving.alone_bind, answered]
  cases session.context.bindings.at? path <;> rfl

/-- Nothing has been resolved before. -/
theorem resolve_variable {resolver : Resolver} {context : Context} {path : String} (fresh : context.resolving = [])
    (served : resolver.protocols.find? "var" = some .ofVariables) (room : 0 < resolver.maxDepth) :
    ((resolver.resolve ⟨"var", path⟩).run.alone { context }).1 =
      variableOutcome path (context.bindings.at? path) := by
  obtain ⟨less, depth⟩ := Nat.exists_eq_succ_of_ne_zero (Nat.ne_of_gt room)
  show ((resolver.resolveWithin (resolver.maxDepth - context.resolving.length) ⟨"var", path⟩).run.alone _).1 = _
  rw [fresh, depth, List.length_nil, Nat.sub_zero, resolveWithin]
  have passes : context.cycle? (Uri.key ⟨"var", path⟩) = none := by
    rw [Context.cycle?, fresh]
    rfl
  generalize fetched : resolver.fetch (resolver.resolveWithin less) ⟨"var", path⟩ = fetch
  have owned : (resolver.resolveBy ⟨"var", path⟩ (some fetch)).run.alone { context } =
      (fetchOwned ⟨"var", path⟩ fetch).run.alone
        (Session.onShared (·.take context.task (Uri.key ⟨"var", path⟩)) { context }) := by
    simp only [resolveBy, ExceptT.run, ExceptT.mk, Program.alone, passes]
    rfl
  rw [owned]
  show ((fetch.run.bind _).alone _).1 = _
  rw [Program.alone_bind]
  show (fetch.run.alone _).1 = _
  rw [← fetched]
  exact fetch_variable _ _ served

end Resolver

namespace CommandLine

/-- What is found under a name, by whomever reads it: as a variable of the context, by a reference, and by a
selector. -/
structure ReadsAs (bindings : Variables) (name : String) (value? : Option Value) : Prop where
  found : bindings.at? name = value?
  resolved : ∀ (resolver : Resolver) (context : Context), context.bindings = bindings → context.resolving = [] →
    resolver.protocols.find? "var" = some .ofVariables → 0 < resolver.maxDepth →
      ((resolver.resolve ⟨"var", name⟩).run.alone { context }).1 = Resolver.variableOutcome name value?
  selected : ∀ (d : Document) (around : Surroundings), around.bindings = bindings →
    (Selector.named name).select d around = (value?.map Selected.value).toList

theorem readsAs_iff : ReadsAs bindings name value? ↔ bindings.at? name = value? := by
  constructor
  · exact ReadsAs.found
  · rintro rfl
    refine ⟨rfl, ?_, ?_⟩
    · rintro resolver context rfl fresh served room
      exact Resolver.resolve_variable fresh served room
    · rintro d around rfl
      rfl

theorem exists_readVariables_iff : (∃ bindings, readVariables arguments start = .ok bindings) ↔
    ∀ argument ∈ arguments, ∃ name text, Assigns argument name text := by
  induction arguments generalizing start with
  | nil => exact ⟨fun _ => nofun, fun _ => ⟨start, rfl⟩⟩
  | cons argument rest ih =>
    rw [List.forall_mem_cons]
    constructor
    · rintro ⟨bindings, read⟩
      obtain ⟨name, text, assigns, read⟩ := readVariables_cons_eq_ok_iff.mp read
      exact ⟨⟨name, text, assigns⟩, ih.mp ⟨bindings, read⟩⟩
    · rintro ⟨⟨name, text, assigns⟩, more⟩
      obtain ⟨bindings, read⟩ := ih.mpr more
      exact ⟨bindings, readVariables_cons_eq_ok_iff.mpr ⟨name, text, assigns, read⟩⟩

/-- Which variables of the command line are read under their own names. Without a full stop the name gives the value
of the last argument for it. A full stop at its end does not count, and behind any other one nothing is found. -/
theorem variables_by_name (arguments : List String) :
    ((∃ bindings, readVariables arguments [] = .ok bindings) ↔
      ∀ argument ∈ arguments, ∃ name text, Assigns argument name text) ∧
    (∀ argument ∈ arguments, ∀ name written, Assigns argument name written → ∃ text, LastGiven name text arguments) ∧
    ∀ bindings, readVariables arguments [] = .ok bindings →
      (∀ name text, LastGiven name text arguments → '.' ∉ name.toList →
        ReadsAs bindings name (some (typedValue text))) ∧
      (∀ name text, LastGiven name text arguments → '.' ∉ name.toList →
        ReadsAs bindings (name ++ ".") (some (typedValue text))) ∧
      (∀ first rest, '.' ∉ first.toList → (rest ≠ "" ∨ ∀ text, ¬ LastGiven first text arguments) →
        ReadsAs bindings (first ++ "." ++ rest) none) := by
  refine ⟨exists_readVariables_iff, ?_, fun bindings read => ⟨?_, ?_, ?_⟩⟩
  · intro argument member name written assigns
    exact (exists_lastGiven name arguments).resolve_right fun unnamed => unnamed argument member written assigns
  · intro name text given plain
    rw [readsAs_iff, Variables.at?_of_plain plain]
    exact find?_of_lastGiven read given
  · intro name text given plain
    rw [readsAs_iff, Variables.at?_of_path plain String.append_empty.symm, find?_of_lastGiven read given,
      Option.bind_some, path?_typedValue, if_pos rfl]
  · intro first rest plain lost
    rw [readsAs_iff, Variables.at?_of_path plain rfl]
    rcases exists_lastGiven first arguments with ⟨text, given⟩ | unnamed
    · have further : rest ≠ "" := lost.resolve_right fun none => none text given
      rw [find?_of_lastGiven read given, Option.bind_some, path?_typedValue, if_neg further]
    · rw [find?_of_unnamed read unnamed]
      rfl

/-- Two arguments for one name, and a name that is followed by a full stop in the next. -/
theorem variables_by_name_repeated :
    let arguments := ["user=Ada", "n=3", " user =Bob", "n.=true"]
    ∃ bindings, readVariables arguments [] = .ok bindings ∧
      ReadsAs bindings "user" (some (.text "Bob")) ∧ ReadsAs bindings "n." (some (.int 3)) := by
  intro arguments
  have first : Assigns "user=Ada" "user" "Ada" := ⟨"user".toList, by decide +kernel⟩
  have second : Assigns "n=3" "n" "3" := ⟨"n".toList, by decide +kernel⟩
  have third : Assigns " user =Bob" "user" "Bob" := ⟨" user ".toList, by decide +kernel⟩
  have fourth : Assigns "n.=true" "n." "true" := ⟨"n.".toList, by decide +kernel⟩
  obtain ⟨accepted, _, reads⟩ := variables_by_name arguments
  obtain ⟨bindings, read⟩ : ∃ bindings, readVariables arguments [] = .ok bindings := by
    apply accepted.mpr
    simp only [arguments, List.forall_mem_cons]
    exact ⟨⟨_, _, first⟩, ⟨_, _, second⟩, ⟨_, _, third⟩, ⟨_, _, fourth⟩, nofun⟩
  obtain ⟨plain, ended, _⟩ := reads bindings read
  have user : LastGiven "user" "Bob" arguments := by
    refine .before (.before (.here third ?_))
    rw [List.forall_mem_cons]
    exact ⟨fourth.only (by decide), nofun⟩
  have n : LastGiven "n" "3" arguments := by
    refine .before (.here second ?_)
    rw [List.forall_mem_cons, List.forall_mem_cons]
    exact ⟨third.only (by decide), fourth.only (by decide), nofun⟩
  have bob : typedValue "Bob" = .text "Bob" := by rfl
  have three : typedValue "3" = .int 3 := by rfl
  refine ⟨bindings, read, ?_, ?_⟩
  · rw [← bob]
    exact plain "user" "Bob" user (by decide)
  · rw [← three]
    exact ended "n" "3" n (by decide)

/-- A name with a full stop inside is taken, and its value cannot be read. -/
theorem dotted_name_unread :
    ¬ ∀ (arguments : List String) (bindings : Variables) (name text : String),
      readVariables arguments [] = .ok bindings → LastGiven name text arguments →
        ReadsAs bindings name (some (typedValue text)) := by
  intro all
  have assigns : Assigns "a.b=1" "a.b" "1" := ⟨"a.b".toList, by decide +kernel⟩
  have read : readVariables ["a.b=1"] [] = .ok [("a.b", typedValue "1")] :=
    readVariables_cons_eq_ok_iff.mpr ⟨"a.b", "1", assigns, rfl⟩
  have found := (all ["a.b=1"] _ "a.b" "1" read (.here assigns nofun)).found
  rw [Variables.at?_of_path (by decide) (show "a.b" = "a" ++ "." ++ "b" by decide)] at found
  cases found

end CommandLine
end LinkedMarkup
