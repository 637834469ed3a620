import LinkedMarkup.Mapping.Error
import LinkedMarkup.Mapping.Selector
import LinkedMarkup.Unicode.LowerCase
/-! Selectors as text: `/`, `#id`, `$name.path`, `first(selector)`, `a/b/c`, `tag`, and any of them
with `@attribute` behind it. -/
namespace LinkedMarkup.Selector

def isNameChar (c : Char) : Bool :=
  Unicode.isAlphanumeric c || c == '-' || c == '_' || c == '.' || c == ':'

def isName (cs : List Char) : Bool := !cs.isEmpty && cs.all isNameChar

/-- What stands before and after the last `@` outside parentheses; `depth` counts the open ones. -/
def splitAttribute? (depth : Int) : List Char → Option (List Char × List Char)
  | [] => none
  | c :: rest =>
    let inside := if c == '(' then depth + 1 else if c == ')' then depth - 1 else depth
    match splitAttribute? inside rest with
    | some (base, name) => some (c :: base, name)
    | none => if c == '@' && depth == 0 then some ([], rest) else none

theorem splitAttribute?_length {depth : Int} {cs base name : List Char}
    (split : splitAttribute? depth cs = some (base, name)) :
    base.length + name.length + 1 = cs.length := by
  induction cs generalizing depth base name with
  | nil => simp [splitAttribute?] at split
  | cons c rest ih =>
    simp only [splitAttribute?] at split
    split at split
    · rename_i found
      obtain ⟨rfl, rfl⟩ := Prod.mk.inj (Option.some.inj split)
      have := ih found
      simp only [List.length_cons]
      omega
    · split at split
      · obtain ⟨rfl, rfl⟩ := Prod.mk.inj (Option.some.inj split)
        simp
      · cases split

theorem length_trimChars_le (cs : List Char) : (Text.trimChars cs).length ≤ cs.length := by
  have front : ∀ l : List Char, (l.dropWhile Unicode.isBlank).length ≤ l.length := fun l =>
    (List.dropWhile_sublist _).length_le
  have back := front (Text.trimStart cs).reverse
  simp only [List.length_reverse] at back
  simp only [Text.trimChars, Text.trimEnd, List.length_reverse]
  exact Nat.le_trans back (front cs)

def firstMark : List Char := "first(".toList

/-- The text of a selector that is neither `first(…)` nor one with an attribute. -/
def parseSimple (cs : List Char) : Except SelectorFault Selector :=
  match cs with
  | ['/'] => .ok .root
  | '#' :: name => if isName name then .ok (.id (String.ofList name)) else .error .id
  | '$' :: dotted =>
    if (Text.splitChars '.' dotted).all isName then .ok (.named (String.ofList dotted))
    else .error .variablePath
  | _ =>
    if cs.contains '/' then
      let segments := (Text.splitChars '/' (cs.dropWhile (· == '/'))).map
        (Unicode.lowerCase ∘ String.ofList)
      if segments.all fun segment => isName segment.toList then .ok (.path segments)
      else .error .pathSegment
    else if isName cs then .ok (.tag (Unicode.lowerCase (String.ofList cs)))
    else .error .tagName

/-- Read a selector; white space around it and around its parts does not count. -/
def parseChars (text : List Char) : Except MappingError Selector :=
  let cs := Text.trimChars text
  let refuse (fault : SelectorFault) : MappingError := .invalidSelector (String.ofList cs) fault
  if cs.isEmpty then .error (refuse .empty)
  else
    match _ : splitAttribute? 0 cs with
    | some (base, name) =>
      if base.isEmpty then .error (refuse .noBase)
      else if !isName name then .error (refuse .attributeName)
      else
        match parseChars base with
        | .ok selector => .ok (.attr selector (String.ofList name))
        | .error e => .error e
    | none =>
      if _ : firstMark.isPrefixOf cs then
        if (cs.drop 6).getLast? == some ')' then
          match parseChars (cs.drop 6).dropLast with
          | .ok selector => .ok (.first selector)
          | .error e => .error e
        else .error (refuse .parenthesis)
      else (parseSimple cs).mapError refuse
termination_by text.length
decreasing_by
  · rename_i found _ _
    have parts := splitAttribute?_length found
    have whole : (Text.trimChars text).length ≤ text.length := length_trimChars_le text
    have same : cs.length = (Text.trimChars text).length := rfl
    omega
  · have whole : (Text.trimChars text).length ≤ text.length := length_trimChars_le text
    have same : cs.length = (Text.trimChars text).length := rfl
    rename_i marked _
    have long : firstMark.length ≤ cs.length := (List.isPrefixOf_iff_prefix.mp marked).length_le
    have six : firstMark.length = 6 := by decide
    simp only [List.length_dropLast, List.length_drop]
    omega

def parse (text : String) : Except MappingError Selector := parseChars text.toList

def display : Selector → String
  | .root => "/"
  | .id name => "#" ++ name
  | .named name => "$" ++ name
  | .first selector => "first(" ++ selector.display ++ ")"
  | .path segments => Text.join "/" segments
  | .tag name => name
  | .attr base name => base.display ++ "@" ++ name

end LinkedMarkup.Selector
