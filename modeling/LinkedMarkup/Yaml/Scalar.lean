import LinkedMarkup.Binary64
import LinkedMarkup.Value
import LinkedMarkup.Yaml.Tree
/-! What the nodes of a YAML text stand for. A plain scalar without a tag is null, a truth value, an
integer, a float or text, tried in this order. -/
namespace LinkedMarkup.Yaml

/-- What a plain scalar may stand for besides text. -/
inductive Reading where
  | none
  | value (value : Value)
  /-- An integer that no number of the library can hold. -/
  | tooLarge

def isNull (text : String) : Bool :=
  text == "null" || text == "Null" || text == "NULL" || text == "~"

def bool? (text : String) : Option Bool :=
  if text == "true" || text == "True" || text == "TRUE" then some true
  else if text == "false" || text == "False" || text == "FALSE" then some false
  else none

/-- A zero with more digits after it is text, not a number. -/
def isPadded (cs : List Char) : Bool :=
  let unsigned := match cs with
    | '-' :: rest | '+' :: rest => rest
    | _ => cs
  match unsigned with
  | '0' :: rest => !rest.isEmpty && rest.all Char.isDigit
  | _ => false

def digitIn? (base : Nat) (c : Char) : Option Nat := (Json.hexDigit? c).filter (· < base)

def natural? (base : Nat) (cs : List Char) : Option Nat :=
  if cs.isEmpty then none else cs.foldlM (fun n c => (digitIn? base c).map (base * n + ·)) 0

/-- Digits in the base that a mark announces, or in base ten. -/
def magnitude? (cs : List Char) : Option Nat :=
  let based := match cs with
    | '0' :: 'x' :: rest => natural? 16 rest
    | '0' :: 'o' :: rest => natural? 8 rest
    | '0' :: 'b' :: rest => natural? 2 rest
    | _ => none
  based <|> (if isPadded cs then none else natural? 10 cs)

def integer? (cs : List Char) : Option Int :=
  match cs with
  | '+' :: rest => (magnitude? rest).map (↑·)
  | '-' :: rest => (magnitude? rest).map fun n => -(n : Int)
  | _ => (magnitude? cs).map (↑·)

/-- Integers of 64 bits are kept; larger ones are floats up to 64 bits without a sign and from 128
bits on, and cannot be held in between. -/
def integer (text : String) : Reading :=
  match integer? text.toList with
  | none => .none
  | some n =>
    match Numeral.fit64? n with
    | some word => .value (.int word)
    | none =>
      if 0 ≤ n && n < Numeral.unsignedLimit then .value (.float (.ofInt n))
      else if -(Nat.pow 2 127 : Int) ≤ n && n < Nat.pow 2 128 then .tooLarge
      else .none

def float? (text : String) : Option Binary64 :=
  let unsigned := match text.toList with
    | '+' :: '-' :: _ | '+' :: '+' :: _ => none
    | '+' :: rest => some rest
    | cs => some cs
  unsigned.bind fun cs =>
    let word := String.ofList cs
    if word == ".inf" || word == ".Inf" || word == ".INF" then some (.infinity false)
    else if text == "-.inf" || text == "-.Inf" || text == "-.INF" then some (.infinity true)
    else if text == ".nan" || text == ".NaN" || text == ".NAN" then some .nan
    else (Binary64.ofChars? cs).filter Binary64.isFinite

/-- What a plain scalar without a tag stands for. -/
def plain (text : String) : Reading :=
  if text.isEmpty || isNull text then .value .null
  else match bool? text with
    | some b => .value (.bool b)
    | none =>
      match integer text with
      | .none =>
        match (if isPadded text.toList then none else float? text) with
        | some x => .value (.float x)
        | none => .value (.text text)
      | reading => reading

/-- Tags with an exclamation mark and a name belong to the application; no value has one. -/
def isLocal (tag : String) : Bool := tag.startsWith "!"

def coreTag (name : String) : String := "tag:yaml.org,2002:" ++ name

def scalarValue? (text : String) (style : Style) (tag : Option String) : Option Value :=
  let held (reading : Reading) : Option Value := match reading with
    | .value value => some value
    | _ => none
  match tag with
  | none => if style == .plain then held (plain text) else some (.text text)
  | some tag =>
    if isLocal tag then none
    else if tag == coreTag "bool" then (bool? text).map .bool
    else if tag == coreTag "int" then held (integer text)
    else if tag == coreTag "float" then (float? text).map .float
    else if tag == coreTag "null" then (if isNull text then some .null else none)
    else some (.text text)

namespace Tree

/-- Sequences and mappings may be nested this deep. -/
def nestingLimit : Nat := 128

mutual
/-- The value of a node; keys must be text, and of several entries under one key the last counts.
`levels` is how deep sequences and mappings may still be nested. -/
def value? (levels : Nat) : Tree → Option Value
  | .scalar text style tag => scalarValue? text style tag
  | .sequence items tag =>
    if tag.any isLocal || levels == 0 then none
    else (values? (levels - 1) items).map .array
  | .mapping entries tag =>
    if tag.any isLocal || levels == 0 then none
    else (entries? (levels - 1) [] entries).map .object
def values? (levels : Nat) : List Tree → Option (List Value)
  | [] => some []
  | item :: rest =>
    match value? levels item, values? levels rest with
    | some value, some values => some (value :: values)
    | _, _ => none
def entries? (levels : Nat) (table : Table Value) : List (Tree × Tree) → Option (Table Value)
  | [] => some table
  | (key, item) :: rest =>
    match value? levels key, value? levels item with
    | some (.text name), some value => entries? levels (table.insert name value) rest
    | _, _ => none
end

/-- The text of a scalar as it is written, where text is expected. -/
def text? : Tree → Option String
  | .scalar text _ _ => some text
  | _ => none

/-- The items where a list is expected; nothing at all is an empty list. -/
def items? : Tree → Option (List Tree)
  | .sequence items _ => some items
  | .scalar "" .plain _ => some []
  | _ => none

/-- The fields where a record is expected: keys are text and stand once. -/
def fields? (tree : Tree) : Option (List (String × Tree)) :=
  match tree with
  | .mapping entries _ => entries.mapM fun (key, value) => key.text?.map fun name => (name, value)
  | .scalar "" .plain _ => some []
  | _ => none

/-- Nothing where a value is optional. -/
def isAbsent : Tree → Bool
  | .scalar text .plain none => text.isEmpty || isNull text
  | .scalar text .plain (some tag) => tag == coreTag "null" && isNull text
  | _ => false

/-- A truth value where one is expected. -/
def flag? : Tree → Option Bool
  | .scalar text .plain _ => bool? text
  | .scalar text .literal (some tag) => if tag == coreTag "bool" then bool? text else none
  | _ => none

end Tree

/-- The value of a YAML text. -/
def read? (text : String) : Option Value :=
  (Tree.ofText? text).bind (Tree.value? Tree.nestingLimit)

end LinkedMarkup.Yaml
