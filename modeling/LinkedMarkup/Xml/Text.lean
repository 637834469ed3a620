import LinkedMarkup.Json.Token
import LinkedMarkup.Xml.Cursor
/-! Character data: references are expanded; line ends become line feeds in text and spaces in
attribute values. Characters written as references are kept as they are. -/
namespace LinkedMarkup.Xml

/-- The predefined entities. -/
def entity? (name : String) : Option Char :=
  match name with
  | "quot" => some '\x22'
  | "amp" => some '&'
  | "apos" => some '\''
  | "lt" => some '<'
  | "gt" => some '>'
  | _ => none

/-- The character with a code; codes beyond Unicode stand for the replacement character. -/
def codeChar? (n : Nat) : Option Char :=
  if n ≥ Nat.pow 2 32 then none
  else
    let c := if n > 0x10FFFF || (0xD800 ≤ n && n ≤ 0xDFFF) then '\ufffd' else Char.ofNat n
    if isXmlChar c then some c else none

/-- Read a reference that begins at an ampersand. -/
def reference (cursor : Cursor) : Result (Char × Cursor) :=
  let numeric (start : Nat) (isDigit : Char → Bool) (base : Nat) : Result (Char × Cursor) :=
    let digits := (cursor.rest.drop start).takeWhile isDigit
    let value := digits.foldl (fun n c => base * n + (Json.hexDigit? c).getD 0) 0
    let after := cursor.pass (start + digits.length)
    match codeChar? value with
    | some c =>
      if digits.isEmpty || !after.begins ";" then cursor.error .malformedReference
      else .ok (c, after.pass 1)
    | none => cursor.error .malformedReference
  if cursor.begins "&#x" then numeric 3 (fun c => (Json.hexDigit? c).isSome) 16
  else if cursor.begins "&#" then numeric 2 Char.isDigit 10
  else match (cursor.pass 1).name with
    | .error _ => cursor.error .malformedReference
    | .ok (name, after) =>
      if !after.begins ";" then cursor.error .malformedReference
      else match entity? name with
        | some c => .ok (c, after.pass 1)
        | none => cursor.error (.unknownEntity name)

/-- Add a character to a text in reverse order. A carriage return is a line end, with or without a
line feed after it. -/
def addToText (read : List Char) (c : Char) (last : Bool) : List Char :=
  match read with
  | '\r' :: before =>
    if last && c == '\r' then '\n' :: '\n' :: before
    else if c == '\n' then '\n' :: before
    else c :: '\n' :: before
  | _ => if last && c == '\r' then '\n' :: read else c :: read

/-- Expand text; `verbatim` says that a reference has just been expanded, and `fuel` is at least
the number of characters. -/
def expandText : Nat → (read : List Char) → (verbatim : Bool) → Cursor → Result (List Char)
  | 0, read, _, _ => .ok read.reverse
  | fuel + 1, read, verbatim, cursor =>
    match cursor.rest with
    | [] => .ok read.reverse
    | '&' :: _ => do
      let (c, after) ← reference cursor
      expandText fuel (c :: read) true after
    | c :: rest =>
      let next := if verbatim then c :: read else addToText read c rest.isEmpty
      expandText fuel next false (cursor.pass 1)

/-- The text of a marked section, in which references are not expanded. -/
def expandSection : (read : List Char) → List Char → List Char
  | read, [] => read.reverse
  | read, c :: rest => expandSection (addToText read c rest.isEmpty) rest

def expandValue : Nat → (read : List Char) → Cursor → Result (List Char)
  | 0, read, _ => .ok read.reverse
  | fuel + 1, read, cursor =>
    match cursor.rest with
    | [] => .ok read.reverse
    | '&' :: _ => do
      let (c, after) ← reference cursor
      expandValue fuel (c :: read) after
    | '\r' :: '\n' :: _ => expandValue fuel read (cursor.pass 1)
    | c :: _ =>
      let c := if c == '\t' || c == '\n' || c == '\r' then ' ' else c
      expandValue fuel (c :: read) (cursor.pass 1)

/-- The text from `start` on that `taken` holds. -/
def textOf (start : Cursor) (taken : List Char) : Result String :=
  (expandText taken.length [] false { start with rest := taken }).map String.ofList

def valueOf (start : Cursor) (taken : List Char) : Result String :=
  (expandValue taken.length [] { start with rest := taken }).map String.ofList

end LinkedMarkup.Xml
