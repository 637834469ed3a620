import LinkedMarkup.Xml.Error
/-! Places in an XML text and the steps over names, spaces, quotes and runs of characters. Columns
count characters from 1, offsets count bytes. -/
namespace LinkedMarkup.Xml

structure Cursor where
  rest : List Char
  position : Position := ⟨1, 1, 0⟩

abbrev Result := Except Error

def isSpace (c : Char) : Bool := c == ' ' || c == '\t' || c == '\n' || c == '\r'

def isXmlChar (c : Char) : Bool :=
  if c.toNat < 0x20 then isSpace c else c.toNat != 0xFFFE && c.toNat != 0xFFFF

/-- Characters beyond ASCII that may begin a name, as ranges with both ends. -/
def nameStartRanges : List (Nat × Nat) := [(0xC0, 0xD6), (0xD8, 0xF6), (0xF8, 0x2FF),
  (0x370, 0x37D), (0x37F, 0x1FFF), (0x200C, 0x200D), (0x2070, 0x218F), (0x2C00, 0x2FEF),
  (0x3001, 0xD7FF), (0xF900, 0xFDCF), (0xFDF0, 0xFFFD), (0x10000, 0xEFFFF)]

/-- Characters beyond ASCII that may stand in a name but not begin it. -/
def nameOnlyRanges : List (Nat × Nat) := [(0xB7, 0xB7), (0x300, 0x36F), (0x203F, 0x2040)]

def within (ranges : List (Nat × Nat)) (c : Char) : Bool :=
  ranges.any fun (first, last) => first ≤ c.toNat && c.toNat ≤ last

def isNameStart (c : Char) : Bool := c.isAlpha || c == ':' || c == '_' || within nameStartRanges c

def isNameChar (c : Char) : Bool :=
  isNameStart c || c.isDigit || c == '-' || c == '.' || within nameOnlyRanges c

/-- The place after a character. -/
def step (position : Position) (c : Char) : Position :=
  if c == '\n' then ⟨position.line + 1, 1, position.offset + 1⟩
  else ⟨position.line, position.column + 1, position.offset + c.utf8Size⟩

namespace Cursor

def pass (cursor : Cursor) (count : Nat) : Cursor :=
  ⟨cursor.rest.drop count, (cursor.rest.take count).foldl step cursor.position⟩

def error {α : Type} (cursor : Cursor) (fault : Fault) : Result α :=
  .error ⟨fault, some cursor.position⟩

def begins (cursor : Cursor) (text : String) : Bool := text.toList.isPrefixOf cursor.rest

def atEnd (cursor : Cursor) : Bool := cursor.rest.isEmpty

def atSpace (cursor : Cursor) : Bool :=
  match cursor.rest with
  | c :: _ => isSpace c
  | [] => false

def skipSpaces (cursor : Cursor) : Cursor := cursor.pass (cursor.rest.takeWhile isSpace).length

/-- The next character, which must be there. -/
def peek (cursor : Cursor) : Result Char :=
  match cursor.rest with
  | c :: _ => .ok c
  | [] => .error ⟨.endOfText, none⟩

def mark (cursor : Cursor) (expected : Char) : Result Cursor := do
  let actual ← cursor.peek
  if actual == expected then return cursor.pass 1
  else cursor.error (.expectedMark expected actual)

def word (cursor : Cursor) (expected : String) : Result Cursor :=
  if cursor.begins expected then .ok (cursor.pass expected.length)
  else cursor.error (.expectedText expected)

/-- The characters up to the first place where `stops` holds of what follows. -/
def run (stops : List Char → Bool) : List Char → List Char
  | [] => []
  | c :: rest => if !isXmlChar c || stops (c :: rest) then [] else c :: run stops rest

/-- Take a run of characters; one that XML does not allow must not come next. -/
def runUntil (cursor : Cursor) (stops : List Char → Bool) : Result (List Char × Cursor) :=
  let taken := run stops cursor.rest
  let after := cursor.pass taken.length
  match after.rest with
  | c :: _ => if isXmlChar c then .ok (taken, after) else after.error (.character c)
  | [] => .ok (taken, after)

/-- A name in which colons have no meaning. -/
def name (cursor : Cursor) : Result (String × Cursor) :=
  match cursor.rest with
  | c :: _ =>
    if isNameStart c then
      let taken := cursor.rest.takeWhile isNameChar
      .ok (String.ofList taken, cursor.pass taken.length)
    else cursor.error .badName
  | [] => cursor.error .badName

end Cursor

/-- A name with the part before its colon; that part is empty if there is none. -/
structure Name where
  space : String
  name : String
  deriving DecidableEq, Repr

def Name.text (name : Name) : String :=
  if name.space.isEmpty then name.name else name.space ++ ":" ++ name.name

/-- A name with at most one colon. -/
def Cursor.qualifiedName (cursor : Cursor) : Result (Name × Cursor) :=
  let taken := cursor.rest.takeWhile isNameChar
  let space := taken.takeWhile (· != ':')
  let (space, name) := match taken.drop space.length with
    | _ :: name => (space, name)
    | [] => ([], taken)
  let starts (cs : List Char) : Bool := cs.head?.any isNameStart
  if name.contains ':' || !starts name || !(space.isEmpty || starts space) then
    cursor.error .badName
  else .ok (⟨String.ofList space, String.ofList name⟩, cursor.pass taken.length)

/-- The equals sign and the quoted value after the name of an attribute, not yet expanded. -/
def Cursor.attributeValue (cursor : Cursor) : Result (Cursor × List Char × Cursor) := do
  let afterEquals := (← cursor.skipSpaces.mark '=').skipSpaces
  let quote ← afterEquals.peek
  if quote != '\'' && quote != '\x22' then afterEquals.error (.expectedKind "a quote" quote)
  let start := afterEquals.pass 1
  let (value, after) ← start.runUntil fun cs => cs.head? == some quote || cs.head? == some '<'
  return (start, value, ← after.mark quote)

end LinkedMarkup.Xml
