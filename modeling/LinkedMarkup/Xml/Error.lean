import LinkedMarkup.Position
/-! Why a text is not well-formed XML, and where. -/
namespace LinkedMarkup.Xml

inductive Fault where
  | noRoot
  | unclosedRoot
  | documentType
  | endOfText
  | declaration
  | unknownToken
  | badName
  | character (c : Char)
  | expectedMark (expected actual : Char)
  | expectedKind (expected : String) (actual : Char)
  | expectedText (expected : String)
  | comment
  | characterData
  | unknownEntity (name : String)
  | malformedReference
  | duplicateAttribute (name : String)
  | duplicateNamespace (name : String)
  | unknownNamespace (name : String)
  | closeTag (expected actual : String)
  | reservedElement
  | xmlBoundElsewhere
  | xmlUriBoundElsewhere
  | reservedUri
  deriving DecidableEq, Repr

/-- Faults of the whole text have no place. -/
structure Error where
  fault : Fault
  place : Option Position
  deriving DecidableEq, Repr

/-- The character as it would stand in a program: control characters and noncharacters by code. -/
def debugChar (c : Char) : String :=
  if c.toNat == 0 then "'\\0'"
  else "'\\u\x7b" ++ String.ofList (Nat.toDigits 16 c.toNat) ++ "\x7d'"

/-- The character with the code of the first byte of the text. -/
def firstByte (c : Char) : Char :=
  Char.ofNat (((String.singleton c).toUTF8.toList.headD 0).toNat)

/-- The message with the place written as `place`. -/
def Fault.message (place : String) : Fault → String
  | noRoot => "the document does not have a root node"
  | unclosedRoot => "the root node was opened but never closed"
  | documentType => "XML with DTD detected"
  | endOfText => "unexpected end of stream"
  | declaration => "unexpected XML declaration at " ++ place
  | unknownToken => "unknown token at " ++ place
  | badName => "invalid name token at " ++ place
  | character c => "a non-XML character " ++ debugChar c ++ " found at " ++ place
  | expectedMark expected actual =>
    "expected '" ++ String.singleton expected ++ "' not '" ++ String.singleton (firstByte actual)
      ++ "' at " ++ place
  | expectedKind expected actual =>
    "expected " ++ expected ++ " not '" ++ String.singleton (firstByte actual) ++ "' at " ++ place
  | expectedText expected => "expected '" ++ expected ++ "' at " ++ place
  | comment => "comment at " ++ place ++ " contains '--'"
  | characterData => "']]>' at " ++ place ++ " is not allowed inside a character data"
  | unknownEntity name => "unknown entity reference '" ++ name ++ "' at " ++ place
  | malformedReference => "malformed entity reference at " ++ place
  | duplicateAttribute name => "attribute '" ++ name ++ "' at " ++ place ++ " is already defined"
  | duplicateNamespace name => "namespace '" ++ name ++ "' at " ++ place ++ " is already defined"
  | unknownNamespace name => "an unknown namespace prefix '" ++ name ++ "' at " ++ place
  | closeTag expected actual =>
    "expected '" ++ expected ++ "' tag, not '" ++ actual ++ "' at " ++ place
  | reservedElement => "the 'xmlns' prefix is used at " ++ place ++ ", but it must not be"
  | xmlBoundElsewhere => "'xml' namespace prefix mapped to wrong URI at " ++ place
  | xmlUriBoundElsewhere => "the 'xml' namespace URI is used for not 'xml' prefix at " ++ place
  | reservedUri => "the 'xmlns' URI is used at " ++ place ++ ", but it must not be declared"

/-- The place of the error; the beginning of the text if it has none. -/
def Error.position (error : Error) : Position :=
  match error.place with
  | some place => ⟨place.line, place.column, 0⟩
  | none => ⟨1, 1, 0⟩

def Error.message (error : Error) : String :=
  error.fault.message (Span.mk error.position error.position).display

end LinkedMarkup.Xml
