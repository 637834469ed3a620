import LinkedMarkup.Yaml.Scalar
/-! Writing YAML in block style: two spaces for each level, lists inside mappings without further
indentation, and no folding of long lines. -/
namespace LinkedMarkup.Yaml

/-- Floats as in JSON, but without a plus sign and with words for the special values. -/
def floatLayout : Binary64.Layout := ⟨.even, some (-5), some 15, ".0", "", ".nan", ".inf", "-.inf"⟩

inductive TextStyle where
  | plain
  | single
  | double
  | literal
  deriving DecidableEq, Repr

/-- Line breaks besides the line feed and the carriage return are the next line and the two Unicode
separators. -/
def isLineBreak (c : Char) : Bool :=
  c == '\n' || c == '\r' || c.toNat == 0x85 || c.toNat == 0x2028 || c.toNat == 0x2029

/-- Characters that may stand without an escape. -/
def isPrintable (c : Char) : Bool :=
  let n := c.toNat
  n == 0x0A || (0x20 ≤ n && n ≤ 0x7E)
    || (0xA0 ≤ n && n != 0xFEFF && n != 0xFFFE && n != 0xFFFF)

/-- A character of the first class stands just before one of the second. -/
def hasPair (first second : Char → Bool) : List Char → Bool
  | a :: b :: rest => (first a && second b) || hasPair first second (b :: rest)
  | _ => false

def isGapOrBreak (c : Char) : Bool := c == ' ' || c == '\t' || isLineBreak c

/-- Marks that begin something else than text, wherever they stand in front. -/
def isIndicator (c : Char) : Bool := "#,[]{}&*!|>'\"%@`".toList.contains c

/-- The text would be taken for more than one plain scalar. -/
def hasIndicators (cs : List Char) : Bool :=
  "---".toList.isPrefixOf cs || "...".toList.isPrefixOf cs
    || cs.head?.any isIndicator
    || (cs.head?.any (fun c => c == '-' || c == '?') && cs.tail.head?.all isGapOrBreak)
    || cs.getLast? == some ':' || hasPair (· == ':') isGapOrBreak cs
    || hasPair isGapOrBreak (· == '#') cs

/-- The text without quotes would be read as a text. -/
def readsAsText (text : String) : Bool :=
  match plain text with
  | .value (.text _) => !isPadded text.toList
  | _ => false

def isEdge (c : Char) : Bool := c == ' ' || isLineBreak c

def isPlain (text : String) : Bool :=
  let cs := text.toList
  readsAsText text && !cs.any isLineBreak && !cs.head?.any isEdge && !cs.getLast?.any isEdge
    && !hasIndicators cs

/-- How a text is written: plain if that reads back, several lines as a literal block, quoted
otherwise. -/
def styleOf (text : String) : TextStyle :=
  let cs := text.toList
  if cs.any (!isPrintable ·) || hasPair (· == ' ') isLineBreak cs then .double
  else if cs.contains '\n' then (if cs.getLast? == some ' ' then .double else .literal)
  else if isPlain text then .plain
  else if hasPair isLineBreak (· == ' ') cs then .double
  else .single

def upperHex (width n : Nat) : List Char :=
  let digits := (Nat.toDigits 16 n).map Char.toUpper
  List.replicate (width - digits.length) '0' ++ digits

/-- Escapes of one letter. -/
def shortEscape? (n : Nat) : Option Char :=
  [(0x00, '0'), (0x07, 'a'), (0x08, 'b'), (0x09, 't'), (0x0A, 'n'), (0x0B, 'v'), (0x0C, 'f'),
    (0x0D, 'r'), (0x1B, 'e'), (0x22, '\x22'), (0x5C, '\\'), (0x85, 'N'), (0x2028, 'L'),
    (0x2029, 'P')].lookup n

def escapeChar (c : Char) : List Char :=
  let n := c.toNat
  match shortEscape? n with
  | some letter => ['\\', letter]
  | none =>
    if isPrintable c then [c]
    else if n ≤ 0xFF then '\\' :: 'x' :: upperHex 2 n
    else if n ≤ 0xFFFF then '\\' :: 'u' :: upperHex 4 n
    else '\\' :: 'U' :: upperHex 8 n

def spaces (n : Nat) : List Char := List.replicate n ' '

/-- Lines of a literal block or a quoted text; a line that goes on is indented. `fresh` says that a
line has just begun. -/
def indentLines (indent : Nat) (spell : Char → List Char) (fresh : Bool) : List Char → List Char
  | [] => []
  | c :: rest =>
    if isLineBreak c then c :: indentLines indent spell true rest
    else (if fresh then spaces indent else []) ++ spell c ++ indentLines indent spell false rest

/-- The header of a literal block: a hint at the indentation if the text does not show it, and what
becomes of the line breaks at its end. -/
def blockHeader (cs : List Char) : List Char :=
  let hint := if cs.head?.any isEdge then ['2'] else []
  let ending := match cs.reverse with
    | last :: before :: _ =>
      if !isLineBreak last then ['-'] else if isLineBreak before then ['+'] else []
    | [last] => if isLineBreak last then ['+'] else ['-']
    | [] => ['-']
  '|' :: hint ++ ending

def writeText (indent : Nat) (text : String) : String :=
  let cs := text.toList
  match styleOf text with
  | .plain => text
  | .single =>
    let spell (c : Char) : List Char := if c == '\x27' then [c, c] else [c]
    let open? := cs.getLast?.any isLineBreak
    String.ofList ('\x27' :: indentLines indent spell false cs
      ++ (if open? then spaces indent else []) ++ ['\x27'])
  | .double => String.ofList ('\x22' :: cs.flatMap escapeChar ++ ['\x22'])
  | .literal =>
    String.ofList (blockHeader cs ++ '\n' :: indentLines indent (fun c => [c]) true cs)

def writeScalar (indent : Nat) : Value → String
  | .bool true => "true"
  | .bool false => "false"
  | .int n => Numeral.signedText n.toInt
  | .float x => floatLayout.write x
  | .text s => writeText indent s
  | .array _ => "[]"
  | .object _ => "\x7b\x7d"
  | .null => "null"

/-- The text with a line break at its end. -/
def endLine (text : String) : String :=
  if text.toList.getLast?.any isLineBreak then text else text ++ "\n"

/-- The parts of a block below each other; the first one stands where the block begins. -/
def stack (indent : Nat) (parts : List String) : String :=
  String.intercalate (String.ofList (spaces indent)) parts

/-- A key that fits before a colon: one line of at most 128 bytes. -/
def isSimpleKey (key : String) : Bool := !key.toList.any isLineBreak && key.utf8ByteSize ≤ 128

/-- A key with the mark behind it. -/
def writeKey (indent : Nat) (key : String) : String :=
  if isSimpleKey key then writeText (indent + 2) key ++ ":"
  else "? " ++ endLine (writeText (indent + 2) key) ++ String.ofList (spaces indent) ++ ":"

mutual
/-- The parts of a list or mapping whose lines begin at `indent`; none for a scalar. -/
def blockParts (indent : Nat) : Value → List String
  | .array items => itemParts indent items
  | .object entries => entryParts indent entries
  | _ => []
def itemParts (indent : Nat) : List Value → List String
  | [] => []
  | item :: rest =>
    let parts := blockParts (indent + 2) item
    ("- " ++ if parts.isEmpty then endLine (writeScalar (indent + 2) item)
      else stack (indent + 2) parts) :: itemParts indent rest
def entryParts (indent : Nat) : Table Value → List String
  | [] => []
  | (key, value) :: rest =>
    let inner := match value, isSimpleKey key with
      | .array _, true => indent
      | _, _ => indent + 2
    let parts := blockParts inner value
    (writeKey indent key ++
      if parts.isEmpty then " " ++ endLine (writeScalar (indent + 2) value)
      else if isSimpleKey key then "\n" ++ String.ofList (spaces inner) ++ stack inner parts
      else " " ++ stack inner parts) :: entryParts indent rest
end

/-- A value as a YAML text. -/
def write (value : Value) : String :=
  match blockParts 0 value with
  | [] => endLine (writeScalar 2 value)
  | parts => stack 0 parts

end LinkedMarkup.Yaml
