import LinkedMarkup.Value
/-! Writing JSON, on one line or with two spaces of indentation per level. -/
namespace LinkedMarkup.Json

/-- Floats keep a fraction digit, have an exponent outside 1e-5 to 1e16, and are null if they are
not finite. -/
def floatLayout : Binary64.Layout := ⟨.even, some (-5), some 15, ".0", "+", "null", "null", "null"⟩

def lowerHex (n : Nat) : Char := (Nat.toDigits 16 n).headD '0'

/-- Quotes, backslashes and control characters are escaped. -/
def escapeChar (c : Char) : List Char :=
  if c == '\x22' then ['\\', '\x22']
  else if c == '\\' then ['\\', '\\']
  else if c == '\x08' then ['\\', 'b']
  else if c == '\x0c' then ['\\', 'f']
  else if c == '\n' then ['\\', 'n']
  else if c == '\r' then ['\\', 'r']
  else if c == '\t' then ['\\', 't']
  else if c.toNat < 0x20 then
    ['\\', 'u', '0', '0', lowerHex (c.toNat / 16), lowerHex (c.toNat % 16)]
  else [c]

def quote (text : String) : String :=
  String.ofList ('\x22' :: text.toList.flatMap escapeChar ++ ['\x22'])

/-- White space around the marks: none at all, or line breaks with the given indentation. -/
structure Spacing where
  pretty : Bool
  level : Nat := 0

def Spacing.deeper (spacing : Spacing) : Spacing := { spacing with level := spacing.level + 1 }

def Spacing.break (spacing : Spacing) : String :=
  if spacing.pretty then "\n" ++ String.ofList (List.replicate (2 * spacing.level) ' ') else ""

def Spacing.afterColon (spacing : Spacing) : String := if spacing.pretty then " " else ""

/-- Parts between two marks, separated by commas, or the marks alone. -/
def Spacing.enclose (spacing : Spacing) (first last : String) (parts : List String) : String :=
  if parts.isEmpty then first ++ last
  else first ++ spacing.deeper.break ++ Text.join ("," ++ spacing.deeper.break) parts
    ++ spacing.break ++ last

def writeScalar : Value → String
  | .bool true => "true"
  | .bool false => "false"
  | .int n => Numeral.signedText n.toInt
  | .float x => floatLayout.write x
  | .text s => quote s
  | _ => "null"

mutual
def write (spacing : Spacing) : Value → String
  | .array items => spacing.enclose "[" "]" (writeItems spacing.deeper items)
  | .object entries => spacing.enclose "\x7b" "\x7d" (writeEntries spacing.deeper entries)
  | scalar => writeScalar scalar
def writeItems (spacing : Spacing) : List Value → List String
  | [] => []
  | item :: rest => write spacing item :: writeItems spacing rest
def writeEntries (spacing : Spacing) : Table Value → List String
  | [] => []
  | (key, value) :: rest =>
    (quote key ++ ":" ++ spacing.afterColon ++ write spacing value) :: writeEntries spacing rest
end

def compact (value : Value) : String := write ⟨false, 0⟩ value

def pretty (value : Value) : String := write ⟨true, 0⟩ value

end LinkedMarkup.Json
