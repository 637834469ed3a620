import LinkedMarkup.Binary64.Layout
import LinkedMarkup.Table
import LinkedMarkup.Text
/-! Values carried by attributes, metadata, variables and data documents. Integers have 64 bits;
the entries of an object are a table, in ascending order of their keys. -/
namespace LinkedMarkup

inductive Value where
  | null
  | bool (b : Bool)
  | int (n : Int64)
  | float (x : Binary64)
  | text (s : String)
  | array (items : List Value)
  | object (entries : List (String × Value))
  deriving Repr, Inhabited

namespace Value

def isNull : Value → Bool
  | null => true
  | _ => false

def asBool? : Value → Option Bool
  | bool b => some b
  | _ => none

def asInt? : Value → Option Int64
  | int n => some n
  | _ => none

/-- A float, or an integer rounded to the nearest float. -/
def asFloat? : Value → Option Binary64
  | float x => some x
  | int n => some (Binary64.ofInt n.toInt)
  | _ => none

def asText? : Value → Option String
  | text s => some s
  | _ => none

def asArray? : Value → Option (List Value)
  | array items => some items
  | _ => none

def asObject? : Value → Option (Table Value)
  | object entries => some entries
  | _ => none

/-- A count, cut off at the greatest integer. -/
def ofNat (n : Nat) : Value := int (Int64.ofNat (min n (Numeral.signedLimit - 1)))

/-- The word for the kind of a value. -/
def typeName : Value → String
  | null => "null"
  | bool _ => "boolean"
  | int _ => "integer"
  | float _ => "float"
  | text _ => "string"
  | array _ => "array"
  | object _ => "object"

/-- One step into a value: an entry of an object by its key, an item of an array by its number. -/
def child? (value : Value) (segment : String) : Option Value :=
  match value with
  | object entries => Table.find? entries segment
  | array items => (Numeral.index? segment).bind (items[·]?)
  | _ => none

/-- The value at a dotted path; the empty path is the value itself. -/
def path? (value : Value) (path : String) : Option Value :=
  if path.isEmpty then some value
  else (Text.split '.' path).foldlM child? value

mutual
/-- Nesting depth of arrays and objects; scalars have depth 0. -/
def depth : Value → Nat
  | array items => 1 + depthItems items
  | object entries => 1 + depthEntries entries
  | _ => 0
def depthItems : List Value → Nat
  | [] => 0
  | item :: rest => max item.depth (depthItems rest)
def depthEntries : Table Value → Nat
  | [] => 0
  | (_, value) :: rest => max value.depth (depthEntries rest)
end

/-- The text of a scalar inside other text. -/
def scalarText : Value → String
  | bool true => "true"
  | bool false => "false"
  | int n => Numeral.signedText n.toInt
  | float x => x.text
  | text s => s
  | _ => "null"

mutual
/-- Plain text: nothing for null, one line per item and one `key: text` line per entry. -/
def toText : Value → String
  | null => ""
  | array items => Text.join "\n" (toTexts items)
  | object entries => Text.join "\n" (toLines entries)
  | scalar => scalar.scalarText
def toTexts : List Value → List String
  | [] => []
  | item :: rest => item.toText :: toTexts rest
def toLines : Table Value → List String
  | [] => []
  | (key, value) :: rest => (key ++ ": " ++ value.toText) :: toLines rest
end

mutual
/-- The value on one line, arrays in brackets and objects in braces. -/
def display : Value → String
  | array items => "[" ++ Text.join ", " (displays items) ++ "]"
  | object entries => "\x7b" ++ Text.join ", " (displayEntries entries) ++ "\x7d"
  | scalar => scalar.scalarText
def displays : List Value → List String
  | [] => []
  | item :: rest => item.display :: displays rest
def displayEntries : Table Value → List String
  | [] => []
  | (key, value) :: rest => (key ++ ": " ++ value.display) :: displayEntries rest
end

end Value
end LinkedMarkup
