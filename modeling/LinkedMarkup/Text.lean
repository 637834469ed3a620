import LinkedMarkup.Unicode.Blank
/-! Trimming, splitting and joining of text. Each operation is a function on lists of characters
with a form for strings beside it. -/
namespace LinkedMarkup.Text

def trimStart (cs : List Char) : List Char := cs.dropWhile Unicode.isBlank

def trimEnd (cs : List Char) : List Char := (cs.reverse.dropWhile Unicode.isBlank).reverse

def trimChars (cs : List Char) : List Char := trimEnd (trimStart cs)

/-- The text without the white space around it. -/
def trim (text : String) : String := String.ofList (trimChars text.toList)

/-- Nothing but white space. -/
def isBlank (text : String) : Bool := text.toList.all Unicode.isBlank

/-- The parts between the separators: one more than there are separators. -/
def splitChars (separator : Char) : List Char → List (List Char)
  | [] => [[]]
  | c :: rest =>
    if c = separator then [] :: splitChars separator rest
    else match splitChars separator rest with
      | [] => [[c]]
      | part :: parts => (c :: part) :: parts

def split (separator : Char) (text : String) : List String :=
  (splitChars separator text.toList).map String.ofList

/-- What stands before and after the first separator. -/
def cutChars? (separator : Char) : List Char → Option (List Char × List Char)
  | [] => none
  | c :: rest =>
    if c = separator then some ([], rest)
    else (cutChars? separator rest).map fun (before, after) => (c :: before, after)

def cut? (separator : Char) (text : String) : Option (String × String) :=
  (cutChars? separator text.toList).map fun (before, after) =>
    (String.ofList before, String.ofList after)

/-- What stands before and after the last separator. -/
def cutLast? (separator : Char) (text : String) : Option (String × String) :=
  (cutChars? separator text.toList.reverse).map fun (after, before) =>
    (String.ofList before.reverse, String.ofList after.reverse)

/-- Lower case of the ASCII letters; all other characters stay. -/
def asciiLower (text : String) : String := text.map Char.toLower

def join (separator : String) (parts : List String) : String := separator.intercalate parts

/-- The lines of a text. A line ends with a line feed, or a carriage return and a line feed; the
last line may lack them and is dropped if empty. -/
def lines (cs : List Char) : List (List Char) :=
  let parts := splitChars '\n' cs
  let ended := parts.dropLast.map fun line =>
    if line.getLast? = some '\r' then line.dropLast else line
  match parts.getLast? with
  | some (c :: last) => ended ++ [c :: last]
  | _ => ended

theorem splitChars_ne_nil (separator : Char) (cs : List Char) : splitChars separator cs ≠ [] := by
  cases cs with
  | nil => simp [splitChars]
  | cons c rest =>
    unfold splitChars
    split
    · simp
    · split <;> simp

end LinkedMarkup.Text
