import LinkedMarkup.Text
/-! Normal form of text content. On a single line runs of spaces become one space. Several lines
lose their common indentation, spaces at line ends, surplus blank lines and blank lines around the
text, and their list marks become hyphens. -/
namespace LinkedMarkup.Normalization

def isGap (c : Char) : Bool := c == ' ' || c == '\t'

/-- A carriage return before a line feed is dropped. -/
def foldLineEnds : List Char → List Char
  | '\r' :: '\n' :: rest => '\n' :: foldLineEnds rest
  | c :: rest => c :: foldLineEnds rest
  | [] => []

/-- Each run of spaces and tabs becomes one space; `inside` says that a run has begun. -/
def squeeze (inside : Bool) : List Char → List Char
  | [] => []
  | c :: rest =>
    if isGap c then (if inside then squeeze true rest else ' ' :: squeeze true rest)
    else c :: squeeze false rest

def isBlankLine (line : List Char) : Bool := line.all Unicode.isBlank

def indentation (line : List Char) : Nat := (line.takeWhile isGap).length

/-- The least indentation of the lines that are not blank. -/
def commonIndentation (lines : List (List Char)) : Nat :=
  ((lines.filter fun line => !isBlankLine line).map indentation).min?.getD 0

def dedent (indent : Nat) (line : List Char) : List Char :=
  if isBlankLine line then [] else line.drop indent

def stripEnd (line : List Char) : List Char := (line.reverse.dropWhile isGap).reverse

/-- A list mark is an asterisk or a plus sign at the beginning of a line, before a gap. -/
def hyphenate (line : List Char) : List Char :=
  match line.dropWhile isGap with
  | mark :: gap :: rest =>
    if (mark == '*' || mark == '+') && isGap gap then
      line.takeWhile isGap ++ '-' :: ' ' :: rest.dropWhile isGap
    else line
  | _ => line

/-- At most two line feeds in a row are kept; `run` counts those just before. -/
def collapse (run : Nat) : List Char → List Char
  | [] => []
  | c :: rest =>
    if c == '\n' then (if run < 2 then c :: collapse (run + 1) rest else collapse run rest)
    else c :: collapse 0 rest

def stripLineFeeds (cs : List Char) : List Char :=
  ((cs.dropWhile (· == '\n')).reverse.dropWhile (· == '\n')).reverse

/-- Lines of a text without carriage returns, before they are joined again. -/
def tidyLines (lines : List (List Char)) : List (List Char) :=
  lines.map fun line => hyphenate (stripEnd (dedent (commonIndentation lines) line))

def normalizeChars (text : List Char) : List Char :=
  let folded := foldLineEnds text
  if folded.contains '\n' then
    stripLineFeeds (collapse 0 (['\n'].intercalate (tidyLines (Text.lines folded))))
  else squeeze false folded

def normalize (text : String) : String := String.ofList (normalizeChars text.toList)

end LinkedMarkup.Normalization
