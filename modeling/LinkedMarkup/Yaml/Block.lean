import LinkedMarkup.Yaml.Cursor
/-! Block scalars: literal ones keep their line breaks, folded ones join lines that are equally
indented. The head may fix the indentation and say what becomes of the final line breaks. -/
namespace LinkedMarkup.Yaml.Block

/-- What becomes of the line breaks at the end of a block scalar. -/
inductive Chomping where
  | strip
  | clip
  | keep
  deriving DecidableEq, Repr

structure Head where
  chomping : Chomping := .clip
  increment : Option Nat := none

def chomping? (c : Char) : Option Chomping :=
  if c == '+' then some .keep else if c == '-' then some .strip else none

def increment? (c : Char) : Option Nat :=
  if c.isDigit then some (c.toNat - 48) else none

/-- The two marks after the indicator come in either order; the increment is not 0. -/
def head? (cs : List Char) : Option (Head × Nat) :=
  let mark (offset : Nat) : Option Chomping := cs[offset]?.bind chomping?
  let digit (offset : Nat) : Option Nat := cs[offset]?.bind increment?
  let found : Head × Nat := match mark 0, digit 0 with
    | some chomping, _ =>
      match digit 1 with
      | some n => (⟨chomping, some n⟩, 2)
      | none => (⟨chomping, none⟩, 1)
    | none, some n =>
      match mark 1 with
      | some chomping => (⟨chomping, some n⟩, 2)
      | none => (⟨.clip, some n⟩, 1)
    | none, none => ({}, 0)
  if found.1.increment == some 0 then none else some found

/-- Blank lines and the indentation after them. `indent` is 0 while it is not known yet. -/
structure Blanks where
  cursor : Cursor
  breaks : List Char := []
  widest : Nat := 0

def blanksTurn (indent : Nat) (blanks : Blanks) : Turn Blanks :=
  let inside (cursor : Cursor) : Bool := indent == 0 || cursor.column < indent
  let spaces := (blanks.cursor.taken (· == ' ')).length
  let cursor := blanks.cursor.skip
    (if indent == 0 then spaces else min spaces (indent - blanks.cursor.column))
  let widest := max blanks.widest cursor.column
  if inside cursor && cursor.shows '\t' then .fail
  else if cursor.atBreak then
    .again ⟨cursor.skipBreak, blanks.breaks ++ cursor.breakText, widest⟩
  else .stop ⟨cursor, blanks.breaks, widest⟩

/-- Pass blank lines; the first line that is not blank fixes an unknown indentation, which is at
least `least`. -/
def blanks? (least indent : Nat) (cursor : Cursor) : Option (Nat × List Char × Cursor) :=
  (repeatTurns (blanksTurn indent) (cursor.rest.length + 1) { cursor }).map fun blanks =>
    (if indent == 0 then max (max blanks.widest least) 1 else indent, blanks.breaks, blanks.cursor)

structure Lines where
  cursor : Cursor
  /-- In reverse order. -/
  read : List Char := []
  lastBreak : List Char := []
  breaks : List Char := []
  afterGap : Bool := false

def lineTurn (literal : Bool) (indent : Nat) (lines : Lines) : Turn Lines :=
  let cursor := lines.cursor
  if cursor.column != indent || cursor.atEnd then .stop lines
  else
    let folds := !literal && lines.lastBreak == ['\n'] && !lines.afterGap && !cursor.atGap
    let held :=
      if !folds then lines.lastBreak
      else if lines.breaks.isEmpty then [' '] else []
    let line := cursor.taken fun c => !isBreak c
    let after := cursor.skip line.length
    let read := line.reverse ++ (held ++ lines.breaks).reverse ++ lines.read
    let lastBreak := if after.atEnd then [] else after.breakText
    match blanks? 0 indent after.skipBreak with
    | none => .fail
    | some (_, breaks, next) => .again ⟨next, read, lastBreak, breaks, cursor.atGap⟩

/-- Read a block scalar from its indicator on; `parent` is the column of the parent, if any. -/
def read? (literal : Bool) (parent : Option Nat) (cursor : Cursor) : Option (String × Cursor) := do
  let start := cursor.skip 1
  let (head, length) ← head? start.rest
  let gap := (start.skip length).skipWhile isGap
  let bare := if gap.shows '#' then gap.skipWhile fun c => !isBreak c else gap
  if !bare.atLineEnd then none
  let indent := match head.increment with
    | some n => parent.getD 0 + n
    | none => 0
  let least := match parent with
    | some column => column + 1
    | none => 0
  let (indent, breaks, first) ← blanks? least indent bare.skipBreak
  let lines ←
    repeatTurns (lineTurn literal indent) (first.rest.length + 2) { cursor := first, breaks }
  let final := match head.chomping with
    | .strip => []
    | .clip => lines.lastBreak
    | .keep => lines.lastBreak ++ lines.breaks
  return (String.ofList (lines.read.reverse ++ final), lines.cursor)

end LinkedMarkup.Yaml.Block
