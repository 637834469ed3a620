import LinkedMarkup.Text
/-! A place in a YAML text, and the classes of characters that YAML tells apart. -/
namespace LinkedMarkup.Yaml

/-- The characters to come and where the next one stands, all counted from 0. -/
structure Cursor where
  rest : List Char
  index : Nat := 0
  line : Nat := 0
  column : Nat := 0

/-- Characters that may stand in a YAML text at all. -/
def isAllowed (c : Char) : Bool :=
  let n := c.toNat
  n == 9 || n == 10 || n == 13 || (0x20 ≤ n && n ≤ 0x7E) || n == 0x85
    || (0xA0 ≤ n && n ≤ 0xFFFD) || 0x10000 ≤ n

def isBreak (c : Char) : Bool :=
  c == '\n' || c == '\r' || c == '\u0085' || c == '\u2028' || c == '\u2029'

def isGap (c : Char) : Bool := c == ' ' || c == '\t'

/-- Letters, digits, underscores and hyphens: what names of anchors and directives consist of. -/
def isWordChar (c : Char) : Bool := c.isAlphanum || c == '_' || c == '-'

namespace Cursor

def next? (cursor : Cursor) (offset : Nat) : Option Char := cursor.rest[offset]?

/-- The character at the offset satisfies the test; no character does at the end. -/
def holds (cursor : Cursor) (offset : Nat) (test : Char → Bool) : Bool :=
  (cursor.next? offset).any test

def shows (cursor : Cursor) (c : Char) : Bool := cursor.holds 0 (· == c)

def atEnd (cursor : Cursor) : Bool := cursor.rest.isEmpty

def atGap (cursor : Cursor) : Bool := cursor.holds 0 isGap

def atBreak (cursor : Cursor) : Bool := cursor.holds 0 isBreak

/-- White space, a line break or the end of the text stands at the offset. -/
def isClear (cursor : Cursor) (offset : Nat) : Bool :=
  (cursor.next? offset).all fun c => isGap c || isBreak c

/-- A line break or the end of the text comes next. -/
def atLineEnd (cursor : Cursor) : Bool := cursor.atEnd || cursor.atBreak

/-- Pass characters that are no line breaks. -/
def skip (cursor : Cursor) (count : Nat) : Cursor :=
  { cursor with
    rest := cursor.rest.drop count
    index := cursor.index + count
    column := cursor.column + count }

/-- Pass a line break; a carriage return and a line feed are one. -/
def skipBreak (cursor : Cursor) : Cursor :=
  match cursor.rest with
  | '\r' :: '\n' :: rest => ⟨rest, cursor.index + 2, cursor.line + 1, 0⟩
  | _ :: rest => ⟨rest, cursor.index + 1, cursor.line + 1, 0⟩
  | [] => cursor

/-- What the line break to come stands for: a line feed, or a line or paragraph separator. -/
def breakText (cursor : Cursor) : List Char :=
  match cursor.rest with
  | '\u2028' :: _ => ['\u2028']
  | '\u2029' :: _ => ['\u2029']
  | _ => ['\n']

/-- Pass the characters of the line that satisfy the test. -/
def skipWhile (cursor : Cursor) (test : Char → Bool) : Cursor :=
  cursor.skip (cursor.rest.takeWhile test).length

def taken (cursor : Cursor) (test : Char → Bool) : List Char := cursor.rest.takeWhile test

/-- Three equal marks at the beginning of a line, before a gap or the end. -/
def atDocumentMark (cursor : Cursor) (mark : Char) : Bool :=
  cursor.column == 0 && cursor.rest.take 3 == [mark, mark, mark] && cursor.isClear 3

def atAnyDocumentMark (cursor : Cursor) : Bool :=
  cursor.atDocumentMark '-' || cursor.atDocumentMark '.'

end Cursor

/-- Outcome of one turn of a loop. -/
inductive Turn (σ : Type) where
  | again (state : σ)
  | stop (state : σ)
  | fail

/-- Repeat a turn until it stops. `count` bounds the turns; the callers give more than the text
can need, because each turn but the last passes a character. -/
def repeatTurns {σ : Type} (turn : σ → Turn σ) : Nat → σ → Option σ
  | 0, _ => none
  | count + 1, state =>
    match turn state with
    | .again next => repeatTurns turn count next
    | .stop final => some final
    | .fail => none

end LinkedMarkup.Yaml
