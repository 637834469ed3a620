import LinkedMarkup.Json.Token
import LinkedMarkup.Yaml.Cursor
/-! Scalars that share lines with other nodes: quoted ones and plain ones. Inside them a line break
is folded into one space, and further breaks are kept. -/
namespace LinkedMarkup.Yaml

/-- A scalar under way. Gaps are held back until it is known whether a line ends. -/
structure Folding where
  cursor : Cursor
  /-- In reverse order. -/
  read : List Char := []
  gap : List Char := []
  firstBreak : List Char := []
  moreBreaks : List Char := []
  broken : Bool := false

/-- Take what has been held back into the text. -/
def Folding.join (folding : Folding) : Folding :=
  let held :=
    if !folding.broken then folding.gap
    else if folding.firstBreak == ['\n'] then
      (if folding.moreBreaks.isEmpty then [' '] else folding.moreBreaks)
    else folding.firstBreak ++ folding.moreBreaks
  { folding with
    read := held.reverse ++ folding.read, gap := [], firstBreak := [], moreBreaks := [],
    broken := false }

def Folding.push (folding : Folding) (c : Char) (count : Nat) : Folding :=
  { folding with read := c :: folding.read, cursor := folding.cursor.skip count }

/-- Pass one gap character or line break. -/
def Folding.holdBack (folding : Folding) : Folding :=
  let cursor := folding.cursor
  if cursor.atGap then
    { folding with
      cursor := cursor.skip 1
      gap := if folding.broken then folding.gap else folding.gap ++ cursor.rest.take 1 }
  else if folding.broken then
    { folding with
      cursor := cursor.skipBreak, moreBreaks := folding.moreBreaks ++ cursor.breakText }
  else
    { folding with
      cursor := cursor.skipBreak, gap := [], firstBreak := cursor.breakText, broken := true }

namespace Quoted

/-- Escapes of one character inside double quotes. -/
def escape? (c : Char) : Option Char :=
  match c with
  | '0' => some '\x00'
  | 'a' => some '\x07'
  | 'b' => some '\x08'
  | 't' => some '\t'
  | '\t' => some '\t'
  | 'n' => some '\n'
  | 'v' => some '\x0b'
  | 'f' => some '\x0c'
  | 'r' => some '\r'
  | 'e' => some '\x1b'
  | ' ' => some ' '
  | '\x22' => some '\x22'
  | '/' => some '/'
  | '\\' => some '\\'
  | 'N' => some '\u0085'
  | '_' => some '\u00a0'
  | 'L' => some '\u2028'
  | 'P' => some '\u2029'
  | _ => none

/-- Escapes with hexadecimal digits, and how many. -/
def escapeLength? (c : Char) : Option Nat :=
  match c with
  | 'x' => some 2
  | 'u' => some 4
  | 'U' => some 8
  | _ => none

def codePoint? (digits : List Char) (count : Nat) : Option Char :=
  if digits.length != count then none
  else do
    let n ← digits.foldlM (fun n c => (Json.hexDigit? c).map (16 * n + ·)) 0
    if (0xD800 ≤ n && n ≤ 0xDFFF) || n > 0x10FFFF then none else some (Char.ofNat n)

def turn (single : Bool) (folding : Folding) : Turn Folding :=
  let cursor := folding.cursor
  let quote := if single then '\'' else '\x22'
  if cursor.atAnyDocumentMark || cursor.atEnd then .fail
  else if cursor.atGap || cursor.atBreak then .again folding.holdBack
  else
    let folding := folding.join
    if single && cursor.rest.take 2 == ['\'', '\''] then .again (folding.push '\'' 2)
    else if cursor.shows quote then .stop { folding with cursor := cursor.skip 1 }
    else if !single && cursor.shows '\\' then
      match cursor.next? 1 with
      | none => .fail
      | some c =>
        if isBreak c then
          .again { folding with cursor := (cursor.skip 1).skipBreak, broken := true }
        else match escape? c, escapeLength? c with
          | some char, _ => .again (folding.push char 2)
          | none, some count =>
            match codePoint? ((cursor.rest.drop 2).take count) count with
            | some char => .again (folding.push char (2 + count))
            | none => .fail
          | none, none => .fail
    else match cursor.rest with
      | c :: _ => .again (folding.push c 1)
      | [] => .fail

/-- Read a quoted scalar from its first quote on. -/
def read? (single : Bool) (cursor : Cursor) : Option (String × Cursor) :=
  let folding? := repeatTurns (turn single) (cursor.rest.length + 1) { cursor := cursor.skip 1 }
  folding?.map fun folding => (String.ofList folding.read.reverse, folding.cursor)

end Quoted

namespace Plain

def isFlowMark (c : Char) : Bool := c == ',' || c == '[' || c == ']' || c == '\x7b' || c == '\x7d'

/-- `indent` is the least column of a further line, `flow` whether brackets are open. -/
def turn (flow : Bool) (indent : Nat) (folding : Folding) : Turn Folding :=
  let cursor := folding.cursor
  let begins := folding.read.isEmpty
  if !begins && folding.broken && !cursor.atGap && !cursor.atBreak && !flow &&
      cursor.column < indent then
    .stop folding
  else if cursor.atAnyDocumentMark then .stop folding
  else if cursor.atEnd then .stop folding
  else if cursor.atGap || cursor.atBreak then
    if folding.broken && cursor.shows '\t' && cursor.column < indent then .fail
    else .again folding.holdBack
  else if cursor.shows '#' && (begins || folding.broken || !folding.gap.isEmpty) then .stop folding
  else if flow && cursor.shows ':' && cursor.holds 1 (fun c => isFlowMark c || c == '?') then .fail
  else if (cursor.shows ':' && cursor.isClear 1) || (flow && cursor.holds 0 isFlowMark) then
    .stop folding
  else match cursor.rest with
    | c :: _ => .again (folding.join.push c 1)
    | [] => .stop folding

/-- Read a plain scalar; tells also whether a line break came after its last character. -/
def read? (flow : Bool) (indent : Nat) (cursor : Cursor) : Option (String × Bool × Cursor) :=
  (repeatTurns (turn flow indent) (cursor.rest.length + 1) { cursor }).map fun folding =>
    (String.ofList folding.read.reverse, folding.broken, folding.cursor)

end Plain
end LinkedMarkup.Yaml
