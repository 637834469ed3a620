import LinkedMarkup.Yaml.Block
import LinkedMarkup.Yaml.Quoted
/-! The tokens of a YAML text. Indentation becomes explicit marks for the beginning and the end of
block collections. A scalar before a colon is found to be a key only at the colon; the place where
a key could begin is remembered until then. -/
namespace LinkedMarkup.Yaml

inductive Style where
  | plain
  | quoted
  | literal
  | folded
  deriving DecidableEq, Repr

inductive Token where
  | version (major minor : Nat)
  | tagDirective (handle start : String)
  | documentStart
  | documentEnd
  | blockSequence
  | blockMapping
  | blockEnd
  | flowSequence
  | flowSequenceEnd
  | flowMapping
  | flowMappingEnd
  | flowEntry
  | blockEntry
  | key
  | value
  | alias (name : String)
  | anchor (name : String)
  | tag (handle suffix : String)
  | scalar (text : String) (style : Style)
  deriving DecidableEq, Repr

/-- A place where a key may have begun: the token that would follow the key mark, the place, and
whether only a key can stand there. -/
structure KeyPlace where
  position : Nat
  index : Nat
  line : Nat
  column : Nat
  required : Bool

/-- The lexer between two tokens. -/
structure Lexer where
  cursor : Cursor
  tokens : Array Token := #[]
  /-- The column of the innermost block collection, and those around it. -/
  indent : Option Nat := none
  outer : List (Option Nat) := []
  /-- A key may begin at the next token. -/
  keyAllowed : Bool := true
  /-- The key place of the innermost open bracket, and those around it. -/
  place : Option KeyPlace := none
  outerPlaces : List (Option KeyPlace) := []

namespace Lexer

def inFlow (lexer : Lexer) : Bool := !lexer.outerPlaces.isEmpty

def push (lexer : Lexer) (token : Token) : Lexer := { lexer with tokens := lexer.tokens.push token }

/-- Give up the key place; an error if only a key could stand there. -/
def dropPlace? (lexer : Lexer) : Option Lexer :=
  if lexer.place.any (·.required) then none else some { lexer with place := none }

/-- Remember that a key may begin here. -/
def savePlace? (lexer : Lexer) : Option Lexer :=
  if !lexer.keyAllowed then some lexer
  else lexer.dropPlace?.map fun lexer =>
    let cursor := lexer.cursor
    { lexer with
      place := some ⟨lexer.tokens.size, cursor.index, cursor.line, cursor.column,
        !lexer.inFlow && lexer.indent == some cursor.column⟩ }

/-- A key stands on one line and has at most 1024 characters. -/
def expirePlaces? (lexer : Lexer) : Option Lexer :=
  let isOld (place : KeyPlace) : Bool :=
    place.line < lexer.cursor.line || place.index + 1024 < lexer.cursor.index
  let places := lexer.place :: lexer.outerPlaces
  if places.any fun place => place.any fun place => isOld place && place.required then none
  else
    let expire (place : Option KeyPlace) := place.filter fun place => !isOld place
    some { lexer with place := expire lexer.place, outerPlaces := lexer.outerPlaces.map expire }

/-- Close the block collections that stand further to the right than the column. -/
def unroll (column : Option Nat) (lexer : Lexer) : Lexer :=
  let rec close : List (Option Nat) → Lexer → Lexer
    | outer, lexer =>
      let deeper := match lexer.indent, column with
        | some indent, some column => column < indent
        | some _, none => true
        | none, _ => false
      if !deeper then lexer
      else match outer with
        | indent :: rest => close rest { lexer.push .blockEnd with indent, outer := rest }
        | [] => lexer.push .blockEnd
  if lexer.inFlow then lexer else close lexer.outer lexer

/-- Open a block collection if the column stands to the right of the current one. -/
def roll (column : Nat) (position : Option Nat) (token : Token) (lexer : Lexer) : Lexer :=
  if lexer.inFlow || lexer.indent.any (column ≤ ·) then lexer
  else
    { lexer with
      indent := some column
      outer := lexer.indent :: lexer.outer
      tokens := match position with
        | some position => lexer.tokens.insertIdxIfInBounds position token
        | none => lexer.tokens.push token }

/-- Take the next characters as a token. -/
def mark (lexer : Lexer) (token : Token) (count : Nat) : Lexer :=
  { lexer.push token with cursor := lexer.cursor.skip count }

def documentMark? (lexer : Lexer) (token : Token) : Option Lexer :=
  (lexer.unroll none).dropPlace?.map fun lexer => { lexer.mark token 3 with keyAllowed := false }

def flowStart? (lexer : Lexer) (token : Token) : Option Lexer :=
  lexer.savePlace?.map fun lexer =>
    { lexer.mark token 1 with
      keyAllowed := true, place := none, outerPlaces := lexer.place :: lexer.outerPlaces }

def flowEnd? (lexer : Lexer) (token : Token) : Option Lexer :=
  lexer.dropPlace?.map fun lexer =>
    let marked := { lexer.mark token 1 with keyAllowed := false }
    match lexer.outerPlaces with
    | place :: rest => { marked with place, outerPlaces := rest }
    | [] => marked

def flowEntry? (lexer : Lexer) : Option Lexer :=
  lexer.dropPlace?.map fun lexer => { lexer.mark .flowEntry 1 with keyAllowed := true }

def blockEntry? (lexer : Lexer) : Option Lexer :=
  if !lexer.inFlow && !lexer.keyAllowed then none
  else (lexer.roll lexer.cursor.column none .blockSequence).dropPlace?.map fun lexer =>
    { lexer.mark .blockEntry 1 with keyAllowed := true }

def key? (lexer : Lexer) : Option Lexer :=
  if !lexer.inFlow && !lexer.keyAllowed then none
  else (lexer.roll lexer.cursor.column none .blockMapping).dropPlace?.map fun lexer =>
    { lexer.mark .key 1 with keyAllowed := !lexer.inFlow }

/-- A colon makes what stands at the key place a key. -/
def value? (lexer : Lexer) : Option Lexer :=
  match lexer.place with
  | some place =>
    let keyed := { lexer with
      tokens := lexer.tokens.insertIdxIfInBounds place.position .key, place := none }
    let rolled := keyed.roll place.column (some place.position) .blockMapping
    some { rolled.mark .value 1 with keyAllowed := false }
  | none =>
    if !lexer.inFlow && !lexer.keyAllowed then none
    else
      let rolled := lexer.roll lexer.cursor.column none .blockMapping
      some { rolled.mark .value 1 with keyAllowed := !lexer.inFlow }

/-- Characters that may follow the name of an anchor. -/
def endsAnchor (cursor : Cursor) : Bool :=
  cursor.isClear 0 || cursor.holds 0 fun c =>
    c == '?' || c == ':' || c == ',' || c == ']' || c == '\x7d' || c == '%' || c == '@' ||
      c == '\x60'

def anchor? (lexer : Lexer) (token : String → Token) : Option Lexer :=
  lexer.savePlace?.bind fun lexer =>
    let start := lexer.cursor.skip 1
    let name := start.taken isWordChar
    let after := start.skip name.length
    if name.isEmpty || !endsAnchor after then none
    else some { lexer.push (token (String.ofList name)) with cursor := after, keyAllowed := false }

/-- Characters of a tag; flow marks only inside angle brackets. -/
def isTagChar (verbatim : Bool) (c : Char) : Bool :=
  isWordChar c || ";/?:@&=+$.!~*'()%".toList.contains c
    || (verbatim && (c == ',' || c == '[' || c == ']'))

/-- Percent escapes of a tag stand for bytes of UTF-8. -/
def unescapeTag? : Nat → List Char → Option (List UInt8)
  | 0, _ => some []
  | _, [] => some []
  | fuel + 1, '%' :: high :: low :: rest => do
    let high ← Json.hexDigit? high
    let low ← Json.hexDigit? low
    return UInt8.ofNat (16 * high + low) :: (← unescapeTag? fuel rest)
  | fuel + 1, c :: rest =>
    if c == '%' then none
    else (unescapeTag? fuel rest).map ((String.singleton c).toUTF8.toList ++ ·)

def tagText? (cs : List Char) : Option String :=
  (unescapeTag? cs.length cs).bind fun bytes => String.fromUTF8? ⟨bytes.toArray⟩

/-- A handle: an exclamation mark, with a name and a second mark if it is a named one. -/
def handle (cs : List Char) : List Char :=
  match cs with
  | '!' :: rest =>
    let name := rest.takeWhile isWordChar
    match rest.drop name.length with
    | '!' :: _ => '!' :: name ++ ['!']
    | _ => '!' :: name
  | _ => []

def tag? (lexer : Lexer) : Option Lexer :=
  lexer.savePlace?.bind fun lexer => do
    let cursor := lexer.cursor
    let (tagHandle, suffix, after) ←
      if cursor.rest.take 2 == ['!', '<'] then
        let text := (cursor.skip 2).taken (isTagChar true)
        let after := (cursor.skip 2).skip text.length
        if text.isEmpty || !after.shows '>' then none
        else some ("", ← tagText? text, after.skip 1)
      else
        let named := handle cursor.rest
        if named.length > 1 && named.getLast? == some '!' then
          let text := (cursor.skip named.length).taken (isTagChar false)
          if text.isEmpty then none
          else
            let rest := (cursor.skip named.length).skip text.length
            some (String.ofList named, ← tagText? text, rest)
        else
          let text := (cursor.skip named.length).taken (isTagChar false)
          let suffix := String.ofList (named.drop 1) ++ (← tagText? text)
          let after := (cursor.skip named.length).skip text.length
          if suffix.isEmpty then some ("", "!", after) else some ("!", suffix, after)
    if !(after.isClear 0 || (lexer.inFlow && after.shows ',')) then none
    else some { lexer.push (.tag tagHandle suffix) with cursor := after, keyAllowed := false }

/-- A directive line without its comment: what stands after the name. -/
def directive? (lexer : Lexer) : Option Lexer :=
  (lexer.unroll none).dropPlace?.bind fun lexer => do
    let start := lexer.cursor.skip 1
    let name := start.taken isWordChar
    let afterName := start.skip name.length
    if name.isEmpty || !afterName.isClear 0 then none
    let body := afterName.skipWhile isGap
    let (token, after) ←
      if name == "YAML".toList then
        let major := body.taken Char.isDigit
        let point := body.skip major.length
        let minor := (point.skip 1).taken Char.isDigit
        if !point.shows '.' || major.length > 9 || minor.length > 9 then none
        else some (Token.version (← Numeral.digits? major) (← Numeral.digits? minor),
          (point.skip 1).skip minor.length)
      else if name == "TAG".toList then
        let named := handle body.rest
        let afterHandle := body.skip named.length
        let text := (afterHandle.skipWhile isGap).taken (isTagChar true)
        let after := (afterHandle.skipWhile isGap).skip text.length
        if !(named == ['!'] || (named.length > 1 && named.getLast? == some '!')) then none
        else if !afterHandle.atGap || text.isEmpty || !after.isClear 0 then none
        else some (Token.tagDirective (String.ofList named) (← tagText? text), after)
      else none
    let gap := after.skipWhile isGap
    let bare := if gap.shows '#' then gap.skipWhile fun c => !isBreak c else gap
    if !bare.atLineEnd then none
    else some { lexer.push token with
      cursor := if bare.atEnd then bare else bare.skipBreak, keyAllowed := false }

def quoted? (lexer : Lexer) (single : Bool) : Option Lexer :=
  lexer.savePlace?.bind fun lexer =>
    (Quoted.read? single lexer.cursor).map fun (text, after) =>
      { lexer.push (.scalar text .quoted) with cursor := after, keyAllowed := false }

def plain? (lexer : Lexer) : Option Lexer :=
  lexer.savePlace?.bind fun lexer =>
    let least := match lexer.indent with
      | some column => column + 1
      | none => 0
    (Plain.read? lexer.inFlow least lexer.cursor).map fun (text, broken, after) =>
      { lexer.push (.scalar text .plain) with cursor := after, keyAllowed := broken }

def block? (lexer : Lexer) (literal : Bool) : Option Lexer :=
  lexer.dropPlace?.bind fun lexer =>
    (Block.read? literal lexer.indent lexer.cursor).map fun (text, after) =>
      { lexer.push (.scalar text (if literal then .literal else .folded)) with
        cursor := after, keyAllowed := true }

/-- Pass spaces, comments and line breaks. Tabs count as spaces where no key may begin. -/
def skipTurn (lexer : Lexer) : Turn Lexer :=
  let tabs := lexer.inFlow || !lexer.keyAllowed
  let spaced := lexer.cursor.skipWhile fun c => c == ' ' || (tabs && c == '\t')
  let cursor := if spaced.shows '#' then spaced.skipWhile fun c => !isBreak c else spaced
  if cursor.atBreak then
    .again { lexer with
      cursor := cursor.skipBreak, keyAllowed := lexer.keyAllowed || !lexer.inFlow }
  else .stop { lexer with cursor }

/-- Characters that begin no plain scalar. -/
def isIndicator (c : Char) : Bool := "-?:,[]\x7b\x7d#&*!|>'\x22%@\x60".toList.contains c

def beginsPlain (lexer : Lexer) : Bool :=
  let cursor := lexer.cursor
  cursor.holds 0 (fun c => !isGap c && !isIndicator c)
    || (cursor.shows '-' && !cursor.holds 1 isGap)
    || (!lexer.inFlow && (cursor.shows '?' || cursor.shows ':') && !cursor.isClear 1)

/-- Read the next token, which the next characters announce. -/
def token? (lexer : Lexer) : Option Lexer :=
  let cursor := lexer.cursor
  let clear := cursor.isClear 1
  if cursor.column == 0 && cursor.shows '%' then lexer.directive?
  else if cursor.atDocumentMark '-' then lexer.documentMark? .documentStart
  else if cursor.atDocumentMark '.' then lexer.documentMark? .documentEnd
  else match cursor.rest with
    | '[' :: _ => lexer.flowStart? .flowSequence
    | '\x7b' :: _ => lexer.flowStart? .flowMapping
    | ']' :: _ => lexer.flowEnd? .flowSequenceEnd
    | '\x7d' :: _ => lexer.flowEnd? .flowMappingEnd
    | ',' :: _ => lexer.flowEntry?
    | '*' :: _ => lexer.anchor? .alias
    | '&' :: _ => lexer.anchor? .anchor
    | '!' :: _ => lexer.tag?
    | '\'' :: _ => lexer.quoted? true
    | '\x22' :: _ => lexer.quoted? false
    | c :: _ =>
      if c == '-' && clear then lexer.blockEntry?
      else if c == '?' && (lexer.inFlow || clear) then lexer.key?
      else if c == ':' && (lexer.inFlow || clear) then lexer.value?
      else if c == '|' && !lexer.inFlow then lexer.block? true
      else if c == '>' && !lexer.inFlow then lexer.block? false
      else if lexer.beginsPlain then lexer.plain?
      else none
    | [] => none

def turn (lexer : Lexer) : Turn Lexer :=
  match repeatTurns skipTurn (lexer.cursor.rest.length + 1) lexer with
  | none => .fail
  | some lexer =>
    match lexer.expirePlaces? with
    | none => .fail
    | some lexer =>
      if lexer.cursor.atEnd then
        match (lexer.unroll none).dropPlace? with
        | some lexer => .stop lexer
        | none => .fail
      else match (lexer.unroll (some lexer.cursor.column)).token? with
        | some lexer => .again lexer
        | none => .fail

end Lexer

/-- The tokens of a text. A byte order mark may stand before it. -/
def Token.ofText? (text : String) : Option (List Token) :=
  let cs := match text.toList with
    | '\ufeff' :: rest => rest
    | cs => cs
  if !cs.all isAllowed then none
  else (repeatTurns Lexer.turn (cs.length + 2) { cursor := { rest := cs } }).map (·.tokens.toList)

end LinkedMarkup.Yaml
