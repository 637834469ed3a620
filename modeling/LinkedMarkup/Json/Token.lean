import LinkedMarkup.Value
/-! The words of a JSON text: marks, quoted texts and bare words (numbers and the three constants).
The lexer goes over the characters once; its mode says what it stands in. -/
namespace LinkedMarkup.Json

inductive Token where
  | openArray
  | closeArray
  | openObject
  | closeObject
  | comma
  | colon
  | quoted (text : String)
  | scalar (value : Value)
  deriving Repr

/-- What the next character belongs to. Characters read so far stand in reverse order. -/
inductive Mode where
  | between
  | word (read : List Char)
  | quote (read : List Char)
  | escape (read : List Char)
  /-- Inside `\u`: the digits so far, and the first half of a surrogate pair if one came before. -/
  | unit (read : List Char) (high : Option Nat) (count value : Nat)
  /-- A first half has been read: a backslash must follow, then (`marked`) the letter u. -/
  | pair (read : List Char) (high : Nat) (marked : Bool)

def isSpace (c : Char) : Bool := c == ' ' || c == '\n' || c == '\t' || c == '\r'

def mark? (c : Char) : Option Token :=
  match c with
  | '[' => some .openArray
  | ']' => some .closeArray
  | '\x7b' => some .openObject
  | '\x7d' => some .closeObject
  | ',' => some .comma
  | ':' => some .colon
  | _ => none

def hexDigit? (c : Char) : Option Nat :=
  if c.isDigit then some (c.toNat - 48)
  else if 'a' ≤ c && c ≤ 'f' then some (c.toNat - 87)
  else if 'A' ≤ c && c ≤ 'F' then some (c.toNat - 55)
  else none

/-- Digits without a superfluous leading zero. -/
def isWhole : List Char → Bool
  | ['0'] => true
  | '0' :: _ => false
  | cs => !cs.isEmpty && cs.all Char.isDigit

/-- A number without its sign: digits, then a fraction and an exponent that both have digits. -/
def isNumber (cs : List Char) : Bool :=
  isWhole (cs.takeWhile Char.isDigit) &&
    (match cs.dropWhile Char.isDigit with
      | '.' :: d :: _ => d.isDigit
      | '.' :: [] => false
      | _ => true) &&
    (Binary64.decimal? cs).isSome

/-- Integers of 64 bits stay integers; every other number is a float, and must be finite. -/
def number? (negative : Bool) (cs : List Char) : Option Value :=
  if !isNumber cs then none
  else
    let whole := (Numeral.digits? cs).bind fun n =>
      if negative && n == 0 then none else Numeral.fit64? (if negative then -n else n)
    match whole with
    | some n => some (.int n)
    | none => ((Binary64.decimal? cs).map fun d => Binary64.ofDecimal negative d.digits d.exponent)
        |>.filter Binary64.isFinite |>.map .float

def word? (cs : List Char) : Option Value :=
  match String.ofList cs with
  | "null" => some .null
  | "true" => some (.bool true)
  | "false" => some (.bool false)
  | _ =>
    match cs with
    | '-' :: rest => number? true rest
    | _ => number? false cs

/-- The token or mode that a character begins outside words and quotes. -/
def begin (c : Char) : List Token × Mode :=
  if isSpace c then ([], .between)
  else match mark? c with
    | some mark => ([mark], .between)
    | none => if c == '\x22' then ([], .quote []) else ([], .word [c])

def endsWord (c : Char) : Bool := isSpace c || (mark? c).isSome || c == '\x22'

def escaped? (c : Char) : Option Char :=
  match c with
  | '\x22' => some '\x22'
  | '\\' => some '\\'
  | '/' => some '/'
  | 'b' => some '\x08'
  | 'f' => some '\x0c'
  | 'n' => some '\n'
  | 'r' => some '\r'
  | 't' => some '\t'
  | _ => none

/-- What follows a complete `\u` escape. Halves of surrogate pairs must stand together. -/
def unitDone (read : List Char) (high : Option Nat) (value : Nat) : Option Mode :=
  match high with
  | some first =>
    if 0xDC00 ≤ value && value ≤ 0xDFFF then
      some (.quote (Char.ofNat (0x10000 + (first - 0xD800) * 0x400 + (value - 0xDC00)) :: read))
    else none
  | none =>
    if 0xD800 ≤ value && value ≤ 0xDBFF then some (.pair read value false)
    else if 0xDC00 ≤ value && value ≤ 0xDFFF then none
    else some (.quote (Char.ofNat value :: read))

def lex : Mode → List Char → Option (List Token)
  | .between, [] => some []
  | .word read, [] => (word? read.reverse).map fun value => [.scalar value]
  | _, [] => none
  | .between, c :: rest => (lex (begin c).2 rest).map ((begin c).1 ++ ·)
  | .word read, c :: rest =>
    if endsWord c then do
      let value ← word? read.reverse
      let tokens ← lex (begin c).2 rest
      return .scalar value :: (begin c).1 ++ tokens
    else lex (.word (c :: read)) rest
  | .quote read, c :: rest =>
    if c == '\x22' then (lex .between rest).map (.quoted (String.ofList read.reverse) :: ·)
    else if c == '\\' then lex (.escape read) rest
    else if c.toNat < 0x20 then none
    else lex (.quote (c :: read)) rest
  | .escape read, c :: rest =>
    if c == 'u' then lex (.unit read none 0 0) rest
    else match escaped? c with
      | some char => lex (.quote (char :: read)) rest
      | none => none
  | .unit read high count value, c :: rest =>
    match hexDigit? c with
    | none => none
    | some digit =>
      if count < 3 then lex (.unit read high (count + 1) (16 * value + digit)) rest
      else match unitDone read high (16 * value + digit) with
        | some mode => lex mode rest
        | none => none
  | .pair read high marked, c :: rest =>
    if !marked && c == '\\' then lex (.pair read high true) rest
    else if marked && c == 'u' then lex (.unit read (some high) 0 0) rest
    else none

end LinkedMarkup.Json
