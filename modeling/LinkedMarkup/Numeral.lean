/-! Whole numbers written in decimal digits: reading with a range, and writing. -/
namespace LinkedMarkup.Numeral

/-- The number that ASCII digits write; none if there are no digits or another character. -/
def digits? : List Char → Option Nat
  | [] => none
  | c :: cs =>
    (c :: cs).foldl (fun sum c => if c.isDigit then sum.map (10 * · + (c.toNat - 48)) else none)
      (some 0)

/-- Digits with an optional plus sign, below `bound`. -/
def unsigned? (bound : Nat) (cs : List Char) : Option Nat :=
  (digits? (match cs with | '+' :: rest => rest | _ => cs)).filter (· < bound)

/-- One more than the greatest number of 64 bits. -/
def unsignedLimit : Nat := Nat.pow 2 64

/-- One more than the greatest number of 63 bits and a sign. -/
def signedLimit : Nat := Nat.pow 2 63

/-- A number that an array index or a count may hold. -/
def index? (text : String) : Option Nat := unsigned? unsignedLimit text.toList

/-- The integer as a 64-bit word, if it fits. -/
def fit64? (n : Int) : Option Int64 :=
  if -(signedLimit : Int) ≤ n ∧ n < signedLimit then some (Int64.ofInt n) else none

/-- Digits with an optional sign, within 64 bits. -/
def signed? (cs : List Char) : Option Int64 :=
  match cs with
  | '-' :: rest => (digits? rest).bind fun n => fit64? (-n)
  | '+' :: rest => (digits? rest).bind fun n => fit64? n
  | _ => (digits? cs).bind fun n => fit64? n

def text (n : Nat) : String := String.ofList (Nat.toDigits 10 n)

def signedText (n : Int) : String :=
  if n < 0 then "-" ++ text n.natAbs else text n.natAbs

end LinkedMarkup.Numeral
