import LinkedMarkup.Binary64.Shortest
/-! How a format lays out the shortest digits of a number. -/
namespace LinkedMarkup.Binary64

/-- The decisions of one format. A number whose leading digit stands at a place from `least` to
`greatest` is written with a decimal point, all others with an exponent. -/
structure Layout where
  halfway : Halfway
  least : Option Int
  greatest : Option Int
  /-- Written after a whole number. -/
  whole : String
  /-- Written before an exponent that is not negative. -/
  plus : String
  notANumber : String
  infinity : String
  minusInfinity : String

/-- Digits with a decimal point so that the first digit stands at place `leading`. -/
def Layout.positional (layout : Layout) (digits : List Char) (leading : Int) : String :=
  if leading < 0 then
    "0." ++ String.ofList (List.replicate ((-leading).toNat - 1) '0' ++ digits)
  else
    let whole := leading.toNat + 1
    if digits.length ≤ whole then
      String.ofList (digits ++ List.replicate (whole - digits.length) '0') ++ layout.whole
    else String.ofList (digits.take whole ++ '.' :: digits.drop whole)

def Layout.exponential (layout : Layout) (digits : List Char) (leading : Int) : String :=
  let mantissa := match digits with
    | first :: second :: rest => first :: '.' :: second :: rest
    | few => few
  String.ofList mantissa ++ "e" ++ (if leading < 0 then "" else layout.plus)
    ++ Numeral.signedText leading

def Layout.write (layout : Layout) (x : Binary64) : String :=
  if x.isNaN then layout.notANumber
  else if x.isInfinite then (if x.isNegative then layout.minusInfinity else layout.infinity)
  else
    let decimal := x.shortest layout.halfway
    let digits := Nat.toDigits 10 decimal.digits
    let leading := decimal.exponent + digits.length - 1
    let inside := layout.least.all (· ≤ leading) && layout.greatest.all (leading ≤ ·)
    (if x.isNegative then "-" else "")
      ++ (if inside then layout.positional digits leading else layout.exponential digits leading)

/-- Numbers inside text: always with a decimal point, and none for a whole number. -/
def plainLayout : Layout := ⟨.up, none, none, "", "", "NaN", "inf", "-inf"⟩

def text (x : Binary64) : String := plainLayout.write x

end LinkedMarkup.Binary64
