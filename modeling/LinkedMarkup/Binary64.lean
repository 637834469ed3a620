import LinkedMarkup.Numeral
/-! Binary floating-point numbers of 64 bits, kept as their bits. A decimal is read by rounding the
exact ratio once, to the nearest number and to the even neighbour from halfway. -/
namespace LinkedMarkup

structure Binary64 where
  bits : UInt64
  deriving DecidableEq, Repr, Inhabited

namespace Binary64

/-- The place of the sign. -/
def signBit : Nat := Nat.pow 2 63

/-- The leading bit of a significand, which only the scale tells. -/
def hiddenBit : Nat := Nat.pow 2 52

def isNegative (x : Binary64) : Bool := x.bits.toNat / signBit == 1

/-- All bits but the sign. -/
def magnitude (x : Binary64) : Nat := x.bits.toNat % signBit

/-- The magnitude of the infinities. -/
def infinite : Nat := 2047 * hiddenBit

def isInfinite (x : Binary64) : Bool := x.magnitude == infinite

def isNaN (x : Binary64) : Bool := x.magnitude > infinite

def isFinite (x : Binary64) : Bool := x.magnitude < infinite

/-- A finite magnitude stands for `significand * 2 ^ (scale - 1074)`. -/
def significand (x : Binary64) : Nat :=
  if x.magnitude < hiddenBit then x.magnitude else x.magnitude % hiddenBit + hiddenBit

def scale (x : Binary64) : Nat := x.magnitude / hiddenBit - 1

def ofMagnitude (negative : Bool) (magnitude : Nat) : Binary64 :=
  ⟨UInt64.ofNat (if negative then signBit + magnitude else magnitude)⟩

def infinity (negative : Bool) : Binary64 := ofMagnitude negative infinite

def nan : Binary64 := ⟨0x7FF8000000000000⟩

/-- The nearest natural number to a ratio; from halfway the even one. -/
def roundRatio (numerator denominator : Nat) : Nat :=
  let quotient := numerator / denominator
  let twice := 2 * (numerator % denominator)
  if twice < denominator || (twice == denominator && quotient % 2 == 0) then quotient
  else quotient + 1

/-- The magnitude nearest to a positive ratio. With `scale` chosen so that the significand has 53
bits, or at the least scale, the significand added to `scale * 2 ^ 52` is the magnitude, and a
carry out of the significand passes into the exponent. -/
def nearest (numerator denominator : Nat) : Nat :=
  let guess : Int := (numerator.log2 : Int) - denominator.log2 - 53
  let scaled (q : Int) : Nat × Nat :=
    if q < 0 then (numerator * Nat.pow 2 (-q).toNat, denominator)
    else (numerator, denominator * Nat.pow 2 q.toNat)
  let q := if (scaled (guess + 1)).1 ≥ hiddenBit * (scaled (guess + 1)).2 then guess + 1 else guess
  let q := max q (-1074)
  let ratio := scaled q
  min infinite ((q + 1074).toNat * hiddenBit + roundRatio ratio.1 ratio.2)

/-- The number nearest to `digits * 10 ^ exponent`. Ratios beyond the range of all numbers are
settled by their size, so an exponent of any length is read quickly. -/
def ofDecimal (negative : Bool) (digits : Nat) (exponent : Int) : Binary64 :=
  let leading := exponent + (Nat.toDigits 10 digits).length
  if digits == 0 || leading < -330 then ofMagnitude negative 0
  else if leading > 310 then infinity negative
  else if exponent < 0 then ofMagnitude negative (nearest digits (Nat.pow 10 exponent.natAbs))
  else ofMagnitude negative (nearest (digits * Nat.pow 10 exponent.natAbs) 1)

def ofInt (n : Int) : Binary64 := ofDecimal (n < 0) n.natAbs 0

/-- Digits, with a decimal point among or around them, as one number and a power of ten. -/
structure Decimal where
  digits : Nat
  exponent : Int
  deriving DecidableEq, Repr

/-- Read `digits`, `digits.digits`, `digits.` or `.digits` and an optional exponent. -/
def decimal? (cs : List Char) : Option Decimal := do
  let whole := cs.takeWhile Char.isDigit
  let afterWhole := cs.dropWhile Char.isDigit
  let (fraction, afterFraction) := match afterWhole with
    | '.' :: rest => (rest.takeWhile Char.isDigit, rest.dropWhile Char.isDigit)
    | _ => ([], afterWhole)
  let digits ← Numeral.digits? (whole ++ fraction)
  let exponent : Int ← match afterFraction with
    | [] => some 0
    | mark :: rest =>
      if mark == 'e' || mark == 'E' then
        match rest with
        | '-' :: power => (Numeral.digits? power).map fun n => -(n : Int)
        | '+' :: power => (Numeral.digits? power).map fun n => (n : Int)
        | power => (Numeral.digits? power).map fun n => (n : Int)
      else none
  return ⟨digits, exponent - fraction.length⟩

/-- Read a number by the widest rule: a sign, then a decimal or a word for a special value. -/
def ofChars? (cs : List Char) : Option Binary64 :=
  let (negative, rest) := match cs with
    | '-' :: rest => (true, rest)
    | '+' :: rest => (false, rest)
    | _ => (false, cs)
  let word := String.ofList (rest.map Char.toLower)
  if word == "inf" || word == "infinity" then some (infinity negative)
  else if word == "nan" then some nan
  else (decimal? rest).map fun d => ofDecimal negative d.digits d.exponent

end Binary64
end LinkedMarkup
