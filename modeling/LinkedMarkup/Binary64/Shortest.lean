import LinkedMarkup.Binary64
/-! The fewest decimal digits that read back to a number. For one digit, two digits and so on the
number's two neighbours on the decimal grid are tested; the first grid with a neighbour that reads
back wins, the nearer neighbour if both do. -/
namespace LinkedMarkup.Binary64

/-- What becomes of a number halfway between its two neighbours on the chosen grid. -/
inductive Halfway where
  | up
  | even
  deriving DecidableEq, Repr

/-- A number with the distances to the ends of the interval of reals that round to it, all over
one denominator. The ends belong to the interval if the significand is even. -/
structure Interval where
  value : Nat
  below : Nat
  above : Nat
  denominator : Nat
  closed : Bool

/-- The interval of a finite nonzero number. Its lower half is shorter at a power of two. -/
def interval (x : Binary64) : Interval :=
  let m := x.significand
  let power := m == hiddenBit && x.scale > 0
  let unit := Nat.pow 2 x.scale
  ⟨4 * m * unit, (if power then unit else 2 * unit), 2 * unit, 4 * Nat.pow 2 1074, m % 2 == 0⟩

/-- `digits * 10 ^ exponent` lies in the interval. -/
def Interval.has (i : Interval) (digits : Nat) (exponent : Int) : Bool :=
  let point := digits * Nat.pow 10 exponent.toNat * i.denominator
  let grid := Nat.pow 10 (-exponent).toNat
  let low := (i.value - i.below) * grid
  let high := (i.value + i.above) * grid
  if i.closed then low ≤ point && point ≤ high else low < point && point < high

/-- The place of the leading digit: the greatest `k` with `10 ^ k ≤ value`. -/
def Interval.leading (i : Interval) : Int :=
  if i.value ≥ i.denominator then ((Nat.toDigits 10 (i.value / i.denominator)).length : Int) - 1
  else
    -- the least power of ten that is not below this ratio
    let ratio := (i.denominator + i.value - 1) / i.value
    Int.negOfNat (Nat.toDigits 10 (ratio - 1)).length

/-- The neighbour on the grid of `10 ^ exponent` that reads back, if one does. -/
def Interval.neighbour? (i : Interval) (halfway : Halfway) (exponent : Int) : Option Nat :=
  let scaled := i.value * Nat.pow 10 (-exponent).toNat
  let unit := i.denominator * Nat.pow 10 exponent.toNat
  let low := scaled / unit
  let lowHit := i.has low exponent
  let highHit := i.has (low + 1) exponent
  let twice := 2 * (scaled % unit)
  if lowHit && highHit then
    some (if twice < unit then low
      else if twice > unit then low + 1
      else match halfway with
        | .up => low + 1
        | .even => if low % 2 == 0 then low else low + 1)
  else if lowHit then some low
  else if highHit then some (low + 1)
  else none

/-- Digits without trailing zeros, the value kept. -/
def Decimal.stripZeros : Nat → Decimal → Decimal
  | 0, d => d
  | fuel + 1, d =>
    if d.digits % 10 == 0 && d.digits != 0 then stripZeros fuel ⟨d.digits / 10, d.exponent + 1⟩
    else d

/-- Search from `places` digits on; seventeen digits always read back. -/
def Interval.shortest (i : Interval) (halfway : Halfway) : Nat → Int → Decimal
  | 0, exponent =>
    let numerator := i.value * Nat.pow 10 (-exponent).toNat
    ⟨numerator / (i.denominator * Nat.pow 10 exponent.toNat), exponent⟩
  | more + 1, exponent =>
    match i.neighbour? halfway exponent with
    | some digits => Decimal.stripZeros 20 ⟨digits, exponent⟩
    | none => i.shortest halfway more (exponent - 1)

/-- The shortest decimal of a finite number; zero has the digit 0. -/
def shortest (halfway : Halfway) (x : Binary64) : Decimal :=
  if x.magnitude == 0 then ⟨0, 0⟩
  else x.interval.shortest halfway 17 x.interval.leading

end LinkedMarkup.Binary64
