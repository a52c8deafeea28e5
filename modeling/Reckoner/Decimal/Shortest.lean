/-!
# Shortest decimals

The fewest decimal digits that read back as a given binary64 number.

A finite number stands for the interval of reals that round to it.  The search
lays grids of powers of ten over that interval, the coarsest first.  On each grid
only the two neighbours of the number can be the nearest, so testing these two in
exact arithmetic is enough.

* `Interval.ofBits` is the interval of a number, given by its bits.
* `Interval.pick` is the nearest point of the unit grid inside an interval.
* `Decimal.shortest` is the result of the search.
-/

namespace Reckoner

/-- A decimal in scientific form: its digits, and the power of ten of the first. -/
structure Decimal where
  digits : List Char
  exponent : Int

namespace Decimal

/-- Which of two equally near decimals is taken. -/
inductive Tie where
  | toEven
  | awayFromZero

/-- The reals that round to a number, as numerators over one denominator. -/
structure Interval where
  low : Nat
  value : Nat
  high : Nat
  denominator : Nat
  /-- whether the two ends belong to the interval -/
  closed : Bool

namespace Interval

/-- The interval of `mantissa * 2 ^ exponent`, given in quarters of its last
    place.  Below a power of two the neighbour is half as far away. -/
def ofParts (mantissa : Nat) (exponent : Int) (narrowBelow : Bool) : Interval :=
  let scale := Nat.pow 2 (exponent - 2).toNat
  -- The ends are half a place away, or a quarter where the neighbour is that near.
  { low := (if narrowBelow then 4 * mantissa - 1 else 4 * mantissa - 2) * scale
    value := 4 * mantissa * scale
    high := (4 * mantissa + 2) * scale
    denominator := Nat.pow 2 (2 - exponent).toNat
    -- Ties are rounded to the even mantissa, so only that reaches its ends.
    closed := mantissa % 2 == 0 }

/-- The interval of the magnitude of a finite number, given by its bits. -/
def ofBits (bits : UInt64) : Interval :=
  let biased : Nat := bits.toNat / 0x10000000000000 % 0x800
  let fraction : Nat := bits.toNat % 0x10000000000000
  -- Subnormal numbers lack the first bit that all others have.
  if biased = 0 then ofParts fraction (-1074) false
  else ofParts (0x10000000000000 + fraction) ((biased : Int) - 1075) (fraction == 0 && biased > 1)

/-- The interval measured in units of a power of ten. -/
def inUnits (i : Interval) (power : Int) : Interval :=
  let scale := Nat.pow 10 (-power).toNat
  { low := i.low * scale
    value := i.value * scale
    high := i.high * scale
    denominator := i.denominator * Nat.pow 10 power.toNat
    closed := i.closed }

/-- Whether a whole number of units lies in the interval. -/
def contains (i : Interval) (n : Nat) : Bool :=
  if i.closed then i.low ≤ n * i.denominator && n * i.denominator ≤ i.high
  else i.low < n * i.denominator && n * i.denominator < i.high

/-- Whether the neighbour above the value is taken before the one below. -/
def prefersAbove (i : Interval) (tie : Tie) : Bool :=
  -- Twice the value is held against twice the middle between the two neighbours.
  let below := i.value / i.denominator
  match compare (2 * i.value) ((2 * below + 1) * i.denominator), tie with
  | .lt, _ => false
  | .gt, _ => true
  | .eq, .awayFromZero => true
  | .eq, .toEven => below % 2 == 1

/-- The nearest whole number of units in the interval, if there is one. -/
def pick (i : Interval) (tie : Tie) : Option Nat :=
  let below := i.value / i.denominator
  let above := below + 1
  match i.contains below, i.contains above with
  | false, false => none
  | true, false => some below
  | false, true => some above
  | true, true => some (if i.prefersAbove tie then above else below)

/-- The power of ten of the first digit of the value.  From one up it counts the
    digits of the whole part, below one those of the greatest integer that is less
    than the reciprocal. -/
def leadingPower (i : Interval) : Int :=
  if i.denominator ≤ i.value then
    (Nat.toDigits 10 (i.value / i.denominator)).length - 1
  else
    -(Nat.toDigits 10 ((i.denominator - 1) / i.value)).length

end Interval

/-- The scientific form of `n * 10 ^ power`. -/
def ofScaled (n : Nat) (power : Int) : Decimal :=
  let digits := Nat.toDigits 10 n
  { digits := (digits.reverse.dropWhile (· == '0')).reverse
    exponent := power + digits.length - 1 }

/-- The shortest decimal that rounds to the magnitude of a finite number other
    than zero, given by its bits; of several the nearest, and of two equally near
    ones that which `tie` says.  Seventeen digits always suffice. -/
def shortest (tie : Tie) (bits : UInt64) : Decimal :=
  let i := Interval.ofBits bits
  let lead := i.leadingPower
  -- One digit more at each place, up to seventeen.
  let found := (List.range 17).findSome? fun (place : Nat) =>
    ((i.inUnits (lead - place)).pick tie).map fun n => ofScaled n (lead - place)
  -- Otherwise the number itself: its denominator is a power of two.
  found.getD (ofScaled (i.value * Nat.pow 5 (Nat.log2 i.denominator)) (-(Nat.log2 i.denominator)))

end Decimal

end Reckoner
