import Reckoner.Decimal.Shortest

/-!
# Laying out decimals

How a binary64 number is written, given the decisions of an output format: where
the positional form ends, whether an integer keeps its point, how an exponent
looks, and what stands for a value that is no finite number.

* `Decimal.Layout` holds the decisions of one format.
* `Decimal.Layout.render` writes a number.
-/

namespace Reckoner.Decimal

/-- The decisions of a format for numbers. -/
structure Layout where
  /-- which powers of ten of the first digit are written without an exponent -/
  positional : Int → Bool
  /-- whether an integer in positional form ends in `.0` -/
  pointZero : Bool
  /-- whether a positive exponent has a sign -/
  plusSign : Bool
  tie : Tie
  nan : String
  infinity : String
  negativeInfinity : String

/-- The positional form of a decimal. -/
def positionalText (pointZero : Bool) (d : Decimal) : List Char :=
  if d.exponent < 0 then
    -- Zeros fill the places between the point and the first digit.
    '0' :: '.' :: (List.replicate (-d.exponent - 1).toNat '0' ++ d.digits)
  else
    let whole := d.exponent.toNat + 1
    -- Zeros fill up the places in front of the point.
    let digits := d.digits ++ List.replicate (whole - d.digits.length) '0'
    let fraction := digits.drop whole
    if fraction.isEmpty then
      digits ++ if pointZero then ['.', '0'] else []
    else
      digits.take whole ++ '.' :: fraction

/-- The scientific form of a decimal. -/
def scientificText (plusSign : Bool) (d : Decimal) : List Char :=
  let fraction := d.digits.drop 1
  let sign := if d.exponent < 0 then ['-'] else if plusSign then ['+'] else []
  d.digits.take 1 ++ (if fraction.isEmpty then [] else '.' :: fraction)
    ++ 'e' :: (sign ++ Nat.toDigits 10 d.exponent.natAbs)

namespace Layout

/-- The text of a decimal without its sign. -/
def renderDecimal (l : Layout) (d : Decimal) : List Char :=
  if l.positional d.exponent then positionalText l.pointZero d
  else scientificText l.plusSign d

/-- The text of a number. -/
def render (l : Layout) (x : Float) : String :=
  if x.isNaN then l.nan
  else
    -- The sign is the first bit, so that a negative zero keeps its sign.
    let negative := x.toBits ≥ 0x8000000000000000
    if x.isInf then
      if negative then l.negativeInfinity else l.infinity
    else
      -- A zero has no shortest decimal: every interval of the search needs a first digit.
      let d := if x == 0 then ⟨['0'], 0⟩ else shortest l.tie x.toBits
      String.ofList ((if negative then ['-'] else []) ++ l.renderDecimal d)

end Layout

end Reckoner.Decimal
