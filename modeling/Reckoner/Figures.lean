import Reckoner.Decimal.Layout

/-!
# Figures

How binary64 numbers are written for people.  Both forms have the fewest digits
that read back.

* `valueText` is for results: plain digits, never an exponent.
* `argumentText` is for arguments: always with a fraction or an exponent, so that
  an argument is never taken for an integer.
-/

namespace Reckoner

/-- Results are positional throughout, and an integer has no point. -/
def valueLayout : Decimal.Layout where
  positional _ := true
  pointZero := false
  plusSign := false
  tie := .awayFromZero
  nan := "NaN"
  infinity := "inf"
  negativeInfinity := "-inf"

/-- The text of a result. -/
def valueText (value : Float) : String :=
  valueLayout.render value

/-- Arguments are positional from `10 ^ (-4)` up to `10 ^ 16`, and an integer ends
    in `.0`. -/
def argumentLayout : Decimal.Layout where
  -- Both bounds are powers of ten of the first digit.
  positional exponent := -4 ≤ exponent && exponent < 16
  pointZero := true
  plusSign := false
  tie := .awayFromZero
  nan := "NaN"
  infinity := "inf"
  negativeInfinity := "-inf"

/-- The text of an argument. -/
def argumentText (value : Float) : String :=
  argumentLayout.render value

end Reckoner
