import Reckoner.Json

/-!
# JSON numerals

A numeral without point and exponent that fits 64 bits is an exact integer, with
the exception of `-0`, which is the negative zero.  Any other numeral is a
binary64 number, read with a significand of 64 bits:

* digits count as long as the significand takes them; further digits before the
  point raise the exponent, further digits behind it are dropped;
* the significand is rounded to a binary64 number and then multiplied or divided
  by the power of ten, so a long numeral may be off in its last place;
* what is too large is refused and what is too small is zero.
-/

namespace Reckoner.Json

/-- A numeral in its parts, each a row of digits. -/
structure Numeral where
  negative : Bool
  whole : List Char
  fraction : List Char
  exponent : Int
  /-- whether there is neither a point nor an exponent -/
  integral : Bool

namespace Numeral

/-- The digits before the point: no leading zero but a single one. -/
def whole? (text : List Char) : Option (List Char × List Char) :=
  match text.takeWhile Char.isDigit with
  | [] => none
  -- A zero in front of other digits is refused.
  | '0' :: _ :: _ => none
  | digits => some (digits, text.dropWhile Char.isDigit)

/-- The digits behind the point, if there is a point. -/
def fraction? : List Char → Option (List Char × List Char)
  | '.' :: text =>
    match text.takeWhile Char.isDigit with
    | [] => none
    | digits => some (digits, text.dropWhile Char.isDigit)
  | text => some ([], text)

/-- A row of digits, all the text. -/
def digits? (text : List Char) : Option Nat :=
  if text.isEmpty || !text.all Char.isDigit then none else some (Nat.ofDigitChars 10 text 0)

/-- The exponent at the end of a numeral; an absent one is zero. -/
def exponent? : List Char → Option Int
  | [] => some 0
  | 'e' :: text | 'E' :: text =>
    match text with
    | '-' :: text => (digits? text).map fun n => -(n : Int)
    | '+' :: text => (digits? text).map fun n => (n : Int)
    | text => (digits? text).map fun n => (n : Int)
  | _ => none

/-- The parts of a numeral. -/
def ofChars? (text : List Char) : Option Numeral := do
  let (negative, text) := match text with
    | '-' :: text => (true, text)
    | text => (false, text)
  let (whole, tail) ← whole? text
  let (fraction, rest) ← fraction? tail
  let exponent ← exponent? rest
  some ⟨negative, whole, fraction, exponent, tail.isEmpty⟩

/-- The significand takes a digit, if 64 bits hold the result. -/
def takeDigit? (significand : Nat) (digit : Char) : Option Nat :=
  let next := 10 * significand + (digit.toNat - '0'.toNat)
  if next < UInt64.size then some next else none

/-- Take the digits before the point; the second part counts those left out. -/
def takeWhole (significand : Nat) : List Char → Nat × Nat
  | [] => (significand, 0)
  | digit :: digits =>
    match takeDigit? significand digit with
    | some next => takeWhole next digits
    -- Once a digit does not fit, no later one is taken either.
    | none => (significand, digits.length + 1)

/-- Take the digits behind the point; the second part counts those taken. -/
def takeFraction (significand : Nat) : List Char → Nat × Nat
  | [] => (significand, 0)
  | digit :: digits =>
    match takeDigit? significand digit with
    | some next =>
      let (last, count) := takeFraction next digits
      (last, count + 1)
    | none => (significand, 0)

/-- A power of ten up to the largest that is finite. -/
def powerOfTen (exponent : Nat) : Float :=
  Float.ofScientific 1 false exponent

/-- `significand * 10 ^ exponent`, scaled in one step where the power of ten is
    finite and in two where the exponent is very small. -/
def scale? (significand : Nat) (exponent : Int) : Option Float :=
  let x := Float.ofNat significand
  -- Powers of ten up to 308 are finite, and below 2 ^ 64 / 10 ^ 616 all is zero.
  if significand = 0 then some x
  else if exponent > 308 then none
  else if exponent ≥ 0 then
    let y := x * powerOfTen exponent.toNat
    if y.isInf then none else some y
  else if exponent ≥ -308 then some (x / powerOfTen (-exponent).toNat)
  else if exponent ≥ -616 then some (x / powerOfTen 308 / powerOfTen (-exponent - 308).toNat)
  else some 0

/-- The binary64 number of a numeral, refused where it is too large. -/
def toFloat? (n : Numeral) : Option Float :=
  let (significand, leftOut) := takeWhole 0 n.whole
  let (significand, taken) := takeFraction significand n.fraction
  -- Digits left out before the point count as zeros.
  (scale? significand (n.exponent + leftOut - taken)).map fun x =>
    if n.negative then -x else x

/-- The value of a numeral. -/
def toJson? (n : Numeral) : Option Json :=
  let magnitude := Nat.ofDigitChars 10 n.whole 0
  if n.integral && !n.negative && magnitude < UInt64.size then
    some (.integer magnitude)
  -- Negative zero is no integer and is left to the numbers of binary64.
  else if n.integral && n.negative && 0 < magnitude && magnitude ≤ UInt64.size / 2 then
    some (.integer (-magnitude))
  else
    n.toFloat?.map .float

end Numeral

end Reckoner.Json
