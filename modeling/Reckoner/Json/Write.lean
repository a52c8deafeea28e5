import Reckoner.Decimal.Layout
import Reckoner.Json.Quoted
import Reckoner.Json

/-!
# Writing JSON text

A value is written over several lines, each level two spaces further in.  Empty
arrays and objects stay on one line.

* `Json.numberLayout` says how a binary64 number is written.
* `Json.pretty` writes a value.
-/

namespace Reckoner.Json

/-- Numbers have the fewest digits that read back, and a fraction or an exponent
    with its sign.  Magnitudes from `10 ^ (-5)` up to `10 ^ 16` are positional.
    What is no finite number is `null`. -/
def numberLayout : Decimal.Layout where
  positional exponent := -5 ≤ exponent && exponent < 16
  pointZero := true
  plusSign := true
  tie := .toEven
  nan := "null"
  infinity := "null"
  negativeInfinity := "null"

/-- A string between quotes. -/
def quoted (text : String) : String :=
  String.ofList ('"' :: (Quoted.escape text.toList ++ ['"']))

/-- A line break and the indentation of a level. -/
def lineBreak (level : Nat) : String :=
  String.ofList ('\n' :: List.replicate (2 * level) ' ')

/-- The entries of an array or object between its brackets. -/
def enclose (opening closing : String) (level : Nat) (entries : List String) : String :=
  if entries.isEmpty then opening ++ closing
  else
    opening ++ lineBreak (level + 1)
      ++ String.intercalate ("," ++ lineBreak (level + 1)) entries
      ++ lineBreak level ++ closing

mutual

/-- The text of a value that stands at a level. -/
def prettyAt (level : Nat) : Json → String
  | null => "null"
  | bool value => if value then "true" else "false"
  | integer value => toString value
  | float value => numberLayout.render value
  | string value => quoted value
  | array items => enclose "[" "]" level (prettyItems (level + 1) items)
  | object fields => enclose "\x7b" "\x7d" level (prettyFields (level + 1) fields)

/-- The texts of the items of an array. -/
def prettyItems (level : Nat) : List Json → List String
  | [] => []
  | item :: items => prettyAt level item :: prettyItems level items

/-- The texts of the fields of an object. -/
def prettyFields (level : Nat) : List (String × Json) → List String
  | [] => []
  | (key, value) :: fields =>
    (quoted key ++ ": " ++ prettyAt level value) :: prettyFields level fields

end

/-- The text of a value. -/
def pretty (value : Json) : String :=
  prettyAt 0 value

end Reckoner.Json
