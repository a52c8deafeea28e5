import Reckoner.Json.Numeral
import Reckoner.Json.Quoted

/-!
# Lexemes of JSON text

JSON text as a row of marks and scalars, blanks left out.  `Json.lexemes?` is
`none` where a character starts no lexeme, a string does not end, or a numeral,
a name or a string is not one that JSON has.
-/

namespace Reckoner.Json

/-- A lexical unit of JSON text. -/
inductive Lexeme where
  | openArray
  | closeArray
  | openObject
  | closeObject
  | comma
  | colon
  /-- a name, a numeral or a string -/
  | scalar (value : Json)

namespace Lexeme

/-- The characters that separate lexemes. -/
def isBlank (c : Char) : Bool :=
  c == ' ' || c == '\t' || c == '\n' || c == '\r'

/-- The marks of one character. -/
def mark? (c : Char) : Option Lexeme :=
  if c = '[' then some openArray
  else if c = ']' then some closeArray
  else if c = '\x7b' then some openObject
  else if c = '\x7d' then some closeObject
  else if c = ',' then some comma
  else if c = ':' then some colon
  else none

/-- The scalar of a run of letters. -/
def ofName? (name : List Char) : Option Lexeme :=
  if name = "null".toList then some (scalar .null)
  else if name = "true".toList then some (scalar (.bool true))
  else if name = "false".toList then some (scalar (.bool false))
  else none

/-- The characters that numerals are made of. -/
def inNumeral (c : Char) : Bool :=
  c.isDigit || c == '-' || c == '+' || c == '.' || c == 'e' || c == 'E'

/-- The scalar of a run of characters of numerals. -/
def ofNumeral? (text : List Char) : Option Lexeme := do
  let numeral ← Numeral.ofChars? text
  return scalar (← numeral.toJson?)

/-- The scalar of the text between two quotes. -/
def ofString? (inside : List Char) : Option Lexeme := do
  return scalar (.string (String.ofList (← Quoted.unescape inside)))

end Lexeme

/-- The lexemes of a text. -/
def lexemes? : List Char → Option (List Lexeme)
  | [] => some []
  | c :: rest =>
    if Lexeme.isBlank c then lexemes? rest
    else
      match Lexeme.mark? c with
      | some mark => (lexemes? rest).map (mark :: ·)
      | none =>
        if c = '"' then
          match _found : Quoted.untilQuote rest with
          | none => none
          | some (inside, behind) => do
            let lexeme ← Lexeme.ofString? inside
            return lexeme :: (← lexemes? behind)
        -- A run is as long as it can be, and refused as a whole if it is no numeral.
        else if c = '-' || c.isDigit then do
          let lexeme ← Lexeme.ofNumeral? (c :: rest.takeWhile Lexeme.inNumeral)
          return lexeme :: (← lexemes? (rest.dropWhile Lexeme.inNumeral))
        else do
          let lexeme ← Lexeme.ofName? (c :: rest.takeWhile Char.isAlpha)
          return lexeme :: (← lexemes? (rest.dropWhile Char.isAlpha))
termination_by text => text.length
decreasing_by
  all_goals simp only [List.length_cons]
  · omega
  · omega
  · have := Quoted.length_lt_of_untilQuote (by assumption)
    omega
  · have := (List.dropWhile_suffix Lexeme.inNumeral (l := rest)).length_le
    omega
  · have := (List.dropWhile_suffix Char.isAlpha (l := rest)).length_le
    omega

end Reckoner.Json
