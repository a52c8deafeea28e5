import Reckoner.Text.Unprintable

/-!
# Quoted text

How a text is shown in a message: between quotes, with escapes for quotes,
backslashes and whatever does not show by itself.

* `Text.quote` quotes a text.
-/

namespace Reckoner.Text

/-- The spelling of a character between quotes.  A character that does not show is
    spelled by its number in hexadecimal. -/
def escapeChar (c : Char) : List Char :=
  if c.toNat = 0 then ['\\', '0']
  else if c = '\t' then ['\\', 't']
  else if c = '\r' then ['\\', 'r']
  else if c = '\n' then ['\\', 'n']
  else if c = '"' then ['\\', '"']
  else if c = '\\' then ['\\', '\\']
  -- The number stands between braces and has no leading zeros.
  else if isUnprintable c then
    '\\' :: 'u' :: '\x7b' :: (Nat.toDigits 16 c.toNat ++ ['\x7d'])
  else [c]

/-- A text between quotes. -/
def quote (text : String) : String :=
  String.ofList ('"' :: (text.toList.flatMap escapeChar ++ ['"']))

end Reckoner.Text
