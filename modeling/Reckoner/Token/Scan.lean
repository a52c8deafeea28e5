import Reckoner.Fault

/-!
# Scanning a formula

A formula falls into maximal runs of digits, maximal runs of letters and single
characters.  A space separates and makes no item; every other run or character
makes one item, a token or a fault, and scanning goes on behind it.

* `Token.scan` lists the items of a whole formula.
* `Token.collect` turns items into the list of all tokens, or the first fault.
* `Token.leading` are the tokens before the first fault.

Letters and digits are those of ASCII; all other characters but the four marks
are faults, so nothing depends on a table of characters.
-/

namespace Reckoner.Token

/-- The largest number a formula can spell, one below `2 ^ 53`: up to here every
    integer is exact in binary64. -/
def maxNumber : Nat := 9007199254740991

/-- The item of a run of digits: its value, refused above `maxNumber`. -/
def ofDigits (digits : List Char) : Except Fault Token :=
  if Nat.ofDigitChars 10 digits 0 ≤ maxNumber then
    .ok (number (Nat.ofDigitChars 10 digits 0))
  else
    .error (.numberOutOfRange (String.ofList digits))

/-- Whether the first character that is no space opens a parenthesis. -/
def opensCall (rest : List Char) : Bool :=
  (rest.dropWhile (· == ' ')).head? == some '('

/-- The token of a run of letters, given the text behind it. -/
def ofLetters (letters rest : List Char) : Token :=
  if opensCall rest then function (String.ofList letters) else word (String.ofList letters)

/-- The item of a single character at a byte offset. -/
def ofSymbol (c : Char) (offset : Nat) : Except Fault Token :=
  if c = '(' then .ok leftParen
  else if c = ')' then .ok rightParen
  else if c = ',' then .ok comma
  else if c = '.' then .ok dot
  else .error (.illegalCharacter c offset)

/-- The items of a text whose first character stands at byte `offset` of the
    formula. -/
def scanFrom (offset : Nat) : List Char → List (Except Fault Token)
  | [] => []
  | c :: rest =>
    -- The space, a digit and a letter take one byte each.
    if c = ' ' then
      scanFrom (offset + 1) rest
    else if c.isDigit then
      ofDigits (c :: rest.takeWhile Char.isDigit) ::
        scanFrom (offset + 1 + (rest.takeWhile Char.isDigit).length) (rest.dropWhile Char.isDigit)
    else if c.isAlpha then
      .ok (ofLetters (c :: rest.takeWhile Char.isAlpha) (rest.dropWhile Char.isAlpha)) ::
        scanFrom (offset + 1 + (rest.takeWhile Char.isAlpha).length) (rest.dropWhile Char.isAlpha)
    else
      ofSymbol c offset :: scanFrom (offset + c.utf8Size) rest
termination_by text => text.length
decreasing_by
  all_goals
    simp only [List.length_cons]
    have := (List.dropWhile_suffix Char.isDigit (l := rest)).length_le
    have := (List.dropWhile_suffix Char.isAlpha (l := rest)).length_le
    omega

/-- The items of a formula, tokens and faults, in the order of the text. -/
def scan (formula : String) : List (Except Fault Token) :=
  scanFrom 0 formula.toList

/-- All tokens, or the first fault among them. -/
def collect : List (Except Fault Token) → Except Fault (List Token)
  | [] => .ok []
  -- Items behind the first fault are not looked at.
  | .error fault :: _ => .error fault
  | .ok token :: items =>
    match collect items with
    | .error fault => .error fault
    | .ok tokens => .ok (token :: tokens)

/-- Collecting items that are all tokens gives these tokens. -/
theorem collect_map_ok (tokens : List Token) : collect (tokens.map .ok) = .ok tokens := by
  induction tokens with
  | nil => rfl
  | cons token tokens ih => simp only [List.map_cons, collect, ih]

/-- Items that can be collected are all tokens. -/
theorem eq_map_ok_of_collect {items : List (Except Fault Token)} {tokens : List Token}
    (h : collect items = .ok tokens) : items = tokens.map .ok := by
  induction items generalizing tokens with
  | nil =>
    obtain rfl := Except.ok.inj h
    rfl
  | cons item items ih =>
    cases item with
    | error fault => cases h
    | ok token =>
      cases rest : collect items with
      | error fault =>
        simp only [collect, rest] at h
        cases h
      | ok others =>
        simp only [collect, rest, Except.ok.injEq] at h
        rw [← h, List.map_cons, ← ih rest]

/-- The tokens before the first fault. -/
def leading : List (Except Fault Token) → List Token
  | .ok token :: items => token :: leading items
  | _ => []

end Reckoner.Token
