/-!
# JSON strings

How a string is written between quotes and how the text between quotes is read.

* `Json.Quoted.escape` writes quotes, backslashes and control characters as
  escapes and all other characters as they are.
* `Json.Quoted.unescape` reads escapes, pairs of surrogates included, and refuses
  bare control characters, unknown escapes and surrogates without a partner.
* `Json.Quoted.untilQuote` finds the quote that ends a string.
-/

namespace Reckoner.Json.Quoted

/-- A hexadecimal digit in lower case. -/
def hexDigit (n : Nat) : Char :=
  Nat.digitChar (n % 16)

/-- The spelling of a character inside a string. -/
def escapeChar (c : Char) : List Char :=
  if c = '"' then ['\\', '"']
  else if c = '\\' then ['\\', '\\']
  else if c = '\n' then ['\\', 'n']
  else if c = '\r' then ['\\', 'r']
  else if c = '\t' then ['\\', 't']
  else if c.toNat = 8 then ['\\', 'b']
  else if c.toNat = 12 then ['\\', 'f']
  else if c.toNat < 32 then ['\\', 'u', '0', '0', hexDigit (c.toNat / 16), hexDigit c.toNat]
  else [c]

/-- The spelling of a string, without its quotes. -/
def escape (text : List Char) : List Char :=
  text.flatMap escapeChar

/-- The value of a hexadecimal digit of either case. -/
def hexValue? (c : Char) : Option Nat :=
  if c.isDigit then some (c.toNat - '0'.toNat)
  else if 'a' ≤ c ∧ c ≤ 'f' then some (c.toNat - 'a'.toNat + 10)
  else if 'A' ≤ c ∧ c ≤ 'F' then some (c.toNat - 'A'.toNat + 10)
  else none

/-- The 16-bit unit that four hexadecimal digits spell. -/
def unit? (a b c d : Char) : Option Nat := do
  let a ← hexValue? a
  let b ← hexValue? b
  let c ← hexValue? c
  let d ← hexValue? d
  some (((a * 16 + b) * 16 + c) * 16 + d)

/-- The character of an escape of one letter. -/
def single? (c : Char) : Option Char :=
  match c with
  | '"' => some '"'
  | '\\' => some '\\'
  | '/' => some '/'
  | 'b' => some (Char.ofNat 8)
  | 'f' => some (Char.ofNat 12)
  | 'n' => some '\n'
  | 'r' => some '\r'
  | 't' => some '\t'
  | _ => none

/-- A part of a string as it is spelled: a character, or a 16-bit unit by its
    number. -/
inductive Piece where
  | character (value : Char)
  | unit (value : Nat)

/-- The parts that the text between two quotes spells. -/
def pieces? : List Char → Option (List Piece)
  | [] => some []
  -- An escape of four digits is half of a character if it is a surrogate.
  | '\\' :: 'u' :: a :: b :: c :: d :: rest => do
    let value ← unit? a b c d
    return .unit value :: (← pieces? rest)
  | '\\' :: c :: rest => do
    let value ← single? c
    return .character value :: (← pieces? rest)
  | ['\\'] => none
  | c :: rest => if c.toNat < 32 then none else (pieces? rest).map (.character c :: ·)

/-- Whether a unit is half of a pair. -/
def isSurrogate (unit : Nat) : Bool :=
  0xD800 ≤ unit && unit < 0xE000

/-- The character that a pair of units stands for. -/
def pair? (high low : Nat) : Option Char :=
  if 0xD800 ≤ high ∧ high < 0xDC00 ∧ 0xDC00 ≤ low ∧ low < 0xE000 then
    some (Char.ofNat (0x10000 + (high - 0xD800) * 0x400 + (low - 0xDC00)))
  else none

/-- The characters of a row of parts, pairs of units joined. -/
def assemble? : List Piece → Option (List Char)
  | [] => some []
  | .character c :: rest => (assemble? rest).map (c :: ·)
  | .unit high :: rest =>
    -- A surrogate needs its partner right behind it.
    if isSurrogate high then
      match rest with
      | .unit low :: rest => do
        let c ← pair? high low
        return c :: (← assemble? rest)
      | _ => none
    else (assemble? rest).map (Char.ofNat high :: ·)

/-- The string that the text between two quotes spells. -/
def unescape (text : List Char) : Option (List Char) := do
  assemble? (← pieces? text)

/-- The text up to the next quote that is not escaped, and the text behind that
    quote. -/
def untilQuote : List Char → Option (List Char × List Char)
  | [] => none
  | '"' :: rest => some ([], rest)
  | ['\\'] => none
  -- What is escaped does not end the string, be it a quote or not.
  | '\\' :: c :: rest =>
    (untilQuote rest).map fun (inside, behind) => ('\\' :: c :: inside, behind)
  | c :: rest => (untilQuote rest).map fun (inside, behind) => (c :: inside, behind)

/-- What stands behind a string is shorter than what it was cut from. -/
theorem length_lt_of_untilQuote {text inside behind : List Char}
    (h : untilQuote text = some (inside, behind)) : behind.length < text.length := by
  fun_induction untilQuote text generalizing inside behind with
  | case1 => simp at h
  | case2 rest =>
    obtain ⟨-, rfl⟩ := Prod.mk.inj (Option.some.inj h)
    simp
  | case3 => simp at h
  | case4 c rest ih =>
    obtain ⟨⟨i, b⟩, hib, heq⟩ := Option.map_eq_some_iff.1 h
    obtain ⟨-, rfl⟩ := Prod.mk.inj heq
    have := ih hib
    simp only [List.length_cons]
    omega
  | case5 c rest _ _ _ ih =>
    obtain ⟨⟨i, b⟩, hib, heq⟩ := Option.map_eq_some_iff.1 h
    obtain ⟨-, rfl⟩ := Prod.mk.inj heq
    have := ih hib
    simp only [List.length_cons]
    omega

end Reckoner.Json.Quoted
