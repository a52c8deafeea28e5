import Reckoner.Json.Write

/-!
# JSON strings read back

What is written between quotes ends at its own closing quote, and reads back as what was
written.

## Key results

- `Json.Quoted.untilQuote_escape`: an escaped text ends at the quote behind it
- `Json.Quoted.unescape_escape`: an escaped text spells what was escaped
- `Json.quoted_append_inj`: a string and what stands behind it can be told apart
-/

namespace Reckoner.Json

namespace Quoted

/-! ### Spellings of a character -/

/-- The ways in which the writer spells a character inside a string. -/
inductive Spells (c : Char) : List Char → Prop where
  /-- an escape of one letter -/
  | letter {l : Char} (hunit : l ≠ 'u') (hsingle : single? l = some c) : Spells c ['\\', l]
  /-- the number of a control character -/
  | number (hcontrol : c.toNat < 32) :
    Spells c ['\\', 'u', '0', '0', hexDigit (c.toNat / 16), hexDigit c.toNat]
  /-- the character itself -/
  | plain (hquote : c ≠ '"') (hslash : c ≠ '\\') (hprinted : ¬ c.toNat < 32) : Spells c [c]

/-- What a character is written as spells the character. -/
private theorem spells_escapeChar (c : Char) : Spells c (escapeChar c) := by
  -- The writer's table row by row: marks and line ends first, then two controls by number
  unfold escapeChar
  split
  case isTrue h =>
    subst h
    exact .letter (by decide) rfl
  rename_i hquote
  split
  case isTrue h =>
    subst h
    exact .letter (by decide) rfl
  rename_i hslash
  split
  case isTrue h =>
    subst h
    exact .letter (by decide) rfl
  split
  case isTrue h =>
    subst h
    exact .letter (by decide) rfl
  split
  case isTrue h =>
    subst h
    exact .letter (by decide) rfl
  split
  case isTrue h =>
    exact .letter (by decide) (congrArg some (h ▸ Char.ofNat_toNat c))
  split
  case isTrue h =>
    exact .letter (by decide) (congrArg some (h ▸ Char.ofNat_toNat c))
  split
  case isTrue h => exact .number h
  case isFalse h => exact .plain hquote hslash h

/-! ### Where a string ends -/

/-- A character that is neither a quote nor a backslash is inside the quotes. -/
private theorem untilQuote_cons {c : Char} (hquote : c ≠ '"') (hslash : c ≠ '\\')
    (rest : List Char) :
    untilQuote (c :: rest) =
      (untilQuote rest).map fun (inside, behind) => (c :: inside, behind) := by
  -- The patterns before the last: a closing quote, a lone backslash, an escaped character
  rw [untilQuote]
  · exact hquote
  · exact fun h _ => hslash h
  · exact fun _ _ h _ => hslash h

/-- Digits of a number neither end a string nor start an escape. -/
private theorem hexDigit_ne (n : Nat) : hexDigit n ≠ '"' ∧ hexDigit n ≠ '\\' := by
  have hall : ∀ d < 16, Nat.digitChar d ≠ '"' ∧ Nat.digitChar d ≠ '\\' := by decide
  exact hall (n % 16) (Nat.mod_lt n (by decide))

/-- No quote inside the spelling of a character ends the string. -/
private theorem untilQuote_of_spells {c : Char} {text : List Char} (h : Spells c text)
    (rest : List Char) :
    untilQuote (text ++ rest) =
      (untilQuote rest).map fun (inside, behind) => (text ++ inside, behind) := by
  cases h with
  | letter hunit hsingle => rfl
  | number hcontrol =>
    -- The escape takes the letter behind the backslash, and then four digits follow
    show (untilQuote ('0' :: '0' :: hexDigit _ :: hexDigit _ :: rest)).map _ = _
    rw [untilQuote_cons (by decide) (by decide), untilQuote_cons (by decide) (by decide),
      untilQuote_cons (hexDigit_ne _).1 (hexDigit_ne _).2,
      untilQuote_cons (hexDigit_ne _).1 (hexDigit_ne _).2]
    cases untilQuote rest <;> rfl
  | plain hquote hslash hprinted => exact untilQuote_cons hquote hslash rest

/-- An escaped text ends at the quote behind it. -/
theorem untilQuote_escape (text rest : List Char) :
    untilQuote (escape text ++ '"' :: rest) = some (escape text, rest) := by
  induction text with
  | nil => rfl
  | cons c text ih =>
    rw [escape, List.flatMap_cons, List.append_assoc,
      untilQuote_of_spells (spells_escapeChar c), ← escape, ih]
    rfl

/-! ### What a string spells -/

/-- A hexadecimal digit is read as its value. -/
private theorem hexValue?_hexDigit (n : Nat) : hexValue? (hexDigit n) = some (n % 16) := by
  have hall : ∀ d < 16, hexValue? (Nat.digitChar d) = some d := by decide
  exact hall (n % 16) (Nat.mod_lt n (by decide))

/-- The spelling of a character is one part of a string, which stands for the character. -/
private theorem pieces?_of_spells {c : Char} {text : List Char} (h : Spells c text) :
    ∃ piece, (∀ rest, pieces? (text ++ rest) = (pieces? rest).map (piece :: ·)) ∧
      ∀ parts, assemble? (piece :: parts) = (assemble? parts).map (c :: ·) := by
  cases h with
  | @letter l hunit hsingle =>
    refine ⟨.character c, ?_, fun parts => rfl⟩
    intro rest
    show pieces? ('\\' :: l :: rest) = _
    rw [pieces?, hsingle]
    · cases pieces? rest <;> rfl
    · exact fun _ _ _ _ _ h _ => hunit h
  | number hcontrol =>
    have hvalue : unit? '0' '0' (hexDigit (c.toNat / 16)) (hexDigit c.toNat) = some c.toNat := by
      simp only [unit?, hexValue?_hexDigit]
      show some _ = some _
      congr 1
      omega
    -- A number below 32 is no half of a pair
    refine ⟨.unit c.toNat, ?_, ?_⟩
    · intro rest
      show pieces? ('\\' :: 'u' :: '0' :: '0' :: hexDigit _ :: hexDigit _ :: rest) = _
      rw [pieces?, hvalue]
      cases pieces? rest <;> rfl
    · intro parts
      have hwhole : isSurrogate c.toNat = false := by
        rw [isSurrogate, decide_eq_false (by omega), Bool.false_and]
      rw [assemble?.eq_def]
      simp only [hwhole, Char.ofNat_toNat, Bool.false_eq_true, if_false]
  | plain hquote hslash hprinted =>
    refine ⟨.character c, ?_, fun parts => rfl⟩
    intro rest
    rw [List.singleton_append, pieces?, if_neg hprinted]
    · exact fun _ _ _ _ _ h _ => hslash h
    · exact fun _ _ h _ => hslash h
    · exact fun h _ => hslash h

/-- An escaped text spells what was escaped. -/
theorem unescape_escape (text : List Char) : unescape (escape text) = some text := by
  -- Each character is escaped on its own, and its pieces are read back first
  induction text with
  | nil => rfl
  | cons c text ih =>
    obtain ⟨piece, hpieces, hassemble⟩ := pieces?_of_spells (spells_escapeChar c)
    cases hrest : pieces? (escape text) with
    | none =>
      rw [unescape, hrest] at ih
      cases ih
    | some parts =>
      rw [unescape, hrest] at ih
      have hparts : assemble? parts = some text := ih
      rw [unescape, escape, List.flatMap_cons, ← escape, hpieces, hrest]
      show assemble? (piece :: parts) = some (c :: text)
      rw [hassemble, hparts]
      rfl

end Quoted

/-- A string in front of a text gives away both. -/
theorem quoted_append_inj {s t rest rest' : String} (h : quoted s ++ rest = quoted t ++ rest') :
    s = t ∧ rest = rest' := by
  have hlists := congrArg String.toList h
  simp only [quoted, String.toList_append, String.toList_ofList, List.cons_append,
    List.append_assoc, List.nil_append, List.cons.injEq, true_and] at hlists
  -- Both are cut at the first quote that is not escaped, and then read
  have hcut := congrArg Quoted.untilQuote hlists
  rw [Quoted.untilQuote_escape, Quoted.untilQuote_escape] at hcut
  obtain ⟨hinside, hbehind⟩ := Prod.mk.inj (Option.some.inj hcut)
  have hspelled := congrArg Quoted.unescape hinside
  rw [Quoted.unescape_escape, Quoted.unescape_escape] at hspelled
  exact ⟨String.toList_inj.1 (Option.some.inj hspelled), String.toList_inj.1 hbehind⟩

end Reckoner.Json
