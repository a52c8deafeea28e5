import Reckoner.Proofs.Digits
import Reckoner.Proofs.ScanImage

/-!
# Numbers as they are spelled

A formula of digits alone is one number, however many digits there are and however many zeros
stand in front, as long as its value is at most `2 ^ 53 - 1`.  Beyond that it is refused as a
whole.  Reading the digits into a word of 64 bits and refusing what the word does not hold
comes to the same, since the word holds more than a formula can spell.

## Key results

- `Token.wordOfDigits?_eq`: a word overflows exactly if the number does not fit into it
- `Token.ofDigits_eq_of_word`: numbers read through a word
- `Formula.tokens_of_digits`: what a formula of digits alone is scanned into
-/

namespace Reckoner

namespace Token

/-! ## Reading digits into a word -/

/-- The number of digits behind those that made up the word, in a signed word of 64 bits.
    Neither a tenfold nor a sum may be more than the word can hold. -/
def wordOfDigits? (word : Nat) : List Char → Option Nat
  | [] => some word
  | c :: digits =>
    if 10 * word < 2 ^ 63 ∧ 10 * word + (c.toNat - '0'.toNat) < 2 ^ 63 then
      wordOfDigits? (10 * word + (c.toNat - '0'.toNat)) digits
    else none

/-- No step overflows if the number fits, for it is no less than any number on the way. -/
theorem wordOfDigits?_eq {word : Nat} (hword : word < 2 ^ 63) (digits : List Char) :
    wordOfDigits? word digits =
      if Nat.ofDigitChars 10 digits word < 2 ^ 63 then some (Nat.ofDigitChars 10 digits word)
      else none := by
  induction digits generalizing word with
  | nil => rw [Nat.ofDigitChars_nil, if_pos hword, wordOfDigits?]
  | cons c digits ih =>
    rw [wordOfDigits?, Nat.ofDigitChars_cons]
    -- Once a word is too small it stays so, since more digits only add to the number
    by_cases hstep : 10 * word + (c.toNat - '0'.toNat) < 2 ^ 63
    · have hten : 10 * word < 2 ^ 63 := by omega
      rw [if_pos ⟨hten, hstep⟩, ih hstep]
    · have hle := Decimal.le_ofDigitChars digits (10 * word + (c.toNat - '0'.toNat))
      rw [if_neg (fun hboth => hstep hboth.2), if_neg (by omega)]

/-- The item of digits, from the word that they are read into: digits that overflow the word
    denote more than a formula can spell, as do those of a word above the limit. -/
theorem ofDigits_eq_of_word (digits : List Char) :
    ofDigits digits = match wordOfDigits? 0 digits with
      | some held =>
        if held ≤ maxNumber then .ok (number held)
        else .error (.numberOutOfRange (String.ofList digits))
      | none => .error (.numberOutOfRange (String.ofList digits)) := by
  -- Whatever overflows the word is above the greatest number as well
  have hmax : maxNumber < 2 ^ 63 := by decide
  rw [wordOfDigits?_eq (by decide), ofDigits]
  by_cases hfits : Nat.ofDigitChars 10 digits 0 < 2 ^ 63
  · rw [if_pos hfits]
  · rw [if_neg hfits, if_neg (by omega)]

/-! ## Texts of digits alone -/

/-- Digits alone are one run. -/
private theorem scan_of_digits {digits : String} (hne : digits ≠ "")
    (hdigits : ∀ c ∈ digits.toList, c.isDigit) : scan digits = [ofDigits digits.toList] := by
  have hnil : digits.toList ≠ [] := by simpa using hne
  have hscan := scanFrom_digits hnil hdigits (clear_nil _) 0
  rw [List.append_nil, scanFrom_nil] at hscan
  exact hscan

end Token

namespace Formula

open Token

/-- Digits alone come to the one item that they make. -/
private theorem outcome_tokens_of_digits {digits : String} (hne : digits ≠ "")
    (hdigits : ∀ c ∈ digits.toList, c.isDigit) :
    (tokens digits).outcome = (ofDigits digits.toList).map ([·]) := by
  rw [outcome_tokens, scan_of_digits hne hdigits]
  cases ofDigits digits.toList with
  | error fault => rfl
  | ok t => rfl

/-- A natural number is spelled by its digits. -/
private theorem toList_text_natCast (n : Nat) : (number n).text.toList = Nat.toDigits 10 n := by
  rw [toList_text_number (Int.natCast_nonneg n), Int.toNat_natCast]

/-- A number in range is scanned back from its spelling. -/
private theorem outcome_tokens_text_number {n : Nat} (hn : n ≤ maxNumber) :
    (tokens (number n).text).outcome = .ok [number n] := by
  have hspell : (number n).Spellable := ⟨Int.natCast_nonneg n, Int.ofNat_le.mpr hn⟩
  have hscans := Scans.nil.cons hspell trivial (clear_nil _)
  rw [List.append_nil] at hscans
  exact outcome_tokens_eq_ok_iff.mpr (hscans 0)

/-- A formula of digits alone is scanned into the number that they denote, if that is at most
    `2 ^ 53 - 1`; its spelling is the digits without the zeros in front, and is scanned into
    the number again.  Beyond the limit the digits are refused, all of them.  This is what
    comes of reading them into a word of 64 bits, whether they overflow it or not. -/
theorem tokens_of_digits (digits : String) (hne : digits ≠ "")
    (hdigits : ∀ c ∈ digits.toList, c.isDigit) (v : Nat)
    (hplaces : v = Decimal.placeValue digits.toList) :
    (v ≤ 2 ^ 53 - 1 →
      (tokens digits).outcome = .ok [number v] ∧
      (∃ zeros, digits.toList = List.replicate zeros '0' ++ (number v).text.toList) ∧
      ((number v).text.toList.head? = some '0' → (number v).text = "0") ∧
      (tokens (number v).text).outcome = .ok [number v]) ∧
    (2 ^ 53 - 1 < v → (tokens digits).outcome = .error (.numberOutOfRange digits)) ∧
    (tokens digits).outcome = match wordOfDigits? 0 digits.toList with
      | some held =>
        if held ≤ 2 ^ 53 - 1 then .ok [number held] else .error (.numberOutOfRange digits)
      | none => .error (.numberOutOfRange digits) := by
  have hv : Nat.ofDigitChars 10 digits.toList 0 = v := by
    rw [hplaces, Decimal.ofDigitChars_eq_placeValue]
  have hmax : 2 ^ 53 - 1 = maxNumber := by decide
  have houtcome := outcome_tokens_of_digits hne hdigits
  rw [hmax]
  -- Inside of the range, beyond it, and as the word that holds the digits
  refine ⟨fun hle => ⟨?_, ?_, ?_, outcome_tokens_text_number hle⟩, fun hlt => ?_, ?_⟩
  · rw [houtcome, ofDigits, hv, if_pos hle]
    rfl
  · have hnil : digits.toList ≠ [] := by simpa using hne
    rw [toList_text_natCast, ← hv]
    exact Decimal.exists_zeros_append_toDigits hnil hdigits
  · rw [toList_text_natCast, ← String.toList_inj, toList_text_natCast]
    exact Decimal.toDigits_eq_of_head?
  · rw [houtcome, ofDigits, hv, if_neg (Nat.not_le_of_lt hlt), String.ofList_toList]
    rfl
  · rw [houtcome, ofDigits_eq_of_word, String.ofList_toList]
    cases wordOfDigits? 0 digits.toList with
    | none => rfl
    | some held =>
      -- A word holds more than the range has
      by_cases hle : held ≤ maxNumber
      · simp only [if_pos hle]
        rfl
      · simp only [if_neg hle]
        rfl

/-- The limit behind more zeros than a word has places, and one more than the limit. -/
theorem tokens_of_digits_at_limit :
    let digits := "00000000000000000000009007199254740991"
    let beyond := "009007199254740992"
    (digits ≠ "" ∧ ∀ c ∈ digits.toList, c.isDigit) ∧
      (tokens digits).outcome = .ok [number 9007199254740991] ∧
      (tokens beyond).outcome = .error (.numberOutOfRange beyond) := by
  intro digits beyond
  have hne : digits ≠ "" := by decide
  have hdigits : ∀ c ∈ digits.toList, c.isDigit := List.all_eq_true.mp (by decide)
  have hdigits' : ∀ c ∈ beyond.toList, c.isDigit := List.all_eq_true.mp (by decide)
  -- Zeros in front do not count
  have hlimit := (tokens_of_digits digits hne hdigits 9007199254740991 (by decide)).1 (by omega)
  have hbeyond := tokens_of_digits beyond (by decide) hdigits' 9007199254740992 (by decide)
  exact ⟨⟨hne, hdigits⟩, hlimit.1, hbeyond.2.1 (by omega)⟩

end Formula

end Reckoner
