import Mathlib.Algebra.Group.Nat.Defs
import Mathlib.Data.List.Basic
import Mathlib.Data.List.Induction

/-!
# Decimal digits

The number that a row of digits denotes by the places of the digits, and the digits of a
number.  Rows of digits for one number differ by the zeros in front of them.

## Key results

- `ofDigitChars_eq_placeValue`: reading digits from the left gives the number of their places
- `toDigits_eq_of_head?`: only the digits of zero start with a zero
- `exists_zeros_append_toDigits`: digits are those of their number behind zeros
-/

namespace Reckoner.Decimal

/-! ## From digits to numbers -/

/-- The number that digits denote: each of them counts for ten times as much as it would one
    place further right. -/
def placeValue : List Char → Nat
  | [] => 0
  | c :: digits => (c.toNat - '0'.toNat) * 10 ^ digits.length + placeValue digits

/-- What was read from the left moves up one place with every digit. -/
private theorem ofDigitChars_eq (digits : List Char) (front : Nat) :
    Nat.ofDigitChars 10 digits front = front * 10 ^ digits.length + placeValue digits := by
  induction digits generalizing front with
  | nil => simp [placeValue]
  | cons c digits ih =>
    rw [Nat.ofDigitChars_cons, ih, placeValue, List.length_cons, Nat.pow_succ, Nat.add_mul,
      Nat.add_assoc, Nat.mul_comm 10 front, Nat.mul_assoc, Nat.mul_comm 10 (10 ^ _)]

/-- Reading digits from the left gives the value of their places. -/
theorem ofDigitChars_eq_placeValue (digits : List Char) :
    Nat.ofDigitChars 10 digits 0 = placeValue digits := by
  rw [ofDigitChars_eq, Nat.zero_mul, Nat.zero_add]

/-- Digits that are read only add to what was read. -/
theorem le_ofDigitChars (digits : List Char) (front : Nat) :
    front ≤ Nat.ofDigitChars 10 digits front := by
  rw [ofDigitChars_eq]
  exact Nat.le_add_right_of_le (Nat.le_mul_of_pos_right front (Nat.pow_pos (by decide)))

/-! ## From numbers to digits -/

/-- The digits of a positive number do not start with a zero. -/
theorem head?_toDigits {n : Nat} (hn : 0 < n) : (Nat.toDigits 10 n).head? ≠ some '0' := by
  induction n using Nat.strongRecOn with
  | ind n ih =>
    -- The first digit is that of the number without its last one
    by_cases hlt : n < 10
    · rw [Nat.toDigits_of_lt_base hlt, List.head?_cons]
      intro hzero
      rw [Option.some_inj, Nat.digitChar_eq_zero] at hzero
      omega
    · rw [Nat.toDigits_of_base_le (by decide) (by omega), List.head?_append_of_ne_nil _
        Nat.toDigits_ne_nil]
      exact ih (n / 10) (by omega) (by omega)

/-- The digits of a number start with a zero only if it is zero. -/
theorem toDigits_eq_of_head? {n : Nat} (h : (Nat.toDigits 10 n).head? = some '0') :
    Nat.toDigits 10 n = ['0'] := by
  by_cases hzero : n = 0
  · rw [hzero]
    rfl
  · exact absurd h (head?_toDigits (by omega))

private theorem digit_lt_ten {c : Char} (hc : c.isDigit) : c.toNat - '0'.toNat < 10 := by
  obtain ⟨-, hhigh⟩ := Char.isDigit_iff_toNat.mp hc
  have hzero : '0'.toNat = 48 := rfl
  have hnine : '9'.toNat = 57 := rfl
  omega

/-- A digit is the one digit of its number. -/
private theorem toDigits_of_isDigit {c : Char} (hc : c.isDigit) :
    Nat.toDigits 10 (c.toNat - '0'.toNat) = [c] := by
  obtain ⟨hlow, -⟩ := Char.isDigit_iff_toNat.mp hc
  have hzero : '0'.toNat = 48 := rfl
  -- A digit is rebuilt from its place behind the zero
  have hchar : Nat.digitChar (c.toNat - '0'.toNat) = c := by
    apply Char.toNat_inj.mp
    rw [Nat.toNat_digitChar_of_lt_ten (digit_lt_ten hc)]
    omega
  rw [Nat.toDigits_of_lt_base (digit_lt_ten hc), hchar]

/-- Digits are those of the number that they denote, behind zeros. -/
theorem exists_zeros_append_toDigits {digits : List Char} (hne : digits ≠ [])
    (hdigits : ∀ c ∈ digits, c.isDigit) :
    ∃ zeros, digits =
      List.replicate zeros '0' ++ Nat.toDigits 10 (Nat.ofDigitChars 10 digits 0) := by
  -- The last digit is that of the number, and the digits in front are those of a tenth of it
  induction digits using List.reverseRecOn with
  | nil => exact absurd rfl hne
  | append_singleton front c ih =>
    obtain ⟨hfront, hc⟩ := List.forall_mem_append.mp hdigits
    have hc : c.isDigit := hc c (List.mem_singleton_self c)
    have hlast := toDigits_of_isDigit hc
    rw [Nat.ofDigitChars_append, Nat.ofDigitChars_cons, Nat.ofDigitChars_nil]
    by_cases hnil : front = []
    · refine ⟨0, ?_⟩
      rw [hnil, Nat.ofDigitChars_nil, Nat.mul_zero, Nat.zero_add, hlast]
      rfl
    · obtain ⟨zeros, hzeros⟩ := ih hnil hfront
      by_cases hvalue : Nat.ofDigitChars 10 front 0 = 0
      · -- All digits in front are zeros, the one of their number included
        rw [hvalue, Nat.toDigits_zero, ← List.replicate_succ'] at hzeros
        refine ⟨zeros + 1, ?_⟩
        rw [hvalue, Nat.mul_zero, Nat.zero_add, hlast, ← hzeros]
      · refine ⟨zeros, ?_⟩
        rw [← Nat.toDigits_append_toDigits (by decide) (Nat.pos_of_ne_zero hvalue)
          (digit_lt_ten hc), hlast, ← List.append_assoc, ← hzeros]

end Reckoner.Decimal
