import Reckoner.Decimal.Shortest
import Reckoner.Proofs.Digits
import Reckoner.Proofs.Rounding

/-!
# Shortest decimals

The interval that the search for the shortest decimal starts from is the interval of the
rationals that are rounded to the number, so that the decimal it finds is read as the number.

## Key results

- `Decimal.Interval.roundsTo_of_contains`: the interval of a number is rounded to the number
- `Decimal.roundsTo_shortest`: the search ends with a decimal that is rounded to the number
-/

namespace Reckoner.Decimal

open Binary64 Float.Model UnpackedFloat

namespace Interval

variable {i : Interval} {n : Nat} {x : ℚ} {tie : Tie}

/-- The rationals of an interval, the ends among them only if it is closed. -/
def Contains (i : Interval) (x : ℚ) : Prop :=
  i.low ≤ x * i.denominator ∧ x * i.denominator ≤ i.high ∧
    (i.closed = false → i.low < x * i.denominator ∧ x * i.denominator < i.high)

/-- The test of an interval is right where it says yes. -/
private theorem contains_of_eq_true (h : i.contains n = true) : i.Contains n := by
  unfold contains at h
  unfold Contains
  norm_cast
  -- The ends belong to the interval only where it is closed
  cases hclosed : i.closed with
  | true =>
    rw [if_pos hclosed, Bool.and_eq_true, decide_eq_true_eq, decide_eq_true_eq] at h
    exact ⟨h.1, h.2, fun hopen => Bool.noConfusion hopen⟩
  | false =>
    rw [if_neg (Bool.eq_false_iff.mp hclosed), Bool.and_eq_true, decide_eq_true_eq,
      decide_eq_true_eq] at h
    exact ⟨h.1.le, h.2.le, fun _ => h⟩

/-- What is picked lies in the interval. -/
private theorem contains_of_pick (h : i.pick tie = some n) : i.Contains n := by
  apply contains_of_eq_true
  unfold pick at h
  dsimp only at h
  -- Of the two neighbours one, both or none are inside
  split at h
  next => cases h
  next hbelow habove =>
    obtain rfl := Option.some.inj h
    exact hbelow
  next hbelow habove =>
    obtain rfl := Option.some.inj h
    exact habove
  next hbelow habove =>
    obtain rfl := Option.some.inj h
    split
    · exact habove
    · exact hbelow

/-- Measuring in units of a power of ten moves the interval. -/
private theorem contains_inUnits {power : Int} :
    (i.inUnits power).Contains x ↔ i.Contains (x * 10 ^ power) := by
  have hscale : (0 : ℚ) < (10 ^ (-power).toNat : Nat) := by positivity
  -- Scaling by a power of ten moves it to one side, so that all numbers are whole
  have hpower : ((10 ^ power.toNat : Nat) : ℚ) = 10 ^ power * (10 ^ (-power).toNat : Nat) := by
    push_cast
    rw [← zpow_natCast, ← zpow_natCast, ← zpow_add₀ (by norm_num)]
    congr 1
    omega
  have hx : x * ((i.denominator * 10 ^ power.toNat : Nat) : ℚ) =
      x * 10 ^ power * i.denominator * (10 ^ (-power).toNat : Nat) := by
    rw [Nat.cast_mul, hpower]
    ring
  simp only [Contains, inUnits, Nat.pow_eq]
  rw [hx, Nat.cast_mul, Nat.cast_mul, mul_le_mul_iff_left₀ hscale, mul_le_mul_iff_left₀ hscale,
    mul_lt_mul_iff_left₀ hscale, mul_lt_mul_iff_left₀ hscale]

variable {m : Nat} {e : Int} {narrow : Bool}

/-- The interval of a number holds the rationals that are rounded to it. -/
theorem roundsTo_of_contains (hm : 0 < m) (hnarrow : narrow = true ↔ m = 2 ^ 52 ∧ -1074 < e)
    (h : (ofParts m e narrow).Contains x) : RoundsTo m e x := by
  have hscale : (0 : ℚ) < (2 ^ (e - 2).toNat : Nat) := by positivity
  have hpower : (2 : ℚ) ^ e * (2 ^ (2 - e).toNat : Nat) = 4 * (2 ^ (e - 2).toNat : Nat) := by
    have hfour : (4 : ℚ) = 2 ^ (2 : Int) := by norm_num
    push_cast
    rw [hfour, ← zpow_natCast, ← zpow_natCast, ← zpow_add₀ two_ne_zero, ← zpow_add₀ two_ne_zero]
    congr 1
    omega
  have hx : x * (2 ^ (2 - e).toNat : Nat) = 4 * (x / 2 ^ e) * (2 ^ (e - 2).toNat : Nat) := by
    rw [mul_right_comm, ← hpower]
    field_simp
  -- The interval counts in quarters of the last place
  have hlow : ((if narrow then 4 * m - 1 else 4 * m - 2 : Nat) : ℚ) =
      4 * (m - if m = 2 ^ 52 ∧ -1074 < e then 1 / 4 else 1 / 2) := by
    by_cases hbelow : m = 2 ^ 52 ∧ -1074 < e
    · rw [if_pos (hnarrow.mpr hbelow), if_pos hbelow, Nat.cast_sub (by omega)]
      push_cast
      ring
    · rw [if_neg (mt hnarrow.mp hbelow), if_neg hbelow, Nat.cast_sub (by omega)]
      push_cast
      ring
  have hhigh : ((4 * m + 2 : Nat) : ℚ) = 4 * (m + 1 / 2) := by
    push_cast
    ring
  simp only [Contains, ofParts, Nat.pow_eq] at h
  rw [hx, Nat.cast_mul, Nat.cast_mul, mul_le_mul_iff_left₀ hscale, mul_le_mul_iff_left₀ hscale,
    mul_lt_mul_iff_left₀ hscale, mul_lt_mul_iff_left₀ hscale, hlow, hhigh,
    mul_le_mul_iff_right₀ four_pos, mul_le_mul_iff_right₀ four_pos,
    mul_lt_mul_iff_right₀ four_pos, mul_lt_mul_iff_right₀ four_pos] at h
  obtain ⟨hbelow, habove, hopen⟩ := h
  refine ⟨hbelow, habove, ?_⟩
  -- An odd mantissa makes the interval open
  intro hodd
  obtain ⟨hbelow', habove'⟩ := hopen (by rw [hodd]; rfl)
  refine ⟨lt_of_le_of_lt ?_ hbelow', habove'⟩
  split <;> linarith

/-- As the denominator is a power of two, the number itself is a decimal. -/
private theorem scaled_value :
    (((ofParts m e narrow).value * Nat.pow 5 (ofParts m e narrow).denominator.log2 : Nat) : ℚ) *
      10 ^ (-(ofParts m e narrow).denominator.log2 : Int) =
        (ofParts m e narrow).value / (ofParts m e narrow).denominator := by
  obtain ⟨k, hk⟩ : ∃ k, (ofParts m e narrow).denominator = 2 ^ k := ⟨_, rfl⟩
  have hten : (10 : ℚ) = 5 * 2 := by norm_num
  -- Multiplying by a power of five turns halves into tenths
  rw [hk, Nat.log2_two_pow, Nat.pow_eq, zpow_neg, zpow_natCast, hten, mul_pow]
  push_cast
  field_simp

/-- The number itself lies in its interval. -/
private theorem contains_value (hm : 0 < m) :
    (ofParts m e narrow).Contains
      ((ofParts m e narrow).value / (ofParts m e narrow).denominator) := by
  have hden : (ofParts m e narrow).denominator ≠ 0 := (Nat.two_pow_pos _).ne'
  have hden' : ((ofParts m e narrow).denominator : ℚ) ≠ 0 := by exact_mod_cast hden
  have hscale : 0 < Nat.pow 2 (e - 2).toNat := Nat.two_pow_pos _
  -- Both ends are at least half a unit away
  have hlow : (ofParts m e narrow).low < (ofParts m e narrow).value := by
    refine Nat.mul_lt_mul_of_pos_right ?_ hscale
    split <;> omega
  have hhigh : (ofParts m e narrow).value < (ofParts m e narrow).high :=
    Nat.mul_lt_mul_of_pos_right (by omega) hscale
  rw [Contains, div_mul_cancel₀ _ hden']
  norm_cast
  exact ⟨hlow.le, hhigh.le, fun _ => ⟨hlow, hhigh⟩⟩

/-- The fields of the bits of a number give its interval. -/
private theorem ofBits_eq {bits : UInt64} {s : Sign} {hm : 0 < m}
    (h : UnpackedFloat.unpack Format.binary64 bits.toBitVec = .finite s m e hm) :
    ofBits bits = ofParts m e (decide (m = 2 ^ 52 ∧ -1074 < e)) := by
  have hbiased : bits.toNat / 0x10000000000000 % 0x800 =
      (exponentField bits.toBitVec).toNat := (toNat_exponentField _).symm
  have hfraction : bits.toNat % 0x10000000000000 =
      (mantissaField bits.toBitVec).toNat := (toNat_mantissaField _).symm
  have hlt := (mantissaField bits.toBitVec).isLt
  rw [ofBits]
  simp only [hbiased, hfraction]
  -- Subnormal numbers have no hidden bit, normal ones do
  obtain ⟨-, ⟨hzero, rfl, rfl⟩ | ⟨hpos, -, rfl, rfl⟩⟩ := unpack_eq_finite_iff.mp h
  · rw [if_pos hzero, decide_eq_false (by omega)]
  · rw [if_neg hpos.ne']
    congr 1
    rw [Bool.eq_iff_iff, Bool.and_eq_true, beq_iff_eq, decide_eq_true_eq, decide_eq_true_eq]
    omega

end Interval

/-! ## Digits -/

/-- The rational that a decimal stands for. -/
def value (d : Decimal) : ℚ :=
  Nat.ofDigitChars 10 d.digits 0 * 10 ^ (d.exponent - d.digits.length + 1)

/-- Decimals as they are written: the first digit is not zero, unless the decimal is. -/
structure Proper (d : Decimal) : Prop where
  ne_nil : d.digits ≠ []
  isDigit : ∀ c ∈ d.digits, c.isDigit = true
  leading : d.digits.head? = some '0' → d.digits = ['0'] ∧ d.exponent = 0

/-- The digits of a scaled number are those of the number, less the zeros at its end. -/
private theorem exists_digits_ofScaled (n : Nat) (power : Int) :
    ∃ zeros : Nat, Nat.toDigits 10 n = (ofScaled n power).digits ++ List.replicate zeros '0' := by
  have hzeros : ∀ c ∈ List.rtakeWhile (· == '0') (Nat.toDigits 10 n), c = '0' := by
    intro c hc
    have hzero := List.mem_rtakeWhile_imp hc
    exact beq_iff_eq.mp hzero
  -- Only zeros at the end have been cut off
  refine ⟨(List.rtakeWhile (· == '0') (Nat.toDigits 10 n)).length, ?_⟩
  rw [← List.eq_replicate_of_mem hzeros]
  exact List.rdropWhile_append_rtakeWhile.symm

variable {n : Nat} {power : Int}

/-- A positive number is written without zeros at its ends. -/
private theorem proper_ofScaled (hn : 0 < n) : (ofScaled n power).Proper := by
  obtain ⟨zeros, hdigits⟩ := exists_digits_ofScaled n power
  have hhead := head?_toDigits hn
  have hnil : (ofScaled n power).digits ≠ [] := by
    intro hnil
    -- Then there would be zeros only, but the first digit is none
    rw [hnil, List.nil_append] at hdigits
    cases zeros with
    | zero => exact Nat.toDigits_ne_nil hdigits
    | succ zeros =>
      rw [hdigits] at hhead
      exact hhead rfl
  rw [hdigits, List.head?_append_of_ne_nil _ hnil] at hhead
  refine ⟨hnil, ?_, fun hzero => absurd hzero hhead⟩
  intro c hc
  refine Nat.isDigit_of_mem_toDigits (b := 10) (n := n) (by decide) (by decide) ?_
  rw [hdigits]
  exact List.mem_append_left _ hc

/-- Dropping zeros at the end does not change the value. -/
private theorem value_ofScaled (n : Nat) (power : Int) :
    (ofScaled n power).value = n * 10 ^ power := by
  obtain ⟨zeros, hdigits⟩ := exists_digits_ofScaled n power
  -- The zeros that were dropped are a power of ten
  have hn : n = 10 ^ zeros * Nat.ofDigitChars 10 (ofScaled n power).digits 0 := by
    rw [← Nat.ofDigitChars_replicate_zero, ← Nat.ofDigitChars_append, ← hdigits,
      Nat.ofDigitChars_ten_toDigits]
  have hexponent : (ofScaled n power).exponent - (ofScaled n power).digits.length + 1 =
      zeros + power := by
    have hlength := congrArg List.length hdigits
    rw [List.length_append, List.length_replicate] at hlength
    have : (ofScaled n power).exponent = power + (Nat.toDigits 10 n).length - 1 := rfl
    omega
  rw [value, hexponent, zpow_add₀ (by norm_num), zpow_natCast]
  nth_rewrite 2 [hn]
  push_cast
  ring

variable {m : Nat} {e : Int} {bits : UInt64} {s : Sign} {hm : 0 < m}

/-- The search ends with a decimal that is rounded to the number. -/
theorem roundsTo_shortest (tie : Tie)
    (h : UnpackedFloat.unpack Format.binary64 bits.toBitVec = .finite s m e hm) :
    (shortest tie bits).Proper ∧ RoundsTo m e (shortest tie bits).value := by
  obtain ⟨n, power, hshortest, hcontains⟩ :
      ∃ n power, shortest tie bits = ofScaled n power ∧
        (Interval.ofParts m e (decide (m = 2 ^ 52 ∧ -1074 < e))).Contains (n * 10 ^ power) := by
    rw [shortest, Interval.ofBits_eq h]
    -- What a place finds lies in the interval, and if no place does the number itself is taken
    generalize hfound : List.findSome? _ _ = found
    cases found with
    | some d =>
      obtain ⟨place, -, hpick⟩ := List.exists_of_findSome?_eq_some hfound
      obtain ⟨n, hn, rfl⟩ := Option.map_eq_some_iff.mp hpick
      exact ⟨n, _, rfl, Interval.contains_inUnits.mp (Interval.contains_of_pick hn)⟩
    | none =>
      refine ⟨_, _, rfl, ?_⟩
      rw [Interval.scaled_value]
      exact Interval.contains_value hm
  have hround := Interval.roundsTo_of_contains hm decide_eq_true_iff hcontains
  rw [hshortest, value_ofScaled]
  exact ⟨proper_ofScaled (hround.significand_pos (canonical_of_unpack h)), hround⟩

end Reckoner.Decimal
