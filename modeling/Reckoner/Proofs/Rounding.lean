import Reckoner.Proofs.Binary64

/-!
# Rounding to binary64

Every finite number of binary64 other than zero has an interval of rationals that are rounded
to it: up to half of its last place away, and from above only a quarter below a power of two.
The ends belong to it if the mantissa is even.

## Key results

- `Binary64.Represents.shiftRight`: dropping bits keeps what rounding has to know
- `Binary64.roundWithAccuracy_eq`: rounding a rational of the interval gives the number
- `Binary64.ofScientific_eq`: a decimal of the interval is read as the number
-/

namespace Reckoner.Binary64

open Float.Model UnpackedFloat

/-! ## Mantissas with residual bits -/

/-- What a mantissa with its two residual bits tells of a rational: its whole part, and where
    the rest stands to a half. -/
def Represents (em : ExtendedMantissa) (x : ℚ) : Prop :=
  match em.roundBit, em.stickyBit with
  | false, false => x = em.mantissa
  | false, true => em.mantissa < x ∧ x < em.mantissa + 1 / 2
  | true, false => x = em.mantissa + 1 / 2
  | true, true => em.mantissa + 1 / 2 < x ∧ x < em.mantissa + 1

variable {em : ExtendedMantissa} {x : ℚ}

private theorem Represents.mantissa_le (h : Represents em x) : (em.mantissa : ℚ) ≤ x := by
  obtain ⟨m, r, s⟩ := em
  cases r <;> cases s <;> simp only [Represents] at h <;> linarith

private theorem Represents.lt_mantissa_add_one (h : Represents em x) : x < em.mantissa + 1 := by
  obtain ⟨m, r, s⟩ := em
  cases r <;> cases s <;> simp only [Represents] at h <;> linarith

/-- Dropping the last bit halves what the mantissa stands for. -/
private theorem Represents.shiftRightOne (h : Represents em x) :
    Represents em.shiftRightOne (x / 2) := by
  obtain ⟨m, r, s⟩ := em
  have hm : (m : ℚ) = 2 * (m / 2 : Nat) + (m % 2 : Nat) := by
    exact_mod_cast (Nat.div_add_mod m 2).symm
  -- The last bit becomes the half, and the old half joins what is below it
  rcases Nat.mod_two_eq_zero_or_one m with hbit | hbit
  all_goals
    rw [hbit] at hm
    cases r <;> cases s <;> simp [Represents, ExtendedMantissa.shiftRightOne, hbit] at h hm ⊢
  all_goals first | linarith | exact ⟨by linarith, by linarith⟩

/-- Shifting by so many places divides by that power of two. -/
theorem Represents.shiftRight (h : Represents em x) (n : Nat) :
    Represents (em >>> n) (x / 2 ^ n) := by
  -- A long shift is short ones, and each keeps the lost bits in view
  induction n with
  | zero =>
    rw [pow_zero, div_one]
    exact h
  | succ n ih =>
    rw [pow_succ, ← div_div]
    exact ih.shiftRightOne

/-- A rational within half a unit of a whole number is rounded to it, an end of the half unit
    only if the number is even. -/
private theorem Represents.roundedMantissa_eq (h : Represents em x) {n : Nat} (hlow : n - 1 / 2 ≤ x)
    (hhigh : x ≤ n + 1 / 2) (hodd : n % 2 = 1 → n - 1 / 2 < x ∧ x < n + 1 / 2) :
    em.roundedMantissa = n := by
  obtain ⟨m, r, s⟩ := em
  cases r with
  | false =>
    -- Below the half the mantissa stays as it is
    have hround : ExtendedMantissa.roundedMantissa ⟨m, false, s⟩ = m := by cases s <;> rfl
    have hx : (m : ℚ) ≤ x ∧ x < m + 1 / 2 := by
      cases s <;> simp only [Represents] at h <;> constructor <;> linarith
    have hmn : (m : ℚ) < n + 1 := by linarith
    have hnm : (n : ℚ) < m + 1 := by linarith
    norm_cast at hmn hnm
    omega
  | true =>
    cases s with
    | false =>
      have hround : ExtendedMantissa.roundedMantissa ⟨m, true, false⟩ = m + m % 2 := rfl
      have hx : x = m + 1 / 2 := h
      have hmn : (m : ℚ) ≤ n := by linarith
      have hnm : (n : ℚ) ≤ m + 1 := by linarith
      norm_cast at hmn hnm
      -- The two numbers that are as near are `m` and `m + 1`, of which one is even
      rcases Nat.mod_two_eq_zero_or_one n with heven | hn
      · omega
      · obtain ⟨hlow', hhigh'⟩ := hodd hn
        have hmn' : (m : ℚ) < n := by linarith
        have hnm' : (n : ℚ) < m + 1 := by linarith
        norm_cast at hmn' hnm'
        omega
    | true =>
      have hround : ExtendedMantissa.roundedMantissa ⟨m, true, true⟩ = m + 1 := rfl
      obtain ⟨hx, hx'⟩ : (m : ℚ) + 1 / 2 < x ∧ x < m + 1 := h
      have hmn : (m : ℚ) < n := by linarith
      have hnm : (n : ℚ) < m + 2 := by linarith
      norm_cast at hmn hnm
      omega

/-! ## The interval of a number -/

/-- The rational is nearest to `m * 2 ^ e` among the numbers of binary64, and of two that are
    as near `m` is the even one.  Below a power of two the neighbour is half as far away. -/
structure RoundsTo (m : Nat) (e : Int) (x : ℚ) : Prop where
  low : m - (if m = 2 ^ 52 ∧ -1074 < e then 1 / 4 else 1 / 2) ≤ x / 2 ^ e
  high : x / 2 ^ e ≤ m + 1 / 2
  odd : m % 2 = 1 → m - 1 / 2 < x / 2 ^ e ∧ x / 2 ^ e < m + 1 / 2

/-- What rounds to a mantissa is at most half a unit below it. -/
private theorem RoundsTo.half_le {m : Nat} {e : Int} (h : RoundsTo m e x) :
    m - 1 / 2 ≤ x / 2 ^ e := by
  have hlow := h.low
  split at hlow <;> linarith

/-! ## Rounding -/

variable {q : Nat} {e₀ : Int} {accuracy : Accuracy}

/-- The accuracy is beside the mantissa and does not change it. -/
private theorem mantissa_ofMantissaAndAccuracy (q : Nat) (accuracy : Accuracy) :
    (ExtendedMantissa.ofMantissaAndAccuracy q accuracy).mantissa = q := by
  cases accuracy with
  | exact => rfl
  | inexact ordering => cases ordering <;> rfl

/-- The exponent at which a number has 53 bits, or the smallest one. -/
abbrev target (q : Nat) (e₀ : Int) : Int :=
  Format.binary64.targetExponent (totalExponent q e₀)

/-- The exponent that leaves 53 bits, or the least one if that is greater. -/
theorem target_eq (q : Nat) (e₀ : Int) :
    target q e₀ = max ((q.log2 : Int) + 1 + e₀ - 53) (-1074) := rfl

/-- Shifting to the target exponent leaves a mantissa of 53 bits, or fewer at the smallest
    exponent, and changes nothing of what is represented. -/
private theorem exists_shiftToTargetExponent
    (h : Represents (ExtendedMantissa.ofMantissaAndAccuracy q accuracy) x)
    (he : e₀ ≤ target q e₀) :
    ∃ em y, shiftToTargetExponent Format.binary64 q e₀ accuracy = (em, target q e₀) ∧
      Represents em y ∧ y * 2 ^ target q e₀ = x * 2 ^ e₀ ∧ y < 2 ^ 53 ∧
      (target q e₀ = -1074 ∨ 2 ^ 52 ≤ y) := by
  -- The number of places that are dropped
  obtain ⟨n, hn⟩ : ∃ n : Nat, target q e₀ = e₀ + n := ⟨(target q e₀ - e₀).toNat, by omega⟩
  have htarget := target_eq q e₀
  have hpow : (0 : ℚ) < 2 ^ n := by positivity
  have hbelow := h.mantissa_le
  have habove := h.lt_mantissa_add_one
  rw [mantissa_ofMantissaAndAccuracy] at hbelow habove
  refine ⟨_, x / 2 ^ n, ?_, h.shiftRight n, ?_, ?_, ?_⟩
  · have hshift : (target q e₀ - e₀).toNat = n := by omega
    rw [shiftToTargetExponent, shiftToExponent, hshift, hn]
  · rw [hn, zpow_add₀ two_ne_zero, zpow_natCast]
    field_simp
  · -- One more than the mantissa is at most the power of two behind its first bit
    rw [div_lt_iff₀ hpow, ← pow_add]
    have hlog : q + 1 ≤ 2 ^ (53 + n) := by
      have hlt : q < 2 ^ (q.log2 + 1) := Nat.lt_log2_self
      have hle : 2 ^ (q.log2 + 1) ≤ 2 ^ (53 + n) := Nat.pow_le_pow_right (by decide) (by omega)
      omega
    have hlog' : (q : ℚ) + 1 ≤ 2 ^ (53 + n) := by exact_mod_cast hlog
    linarith
  · -- Above the smallest exponent as much is dropped as leaves the first bit at its place
    rw [or_iff_not_imp_left]
    intro hnormal
    rw [le_div_iff₀ hpow, ← pow_add]
    have hlog : 2 ^ (52 + n) ≤ q := by
      have hbits : 52 + n = q.log2 := by omega
      rw [hbits]
      apply Nat.log2_self_le
      rintro rfl
      rw [Nat.log2_zero] at hbits
      omega
    have hlog' : (2 : ℚ) ^ (52 + n) ≤ q := by exact_mod_cast hlog
    linarith

/-- Nothing is dropped of a mantissa of 53 bits or of the smallest exponent. -/
private theorem shiftToTargetExponent_of_lt {m : Nat} {e : Int} (hm : m < 2 ^ 53) (he : -1074 ≤ e) :
    shiftToTargetExponent Format.binary64 m e .exact = (⟨m, false, false⟩, e) := by
  have hlog : m.log2 < 53 := by
    by_cases hzero : m = 0
    · subst m
      decide
    · exact (Nat.log2_lt hzero).mpr hm
  -- With 53 bits at most there is nothing to drop
  have hshift : (target m e - e).toNat = 0 := by
    have := target_eq m e
    omega
  rw [shiftToTargetExponent, shiftToExponent, hshift, Int.natCast_zero, add_zero]
  rfl

/-- The first power of two that has too many bits loses its last one. -/
private theorem shiftToTargetExponent_two_pow {e : Int} (he : -1074 ≤ e) :
    shiftToTargetExponent Format.binary64 (2 ^ 53) e .exact = (⟨2 ^ 52, false, false⟩, e + 1) := by
  -- One bit too long, so a single zero is dropped
  have hshift : (target (2 ^ 53) e - e).toNat = 1 := by
    have := target_eq (2 ^ 53) e
    rw [Nat.log2_two_pow] at this
    omega
  rw [shiftToTargetExponent, shiftToExponent, hshift]
  rfl

/-- What a number of 53 bits at an exponent is at another. -/
private theorem mul_two_zpow_div (y : ℚ) (t e : Int) : y * 2 ^ t / 2 ^ e = y * 2 ^ (t - e) := by
  rw [zpow_sub₀ two_ne_zero, mul_div_assoc]

/-- Of the intervals at greater exponents only that of the first power of two reaches down to
    mantissas of 53 bits. -/
private theorem eq_two_pow_of_exponent_lt {m : Nat} {e t : Int} {y : ℚ} (hc : Canonical m e)
    (hround : RoundsTo m e (y * 2 ^ t)) (hmin : -1074 ≤ t) (ht : t < e) (hlt : y < 2 ^ 53) :
    e = t + 1 ∧ m = 2 ^ 52 ∧ 2 ^ 53 - 1 / 2 ≤ y := by
  have hnormal : 2 ^ 52 ≤ m := hc.normal.resolve_right (by omega)
  have hm : (2 : ℚ) ^ 52 ≤ m := by exact_mod_cast hnormal
  have hhalf := hround.half_le
  have hlow := hround.low
  rw [mul_two_zpow_div] at hhalf hlow
  by_cases hnext : e = t + 1
  · -- Halved, a mantissa below `2 ^ 53` is in reach of `2 ^ 52` only
    subst e
    have hpow : (2 : ℚ) ^ (t - (t + 1)) = 1 / 2 := by
      rw [show t - (t + 1) = -1 by omega, zpow_neg_one, one_div]
    rw [hpow] at hhalf hlow
    have hlt' : (m : ℚ) < 2 ^ 52 + 1 := by linarith
    have hm' : m = 2 ^ 52 := by
      norm_cast at hlt'
      omega
    rw [if_pos ⟨hm', by omega⟩] at hlow
    exact ⟨rfl, hm', by linarith⟩
  · -- Two places up the mantissas are at most a quarter of `2 ^ 53`
    have hy : 0 < y := by
      by_contra! hneg
      have := mul_nonpos_of_nonpos_of_nonneg hneg (zpow_nonneg zero_le_two (t - e))
      linarith
    have hpow : (2 : ℚ) ^ (t - e) ≤ 2 ^ (-2 : Int) :=
      zpow_le_zpow_right₀ one_le_two (by omega)
    have := mul_le_mul_of_nonneg_left hpow hy.le
    norm_num at this
    linarith

/-- The intervals at smaller exponents do not reach up to mantissas of 53 bits. -/
private theorem mantissa_lt_of_exponent_lt {m : Nat} {e t : Int} {y : ℚ} (hc : Canonical m e)
    (ht : e < t) (hge : t = -1074 ∨ 2 ^ 52 ≤ y) : m + 1 / 2 < y * 2 ^ t / 2 ^ e := by
  have hmin := hc.le_exponent
  -- Above the smallest exponent the scaled number has its first bit at its place
  have hy : (2 : ℚ) ^ 52 ≤ y := hge.resolve_left (by omega)
  have hm : (m : ℚ) + 1 ≤ 2 ^ 53 := by exact_mod_cast hc.lt
  have hpow : (2 : ℚ) ^ (1 : Int) ≤ 2 ^ (t - e) :=
    zpow_le_zpow_right₀ one_le_two (by omega)
  rw [mul_two_zpow_div]
  have : (2 : ℚ) ^ 52 * 2 ^ (1 : Int) ≤ y * 2 ^ (t - e) :=
    mul_le_mul hy hpow (by positivity) (by positivity)
  norm_num at this hm ⊢
  linarith

/-- A rational in the interval of a number is rounded to this number. -/
theorem roundWithAccuracy_eq {m : Nat} {e : Int} (hc : Canonical m e)
    (h : Represents (ExtendedMantissa.ofMantissaAndAccuracy q accuracy) x)
    (he : e₀ ≤ target q e₀) (hround : RoundsTo m e (x * 2 ^ e₀)) (s : Sign) :
    roundWithAccuracy Format.binary64 s q e₀ accuracy = .finite s m e hc.pos := by
  obtain ⟨em, y, hshift, hy, hvalue, hlt, hge⟩ := exists_shiftToTargetExponent h he
  have hmin : -1074 ≤ target q e₀ := le_max_right _ _
  generalize target q e₀ = t at hshift hvalue hge hmin
  rw [← hvalue] at hround
  rcases lt_trichotomy t e with ht | rfl | ht
  · -- All mantissas of 53 bits are below the interval, unless the number is the first above
    obtain ⟨rfl, rfl, hlow⟩ : e = t + 1 ∧ m = 2 ^ 52 ∧ 2 ^ 53 - 1 / 2 ≤ y :=
      eq_two_pow_of_exponent_lt hc hround hmin ht hlt
    have hmantissa : em.roundedMantissa = 2 ^ 53 := by
      apply hy.roundedMantissa_eq
      · exact_mod_cast hlow
      · push_cast
        linarith
      · intro hodd
        exact absurd hodd (by decide)
    -- Rounding carries into a bit too many, and the second shift takes it back
    rw [roundWithAccuracy, hshift]
    dsimp only
    rw [hmantissa, shiftToTargetExponent_two_pow hmin]
    rfl
  · have hy' : y * 2 ^ t / 2 ^ t = y := mul_div_cancel_right₀ y (by positivity)
    have hmantissa : em.roundedMantissa = m := by
      apply hy.roundedMantissa_eq
      · exact hy' ▸ hround.half_le
      · exact hy' ▸ hround.high
      · exact hy' ▸ hround.odd
    rw [roundWithAccuracy, hshift]
    dsimp only
    rw [hmantissa, shiftToTargetExponent_of_lt hc.lt hc.le_exponent]
    exact dif_neg hc.pos.ne'
  · -- The interval is below all mantissas of 53 bits
    exact absurd hround.high (not_le_of_gt (mantissa_lt_of_exponent_lt hc ht hge))

/-! ## Division -/

/-- A quotient and its remainder tell what rounding has to know of a fraction. -/
theorem represents_div {n d : Nat} (hd : 0 < d) :
    Represents (ExtendedMantissa.ofMantissaAndAccuracy (n / d) (accuracyOfFraction (n % d) d))
      (n / d) := by
  have hd' : (0 : ℚ) < d := by exact_mod_cast hd
  have hlt : ((n % d : Nat) : ℚ) < d := by exact_mod_cast Nat.mod_lt n hd
  have hdiv : (n : ℚ) / d = (n / d : Nat) + (n % d : Nat) / d := by
    rw [div_eq_iff hd'.ne', add_mul, div_mul_cancel₀ _ hd'.ne']
    exact_mod_cast (Nat.div_add_mod' n d).symm
  rw [hdiv, accuracyOfFraction]
  split
  case isTrue hzero =>
    rw [hzero, Nat.cast_zero, zero_div, add_zero]
    rfl
  case isFalse hpos =>
    -- What is left is compared with half of the divisor
    have hpos' : (0 : ℚ) < (n % d : Nat) := by exact_mod_cast Nat.pos_of_ne_zero hpos
    have hrest : 0 < ((n % d : Nat) : ℚ) / d := div_pos hpos' hd'
    have hrest' : ((n % d : Nat) : ℚ) / d < 1 := (div_lt_one hd').mpr hlt
    cases hhalf : compare (2 * (n % d)) d with
    | lt =>
      have hlow : 2 * ((n % d : Nat) : ℚ) < d := by exact_mod_cast Nat.compare_eq_lt.mp hhalf
      have : ((n % d : Nat) : ℚ) / d < 1 / 2 := by
        rw [div_lt_div_iff₀ hd' two_pos]
        linarith
      exact ⟨lt_add_of_pos_right _ hrest, add_lt_add_right this _⟩
    | eq =>
      have hmid : 2 * ((n % d : Nat) : ℚ) = d := by exact_mod_cast Nat.compare_eq_eq.mp hhalf
      have : ((n % d : Nat) : ℚ) / d = 1 / 2 := by
        rw [div_eq_div_iff hd'.ne' two_ne_zero]
        linarith
      rw [this]
      rfl
    | gt =>
      have hhigh : d < 2 * ((n % d : Nat) : ℚ) := by exact_mod_cast Nat.compare_eq_gt.mp hhalf
      have : 1 / 2 < ((n % d : Nat) : ℚ) / d := by
        rw [div_lt_div_iff₀ two_pos hd']
        linarith
      exact ⟨add_lt_add_right this _, add_lt_add_right hrest' _⟩

/-- Dividing shifts the dividend until the quotient has bits enough. -/
theorem exists_divCore {m d : Nat} (hm : 0 < m) (hd : 0 < d) (e₁ e₂ : Int) :
    ∃ n : Nat, divCore Format.binary64 m e₁ d e₂ =
        (m * 2 ^ n / d, e₁ - e₂ - n, accuracyOfFraction (m * 2 ^ n % d) d) ∧
      e₁ - e₂ - n ≤ target (m * 2 ^ n / d) (e₁ - e₂ - n) := by
  have htarget : Format.binary64.targetExponent (totalExponent m e₁ - totalExponent d e₂) =
      max (((m.log2 : Int) + 1 + e₁ - (d.log2 + 1 + e₂)) - 53) (-1074) := rfl
  obtain ⟨n, hn⟩ : ∃ n : Nat, min (e₁ - e₂)
      (Format.binary64.targetExponent (totalExponent m e₁ - totalExponent d e₂)) = e₁ - e₂ - n :=
    ⟨(e₁ - e₂ - min (e₁ - e₂) (Format.binary64.targetExponent
      (totalExponent m e₁ - totalExponent d e₂))).toNat, by omega⟩
  refine ⟨n, ?_, ?_⟩
  · have hshift : (e₁ - e₂ - (e₁ - e₂ - n)).toNat = n := by omega
    rw [divCore, hn, hshift, Nat.shiftLeft_eq]
  · rw [target_eq]
    by_cases hsmall : e₁ - e₂ - n ≤ -1074
    · exact hsmall.trans (le_max_right _ _)
    · -- The shift is long enough for 53 bits of quotient, whatever the first bits are
      have hquotient : 2 ^ 52 ≤ m * 2 ^ n / d := by
        rw [Nat.le_div_iff_mul_le hd]
        calc 2 ^ 52 * d ≤ 2 ^ 52 * 2 ^ (d.log2 + 1) := by gcongr; exact Nat.lt_log2_self.le
          _ = 2 ^ (52 + (d.log2 + 1)) := (pow_add ..).symm
          _ ≤ 2 ^ (m.log2 + n) := Nat.pow_le_pow_right two_pos (by omega)
          _ = 2 ^ m.log2 * 2 ^ n := pow_add ..
          _ ≤ m * 2 ^ n := by gcongr; exact Nat.log2_self_le hm.ne'
      have hlog : 52 ≤ (m * 2 ^ n / d).log2 := (Nat.le_log2 (by omega)).mpr hquotient
      omega

/-! ## Decimals -/

variable {m n : Nat} {e k : Int}

/-- What rounds to a number of binary64 is bounded from above. -/
theorem RoundsTo.le (h : RoundsTo m e x) (hc : Canonical m e) : x ≤ 2 ^ (1024 : Int) := by
  have hm : (m : ℚ) + 1 ≤ 2 ^ 53 := by exact_mod_cast hc.lt
  have hhigh := h.high
  rw [div_le_iff₀ (by positivity)] at hhigh
  -- The greatest mantissa at the greatest exponent
  calc x ≤ (m + 1 / 2) * 2 ^ e := hhigh
    _ ≤ 2 ^ (53 : Int) * 2 ^ (971 : Int) := by
      gcongr
      · norm_num at hm ⊢
        linarith
      · exact one_le_two
      · exact hc.exponent_le
    _ = 2 ^ (1024 : Int) := by rw [← zpow_add₀ two_ne_zero]; rfl

/-- What rounds to a positive number of binary64 is bounded from below. -/
theorem RoundsTo.ge (h : RoundsTo m e x) (hc : Canonical m e) : 2 ^ (-1075 : Int) ≤ x := by
  have hm : (1 : ℚ) ≤ m := by exact_mod_cast hc.pos
  have hlow := h.half_le
  rw [le_div_iff₀ (by positivity)] at hlow
  -- Half a unit at the smallest exponent
  calc (2 : ℚ) ^ (-1075 : Int) = 2 ^ (-1 : Int) * 2 ^ (-1074 : Int) := by
        rw [← zpow_add₀ two_ne_zero]; rfl
    _ ≤ (m - 1 / 2) * 2 ^ e := by
      gcongr
      · linarith
      · norm_num
        linarith
      · exact one_le_two
      · exact hc.le_exponent
    _ ≤ x := hlow

/-- No interval reaches down to zero. -/
theorem RoundsTo.significand_pos (h : RoundsTo m e (n * 10 ^ k)) (hc : Canonical m e) :
    0 < n := by
  apply Nat.pos_of_ne_zero
  rintro rfl
  have hge := h.ge hc
  rw [Nat.cast_zero, zero_mul] at hge
  exact absurd hge (not_le_of_gt (by positivity))

/-- No decimal of an interval has so large a power of ten that reading it gives up. -/
private theorem RoundsTo.power_le (h : RoundsTo m e (n * 10 ^ k)) (hc : Canonical m e) :
    k ≤ 2048 := by
  by_contra! hlarge
  have hn : (1 : ℚ) ≤ n := by exact_mod_cast h.significand_pos hc
  have : (2 : ℚ) ^ (1024 : Int) < n * 10 ^ k :=
    calc (2 : ℚ) ^ (1024 : Int) < 2 ^ k := zpow_lt_zpow_right₀ one_lt_two (by omega)
      _ ≤ 10 ^ k := zpow_le_zpow_left₀ (by omega) two_pos.le (by norm_num)
      _ ≤ n * 10 ^ k := le_mul_of_one_le_left (by positivity) hn
  exact absurd (h.le hc) (not_le_of_gt this)

/-- No decimal of an interval has so small a power of ten that reading it gives up. -/
private theorem RoundsTo.le_power (h : RoundsTo m e (n * 10 ^ k)) (hc : Canonical m e) :
    -(2048 + n.log2 : Int) ≤ k := by
  by_contra! hsmall
  have hlog : (n : ℚ) ≤ 2 ^ ((n.log2 : Int) + 1) := by
    exact_mod_cast (Nat.lt_log2_self : n < 2 ^ (n.log2 + 1)).le
  -- A power of ten with a negative exponent is below that power of two
  have hpow : (10 : ℚ) ^ k ≤ 2 ^ k := by
    rw [← inv_le_inv₀ (by positivity) (by positivity), ← zpow_neg, ← zpow_neg]
    exact zpow_le_zpow_left₀ (by omega) two_pos.le (by norm_num)
  have : n * (10 : ℚ) ^ k < 2 ^ (-1075 : Int) :=
    calc n * (10 : ℚ) ^ k ≤ 2 ^ ((n.log2 : Int) + 1) * 2 ^ k := by gcongr
      _ = 2 ^ ((n.log2 : Int) + 1 + k) := (zpow_add₀ two_ne_zero ..).symm
      _ < 2 ^ (-1075 : Int) := zpow_lt_zpow_right₀ one_lt_two (by omega)
  exact absurd (h.ge hc) (not_le_of_gt this)

/-- A decimal in the interval of a number is read as this number. -/
theorem ofScientific_eq (hc : Canonical m e) (h : RoundsTo m e (n * 10 ^ k)) :
    UnpackedFloat.ofScientific Format.binary64 n k = .finite .positive m e hc.pos := by
  have hn := h.significand_pos hc
  have hk := h.power_le hc
  have hk' := h.le_power hc
  have hlarge : ¬ k > 2 ^ Format.binary64.exponentBits := not_lt_of_ge hk
  have hsmall : ¬ k < -((2 ^ Format.binary64.exponentBits : Int) + n.log2) := not_lt_of_ge hk'
  rw [UnpackedFloat.ofScientific, dif_neg hn.ne', if_neg hlarge, if_neg hsmall]
  split
  case isTrue hpos =>
    obtain ⟨p, rfl⟩ := Int.eq_ofNat_of_zero_le hpos
    have hq : 2 ^ 53 ≤ n * 2 ^ 53 * 10 ^ p := by
      calc 2 ^ 53 = 1 * 2 ^ 53 * 1 := rfl
        _ ≤ n * 2 ^ 53 * 10 ^ p := by
          gcongr
          · omega
          · exact Nat.one_le_pow _ _ (by decide)
    have hlog : 53 ≤ (n * 2 ^ 53 * 10 ^ p).log2 := (Nat.le_log2 (by omega)).mpr hq
    rw [UnpackedFloat.mul, Int.toNat_natCast, Nat.shiftLeft_eq]
    show roundWithAccuracy Format.binary64 .positive (n * 2 ^ 53 * 10 ^ p) (-53) .exact = _
    -- The product is exact
    have hx : Represents (ExtendedMantissa.ofMantissaAndAccuracy (n * 2 ^ 53 * 10 ^ p) .exact)
      ((n * 2 ^ 53 * 10 ^ p : Nat) : ℚ) := rfl
    refine roundWithAccuracy_eq hc hx ?_ ?_ .positive
    · rw [target_eq]
      omega
    · have hvalue : ((n * 2 ^ 53 * 10 ^ p : Nat) : ℚ) * 2 ^ (-53 : Int) = n * 10 ^ (p : Int) := by
        push_cast
        rw [zpow_neg, zpow_natCast, zpow_ofNat]
        field_simp
        norm_num
      rwa [hvalue]
  case isFalse hneg =>
    -- A negative power of ten divides
    obtain ⟨p, rfl⟩ : ∃ p : Nat, k = -p := ⟨(-k).toNat, by omega⟩
    have hp : (- -(p : Int)).toNat = p := by omega
    have hten : 0 < 10 ^ p := by positivity
    obtain ⟨t, hcore, ht⟩ := exists_divCore hn hten 0 0
    rw [UnpackedFloat.div, hp, hcore]
    refine roundWithAccuracy_eq hc (represents_div hten) ht ?_ .positive
    have hvalue : ((n * 2 ^ t : Nat) : ℚ) / (10 ^ p : Nat) * 2 ^ (0 - 0 - t : Int) =
        n * 10 ^ (-p : Int) := by
      push_cast
      rw [zero_sub, zpow_neg, zpow_neg, zpow_natCast, zpow_natCast]
      field_simp
    rwa [hvalue]

end Reckoner.Binary64
