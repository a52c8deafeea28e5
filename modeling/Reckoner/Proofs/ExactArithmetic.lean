import Reckoner.Proofs.Rounding

/-!
# Exact arithmetic

A finite number of binary64 stands for a rational.  An operation gives the rational result
whenever that is itself a number of binary64, for nothing is rounded then.  All integers up to
`2 ^ 53` are numbers of binary64.

## Key results

- `Binary64.denotes_roundWithAccuracy`: rounding leaves the numbers of binary64 alone
- `Binary64.rational?_add`, `Binary64.rational?_sub`, `Binary64.rational?_mul`,
  `Binary64.rational?_div`: the four operations, where their results are numbers of binary64
- `Binary64.representable_intCast`, `Binary64.rational?_ofInt`: integers
-/

namespace Reckoner.Binary64

open Float.Model UnpackedFloat

/-! ## The rational of a number -/

/-- A rational behind a sign. -/
def signed : Sign → ℚ → ℚ
  | .positive, q => q
  | .negative, q => -q

/-- The rational that a decoded number stands for, if that is finite. -/
def value? : UnpackedFloat → Option ℚ
  | .zero _ => some 0
  | .finite s m e _ => some (signed s (m * 2 ^ e))
  | .infinity _ => none
  | .notANumber => none

/-- The rational that a number stands for, if that is finite; both zeros stand for 0. -/
def rational? (x : Float) : Option ℚ :=
  value? x.toModel.unpack

/-- The decoded numbers of binary64 that are finite, with what they stand for. -/
inductive Denotes : UnpackedFloat → ℚ → Prop where
  | zero (s : Sign) : Denotes (.zero s) 0
  | finite (s : Sign) {m : Nat} {e : Int} (hc : Canonical m e) :
    Denotes (.finite s m e hc.pos) (signed s (m * 2 ^ e))

/-- Rationals that are numbers of binary64. -/
def Representable (q : ℚ) : Prop :=
  ∃ u, Denotes u q

/-- The number that a decoded one is encoded as. -/
abbrev packed (u : UnpackedFloat) : Float :=
  Float.ofModel (Float.Model.pack u)

section Signed

variable (s s' : Sign) (p q : ℚ)

theorem signed_neg : signed (-s) q = -signed s q := by
  cases s with
  | positive => rfl
  | negative => exact (neg_neg q).symm

theorem signed_mul : signed (s * s') (p * q) = signed s p * signed s' q := by
  cases s <;> cases s'
  · exact (neg_mul_neg p q).symm
  · exact (neg_mul p q).symm
  · exact (mul_neg p q).symm
  · rfl

theorem signed_div : signed (s / s') (p / q) = signed s p / signed s' q := by
  cases s <;> cases s'
  · exact (neg_div_neg_eq p q).symm
  · exact neg_div' q p
  · exact (div_neg p).symm
  · rfl

private theorem abs_signed : |signed s q| = |q| := by
  cases s with
  | positive => rfl
  | negative => exact abs_neg q

private theorem signed_ne_zero {q : ℚ} (hq : 0 < q) : signed s q ≠ 0 := by
  rw [← abs_pos, abs_signed]
  exact abs_pos.mpr hq.ne'

end Signed

variable {u v : UnpackedFloat} {x y : Float} {a b : ℚ}

/-- A number of binary64 is the rational that it denotes when it is unpacked. -/
private theorem denotes_iff_rational? : rational? x = some a ↔ Denotes x.toModel.unpack a := by
  rw [rational?]
  constructor
  · intro h
    -- Zeros and finite numbers denote; infinities and what is no number do not
    cases hunpack : x.toModel.unpack with
    | zero s =>
      rw [hunpack] at h
      obtain rfl : 0 = a := Option.some.inj h
      exact .zero s
    | finite s m e hm =>
      rw [hunpack] at h
      obtain rfl : signed s (m * 2 ^ e) = a := Option.some.inj h
      exact .finite s (canonical_of_unpack hunpack)
    | infinity s =>
      rw [hunpack] at h
      cases h
    | notANumber =>
      rw [hunpack] at h
      cases h
  · intro h
    generalize x.toModel.unpack = u at h
    cases h with
    | zero s => rfl
    | finite s hc => rfl

/-- A number stands for what it was before it was encoded. -/
private theorem Denotes.rational?_packed (h : Denotes u a) : rational? (packed u) = some a := by
  cases h with
  | zero s => cases s <;> rfl
  | finite s hc =>
    rw [rational?, unpack_ofModel_pack hc]
    rfl

/-- A number equals zero exactly if it stands for 0. -/
theorem beq_zero_iff (hx : rational? x = some a) : (x == 0) = true ↔ a = 0 := by
  have hbeq : (x == 0) = x.toModel.unpack.beq (.zero .positive) := rfl
  have hdenotes := denotes_iff_rational?.mp hx
  rw [hbeq]
  generalize x.toModel.unpack = u at hdenotes
  cases hdenotes with
  | zero s => exact iff_of_true rfl rfl
  -- A finite number has a mantissa above zero, so it differs from both zeros
  | finite s hc =>
    have hpos := hc.pos
    refine iff_of_false ?_ (signed_ne_zero s (by positivity))
    cases s <;> exact Bool.false_ne_true

/-! ## Rounding leaves numbers alone -/

variable {s : Sign} {q : Nat} {e₀ : Int} {accuracy : Accuracy} {r : ℚ}

/-- The middle of the interval of a number is the number itself. -/
private theorem roundsTo_self (m : Nat) (e : Int) : RoundsTo m e (m * 2 ^ e) := by
  have hquotient : (m : ℚ) * 2 ^ e / 2 ^ e = m := mul_div_cancel_right₀ _ (by positivity)
  constructor
  · rw [hquotient]
    split <;> linarith
  · rw [hquotient]
    linarith
  · rw [hquotient]
    intro _
    constructor <;> linarith

/-- A positive number of binary64 behind a sign has a mantissa and an exponent. -/
private theorem exists_canonical_of_representable (hr : 0 < r) (h : Representable (signed s r)) :
    ∃ m e, Canonical m e ∧ r = m * 2 ^ e := by
  obtain ⟨u, hu⟩ := h
  generalize hsigned : signed s r = a at hu
  cases hu with
  | zero _ => exact absurd hsigned (signed_ne_zero s hr)
  | finite s' hc =>
    -- Signs may be compared apart, since the absolute values are equal
    have habs : |signed s r| = |signed s' _| := congrArg (|·|) hsigned
    rw [abs_signed, abs_signed, abs_of_pos hr, abs_of_nonneg (by positivity)] at habs
    exact ⟨_, _, hc, habs⟩

/-- What is rounded is kept if it is a number of binary64. -/
theorem denotes_roundWithAccuracy
    (h : Represents (ExtendedMantissa.ofMantissaAndAccuracy q accuracy) r) (hr : 0 < r)
    (he : e₀ ≤ target q e₀) (hrep : Representable (signed s (r * 2 ^ e₀))) :
    Denotes (roundWithAccuracy Format.binary64 s q e₀ accuracy) (signed s (r * 2 ^ e₀)) := by
  obtain ⟨m, e, hc, hvalue⟩ := exists_canonical_of_representable (by positivity) hrep
  -- A number that is a float rounds to itself
  have hround : RoundsTo m e (r * 2 ^ e₀) := hvalue ▸ roundsTo_self m e
  rw [roundWithAccuracy_eq hc h he hround s, hvalue]
  exact .finite s hc

/-- The same for a mantissa and an exponent as they are. -/
private theorem denotes_roundExact (hq : 0 < q) (he : e₀ ≤ target q e₀)
    (hrep : Representable (signed s (q * 2 ^ e₀))) :
    Denotes (roundWithAccuracy Format.binary64 s q e₀ .exact) (signed s (q * 2 ^ e₀)) := by
  have hexact : Represents (ExtendedMantissa.ofMantissaAndAccuracy q .exact) q := rfl
  exact denotes_roundWithAccuracy hexact (Nat.cast_pos.mpr hq) he hrep

/-- Shifting left moves the first bit. -/
private theorem log2_mul_two_pow (hq : 0 < q) (n : Nat) : (q * 2 ^ n).log2 = q.log2 + n := by
  induction n with
  | zero => rw [pow_zero, mul_one, add_zero]
  | succ n ih =>
    have hne : q * 2 ^ n ≠ 0 := by positivity
    rw [pow_succ', mul_left_comm, Nat.log2_two_mul hne, ih, add_assoc]

/-- Shifting left and lowering the exponent by as much cancel out. -/
private theorem natCast_mul_two_pow (q n : Nat) (e : Int) :
    ((q * 2 ^ n : Nat) : ℚ) * 2 ^ (e - n) = q * 2 ^ e := by
  rw [zpow_sub₀ two_ne_zero, zpow_natCast]
  push_cast
  field_simp

/-- The same where the exponent may have to become smaller first. -/
theorem denotes_round (hq : 0 < q) (hrep : Representable (signed s (q * 2 ^ e₀))) :
    Denotes (UnpackedFloat.round Format.binary64 s q e₀) (signed s (q * 2 ^ e₀)) := by
  obtain ⟨n, hn⟩ : ∃ n : Nat, (e₀ - target q e₀).toNat = n := ⟨_, rfl⟩
  have hround : UnpackedFloat.round Format.binary64 s q e₀ =
      roundWithAccuracy Format.binary64 s (q * 2 ^ n) (e₀ - n) .exact := by
    rw [UnpackedFloat.round, decreaseExponent, hn, Nat.shiftLeft_eq]
  rw [hround, ← natCast_mul_two_pow q n]
  rw [← natCast_mul_two_pow q n] at hrep
  apply denotes_roundExact (by positivity) _ hrep
  -- The lower exponent has the same target, and is not above it
  rw [target_eq, log2_mul_two_pow hq]
  rw [target_eq] at hn
  omega

/-- The same for a mantissa with its sign. -/
theorem denotes_normalize (i e : Int) (zeroSign : Sign) (hrep : Representable ((i : ℚ) * 2 ^ e)) :
    Denotes (UnpackedFloat.normalize Format.binary64 i e zeroSign) ((i : ℚ) * 2 ^ e) := by
  -- The sign is that of the integer, or the given one if that is zero
  rcases lt_trichotomy i 0 with hneg | rfl | hpos
  · obtain ⟨n, rfl⟩ : ∃ n : Nat, i = -n := ⟨(-i).toNat, by omega⟩
    have hvalue : ((-n : Int) : ℚ) * 2 ^ e = signed .negative (n * 2 ^ e) := by
      rw [Int.cast_neg, Int.cast_natCast, neg_mul]
      rfl
    have hmantissa : (- -(n : Int)).toNat = n := by omega
    rw [UnpackedFloat.normalize, Int.compare_eq_lt.mpr hneg, hvalue]
    rw [hvalue] at hrep
    dsimp only
    rw [hmantissa]
    exact denotes_round (by omega) hrep
  · rw [UnpackedFloat.normalize, Int.compare_eq_eq.mpr rfl, Int.cast_zero, zero_mul]
    exact .zero zeroSign
  · obtain ⟨n, rfl⟩ : ∃ n : Nat, i = n := ⟨i.toNat, by omega⟩
    have hvalue : ((n : Int) : ℚ) * 2 ^ e = signed .positive (n * 2 ^ e) := by
      rw [Int.cast_natCast]
      rfl
    rw [UnpackedFloat.normalize, Int.compare_eq_gt.mpr hpos, hvalue]
    rw [hvalue] at hrep
    dsimp only
    rw [Int.toNat_natCast]
    exact denotes_round (by omega) hrep

/-! ## Operations -/

/-- A mantissa with its sign stands for itself. -/
private theorem intCast_apply (s : Sign) (m : Nat) : ((s.apply m : Int) : ℚ) = signed s m := by
  cases s with
  | positive => exact Int.cast_natCast m
  | negative => exact (Int.cast_neg _).trans (congrArg (- ·) (Int.cast_natCast m))

/-- Lowering the exponent to that of another number makes the mantissa larger. -/
private theorem apply_decreaseExponent (s : Sign) (m : Nat) {e e' : Int} (he : e' ≤ e) :
    ((s.apply (decreaseExponent m e e').1 : Int) : ℚ) * 2 ^ e' = signed s (m * 2 ^ e) := by
  obtain ⟨n, hn⟩ : ∃ n : Nat, (e - e').toNat = n := ⟨_, rfl⟩
  -- The mantissa grows by as many places as the exponent falls
  obtain rfl : e' = e - n := by omega
  rw [decreaseExponent, hn, Nat.shiftLeft_eq, ← natCast_mul_two_pow m n, intCast_apply]
  cases s with
  | positive => rfl
  | negative => exact neg_mul ..

/-- A sum is exact if it is a number of binary64. -/
theorem Denotes.add (hu : Denotes u a) (hv : Denotes v b) (hrep : Representable (a + b)) :
    Denotes (u.add Format.binary64 v) (a + b) := by
  cases hu with
  | zero s =>
    rw [zero_add]
    cases hv with
    | zero s' => cases s <;> cases s' <;> exact .zero _
    | finite s' hc' => exact .finite s' hc'
  | @finite s m e hc =>
    cases hv with
    | zero s' =>
      rw [add_zero]
      exact .finite s hc
    | @finite s' m' e' hc' =>
      -- Both mantissas are taken to the smaller exponent
      rw [← apply_decreaseExponent s m (min_le_left e e'),
        ← apply_decreaseExponent s' m' (min_le_right e e'), ← add_mul, ← Int.cast_add] at hrep ⊢
      exact denotes_normalize _ _ _ hrep

theorem Denotes.neg (h : Denotes u a) : Denotes u.neg (-a) := by
  cases h with
  | zero s =>
    rw [neg_zero]
    exact .zero (-s)
  | finite s hc =>
    rw [← signed_neg]
    exact .finite (-s) hc

/-- Subtracting is adding the opposite. -/
private theorem unpacked_sub_eq_add (u v : UnpackedFloat) :
    u.sub Format.binary64 v = u.add Format.binary64 v.neg := by
  -- The special cases of both are the same, one by one, so only finite numbers are left
  cases u with
  | notANumber => cases v <;> rfl
  | infinity s => cases v <;> rfl
  | zero s => cases v <;> rfl
  | finite s m e hm =>
    cases v with
    | finite s' m' e' hm' =>
      have happly (n : Int) : (-s').apply n = -s'.apply n := by
        cases s' with
        | positive => rfl
        | negative => exact (Int.neg_neg n).symm
      rw [UnpackedFloat.neg, UnpackedFloat.sub, UnpackedFloat.add]
      dsimp only
      rw [happly, Int.sub_eq_add_neg]
    | _ => rfl

/-- The exponents of two numbers add up to one that leaves no bits to be filled in. -/
private theorem Canonical.add_le_target {m m' : Nat} {e e' : Int} (hc : Canonical m e)
    (hc' : Canonical m' e') : e + e' ≤ target (m * m') (e + e') := by
  have hpos := hc.pos
  have hpos' := hc'.pos
  rw [target_eq]
  by_cases hbits : 2 ^ 52 ≤ m * m'
  · have hlog : 52 ≤ (m * m').log2 := (Nat.le_log2 (by positivity)).mpr hbits
    omega
  · -- Only at the smallest exponent is a mantissa that short
    have hshort : ¬ 2 ^ 52 ≤ m := fun h => hbits (h.trans (Nat.le_mul_of_pos_right m hpos'))
    have hshort' : ¬ 2 ^ 52 ≤ m' := fun h => hbits (h.trans (Nat.le_mul_of_pos_left m' hpos))
    have := hc.normal.resolve_left hshort
    have := hc'.normal.resolve_left hshort'
    omega

/-- A product is exact if it is a number of binary64. -/
theorem Denotes.mul (hu : Denotes u a) (hv : Denotes v b) (hrep : Representable (a * b)) :
    Denotes (u.mul Format.binary64 v) (a * b) := by
  -- A zero makes a zero; finite mantissas are multiplied and then rounded
  cases hu with
  | zero s =>
    rw [zero_mul]
    cases hv with
    | zero s' => exact .zero (s * s')
    | finite s' hc' => exact .zero (s * s')
  | @finite s m e hc =>
    cases hv with
    | zero s' =>
      rw [mul_zero]
      exact .zero (s * s')
    | @finite s' m' e' hc' =>
      have hvalue : (m : ℚ) * 2 ^ e * (m' * 2 ^ e') = (m * m' : Nat) * 2 ^ (e + e') := by
        rw [zpow_add₀ two_ne_zero]
        push_cast
        ring
      rw [← signed_mul, hvalue] at hrep ⊢
      exact denotes_roundExact (Nat.mul_pos hc.pos hc'.pos) (hc.add_le_target hc') hrep

/-- A quotient is exact if it is a number of binary64. -/
theorem Denotes.div (hu : Denotes u a) (hv : Denotes v b) (hb : b ≠ 0)
    (hrep : Representable (a / b)) :
    Denotes (u.div Format.binary64 v) (a / b) := by
  -- The divisor is not zero, so it is finite
  cases hv with
  | zero s' => exact absurd rfl hb
  | @finite s' m' e' hc' =>
    cases hu with
    | zero s =>
      rw [zero_div]
      exact .zero (s / s')
    | @finite s m e hc =>
      have hm := hc.pos
      have hm' := hc'.pos
      -- The dividend is shifted so far that the quotient has enough bits to be rounded
      obtain ⟨n, hcore, htarget⟩ := exists_divCore hm hm' e e'
      have hvalue : (m : ℚ) * 2 ^ e / (m' * 2 ^ e') =
          (m * 2 ^ n : Nat) / m' * 2 ^ (e - e' - n) := by
        rw [mul_div_mul_comm, ← zpow_sub₀ two_ne_zero, div_mul_eq_mul_div, div_mul_eq_mul_div,
          natCast_mul_two_pow]
      rw [UnpackedFloat.div, hcore, ← signed_div, hvalue]
      rw [← signed_div, hvalue] at hrep
      exact denotes_roundWithAccuracy (represents_div hm') (by positivity) htarget hrep

section Operations

variable (hx : rational? x = some a) (hy : rational? y = some b)
include hx hy

/-- A sum that binary64 has is exact. -/
theorem rational?_add (hrep : Representable (a + b)) : rational? (x + y) = some (a + b) :=
  ((denotes_iff_rational?.mp hx).add (denotes_iff_rational?.mp hy) hrep).rational?_packed

theorem rational?_sub (hrep : Representable (a - b)) : rational? (x - y) = some (a - b) := by
  have hsub : x - y = packed (x.toModel.unpack.sub Format.binary64 y.toModel.unpack) := rfl
  rw [hsub, unpacked_sub_eq_add, sub_eq_add_neg]
  rw [sub_eq_add_neg] at hrep
  have hdenotes := (denotes_iff_rational?.mp hx).add (denotes_iff_rational?.mp hy).neg hrep
  exact hdenotes.rational?_packed

theorem rational?_mul (hrep : Representable (a * b)) : rational? (x * y) = some (a * b) :=
  ((denotes_iff_rational?.mp hx).mul (denotes_iff_rational?.mp hy) hrep).rational?_packed

/-- A quotient that binary64 has is exact. -/
theorem rational?_div (hb : b ≠ 0) (hrep : Representable (a / b)) :
    rational? (x / y) = some (a / b) :=
  ((denotes_iff_rational?.mp hx).div (denotes_iff_rational?.mp hy) hb hrep).rational?_packed

end Operations

/-! ## Integers -/

/-- Natural numbers up to `2 ^ 53` are numbers of binary64. -/
theorem representable_natCast {n : Nat} (hn : n ≤ 2 ^ 53) : Representable n := by
  rcases Nat.eq_zero_or_pos n with rfl | hpos
  · rw [Nat.cast_zero]
    exact ⟨_, .zero .positive⟩
  · obtain ⟨m, e, hc, hvalue⟩ : ∃ m e, Canonical m e ∧ (n : ℚ) = m * 2 ^ e := by
      -- The greatest one is a power of two with a bit too many, so it is on its own
      by_cases hlast : n = 2 ^ 53
      · refine ⟨2 ^ 52, 1, ?_, ?_⟩
        · constructor <;> decide
        · rw [hlast]
          norm_num
      · -- The first bit is shifted to its place
        have hlog : n.log2 < 53 := (Nat.log2_lt hpos.ne').mpr (by omega)
        have hlog' : (n * 2 ^ (52 - n.log2)).log2 = 52 := by
          rw [log2_mul_two_pow hpos]
          omega
        have hne : n * 2 ^ (52 - n.log2) ≠ 0 := by positivity
        obtain ⟨hlow, hhigh⟩ := (Nat.log2_eq_iff hne).mp hlog'
        refine ⟨n * 2 ^ (52 - n.log2), 0 - (52 - n.log2 : Nat), ?_, ?_⟩
        · constructor <;> omega
        · rw [natCast_mul_two_pow, zpow_zero, mul_one]
    rw [hvalue]
    exact ⟨_, .finite .positive hc⟩

/-- The opposites of numbers of binary64 are such numbers. -/
theorem Representable.neg (h : Representable a) : Representable (-a) := by
  obtain ⟨u, hu⟩ := h
  exact ⟨u.neg, hu.neg⟩

/-- Integers up to `2 ^ 53` in magnitude are numbers of binary64. -/
theorem representable_intCast {i : Int} (hi : i.natAbs ≤ 2 ^ 53) : Representable i := by
  rcases Int.natAbs_eq i with h | h
  · rw [h, Int.cast_natCast]
    exact representable_natCast hi
  · rw [h, Int.cast_neg, Int.cast_natCast]
    exact (representable_natCast hi).neg

/-- Natural numbers up to `2 ^ 53` are converted exactly. -/
theorem rational?_ofNat {n : Nat} (hn : n ≤ 2 ^ 53) :
    rational? (Float.ofNat n) = some (n : ℚ) := by
  have hrep := representable_natCast hn
  have hofNat : Float.ofNat n = Float.ofScientific n false 0 := rfl
  rw [hofNat, Float.ofScientific]
  split
  case isTrue hsmall =>
    -- The conversion of a word is multiplied by the zeroth power of ten
    have hone : rational? Float.exactlyRepresentablePowersOfTen[0] = some 1 := by
      have hbits : rational? Float.exactlyRepresentablePowersOfTen[0] =
        some (signed .positive ((2 ^ 52 : Nat) * 2 ^ (-52 : Int))) := rfl
      rw [hbits]
      norm_num [signed]
    have hword : rational? n.toUInt64.toFloat = some (n : ℚ) := by
      have htoNat : n.toUInt64.toNat = n := by
        rw [UInt64.toNat_ofNat']
        omega
      have hvalue : ((n.toUInt64.toNat : Int) : ℚ) * 2 ^ (0 : Int) = n := by
        rw [htoNat, zpow_zero, mul_one, Int.cast_natCast]
      rw [← hvalue] at hrep ⊢
      exact (denotes_normalize _ 0 .positive hrep).rational?_packed
    rw [← mul_one (n : ℚ)] at hrep ⊢
    exact rational?_mul hword hone hrep
  case isFalse hlarge =>
    obtain rfl : n = 2 ^ 53 := by omega
    have hbits : rational? (Float.ofModel (Float.Model.ofScientific (2 ^ 53) 0)) =
      some (signed .positive ((2 ^ 52 : Nat) * 2 ^ (1 : Int))) := rfl
    have hvalue : signed .positive ((2 ^ 52 : Nat) * 2 ^ (1 : Int)) = ((2 ^ 53 : Nat) : ℚ) := by
      norm_num [signed]
    rw [← hvalue]
    exact hbits

/-- Integers up to `2 ^ 53` in magnitude are converted exactly. -/
theorem rational?_ofInt {i : Int} (hi : i.natAbs ≤ 2 ^ 53) :
    rational? (Float.ofInt i) = some (i : ℚ) := by
  cases i with
  | ofNat n => exact rational?_ofNat hi
  | negSucc n =>
    exact (denotes_iff_rational?.mp (rational?_ofNat hi)).neg.rational?_packed

end Reckoner.Binary64
