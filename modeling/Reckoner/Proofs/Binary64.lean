import Mathlib

/-!
# The finite numbers of binary64

A finite number other than zero is a sign, a mantissa and an exponent of two, in the one way
that `Binary64.Canonical` describes.  Packing these into bits and unpacking the bits are
inverse to each other.

## Key results

- `Binary64.unpack_eq_finite_iff`: what the fields of the bits have to be for a finite number
- `Binary64.canonical_of_unpack`: a finite number is unpacked canonically
- `Binary64.unpack_pack`: a canonical number comes back from its bits
-/

namespace Reckoner.Binary64

open Float.Model UnpackedFloat

/-- The mantissas and exponents of finite numbers other than zero: a mantissa of 53 bits, the
    first of them set unless the exponent is the smallest. -/
structure Canonical (m : Nat) (e : Int) : Prop where
  pos : 0 < m
  lt : m < 2 ^ 53
  le_exponent : -1074 ≤ e
  exponent_le : e ≤ 971
  normal : 2 ^ 52 ≤ m ∨ e = -1074

/-! ## Fields of the bits -/

variable (b : BitVec 64)

/-- The field of the mantissa, without the bit that is left out. -/
abbrev mantissaField : BitVec 52 :=
  @unpackMantissa Format.binary64 b

/-- The field of the exponent. -/
abbrev exponentField : BitVec 11 :=
  @unpackExponent Format.binary64 b

/-- The field of the sign. -/
abbrev signField : BitVec 1 :=
  @unpackSign Format.binary64 b

/-- The mantissa is in the last 52 bits. -/
theorem toNat_mantissaField : (mantissaField b).toNat = b.toNat % 2 ^ 52 := by
  simp [unpackMantissa]

/-- The exponent is in the eleven bits in front of the mantissa. -/
theorem toNat_exponentField : (exponentField b).toNat = b.toNat / 2 ^ 52 % 2 ^ 11 := by
  simp [unpackExponent, Nat.shiftRight_eq_div_pow]

/-- The sign is the first bit. -/
private theorem toNat_signField : (signField b).toNat = b.toNat / 2 ^ 63 := by
  have hlt := b.isLt
  simp [unpackSign]
  omega

variable {b}

variable {s : Sign} {m : Nat} {e : Int} {hm : 0 < m}

/-- The fields of a finite number other than zero. -/
theorem unpack_eq_finite_iff :
    unpack Format.binary64 b = .finite s m e hm ↔
      Sign.ofBitVec (signField b) = s ∧
        ((exponentField b).toNat = 0 ∧ m = (mantissaField b).toNat ∧ e = -1074 ∨
          0 < (exponentField b).toNat ∧ (exponentField b).toNat < 2047 ∧
            m = 2 ^ 52 + (mantissaField b).toNat ∧ e = (exponentField b).toNat - 1075) := by
  have hlt := (exponentField b).isLt
  have hones : exponentField b = -1#_ ↔ (exponentField b).toNat = 2047 := by
    rw [← BitVec.toNat_inj]
    rfl
  have hzeros : exponentField b = 0#_ ↔ (exponentField b).toNat = 0 := by
    rw [← BitVec.toNat_inj]
    rfl
  have hone : (1#1 ++ mantissaField b).toNat = 2 ^ 52 + (mantissaField b).toNat := by
    rw [BitVec.toNat_append, ← Nat.shiftLeft_add_eq_or_of_lt (mantissaField b).isLt]
    rfl
  -- The exponent says of which kind a number is, and for the smallest so does the mantissa
  unfold UnpackedFloat.unpack
  dsimp only
  by_cases hinfinite : exponentField b = -1#_
  · rw [if_pos hinfinite]
    have := hones.mp hinfinite
    constructor
    · intro h
      split at h <;> cases h
    · intro h
      omega
  · rw [if_neg hinfinite]
    rw [hones] at hinfinite
    by_cases hsmallest : exponentField b = 0#_
    · rw [if_pos hsmallest]
      have := hzeros.mp hsmallest
      by_cases hzero : mantissaField b = 0#_
      · rw [dif_pos hzero]
        have : (mantissaField b).toNat = 0 := congrArg BitVec.toNat hzero
        constructor
        · intro h
          cases h
        · intro h
          omega
      · rw [dif_neg hzero]
        have hexponent : ((exponentField b).toNat : Int) -
            (Format.binary64.exponentBias + Format.binary64.mantissaBitsWithoutImplicit) + 1 =
              -1074 := by
          rw [this]
          rfl
        rw [finite.injEq, hexponent]
        constructor
        · rintro ⟨hsign, hmantissa, he⟩
          exact ⟨hsign, .inl ⟨this, hmantissa.symm, he.symm⟩⟩
        · rintro ⟨hsign, ⟨-, hmantissa, he⟩ | ⟨hpos, -⟩⟩
          · exact ⟨hsign, hmantissa.symm, he.symm⟩
          · omega
    · rw [if_neg hsmallest]
      have hexponent : ((exponentField b).toNat : Int) -
          (Format.binary64.exponentBias + Format.binary64.mantissaBitsWithoutImplicit) =
            (exponentField b).toNat - 1075 := rfl
      rw [finite.injEq, hexponent, hone]
      rw [hzeros] at hsmallest
      constructor
      · rintro ⟨hsign, hmantissa, he⟩
        exact ⟨hsign, .inr ⟨by omega, by omega, hmantissa.symm, he.symm⟩⟩
      · rintro ⟨hsign, ⟨hzero, -⟩ | ⟨-, -, hmantissa, he⟩⟩
        · omega
        · exact ⟨hsign, hmantissa.symm, he.symm⟩

/-- A finite number other than zero is unpacked canonically. -/
theorem canonical_of_unpack (h : UnpackedFloat.unpack Format.binary64 b = .finite s m e hm) :
    Canonical m e := by
  obtain ⟨-, hfields⟩ := unpack_eq_finite_iff.mp h
  have := (mantissaField b).isLt
  constructor <;> omega

/-- The bits of a canonical number: the exponent is the smallest one where the first bit of
    the mantissa is not set. -/
private theorem pack_finite (hc : Canonical m e) (s : Sign) :
    UnpackedFloat.pack Format.binary64 (.finite s m e hm) =
      packComponents Format.binary64 s
        (if 2 ^ 52 ≤ m then BitVec.ofNat 11 (e + 1075).toNat else 0#11) (BitVec.ofNat 52 m) := by
  have hlt := hc.lt
  have hle := hc.exponent_le
  have hexponent : (e + Format.binary64.exponentBias + Format.binary64.mantissaBitsWithoutImplicit)
      = e + 1075 := Int.add_assoc _ _ _
  -- A mantissa has all 53 bits exactly if its first one is set
  have hbits : m.log2 + 1 = Format.binary64.mantissaBits ↔ 2 ^ 52 ≤ m := by
    have hlog : m.log2 < 53 := (Nat.log2_lt (by omega)).mpr hlt
    rw [← Nat.le_log2 (by omega)]
    show m.log2 + 1 = 53 ↔ _
    omega
  rw [UnpackedFloat.pack]
  simp only [hexponent, hbits]
  rw [if_neg (show ¬ 2 ^ 11 ≤ (e + 1075).toNat + 1 by omega)]
  split <;> rfl

/-- A canonical number comes back from its bits. -/
theorem unpack_pack (hc : Canonical m e) (s : Sign) :
    UnpackedFloat.unpack Format.binary64 (UnpackedFloat.pack Format.binary64 (.finite s m e hm)) =
      .finite s m e hm := by
  have hpack : UnpackedFloat.pack Format.binary64 (.finite s m e hm) = _ := pack_finite hc s
  obtain ⟨-, hlt, hle, hle', hnormal⟩ := hc
  rw [hpack, unpack_eq_finite_iff]
  simp only [unpackSign_packComponents, Sign.ofBitVec_toBitVec, unpackExponent_packComponents,
    unpackMantissa_packComponents, true_and]
  have hmantissa : (BitVec.ofNat 52 m).toNat = m % 2 ^ 52 := BitVec.toNat_ofNat ..
  rw [hmantissa]
  -- Normal numbers keep their exponent above zero, subnormal ones have it at zero
  split
  · have hexponent : (BitVec.ofNat 11 (e + 1075).toNat).toNat = (e + 1075).toNat := by
      rw [BitVec.toNat_ofNat]
      omega
    rw [hexponent]
    omega
  · exact .inl ⟨rfl, by omega, by omega⟩

/-! ## Numbers -/

/-- A number is what it is unpacked to. -/
theorem eq_of_unpack_eq {x y : Float} (h : x.toModel.unpack = y.toModel.unpack) : x = y := by
  have hbits := (unpack_inj_of_valid x.toModel.valid y.toModel.valid).mp h
  exact Float.toBits_inj.mp (UInt64.toBitVec_inj.mp hbits)

/-- The sign of a number is its first bit. -/
theorem ofBitVec_signField (x : Float) : Sign.ofBitVec (signField x.toBits.toBitVec) =
    if decide (x.toBits ≥ 0x8000000000000000) then .negative else .positive := by
  have hfield := toNat_signField x.toBits.toBitVec
  have hbits : x.toBits ≥ 0x8000000000000000 ↔ 2 ^ 63 ≤ x.toBits.toBitVec.toNat :=
    UInt64.le_iff_toNat_le
  -- The sign bit is set exactly where the bits are at least half of their range
  rcases BitVec.eq_zero_or_eq_one (signField x.toBits.toBitVec) with hpositive | hnegative
  · rw [hpositive] at hfield ⊢
    have hlt : 0 = x.toBits.toBitVec.toNat / 2 ^ 63 := hfield
    rw [decide_eq_false (mt hbits.mp (by omega))]
    rfl
  · rw [hnegative] at hfield ⊢
    have hge : 1 = x.toBits.toBitVec.toNat / 2 ^ 63 := hfield
    rw [decide_eq_true (hbits.mpr (by omega))]
    rfl

/-- What is packed in canonical form is unpacked again. -/
theorem unpack_ofModel_pack (hc : Canonical m e) (s : Sign) :
    (Float.ofModel (Float.Model.pack (.finite s m e hm))).toModel.unpack = .finite s m e hm :=
  unpack_pack hc s

theorem unpack_neg {x : Float} (h : x.toModel.unpack = .finite s m e hm) :
    (-x).toModel.unpack = .finite (-s) m e hm := by
  have hneg : -x = Float.ofModel (Float.Model.pack x.toModel.unpack.neg) := rfl
  rw [hneg, h]
  exact unpack_ofModel_pack (canonical_of_unpack h) (-s)

end Reckoner.Binary64
