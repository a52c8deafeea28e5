/-!
# The two zeros of binary64

Zero has two representations, which differ in their sign and are equal as numbers.

- `float_beq_zero_iff`: a number equals zero exactly if it is one of them
-/

namespace Reckoner

open Float.Model

/-- Among the decoded numbers only the zeros equal zero. -/
private theorem exists_eq_zero_of_beq {x : UnpackedFloat} (h : x.beq (.zero .positive) = true) :
    ∃ sign, x = .zero sign := by
  cases x with
  | zero sign => exact ⟨sign, rfl⟩
  | infinity sign => cases sign <;> cases h
  | notANumber => cases h
  | finite sign mantissa exponent hpos => cases sign <;> cases h

/-- A zero has no bit set, except perhaps that of the sign. -/
private theorem bits_of_unpack_eq_zero {bits : BitVec 64} {sign : UnpackedFloat.Sign}
    (h : UnpackedFloat.unpack Format.binary64 bits = .zero sign) :
    bits = 0 ∨ bits = 0x8000000000000000 := by
  have hparts : @UnpackedFloat.unpackExponent Format.binary64 bits = 0 ∧
      @UnpackedFloat.unpackMantissa Format.binary64 bits = 0 := by
    unfold UnpackedFloat.unpack at h
    dsimp only at h
    by_cases hones : @UnpackedFloat.unpackExponent Format.binary64 bits = -1#_
    · -- All bits of the exponent are set: infinite, or no number
      rw [if_pos hones] at h
      by_cases hmantissa : @UnpackedFloat.unpackMantissa Format.binary64 bits = 0#_
      · rw [if_pos hmantissa] at h
        cases h
      · rw [if_neg hmantissa] at h
        cases h
    · rw [if_neg hones] at h
      by_cases hexponent : @UnpackedFloat.unpackExponent Format.binary64 bits = 0#_
      · rw [if_pos hexponent] at h
        by_cases hmantissa : @UnpackedFloat.unpackMantissa Format.binary64 bits = 0#_
        · exact ⟨hexponent, hmantissa⟩
        · rw [dif_neg hmantissa] at h
          cases h
      · rw [if_neg hexponent] at h
        cases h
  -- All bits but the first are those of exponent and mantissa
  have hexponent := congrArg BitVec.toNat hparts.1
  have hmantissa := congrArg BitVec.toNat hparts.2
  simp [UnpackedFloat.unpackExponent, UnpackedFloat.unpackMantissa] at hexponent hmantissa
  have hlt := bits.isLt
  rw [← BitVec.toNat_inj, ← BitVec.toNat_inj]
  simp
  omega

/-- A number is its bits. -/
private theorem eq_of_toBits_eq {x y : Float} (h : x.toBits.toBitVec = y.toBits.toBitVec) :
    x = y := by
  obtain ⟨⟨xbits, hx⟩⟩ := x
  obtain ⟨⟨ybits, hy⟩⟩ := y
  obtain rfl : xbits = ybits := UInt64.toBitVec_inj.mp h
  rfl

/-- A number equals zero exactly if it is a zero of either sign. -/
theorem float_beq_zero_iff (x : Float) : (x == 0) = true ↔ x = 0 ∨ x = -0 := by
  constructor
  · intro h
    obtain ⟨sign, hzero⟩ := exists_eq_zero_of_beq (x := x.toModel.unpack) h
    -- Each sign has one pattern of bits
    rcases bits_of_unpack_eq_zero hzero with hbits | hbits
    · exact .inl (eq_of_toBits_eq hbits)
    · exact .inr (eq_of_toBits_eq hbits)
  · rintro (rfl | rfl)
    · decide
    · decide

end Reckoner
