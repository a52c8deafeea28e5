import Reckoner.Decimal.Layout
import Reckoner.Json.Numeral
import Reckoner.Proofs.ScanRuns
import Reckoner.Proofs.ShortestDecimal

/-!
# Written numbers

Every layout writes a finite number as a JSON numeral, and the number nearest to the numeral
is the one that was written, its sign included.

## Key results

- `Decimal.Layout.spells_renderDecimal`: a decimal is written as a numeral of the same value
- `Decimal.Layout.readsAs_render`: a finite number comes back from what is written
-/

namespace Reckoner

open Binary64 Float.Model UnpackedFloat
open Token (Clear clear_cons clear_nil takeWhile_append_of_clear dropWhile_append_of_clear)

namespace Json.Numeral

/-! ## The value of a numeral -/

/-- The digits of a numeral as a whole number. -/
def significand (n : Numeral) : Nat :=
  Nat.ofDigitChars 10 (n.whole ++ n.fraction) 0

/-- The power of ten of the last digit of a numeral. -/
def power (n : Numeral) : Int :=
  n.exponent - n.fraction.length

/-- The number of binary64 that is nearest to a numeral. -/
def nearest (n : Numeral) : Float :=
  let x := Float.ofModel (Float.Model.ofScientific n.significand n.power)
  if n.negative then -x else x

variable {n : Numeral} {x : Float} {s : Sign} {m : Nat} {e : Int} {hm : 0 < m}

/-- The number nearest to a numeral in the interval of a number is this number. -/
private theorem nearest_eq_of_roundsTo (hunpack : x.toModel.unpack = .finite s m e hm)
    (hround : RoundsTo m e (n.significand * 10 ^ n.power))
    (hsign : s = if n.negative then .negative else .positive) : n.nearest = x := by
  have hc := canonical_of_unpack hunpack
  have hread : (Float.ofModel (Float.Model.ofScientific n.significand n.power)).toModel.unpack =
      .finite .positive m e hm := by
    rw [Float.Model.ofScientific, ofScientific_eq hc hround]
    exact unpack_ofModel_pack hc .positive
  -- The sign is read on its own, so the magnitude is what has to be right
  apply eq_of_unpack_eq
  rw [hunpack, hsign, nearest]
  split
  · exact unpack_neg hread
  · exact hread

/-- The number nearest to a numeral of zeros is the zero of its sign. -/
private theorem nearest_eq_of_significand_eq_zero (hunpack : x.toModel.unpack = .zero s)
    (hzero : n.significand = 0) (hsign : s = if n.negative then .negative else .positive) :
    n.nearest = x := by
  -- Reading gives the positive zero, which the sign turns round
  have hread : Float.Model.ofScientific n.significand n.power =
      Float.Model.pack (.zero .positive) := by
    rw [Float.Model.ofScientific, UnpackedFloat.ofScientific, dif_pos hzero]
  apply eq_of_unpack_eq
  rw [hunpack, hsign, nearest, hread]
  cases n.negative
  · rfl
  · rfl

/-! ## Reading the parts -/

variable {digits fraction rest : List Char}

/-- Digits without a needless zero are read as the whole part, up to where they end. -/
theorem whole?_append (hne : digits ≠ []) (hdigits : ∀ c ∈ digits, c.isDigit)
    (hlead : digits.head? = some '0' → digits = ['0']) (hrest : Clear Char.isDigit rest) :
    whole? (digits ++ rest) = some (digits, rest) := by
  rw [whole?, takeWhile_append_of_clear hdigits hrest, dropWhile_append_of_clear hdigits hrest]
  -- The empty run, a zero in front of further digits, and the run that is accepted
  split
  next => exact absurd rfl hne
  next => cases hlead rfl
  next => rfl

/-- Digits behind a point are read as the fraction, up to where they end. -/
private theorem fraction?_point (hne : digits ≠ []) (hdigits : ∀ c ∈ digits, c.isDigit)
    (hrest : Clear Char.isDigit rest) :
    fraction? ('.' :: (digits ++ rest)) = some (digits, rest) := by
  rw [fraction?, takeWhile_append_of_clear hdigits hrest, dropWhile_append_of_clear hdigits hrest]
  split
  next => exact absurd rfl hne
  next => rfl

/-- The digits of a number are read as the number. -/
private theorem digits?_toDigits (n : Nat) : digits? (Nat.toDigits 10 n) = some n := by
  have hall : (Nat.toDigits 10 n).all Char.isDigit = true :=
    List.all_eq_true.mpr fun _ hc => Nat.isDigit_of_mem_toDigits (by decide) (by decide) hc
  rw [digits?, List.isEmpty_eq_false_iff.mpr Nat.toDigits_ne_nil, hall,
    Nat.ofDigitChars_ten_toDigits]
  rfl

private theorem toDigits_ne_cons {c : Char} (hc : c.isDigit = false) (n : Nat) (text : List Char) :
    Nat.toDigits 10 n ≠ c :: text := by
  intro h
  have hmem : c ∈ Nat.toDigits 10 n := h ▸ List.mem_cons_self
  rw [Nat.isDigit_of_mem_toDigits (by decide) (by decide) hmem] at hc
  cases hc

/-- The exponent that a layout writes, with the sign it gives it. -/
private theorem exponent?_toDigits (plusSign : Bool) (exponent : Int) :
    exponent? ('e' :: ((if exponent < 0 then ['-'] else if plusSign then ['+'] else []) ++
      Nat.toDigits 10 exponent.natAbs)) = some exponent := by
  by_cases hneg : exponent < 0
  · have hvalue : -((exponent.natAbs : Nat) : Int) = exponent := by omega
    rw [if_pos hneg, List.singleton_append, exponent?, digits?_toDigits]
    exact congrArg some hvalue
  · have hvalue : ((exponent.natAbs : Nat) : Int) = exponent := by omega
    rw [if_neg hneg]
    cases plusSign with
    | true =>
      rw [if_pos rfl, List.singleton_append, exponent?, digits?_toDigits]
      exact congrArg some hvalue
    | false =>
      -- Without a sign the text starts with a digit, so that none is read either
      rw [if_neg Bool.false_ne_true, List.nil_append, exponent?, digits?_toDigits]
      · exact congrArg some hvalue
      · exact toDigits_ne_cons (by decide) _
      · exact toDigits_ne_cons (by decide) _

/-- Behind either sign a text is a numeral for a rational. -/
def Spells (text : List Char) (q : ℚ) : Prop :=
  ∀ negative : Bool, ∃ n, ofChars? ((if negative then ['-'] else []) ++ text) = some n ∧
    n.negative = negative ∧ n.significand * 10 ^ n.power = q

/-- A numeral is read part by part, behind its sign. -/
theorem ofChars?_of_parts {text whole tail : List Char} {exponent : Int}
    (hwhole : whole? text = some (whole, tail)) (hfraction : fraction? tail = some (fraction, rest))
    (hexponent : exponent? rest = some exponent) (negative : Bool) :
    ofChars? ((if negative then ['-'] else []) ++ text) =
      some ⟨negative, whole, fraction, exponent, tail.isEmpty⟩ := by
  cases negative with
  | true =>
    rw [if_pos rfl, List.singleton_append, ofChars?]
    simp only [hwhole, hfraction, hexponent, Option.bind_eq_bind, Option.bind_some]
  | false =>
    rw [if_neg Bool.false_ne_true, List.nil_append, ofChars?]
    · simp only [hwhole, hfraction, hexponent, Option.bind_eq_bind, Option.bind_some]
    · -- A text that starts with a sign has no digits before its point
      rintro _ rfl
      cases hwhole

/-- A numeral spells what its whole part, fraction and exponent make together. -/
private theorem spells_of_parts {text whole tail : List Char} {exponent : Int} {q : ℚ}
    (hwhole : whole? text = some (whole, tail)) (hfraction : fraction? tail = some (fraction, rest))
    (hexponent : exponent? rest = some exponent)
    (hvalue : Nat.ofDigitChars 10 (whole ++ fraction) 0 * 10 ^ (exponent - fraction.length) = q) :
    Spells text q :=
  fun negative => ⟨_, ofChars?_of_parts hwhole hfraction hexponent negative, rfl, hvalue⟩

end Json.Numeral

/-- A text is a numeral that reads as a number, by way of the number nearest to it. -/
def ReadsAs (text : String) (x : Float) : Prop :=
  ∃ n, Json.Numeral.ofChars? text.toList = some n ∧ n.nearest = x

namespace Decimal

open Json.Numeral

/-! ## The forms of decimals -/

variable {d : Decimal}

/-- Zeros behind the digits raise the value by powers of ten. -/
private theorem ofDigitChars_append_zeros (digits : List Char) (zeros : Nat) :
    Nat.ofDigitChars 10 (digits ++ List.replicate zeros '0') 0 =
      10 ^ zeros * Nat.ofDigitChars 10 digits 0 := by
  rw [Nat.ofDigitChars_append, Nat.ofDigitChars_replicate_zero]

/-- Zeros in front of the digits do not count. -/
private theorem ofDigitChars_zeros_append (digits : List Char) (zeros : Nat) :
    Nat.ofDigitChars 10 (List.replicate zeros '0' ++ digits) 0 = Nat.ofDigitChars 10 digits 0 := by
  rw [Nat.ofDigitChars_append, Nat.ofDigitChars_replicate_zero, Nat.mul_zero]

private theorem isDigit_of_mem_zeros {zeros : Nat} {c : Char} (hc : c ∈ List.replicate zeros '0') :
    c.isDigit = true := by
  rw [List.eq_of_mem_replicate hc]
  rfl

/-- Below one the digits stand behind the point. -/
private theorem spells_positionalText_of_neg (hd : d.Proper) (hneg : d.exponent < 0)
    (pointZero : Bool) :
    Spells (positionalText pointZero d) d.value := by
  obtain ⟨zeros, hzeros⟩ : ∃ zeros : Nat, d.exponent = -(zeros + 1) :=
    ⟨(-d.exponent - 1).toNat, by omega⟩
  -- All digits are behind the point, with zeros in front of them
  have htext : positionalText pointZero d =
      '0' :: '.' :: (List.replicate zeros '0' ++ d.digits ++ []) := by
    have hcount : (-d.exponent - 1).toNat = zeros := by omega
    rw [positionalText, if_pos hneg, hcount, List.append_nil]
  have hne : List.replicate zeros '0' ++ d.digits ≠ [] :=
    List.append_ne_nil_of_right_ne_nil _ hd.ne_nil
  have hdigits : ∀ c ∈ List.replicate zeros '0' ++ d.digits, c.isDigit = true :=
    List.forall_mem_append.mpr ⟨fun _ => isDigit_of_mem_zeros, hd.isDigit⟩
  have hwhole : whole? ('0' :: '.' :: (List.replicate zeros '0' ++ d.digits ++ [])) =
      some (['0'], '.' :: (List.replicate zeros '0' ++ d.digits ++ [])) := rfl
  rw [htext]
  refine spells_of_parts hwhole (fraction?_point hne hdigits (clear_nil _)) rfl ?_
  -- The zeros do not count in the significand, only in the number of places
  have hvalue : Nat.ofDigitChars 10 (['0'] ++ (List.replicate zeros '0' ++ d.digits)) 0 =
      Nat.ofDigitChars 10 d.digits 0 := ofDigitChars_zeros_append d.digits (zeros + 1)
  rw [hvalue, value, List.length_append, List.length_replicate]
  congr 2
  omega

/-- Digits that end before the point are filled up with zeros. -/
private theorem spells_positionalText_of_le (hd : d.Proper) (hpos : 0 ≤ d.exponent)
    (hle : d.digits.length ≤ d.exponent.toNat + 1) (pointZero : Bool) :
    Spells (positionalText pointZero d) d.value := by
  obtain ⟨zeros, hzeros⟩ := Nat.exists_eq_add_of_le hle
  have htext : positionalText pointZero d =
      d.digits ++ List.replicate zeros '0' ++ if pointZero then ['.', '0'] else [] := by
    have hcount : d.exponent.toNat + 1 - d.digits.length = zeros := by omega
    have hdrop : (d.digits ++ List.replicate zeros '0').drop (d.exponent.toNat + 1) = [] := by
      apply List.drop_of_length_le
      rw [List.length_append, List.length_replicate, hzeros]
    rw [positionalText, if_neg (by omega)]
    dsimp only
    rw [hcount, hdrop]
    rfl
  have hne : d.digits ++ List.replicate zeros '0' ≠ [] :=
    List.append_ne_nil_of_left_ne_nil hd.ne_nil _
  have hdigits : ∀ c ∈ d.digits ++ List.replicate zeros '0', c.isDigit = true :=
    List.forall_mem_append.mpr ⟨hd.isDigit, fun _ => isDigit_of_mem_zeros⟩
  -- A zero in front can only be the decimal for zero, which is not filled up
  have hlead : (d.digits ++ List.replicate zeros '0').head? = some '0' →
      d.digits ++ List.replicate zeros '0' = ['0'] := by
    intro hhead
    rw [List.head?_append_of_ne_nil _ hd.ne_nil] at hhead
    obtain ⟨hzero, hexponent⟩ := hd.leading hhead
    rw [hzero, hexponent] at hzeros
    obtain rfl : zeros = 0 := Nat.add_left_cancel hzeros.symm
    rw [hzero]
    rfl
  -- However many zeros stand behind the point, they do not change the value
  have hvalue (places : Nat) :
      ((10 ^ places * Nat.ofDigitChars 10 (d.digits ++ List.replicate zeros '0') 0 : Nat) : ℚ) *
        10 ^ (0 - places : Int) = d.value := by
    have hexponent : d.exponent - d.digits.length + 1 = zeros := by omega
    rw [ofDigitChars_append_zeros, value, hexponent, zero_sub, zpow_neg, zpow_natCast,
      zpow_natCast]
    push_cast
    field_simp
  rw [htext]
  cases pointZero with
  | true =>
    have hrest : Clear Char.isDigit ['.', '0'] := clear_cons.mpr rfl
    have hfraction : fraction? ['.', '0'] = some (['0'], []) := rfl
    refine spells_of_parts (whole?_append hne hdigits hlead hrest) hfraction rfl ?_
    have hzero : Nat.ofDigitChars 10 (d.digits ++ List.replicate zeros '0' ++ ['0']) 0 =
        10 ^ 1 * Nat.ofDigitChars 10 (d.digits ++ List.replicate zeros '0') 0 :=
      ofDigitChars_append_zeros _ 1
    rw [hzero]
    exact hvalue 1
  | false =>
    refine spells_of_parts (whole?_append hne hdigits hlead (clear_nil _)) rfl rfl ?_
    have hnone := hvalue 0
    rw [pow_zero, one_mul] at hnone
    rw [List.append_nil]
    exact hnone

/-- Of more digits those behind the point make the fraction. -/
private theorem spells_positionalText_of_lt (hd : d.Proper) (hpos : 0 ≤ d.exponent)
    (hlt : d.exponent.toNat + 1 < d.digits.length) (pointZero : Bool) :
    Spells (positionalText pointZero d) d.value := by
  have hne : d.digits.drop (d.exponent.toNat + 1) ≠ [] := by
    rw [Ne, List.drop_eq_nil_iff]
    omega
  -- The point stands among the digits, so no zeros are added
  have htext : positionalText pointZero d =
      d.digits.take (d.exponent.toNat + 1) ++
        '.' :: (d.digits.drop (d.exponent.toNat + 1) ++ []) := by
    have hcount : d.exponent.toNat + 1 - d.digits.length = 0 := by omega
    rw [positionalText, if_neg (by omega)]
    dsimp only
    rw [hcount, List.replicate_zero, List.append_nil, List.append_nil,
      List.isEmpty_eq_false_iff.mpr hne, if_neg Bool.false_ne_true]
  have hne' : d.digits.take (d.exponent.toNat + 1) ≠ [] := by
    rw [Ne, List.take_eq_nil_iff]
    rintro (hzero | hnil)
    · cases hzero
    · exact hd.ne_nil hnil
  -- Only a single zero starts with a zero, and that has no fraction
  have hlead : (d.digits.take (d.exponent.toNat + 1)).head? = some '0' →
      d.digits.take (d.exponent.toNat + 1) = ['0'] := by
    intro hhead
    rw [List.head?_take, if_neg (by omega)] at hhead
    rw [(hd.leading hhead).1, List.length_singleton] at hlt
    omega
  have hdigits : ∀ c ∈ d.digits.take (d.exponent.toNat + 1), c.isDigit = true :=
    fun c hc => hd.isDigit c (List.mem_of_mem_take hc)
  have hdigits' : ∀ c ∈ d.digits.drop (d.exponent.toNat + 1), c.isDigit = true :=
    fun c hc => hd.isDigit c (List.mem_of_mem_drop hc)
  rw [htext]
  refine spells_of_parts (whole?_append hne' hdigits hlead (clear_cons.mpr rfl))
    (fraction?_point hne hdigits' (clear_nil _)) rfl ?_
  rw [List.take_append_drop, value, List.length_drop]
  congr 2
  omega

/-- In scientific form the first digit stands before the point. -/
private theorem spells_scientificText (hd : d.Proper) (plusSign : Bool) :
    Spells (scientificText plusSign d) d.value := by
  obtain ⟨digits, exponent⟩ := d
  obtain ⟨first, fraction, hsplit⟩ := List.exists_cons_of_ne_nil hd.ne_nil
  obtain rfl : digits = first :: fraction := hsplit
  obtain ⟨hdigit, hdigits⟩ := List.forall_mem_cons.mp hd.isDigit
  have hfirst : ∀ c ∈ [first], c.isDigit = true := List.forall_mem_singleton.mpr hdigit
  have hlead : [first].head? = some '0' → [first] = ['0'] := by
    intro hhead
    rw [Option.some.inj hhead]
  have hexponent := exponent?_toDigits plusSign exponent
  have hvalue : (Nat.ofDigitChars 10 ([first] ++ fraction) 0 : ℚ) *
      10 ^ (exponent - fraction.length) = value ⟨first :: fraction, exponent⟩ := by
    have hlength : (first :: fraction).length = fraction.length + 1 := rfl
    rw [value, hlength]
    dsimp only
    congr 2
    omega
  rw [scientificText]
  dsimp only
  rw [List.take_succ_cons, List.take_zero, List.drop_succ_cons, List.drop_zero, List.append_assoc]
  -- The point is left out with a single digit
  by_cases hnil : fraction = []
  · subst hnil
    rw [List.isEmpty_nil, if_pos rfl, List.nil_append]
    exact spells_of_parts (whole?_append (List.cons_ne_nil _ _) hfirst hlead (clear_cons.mpr rfl))
      rfl hexponent hvalue
  · rw [List.isEmpty_eq_false_iff.mpr hnil, if_neg Bool.false_ne_true, List.cons_append]
    exact spells_of_parts (whole?_append (List.cons_ne_nil _ _) hfirst hlead (clear_cons.mpr rfl))
      (fraction?_point hnil hdigits (clear_cons.mpr rfl)) hexponent hvalue

private theorem proper_zero : Proper ⟨['0'], 0⟩ :=
  ⟨List.cons_ne_nil _ _, List.forall_mem_singleton.mpr rfl, fun _ => ⟨rfl, rfl⟩⟩

private theorem value_zero : value ⟨['0'], 0⟩ = 0 := by
  have hdigits : Nat.ofDigitChars 10 ['0'] 0 = 0 := rfl
  rw [value, hdigits, Nat.cast_zero, zero_mul]

/-! ## Layouts -/

namespace Layout

variable (l : Layout)

/-- Every layout writes a numeral of the value of the decimal. -/
theorem spells_renderDecimal (hd : d.Proper) : Spells (l.renderDecimal d) d.value := by
  rw [renderDecimal]
  -- Positional layouts: the point in front of, behind or within the digits
  split
  · by_cases hneg : d.exponent < 0
    · exact spells_positionalText_of_neg hd hneg l.pointZero
    · by_cases hle : d.digits.length ≤ d.exponent.toNat + 1
      · exact spells_positionalText_of_le hd (by omega) hle l.pointZero
      · exact spells_positionalText_of_lt hd (by omega) (by omega) l.pointZero
  · exact spells_scientificText hd l.plusSign

/-- A number that is neither finite nor undefined is infinite. -/
theorem isInf_of_not_isFinite {x : Float} (hfinite : x.isFinite = false) (hnan : x.isNaN = false) :
    x.isInf = true := by
  have hfinite' : x.toModel.unpack.isFinite = false := hfinite
  have hnan' : x.toModel.unpack.isNaN = false := hnan
  show x.toModel.unpack.isInf = true
  -- What is neither finite nor without a number is infinite
  cases hunpack : x.toModel.unpack with
  | infinity s => rfl
  | notANumber =>
    rw [hunpack] at hnan'
    cases hnan'
  | zero s =>
    rw [hunpack] at hfinite'
    cases hfinite'
  | finite s m e hm =>
    rw [hunpack] at hfinite'
    cases hfinite'

/-- A finite number is written as its sign and a decimal. -/
private theorem toList_render {x : Float} (hnan : x.isNaN = false) (hinf : x.isInf = false) :
    (l.render x).toList =
      (if decide (x.toBits ≥ 0x8000000000000000) then ['-'] else []) ++
        l.renderDecimal (if x == 0 then ⟨['0'], 0⟩ else shortest l.tie x.toBits) := by
  rw [render, hnan, if_neg Bool.false_ne_true]
  dsimp only
  -- Neither of the names for special values is left
  rw [hinf, if_neg Bool.false_ne_true, String.toList_ofList]
  by_cases hnegative : x.toBits ≥ 0x8000000000000000
  · rw [if_pos hnegative, if_pos (decide_eq_true hnegative)]
  · rw [if_neg hnegative, if_neg (mt of_decide_eq_true hnegative)]

/-- A finite number comes back from what is written. -/
theorem readsAs_render {x : Float} (hfinite : x.isFinite = true) : ReadsAs (l.render x) x := by
  have hfinite' : x.toModel.unpack.isFinite = true := hfinite
  have hnan : x.isNaN = x.toModel.unpack.isNaN := rfl
  have hinf : x.isInf = x.toModel.unpack.isInf := rfl
  have hzero : (x == 0) = x.toModel.unpack.beq (.zero .positive) := rfl
  have hsign := ofBitVec_signField x
  cases hunpack : x.toModel.unpack with
  | infinity s =>
    rw [hunpack] at hfinite'
    cases hfinite'
  | notANumber =>
    rw [hunpack] at hfinite'
    cases hfinite'
  | zero s =>
    -- Zero is written without a search, and its sign is all that can be lost
    rw [hunpack] at hnan hinf hzero
    have hbits := (unpack_eq_zero_iff_of_valid x.toModel.valid).mp hunpack
    have hs : Sign.ofBitVec (signField x.toBits.toBitVec) = s := by
      have hsame : x.toBits.toBitVec = packedZero Format.binary64 s := hbits
      rw [hsame]
      cases s <;> rfl
    have hbeq : (x == 0) = true := by
      rw [hzero]
      cases s <;> rfl
    rw [ReadsAs, toList_render l hnan hinf, hbeq, if_pos rfl]
    obtain ⟨n, hread, hnegative, hvalue⟩ := spells_renderDecimal l proper_zero _
    refine ⟨n, hread, nearest_eq_of_significand_eq_zero hunpack ?_ ?_⟩
    · rw [value_zero, mul_eq_zero] at hvalue
      exact_mod_cast hvalue.resolve_right (by positivity)
    · rw [hnegative, ← hsign, hs]
  | finite s m e hm =>
    rw [hunpack] at hnan hinf hzero
    have hs : Sign.ofBitVec (signField x.toBits.toBitVec) = s :=
      (unpack_eq_finite_iff.mp hunpack).1
    have hbeq : (x == 0) = false := by
      rw [hzero]
      cases s <;> rfl
    -- The decimal is rounded to the number, and the numeral has its value
    obtain ⟨hd, hround⟩ := roundsTo_shortest l.tie hunpack
    rw [ReadsAs, toList_render l hnan hinf, hbeq, if_neg Bool.false_ne_true]
    obtain ⟨n, hread, hnegative, hvalue⟩ := spells_renderDecimal l hd _
    rw [← hvalue] at hround
    refine ⟨n, hread, nearest_eq_of_roundsTo hunpack hround ?_⟩
    rw [hnegative, ← hsign, hs]

end Layout

end Decimal

end Reckoner
