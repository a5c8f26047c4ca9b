import Mathlib
import Reservoir.Decimal.Word
import Reservoir.Proofs.Decimal.ReadBack

/-!
Stored numbers as floats. Arithmetic takes words apart into a sign, a significand and an exponent,
and these are the ones of the rung that the word is on.

No smaller part of the library than the whole of it brings the lemmas on floats.
-/

namespace Reservoir

open Float.Model UnpackedFloat

namespace BinaryFormat

theorem significand_pos {format : BinaryFormat} {rung : Nat} (h : rung ≠ 0) :
    0 < format.significand rung :=
  Nat.pos_of_mul_pos_right (height_pos h)

theorem significand_lt (format : BinaryFormat) (rung : Nat) :
    format.significand rung < 2 * format.octave := by
  have hpos := format.octave_pos
  have hmod := Nat.mod_lt rung hpos
  have hdiv := Nat.div_add_mod rung format.octave
  rw [Nat.mul_comm] at hdiv
  rw [significand, shift]
  rcases Nat.eq_zero_or_pos (rung / format.octave) with hzero | hone
  · rw [hzero, Nat.zero_mul] at hdiv
    rw [hzero]
    omega
  · have hless : (rung / format.octave - 1) * format.octave + format.octave =
        rung / format.octave * format.octave := by
      rw [← Nat.succ_mul, Nat.succ_eq_add_one, Nat.sub_add_cancel hone]
    omega

end BinaryFormat

def signOf (negative : Bool) : Sign := if negative then .negative else .positive

def Number.unpacked : Number → UnpackedFloat
  | .nan _ => .notANumber
  | .infinite negative => .infinity (signOf negative)
  | .finite negative rung =>
    if h : rung = 0 then .zero (signOf negative)
    else .finite (signOf negative) (BinaryFormat.double.significand rung)
      (BinaryFormat.double.shift rung - 1074) (BinaryFormat.significand_pos h)

theorem Number.unpacked_of_ne {rung : Nat} (h : rung ≠ 0) (negative : Bool) :
    (Number.finite negative rung).unpacked =
      .finite (signOf negative) (BinaryFormat.double.significand rung)
        (BinaryFormat.double.shift rung - 1074) (BinaryFormat.significand_pos h) := dif_neg h

theorem finite_congr {sign : Sign} {m m' : Nat} {e e' : Int} {hm : 0 < m} {hm' : 0 < m'}
    (h : m = m') (he : e = e') :
    UnpackedFloat.finite sign m e hm = .finite sign m' e' hm' := by
  subst h he
  rfl

section Fields

variable (bits : UInt64)

theorem toNat_unpackMantissa :
    (@unpackMantissa .binary64 bits.toBitVec).toNat = bits.toNat % 2 ^ 52 := by
  rw [unpackMantissa_def, BitVec.extractLsb'_toNat]
  rfl

theorem toNat_unpackExponent :
    (@unpackExponent .binary64 bits.toBitVec).toNat = bits.toNat / 2 ^ 52 % 2 ^ 11 := by
  rw [unpackExponent_def, BitVec.extractLsb'_toNat, Nat.shiftRight_eq_div_pow]
  rfl

theorem toNat_unpackSign :
    (@unpackSign .binary64 bits.toBitVec).toNat = bits.toNat / 2 ^ 63 % 2 := by
  rw [unpackSign_def, BitVec.extractLsb'_toNat, Nat.shiftRight_eq_div_pow]
  rfl

theorem ofBitVec_unpackSign :
    Sign.ofBitVec (@unpackSign .binary64 bits.toBitVec) =
      signOf (2 ^ 63 ≤ bits.toNat) := by
  have hsign := toNat_unpackSign bits
  have hlt := bits.toNat_lt
  unfold Sign.ofBitVec signOf
  by_cases h : 2 ^ 63 ≤ bits.toNat
  · rw [if_neg, if_pos (decide_eq_true h)]
    intro hzero
    rw [hzero, BitVec.toNat_ofNat] at hsign
    omega
  · rw [if_pos, if_neg (by simpa using h)]
    apply BitVec.eq_of_toNat_eq
    rw [hsign, BitVec.toNat_ofNat]
    omega

theorem unpackExponent_eq_top :
    @unpackExponent .binary64 bits.toBitVec = -1#11 ↔ bits.toNat / 2 ^ 52 % 2 ^ 11 = 2047 := by
  rw [← toNat_unpackExponent, ← BitVec.toNat_inj]
  rfl

theorem unpackExponent_eq_zero :
    @unpackExponent .binary64 bits.toBitVec = 0#11 ↔ bits.toNat / 2 ^ 52 % 2 ^ 11 = 0 := by
  rw [← toNat_unpackExponent, ← BitVec.toNat_inj]
  rfl

theorem unpackMantissa_eq_zero :
    @unpackMantissa .binary64 bits.toBitVec = 0#52 ↔ bits.toNat % 2 ^ 52 = 0 := by
  rw [← toNat_unpackMantissa, ← BitVec.toNat_inj]
  rfl

theorem toNat_wholeMantissa :
    (1#1 ++ @unpackMantissa .binary64 bits.toBitVec).toNat = 2 ^ 52 + bits.toNat % 2 ^ 52 := by
  have hone : (1#1).toNat = 1 := rfl
  have hlt : bits.toNat % 2 ^ 52 < 2 ^ 52 := Nat.mod_lt _ (Nat.two_pow_pos _)
  rw [BitVec.toNat_append, toNat_unpackMantissa, hone, ← Nat.shiftLeft_add_eq_or_of_lt hlt,
    Nat.shiftLeft_eq, Nat.one_mul]

end Fields

theorem Double.toNumber_eq (x : Double) : x.toNumber =
    if x.bits.toNat % 2 ^ 63 < 2047 * 2 ^ 52 then
      .finite (2 ^ 63 ≤ x.bits.toNat) (x.bits.toNat % 2 ^ 63)
    else if x.bits.toNat % 2 ^ 63 = 2047 * 2 ^ 52 then .infinite (2 ^ 63 ≤ x.bits.toNat)
    else .nan (2 ^ 63 ≤ x.bits.toNat) := by
  have hsignBit : BinaryFormat.double.signBit = 2 ^ 63 := by decide
  have hinfinity : BinaryFormat.double.infinity = 2047 * 2 ^ 52 := by decide
  rw [toNumber, BinaryFormat.toNumber, hsignBit, hinfinity]

section Exponents

variable {x : Double}

theorem octave_double : BinaryFormat.double.octave = 2 ^ 52 := rfl

theorem exponentBias_binary64 : Format.binary64.exponentBias = 1023 := rfl

theorem unpack_of_last (h : x.bits.toNat / 2 ^ 52 % 2 ^ 11 = 2047) :
    unpack .binary64 x.bits.toBitVec = x.toNumber.unpacked := by
  have htop : ¬x.bits.toNat % 2 ^ 63 < 2047 * 2 ^ 52 := by omega
  simp only [UnpackedFloat.unpack, ofBitVec_unpackSign]
  rw [if_pos ((unpackExponent_eq_top _).2 h), x.toNumber_eq, if_neg htop]
  by_cases hempty : x.bits.toNat % 2 ^ 52 = 0
  · have hrung : x.bits.toNat % 2 ^ 63 = 2047 * 2 ^ 52 := by omega
    rw [if_pos ((unpackMantissa_eq_zero _).2 hempty), if_pos hrung]
    rfl
  · have hrung : ¬x.bits.toNat % 2 ^ 63 = 2047 * 2 ^ 52 := by omega
    rw [if_neg (mt (unpackMantissa_eq_zero _).1 hempty), if_neg hrung]
    rfl

theorem toNumber_of_not_last (h : x.bits.toNat / 2 ^ 52 % 2 ^ 11 ≠ 2047) :
    x.toNumber = .finite (2 ^ 63 ≤ x.bits.toNat) (x.bits.toNat % 2 ^ 63) := by
  rw [x.toNumber_eq, if_pos (by omega)]

theorem unpack_of_first (h : x.bits.toNat / 2 ^ 52 % 2 ^ 11 = 0) :
    unpack .binary64 x.bits.toBitVec = x.toNumber.unpacked := by
  have hlast : x.bits.toNat / 2 ^ 52 % 2 ^ 11 ≠ 2047 := by omega
  rw [toNumber_of_not_last hlast]
  simp only [UnpackedFloat.unpack, ofBitVec_unpackSign]
  rw [if_neg (mt (unpackExponent_eq_top _).1 hlast),
    if_pos ((unpackExponent_eq_zero _).2 h)]
  by_cases hempty : x.bits.toNat % 2 ^ 52 = 0
  · have hrung : x.bits.toNat % 2 ^ 63 = 0 := by omega
    rw [hrung, dif_pos ((unpackMantissa_eq_zero _).2 hempty)]
    rfl
  · have hrung : x.bits.toNat % 2 ^ 63 ≠ 0 := by omega
    have hshift : BinaryFormat.double.shift (x.bits.toNat % 2 ^ 63) = 0 := by
      rw [BinaryFormat.shift, octave_double]
      omega
    rw [dif_neg (mt (unpackMantissa_eq_zero _).1 hempty), Number.unpacked_of_ne hrung]
    refine finite_congr ?_ ?_
    · rw [toNat_unpackMantissa, BinaryFormat.significand, hshift]
      omega
    · rw [toNat_unpackExponent, h, hshift, exponentBias_binary64]
      rfl

theorem unpack_of_between (hlast : x.bits.toNat / 2 ^ 52 % 2 ^ 11 ≠ 2047)
    (hfirst : x.bits.toNat / 2 ^ 52 % 2 ^ 11 ≠ 0) :
    unpack .binary64 x.bits.toBitVec = x.toNumber.unpacked := by
  have hrung : x.bits.toNat % 2 ^ 63 ≠ 0 := by omega
  have hshift : BinaryFormat.double.shift (x.bits.toNat % 2 ^ 63) + 1 =
      x.bits.toNat / 2 ^ 52 % 2 ^ 11 := by
    rw [BinaryFormat.shift, octave_double]
    omega
  rw [toNumber_of_not_last hlast, Number.unpacked_of_ne hrung]
  simp only [UnpackedFloat.unpack, ofBitVec_unpackSign]
  rw [if_neg (mt (unpackExponent_eq_top _).1 hlast),
    if_neg (mt (unpackExponent_eq_zero _).1 hfirst)]
  refine finite_congr ?_ ?_
  · rw [toNat_wholeMantissa, BinaryFormat.significand, octave_double]
    omega
  · rw [toNat_unpackExponent, exponentBias_binary64]
    omega

theorem unpack_bits (x : Double) : unpack .binary64 x.bits.toBitVec = x.toNumber.unpacked := by
  by_cases hlast : x.bits.toNat / 2 ^ 52 % 2 ^ 11 = 2047
  · exact unpack_of_last hlast
  · by_cases hfirst : x.bits.toNat / 2 ^ 52 % 2 ^ 11 = 0
    · exact unpack_of_first hfirst
    · exact unpack_of_between hlast hfirst

end Exponents

theorem Double.toFloat_ofFloat (x : Float) : (Double.ofFloat x).toFloat = x :=
  Float.ofBits_toBits x

/-- Made a float, a stored number is taken apart as it is; a NaN loses its payload. -/
theorem unpack_toFloat (x : Double) : x.toFloat.toModel.unpack = x.toNumber.unpacked := by
  have hstored : x.toFloat.toModel.unpack =
      unpack .binary64 (pack .binary64 (unpack .binary64 x.bits.toBitVec)) := rfl
  rw [hstored, pack_unpack, ← unpack_bits]
  split
  · next h =>
    rw [unpack_packedNaN]
    simp only [isNaNBits, decide_eq_true_eq] at h
    simp only [UnpackedFloat.unpack, h, if_true, if_false]
  · rfl

theorem le_iff_compare {x y : Float} :
    x ≤ y ↔ (x.toModel.unpack.compare y.toModel.unpack).any (·.isLE) = true :=
  decide_eq_true_iff

end Reservoir
