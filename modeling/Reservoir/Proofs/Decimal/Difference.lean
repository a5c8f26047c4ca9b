import Reservoir.Proofs.Decimal.Unpacking

/-!
Differences of stored numbers. What is left of two numbers in order is above zero, however it is
rounded: rounding never goes below what shifting leaves, and of a significand that fits shifting
leaves something.
-/

namespace Reservoir

open Float.Model UnpackedFloat

namespace BinaryFormat

theorem height_lt_succ (format : BinaryFormat) (rung : Nat) :
    format.height rung < format.height (rung + 1) := by
  have hpos := format.octave_pos
  rcases format.rung_cases rung with hlt | ⟨octaves, r, hr, rfl⟩
  · rw [height_of_lt hlt]
    rcases Nat.lt_or_ge (rung + 1) format.octave with hnext | hnext
    · rw [height_of_lt hnext]
      exact Nat.lt_succ_self rung
    · have hfirst : rung + 1 = (0 + 1) * format.octave + 0 := by omega
      rw [hfirst, height_of_octaves format 0 hpos]
      omega
  · have htwo := Nat.two_pow_pos octaves
    rw [height_of_octaves format octaves hr]
    rcases Nat.lt_or_ge (r + 1) format.octave with hnext | hnext
    · rw [Nat.add_assoc, height_of_octaves format octaves hnext]
      exact Nat.mul_lt_mul_of_pos_right (by omega) htwo
    · have hfirst : (octaves + 1) * format.octave + r + 1 =
          (octaves + 1 + 1) * format.octave + 0 := by
        rw [Nat.succ_mul (octaves + 1)]
        omega
      rw [hfirst, height_of_octaves format (octaves + 1) hpos, Nat.add_zero, Nat.pow_succ',
        ← Nat.mul_assoc]
      exact Nat.mul_lt_mul_of_pos_right (by omega) htwo

theorem height_strictMono (format : BinaryFormat) : StrictMono format.height :=
  strictMono_nat_of_lt_succ format.height_lt_succ

end BinaryFormat

section Signs

variable {negative negative' : Bool} {rung rung' : Nat}

theorem apply_signOf (negative : Bool) (n : Int) :
    (signOf negative).apply n = if negative then -n else n := by
  cases negative <;> rfl

theorem apply_mul (sign : Sign) (n k : Int) : sign.apply n * k = sign.apply (n * k) := by
  cases sign with
  | negative => exact Int.neg_mul n k
  | positive => rfl

theorem signs_of_apply_lt (h : (signOf negative).apply rung < (signOf negative').apply rung') :
    (rung' ≤ rung → negative = true) ∧ (rung ≤ rung' → negative' = false) := by
  rw [apply_signOf, apply_signOf] at h
  refine ⟨fun hle => ?_, fun hle => ?_⟩ <;> cases negative <;> cases negative' <;>
    simp only [Bool.false_eq_true, if_false, if_true, reduceCtorEq] at h ⊢ <;> omega

theorem apply_height_lt (format : BinaryFormat)
    (h : (signOf negative).apply rung < (signOf negative').apply rung') :
    (signOf negative).apply (format.height rung) <
      (signOf negative').apply (format.height rung') := by
  have hmono := format.height_strictMono
  rw [apply_signOf, apply_signOf] at h ⊢
  cases negative <;> cases negative' <;> simp only [Bool.false_eq_true, if_false, if_true] at h ⊢
  · exact Int.ofNat_lt.2 (hmono (Int.ofNat_lt.1 h))
  · omega
  · rcases Nat.eq_zero_or_pos rung with rfl | hpos
    · have hpos' := hmono (show 0 < rung' by omega)
      omega
    · have hpos := hmono hpos
      omega
  · have hlt := hmono (show rung' < rung by omega)
    omega

end Signs

inductive Positive : UnpackedFloat → Prop where
  | infinity : Positive (.infinity .positive)
  | finite {m : Nat} {e : Int} (hm : 0 < m) (hlt : m < 2 ^ 53) (he : -1074 ≤ e) :
      Positive (.finite .positive m e hm)

theorem mantissa_shiftRight (em : ExtendedMantissa) (n : Nat) :
    (em >>> n).mantissa = em.mantissa / 2 ^ n := by
  induction n with
  | zero => exact (Nat.div_one _).symm
  | succ n ih =>
    have hstep : (em >>> (n + 1)).mantissa = (em >>> n).mantissa / 2 := rfl
    rw [hstep, ih, Nat.div_div_eq_div_mul, ← Nat.pow_succ]

theorem mantissa_exact (m : Nat) :
    (ExtendedMantissa.ofMantissaAndAccuracy m .exact).mantissa = m := rfl

theorem le_roundedMantissa (em : ExtendedMantissa) : em.mantissa ≤ em.roundedMantissa := by
  obtain ⟨m, round, sticky⟩ := em
  cases round <;> cases sticky <;>
    simp [ExtendedMantissa.roundedMantissa, ExtendedMantissa.accuracy, Accuracy.roundToNearestEven]

theorem targetExponent_eq (t : Int) : Format.binary64.targetExponent t = max (t - 53) (-1074) := rfl

namespace Positive

variable {m : Nat} {e : Int}

theorem of_rung {rung : Nat} (h : rung ≠ 0) : Positive (Number.finite false rung).unpacked := by
  rw [Number.unpacked_of_ne h]
  exact .finite _ (BinaryFormat.significand_lt ..) (by omega)

theorem shifted_bounds (hm : 0 < m) (he : -1074 ≤ e) :
    let places := (Format.binary64.targetExponent (totalExponent m e) - e).toNat
    0 < m / 2 ^ places ∧ m / 2 ^ places < 2 ^ 53 := by
  intro places
  have hlow : 2 ^ m.log2 ≤ m := Nat.log2_self_le (Nat.ne_of_gt hm)
  have hhigh : m < 2 ^ (m.log2 + 1) := Nat.lt_log2_self
  have hplaces : places = m.log2 - 52 := by
    simp only [places, targetExponent_eq, totalExponent]
    omega
  rw [hplaces]
  constructor
  · exact Nat.div_pos (Nat.le_trans (Nat.pow_le_pow_right Nat.two_pos (Nat.sub_le ..)) hlow)
      (Nat.two_pow_pos _)
  · rw [Nat.div_lt_iff_lt_mul (Nat.two_pow_pos _), ← Nat.pow_add]
    exact Nat.lt_of_lt_of_le hhigh (Nat.pow_le_pow_right Nat.two_pos (by omega))

theorem roundWithAccuracy (hm : 0 < m) (he : -1074 ≤ e) :
    Positive (UnpackedFloat.roundWithAccuracy .binary64 .positive m e .exact) := by
  have hkept := (shifted_bounds hm he).1
  unfold UnpackedFloat.roundWithAccuracy shiftToTargetExponent shiftToExponent
  simp only [mantissa_shiftRight, mantissa_exact]
  generalize (Format.binary64.targetExponent (totalExponent m e) - e).toNat = places at hkept ⊢
  have hle := le_roundedMantissa (ExtendedMantissa.ofMantissaAndAccuracy m .exact >>> places)
  rw [mantissa_shiftRight, mantissa_exact] at hle
  generalize (ExtendedMantissa.ofMantissaAndAccuracy m .exact >>> places).roundedMantissa = r
    at hle ⊢
  obtain ⟨hpos, hlt⟩ := @shifted_bounds r (e + places) (Nat.lt_of_lt_of_le hkept hle) (by omega)
  rw [dif_neg (Nat.ne_of_gt hpos)]
  exact .finite hpos hlt (by omega)

theorem round (hm : 0 < m) (he : -1074 ≤ e) :
    Positive (UnpackedFloat.round .binary64 .positive m e) := by
  refine roundWithAccuracy ?_ ?_
  · rw [Nat.shiftLeft_eq]
    exact Nat.mul_pos hm (Nat.two_pow_pos _)
  · rw [targetExponent_eq]
    omega

theorem normalize {d : Int} (hd : 0 < d) (he : -1074 ≤ e) (sign : Sign) :
    Positive (UnpackedFloat.normalize .binary64 d e sign) := by
  have hcompare : compare d 0 = .gt := compare_gt_iff_gt.2 hd
  rw [UnpackedFloat.normalize, hcompare]
  exact round (Int.lt_toNat.2 hd) he

theorem compare_packComponents {exponent : BitVec 11} {fraction : BitVec 52}
    (hfinite : exponent ≠ -1#11) (hzero : exponent = 0#11 → fraction ≠ 0#52) :
    (unpack .binary64 (packComponents .binary64 .positive exponent fraction)).compare
      (.zero .positive) = some .gt := by
  unfold UnpackedFloat.unpack
  simp only [unpackMantissa_packComponents, unpackExponent_packComponents,
    unpackSign_packComponents, Sign.ofBitVec_toBitVec]
  rw [if_neg hfinite]
  split
  · next hexponent =>
    rw [dif_neg (hzero hexponent)]
    rfl
  · rfl

theorem compare_unpack_pack {u : UnpackedFloat} (h : Positive u) :
    (unpack .binary64 (pack .binary64 u)).compare (.zero .positive) = some .gt := by
  cases h with
  | infinity => decide
  | @finite m e hm hlt he =>
    have hbias : Format.binary64.exponentBias = 1023 := rfl
    have hbits : Format.binary64.mantissaBits = 53 := rfl
    simp only [UnpackedFloat.pack, hbias, hbits]
    split
    · decide
    · next hbelow =>
      split
      · next hnormal =>
        refine compare_packComponents (fun hall => ?_) fun hnone => ?_
        · have hexponent := congrArg BitVec.toNat hall
          rw [BitVec.toNat_ofNat] at hexponent
          change _ = 2047 at hexponent
          omega
        · have hexponent := congrArg BitVec.toNat hnone
          rw [BitVec.toNat_ofNat] at hexponent
          change _ = 0 at hexponent
          omega
      · next hsub =>
        have hlog : m.log2 < 53 := (Nat.log2_lt (Nat.ne_of_gt hm)).2 hlt
        have hsmall : m < 2 ^ 52 := (Nat.log2_lt (Nat.ne_of_gt hm)).1 (by omega)
        refine compare_packComponents (by decide) fun _ hnone => ?_
        have hfraction := congrArg BitVec.toNat hnone
        rw [BitVec.toNat_ofNat, Nat.mod_eq_of_lt hsmall] at hfraction
        exact Nat.ne_of_gt hm hfraction

end Positive

section Differences

variable {negative negative' : Bool} {rung rung' : Nat}

theorem positive_sub_of_lt {sign sign' : Sign} {m m' k k' : Nat} {hm : 0 < m} {hm' : 0 < m'}
    (h : sign.apply (m * 2 ^ k : Nat) < sign'.apply (m' * 2 ^ k' : Nat)) :
    Positive (sub .binary64 (.finite sign' m' (k' - 1074) hm') (.finite sign m (k - 1074) hm)) := by
  obtain ⟨low, hlow⟩ : ∃ low, low = min k' k := ⟨_, rfl⟩
  have hmin : min ((k' : Int) - 1074) (k - 1074) = low - 1074 := by omega
  have hdown (m k : Nat) (hle : low ≤ k) :
      (m <<< ((k : Int) - 1074 - (low - 1074)).toNat) * 2 ^ low = m * 2 ^ k := by
    have hshift : ((k : Int) - 1074 - (low - 1074)).toNat = k - low := by omega
    rw [hshift, Nat.shiftLeft_eq, Nat.mul_assoc, ← Nat.pow_add, Nat.sub_add_cancel hle]
  simp only [UnpackedFloat.sub, hmin, decreaseExponent]
  refine Positive.normalize ?_ (by omega) _
  refine Int.pos_of_mul_pos_left (b := ((2 ^ low : Nat) : Int)) ?_
    (Int.natCast_pos.2 (Nat.two_pow_pos _))
  rw [Int.sub_mul, apply_mul, apply_mul, ← Int.natCast_mul, ← Int.natCast_mul,
    hdown m k (by omega), hdown m' k' (by omega)]
  exact Int.sub_pos.2 h

theorem positive_sub_finite (h : (signOf negative).apply rung < (signOf negative').apply rung') :
    Positive (sub .binary64 (Number.finite negative' rung').unpacked
      (Number.finite negative rung).unpacked) := by
  obtain ⟨hnegative, hpositive⟩ := signs_of_apply_lt h
  by_cases hrung : rung = 0
  · subst hrung
    cases hpositive (Nat.zero_le rung')
    have hrung' : rung' ≠ 0 := by
      rintro rfl
      cases negative <;> cases h
    have hnumber := Positive.of_rung hrung'
    rw [Number.unpacked_of_ne hrung'] at hnumber ⊢
    exact hnumber
  by_cases hrung' : rung' = 0
  · subst hrung'
    cases hnegative (Nat.zero_le rung)
    have hnumber := Positive.of_rung hrung
    rw [Number.unpacked_of_ne hrung] at hnumber ⊢
    exact hnumber
  · rw [Number.unpacked_of_ne hrung, Number.unpacked_of_ne hrung']
    exact positive_sub_of_lt (apply_height_lt .double h)

theorem sub_infinity (sign : Sign) (negative : Bool) (rung : Nat) :
    sub .binary64 (Number.finite negative rung).unpacked (.infinity sign) = .infinity (-sign) ∧
      sub .binary64 (.infinity sign) (Number.finite negative rung).unpacked = .infinity sign := by
  simp only [Number.unpacked]
  split <;> exact ⟨rfl, rfl⟩

end Differences

namespace Double

variable {x y : Double} {a b : Int}

/-- A number with a place is infinite, on the rung of that, or finite, on a lower one. -/
theorem toNumber_of_place? (h : x.place? = some a) :
    ∃ (negative : Bool) (rung : Nat), (signOf negative).apply rung = a ∧
      (x.toNumber = .infinite negative ∧ rung = BinaryFormat.double.infinity ∨
        x.toNumber = .finite negative rung ∧ rung < BinaryFormat.double.infinity) := by
  unfold place? at h
  split at h
  · cases h
  · next negative hx =>
    simp only [← apply_signOf] at h
    exact ⟨negative, _, Option.some.inj h, .inl ⟨hx, rfl⟩⟩
  · next negative rung hx =>
    simp only [← apply_signOf] at h
    refine ⟨negative, rung, Option.some.inj h, .inr ⟨hx, ?_⟩⟩
    simp only [toNumber, BinaryFormat.toNumber] at hx
    split at hx
    · next hlt => exact (Number.finite.inj hx).2 ▸ hlt
    · split at hx <;> cases hx

theorem positive_sub (ha : x.place? = some a) (hb : y.place? = some b) (hab : a < b) :
    Positive (sub .binary64 y.toNumber.unpacked x.toNumber.unpacked) := by
  obtain ⟨negative, rung, rfl, hx⟩ := toNumber_of_place? ha
  obtain ⟨negative', rung', rfl, hy⟩ := toNumber_of_place? hb
  obtain ⟨hnegative, hpositive⟩ := signs_of_apply_lt hab
  rcases hx with ⟨hx, rfl⟩ | ⟨hx, hrung⟩
  · rcases hy with ⟨hy, rfl⟩ | ⟨hy, hrung'⟩
    · cases hnegative (Nat.le_refl _)
      cases hpositive (Nat.le_refl _)
      rw [hx, hy]
      exact .infinity
    · cases hnegative (Nat.le_of_lt hrung')
      rw [hx, hy]
      exact (sub_infinity .negative negative' rung').1 ▸ .infinity
  · rcases hy with ⟨hy, rfl⟩ | ⟨hy, hrung'⟩
    · cases hpositive (Nat.le_of_lt hrung)
      rw [hx, hy]
      exact (sub_infinity .positive negative rung).2 ▸ .infinity
    · rw [hx, hy]
      exact positive_sub_finite hab

/-- The difference of two numbers in order is above zero, even where it is rounded. -/
theorem not_sub_le_zero (ha : x.place? = some a) (hb : y.place? = some b) (hab : a < b) :
    ¬y.toFloat - x.toFloat ≤ 0 := by
  have hunpack : (y.toFloat - x.toFloat).toModel.unpack = unpack .binary64 (pack .binary64
      (sub .binary64 y.toFloat.toModel.unpack x.toFloat.toModel.unpack)) := rfl
  have hzero : (0 : Float).toModel.unpack = .zero .positive := rfl
  rw [unpack_toFloat, unpack_toFloat] at hunpack
  rw [le_iff_compare, hunpack, hzero, (positive_sub ha hb hab).compare_unpack_pack]
  decide

end Double

end Reservoir
