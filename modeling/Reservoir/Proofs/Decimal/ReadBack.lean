import Mathlib.Tactic.Ring
import Reservoir.Decimal.Shortest
import Reservoir.Proofs.Text.Digits

/-!
Decimals that read back. The height of a rung is nearest to that rung, zeros at the end of a
coefficient change nothing, and so the shortest decimal of a rung denotes it again: a grid is only
left when one of its decimals was read back, and the exact decimal is there when no grid has one.
-/

namespace Reservoir.BinaryFormat

open Text

theorem octave_eq (format : BinaryFormat) : format.octave = 2 ^ format.fraction := rfl

theorem octave_pos (format : BinaryFormat) : 0 < format.octave := Nat.two_pow_pos _

theorem height_of_lt {format : BinaryFormat} {rung : Nat} (h : rung < format.octave) :
    format.height rung = rung := by
  simp [height, significand, shift, Nat.div_eq_of_lt h]

theorem height_of_octaves (format : BinaryFormat) (octaves : Nat) {r : Nat}
    (h : r < format.octave) :
    format.height ((octaves + 1) * format.octave + r) =
      (format.octave + r) * 2 ^ octaves := by
  have hpos := format.octave_pos
  have hshift : format.shift ((octaves + 1) * format.octave + r) = octaves := by
    rw [shift, Nat.add_comm, Nat.add_mul_div_right _ _ hpos, Nat.div_eq_of_lt h]
    omega
  have hsum : (octaves + 1) * format.octave + r - octaves * format.octave = format.octave + r := by
    rw [Nat.add_mul]
    omega
  rw [height, significand, hshift, hsum]
  rfl

theorem rung_cases (format : BinaryFormat) (rung : Nat) :
    rung < format.octave ∨ ∃ octaves r, r < format.octave ∧
      rung = (octaves + 1) * format.octave + r := by
  by_cases h : rung < format.octave
  · exact Or.inl h
  · have hpos := format.octave_pos
    have hdiv : 0 < rung / format.octave := Nat.div_pos (Nat.le_of_not_lt h) hpos
    refine Or.inr ⟨rung / format.octave - 1, rung % format.octave, Nat.mod_lt _ hpos, ?_⟩
    rw [Nat.sub_add_cancel hdiv, Nat.mul_comm]
    exact (Nat.div_add_mod ..).symm

theorem nearest_height {format : BinaryFormat} {rung : Nat} (h : rung < format.infinity) :
    format.nearest (format.height rung) 1 = rung := by
  have hmin : min rung format.infinity = rung := Nat.min_eq_left (Nat.le_of_lt h)
  rcases format.rung_cases rung with hlt | ⟨octaves, r, hr, rfl⟩
  · have hlog : rung.log2 - format.fraction = 0 := by
      by_cases hzero : rung = 0
      · rw [hzero]
        exact Nat.zero_sub _
      · have := (Nat.log2_lt hzero).2 hlt
        omega
    have hround := roundEven_mul_self Nat.one_pos rung
    rw [Nat.mul_one] at hround
    simp [nearest, height_of_lt hlt, hlog, hround, hmin]
  · have hlow : 2 ^ (format.fraction + octaves) ≤ (format.octave + r) * 2 ^ octaves := by
      rw [Nat.pow_add]
      exact Nat.mul_le_mul_right _ (Nat.le_add_right ..)
    have hhigh : (format.octave + r) * 2 ^ octaves < 2 ^ (format.fraction + octaves + 1) := by
      have htwo : 2 ^ (format.fraction + octaves + 1) =
          (format.octave + format.octave) * 2 ^ octaves := by
        rw [octave_eq]
        ring
      rw [htwo]
      exact Nat.mul_lt_mul_of_pos_right (Nat.add_lt_add_left hr _) (Nat.two_pow_pos _)
    have hne : (format.octave + r) * 2 ^ octaves ≠ 0 :=
      Nat.ne_of_gt (Nat.lt_of_lt_of_le (Nat.two_pow_pos _) hlow)
    have hlog : ((format.octave + r) * 2 ^ octaves).log2 = format.fraction + octaves :=
      (Nat.log2_eq_iff hne).2 ⟨hlow, hhigh⟩
    have hround := roundEven_mul_self (Nat.two_pow_pos octaves) (format.octave + r)
    have hsum : octaves * format.octave + (format.octave + r) =
        (octaves + 1) * format.octave + r := by ring
    rw [nearest, height_of_octaves format octaves hr, Nat.div_one, hlog, Nat.add_sub_cancel_left,
      Nat.one_mul]
    change min (octaves * format.octave +
      roundEven ((format.octave + r) * 2 ^ octaves) (2 ^ octaves)) _ = _
    rw [hround, hsum, hmin]

theorem height_pos {format : BinaryFormat} {rung : Nat} (h : rung ≠ 0) :
    0 < format.height rung := by
  rcases format.rung_cases rung with hlt | ⟨octaves, r, hr, rfl⟩
  · rw [height_of_lt hlt]
    exact Nat.pos_of_ne_zero h
  · rw [height_of_octaves format octaves hr]
    exact Nat.mul_pos (Nat.add_pos_left format.octave_pos _) (Nat.two_pow_pos _)

theorem height_lt {format : BinaryFormat} {rung : Nat} (h : rung < format.infinity) :
    format.height rung < 2 ^ (format.fraction + 1 + format.infinity / format.octave) := by
  rcases format.rung_cases rung with hlt | ⟨octaves, r, hr, rfl⟩
  · rw [height_of_lt hlt]
    refine Nat.lt_of_lt_of_le hlt (Nat.pow_le_pow_right (by decide) ?_)
    exact Nat.le_trans (Nat.le_succ _) (Nat.le_add_right ..)
  · have hoctaves : octaves ≤ format.infinity / format.octave := by
      rw [Nat.le_div_iff_mul_le format.octave_pos]
      rw [Nat.add_mul] at h
      omega
    rw [height_of_octaves format octaves hr, Nat.pow_add]
    refine Nat.mul_lt_mul_of_lt_of_le ?_ (Nat.pow_le_pow_right (by decide) hoctaves)
      (Nat.two_pow_pos _)
    have hoctave : 2 ^ (format.fraction + 1) = format.octave + format.octave := by
      rw [octave_eq]
      ring
    omega

/-- The exact decimals of a format stay below the bound where reading gives up. -/
def Wide (format : BinaryFormat) : Prop :=
  2 ^ (format.fraction + 1 + format.infinity / format.octave) * 5 ^ format.depth
    ≤ 10 ^ (2 * format.depth)

theorem wide_single : single.Wide := by
  unfold Wide
  decide +kernel

theorem wide_double : double.Wide := by
  unfold Wide
  decide +kernel

theorem ofDecimal_zero (format : BinaryFormat) (exponent : Int) :
    format.ofDecimal ⟨0, exponent⟩ = 0 := by
  simp [ofDecimal]

theorem length_digits_mul_ten {n : Nat} (h : n ≠ 0) :
    (digits (n * 10)).length = (digits n).length + 1 := by
  rw [digits, if_neg (by omega), Nat.mul_div_cancel _ (by decide), List.length_append]
  rfl

theorem nearest_mul_ten (format : BinaryFormat) (coefficient : Nat) (exponent : Int) :
    format.nearest (coefficient * 10 * Nat.pow 10 (exponent - 1).toNat * format.unit)
        (Nat.pow 10 (-(exponent - 1)).toNat) =
      format.nearest (coefficient * Nat.pow 10 exponent.toNat * format.unit)
        (Nat.pow 10 (-exponent).toNat) := by
  by_cases hpos : 0 < exponent
  · obtain ⟨e, rfl⟩ : ∃ e : Nat, exponent = e + 1 := ⟨(exponent - 1).toNat, by omega⟩
    have h₁ : ((e : Int) + 1 - 1).toNat = e := by omega
    have h₂ : ((e : Int) + 1).toNat = e + 1 := by omega
    have h₃ : (-((e : Int) + 1 - 1)).toNat = 0 := by omega
    have h₄ : (-((e : Int) + 1)).toNat = 0 := by omega
    have hnum : coefficient * 10 * 10 ^ e * format.unit =
        coefficient * 10 ^ (e + 1) * format.unit := by ring
    rw [h₁, h₂, h₃, h₄]
    exact congrArg (format.nearest · 1) hnum
  · obtain ⟨e, rfl⟩ : ∃ e : Nat, exponent = -e := ⟨(-exponent).toNat, by omega⟩
    have h₁ : (-(e : Int) - 1).toNat = 0 := by omega
    have h₂ : (-(e : Int)).toNat = 0 := by omega
    have h₃ : (-(-(e : Int) - 1)).toNat = e + 1 := by omega
    have h₄ : (-(-(e : Int))).toNat = e := by omega
    have hnum : coefficient * 10 * 10 ^ 0 * format.unit =
        10 * (coefficient * 10 ^ 0 * format.unit) := by ring
    have hden : 10 ^ (e + 1) = 10 * 10 ^ e := by ring
    rw [h₁, h₂, h₃, h₄]
    change format.nearest (coefficient * 10 * 10 ^ 0 * format.unit) (10 ^ (e + 1)) =
      format.nearest (coefficient * 10 ^ 0 * format.unit) (10 ^ e)
    rw [hnum, hden, format.nearest_mul_left (by decide)]

theorem ofDecimal_mul_ten (format : BinaryFormat) (coefficient : Nat) (exponent : Int) :
    format.ofDecimal ⟨coefficient * 10, exponent - 1⟩ =
      format.ofDecimal ⟨coefficient, exponent⟩ := by
  by_cases hzero : coefficient = 0
  · rw [hzero, Nat.zero_mul, ofDecimal_zero, ofDecimal_zero]
  · have hpoint : ((digits (coefficient * 10)).length : Int) + (exponent - 1) =
        (digits coefficient).length + exponent := by
      rw [length_digits_mul_ten hzero]
      omega
    have hnearest := format.nearest_mul_ten coefficient exponent
    have hscaled : ¬coefficient * 10 = 0 := by omega
    simp only [ofDecimal, hpoint, hnearest, hzero, hscaled, false_or]

theorem ofDecimal_mul_pow (format : BinaryFormat) (coefficient zeros : Nat) (exponent : Int) :
    format.ofDecimal ⟨coefficient * 10 ^ zeros, exponent - zeros⟩ =
      format.ofDecimal ⟨coefficient, exponent⟩ := by
  induction zeros with
  | zero => simp
  | succ zeros ih =>
    have hexponent : exponent - (zeros + 1 : Nat) = exponent - zeros - 1 := by omega
    rw [Nat.pow_succ, ← Nat.mul_assoc, hexponent, ofDecimal_mul_ten, ih]

theorem ofDecimal_normalize (format : BinaryFormat) (d : Decimal) :
    format.ofDecimal d.normalize = format.ofDecimal d := by
  fun_induction Decimal.normalize d with
  | case1 d h ih =>
    have hstep := format.ofDecimal_mul_ten (d.coefficient / 10) (d.exponent + 1)
    have hten : d.coefficient / 10 * 10 = d.coefficient := by omega
    have hexponent : d.exponent + 1 - 1 = d.exponent := by omega
    rw [ih, ← hstep, hten, hexponent]
  | case2 => rfl

theorem exactDecimal_lt {format : BinaryFormat} (hwide : format.Wide) {rung : Nat}
    (h : rung < format.infinity) :
    format.height rung * 5 ^ format.depth < 10 ^ (2 * format.depth) :=
  Nat.lt_of_lt_of_le (Nat.mul_lt_mul_of_pos_right (height_lt h) (Nat.pow_pos (by decide))) hwide

theorem nearest_exactDecimal {format : BinaryFormat} {rung : Nat} (h : rung < format.infinity) :
    format.nearest (format.height rung * 5 ^ format.depth * 10 ^ 0 * format.unit)
      (10 ^ format.depth) = rung := by
  have hten : 10 ^ format.depth = 5 ^ format.depth * 2 ^ format.depth := by
    rw [← Nat.mul_pow]
  have hnum : format.height rung * 5 ^ format.depth * 10 ^ 0 * format.unit =
      10 ^ format.depth * format.height rung := by
    rw [hten, show format.unit = 2 ^ format.depth from rfl]
    ring
  have hscale := format.nearest_mul_left (Nat.pow_pos (n := format.depth) (show 0 < 10 by decide))
    (format.height rung) 1
  rw [Nat.mul_one] at hscale
  rw [hnum, hscale, nearest_height h]

theorem ofDecimal_exactDecimal {format : BinaryFormat} (hwide : format.Wide) {rung : Nat}
    (h : rung < format.infinity) : format.ofDecimal (format.exactDecimal rung) = rung := by
  by_cases hzero : rung = 0
  · have hheight : format.height rung = 0 := by
      rw [hzero, height_of_lt format.octave_pos]
    rw [exactDecimal, hheight, Nat.zero_mul, ofDecimal_zero, hzero]
  · have hne : format.height rung * 5 ^ format.depth ≠ 0 :=
      Nat.ne_of_gt (Nat.mul_pos (height_pos hzero) (Nat.pow_pos (by decide)))
    have hbound := exactDecimal_lt hwide h
    have hdepth : 0 < 2 * format.depth := by
      refine Nat.pos_of_ne_zero fun hdepth => ?_
      rw [hdepth, Nat.pow_zero] at hbound
      omega
    have hlength := length_digits_le hdepth hbound
    have h₁ : (-(format.depth : Int)).toNat = 0 := by omega
    have h₂ : (-(-(format.depth : Int))).toNat = format.depth := by omega
    rw [ofDecimal, exactDecimal]
    dsimp only
    rw [if_neg, if_neg, h₁, h₂]
    · exact nearest_exactDecimal h
    · change ¬((digits (format.height rung * 5 ^ format.depth)).length : Int) + -format.depth >
        format.depth
      omega
    · rintro (hcoefficient | hpoint)
      · exact hne hcoefficient
      · omega

theorem ofDecimal_shortestFrom {format : BinaryFormat} (hwide : format.Wide) {rung : Nat}
    (h : rung < format.infinity) (tries : Nat) (exponent : Int) :
    format.ofDecimal (format.shortestFrom rung tries exponent) = rung := by
  induction tries generalizing exponent with
  | zero => exact ofDecimal_exactDecimal hwide h
  | succ tries ih =>
    unfold shortestFrom
    dsimp only
    split
    · assumption
    · split
      · assumption
      · exact ih (exponent - 1)

/-- The shortest decimal of a rung denotes it. -/
theorem ofDecimal_shortest {format : BinaryFormat} (hwide : format.Wide) {rung : Nat}
    (h : rung < format.infinity) : format.ofDecimal (format.shortest rung) = rung := by
  rw [shortest, ofDecimal_normalize, ofDecimal_shortestFrom hwide h]

end Reservoir.BinaryFormat
