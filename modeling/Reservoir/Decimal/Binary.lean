/-!
Binary floating-point formats. The magnitudes of a format are the rungs of a ladder: the
bits of a number without its sign, read as a natural number, are its rung, and higher rungs
are larger magnitudes. Heights are counted in units of the least positive magnitude, so
every height is a natural number and rounding is exact arithmetic on naturals.
-/

namespace Reservoir

/-- The quotient rounded to the nearest natural number, a half to the even neighbour. -/
def roundEven (num den : Nat) : Nat :=
  let q := num / den
  let r := num % den
  if 2 * r < den ∨ (2 * r = den ∧ q % 2 = 0) then q else q + 1

theorem roundEven_mul_left {k : Nat} (hk : 0 < k) (num den : Nat) :
    roundEven (k * num) (k * den) = roundEven num den := by
  have h2 : ∀ r, 2 * (k * r) = k * (2 * r) := fun r => Nat.mul_left_comm ..
  simp only [roundEven, Nat.mul_div_mul_left _ _ hk, Nat.mul_mod_mul_left, h2,
    Nat.mul_lt_mul_left hk, Nat.mul_left_cancel_iff hk]

theorem roundEven_mul_self {den : Nat} (h : 0 < den) (n : Nat) : roundEven (n * den) den = n := by
  simp [roundEven, Nat.mul_div_cancel _ h, h]

/-- The fraction has `fraction` bits, the least positive magnitude is `2 ^ -depth`, and
`infinity` is the rung above all finite ones. -/
structure BinaryFormat where
  fraction : Nat
  depth : Nat
  infinity : Nat
deriving DecidableEq, Repr

namespace BinaryFormat

def single : BinaryFormat := ⟨23, 149, 0x7f800000⟩

def double : BinaryFormat := ⟨52, 1074, 0x7ff0000000000000⟩

def octave (format : BinaryFormat) : Nat := Nat.pow 2 format.fraction

def unit (format : BinaryFormat) : Nat := Nat.pow 2 format.depth

/-- The power of two that the significand of a rung is counted in. -/
def shift (format : BinaryFormat) (rung : Nat) : Nat :=
  rung / format.octave - 1

def significand (format : BinaryFormat) (rung : Nat) : Nat :=
  rung - format.shift rung * format.octave

def height (format : BinaryFormat) (rung : Nat) : Nat :=
  format.significand rung * Nat.pow 2 (format.shift rung)

/-- The rung nearest to the height `num / den`, a half to the even significand; heights past
the last finite rung go to infinity. -/
def nearest (format : BinaryFormat) (num den : Nat) : Nat :=
  let shift := (num / den).log2 - format.fraction
  min (shift * format.octave + roundEven num (den * Nat.pow 2 shift)) format.infinity

theorem nearest_mul_left (format : BinaryFormat) {k : Nat} (hk : 0 < k) (num den : Nat) :
    format.nearest (k * num) (k * den) = format.nearest num den := by
  simp only [nearest, Nat.mul_div_mul_left _ _ hk, Nat.mul_assoc, roundEven_mul_left hk]

end BinaryFormat

inductive Number where
  | nan (negative : Bool)
  | infinite (negative : Bool)
  | finite (negative : Bool) (rung : Nat)
deriving DecidableEq, Repr

end Reservoir
