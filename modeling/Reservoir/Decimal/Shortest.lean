import Reservoir.Decimal.Reading

/-!
The shortest decimal of a binary number: the fewest digits that read back to the same rung,
and of the two neighbours on that decimal grid the nearer one.
-/

namespace Reservoir

namespace Decimal

def normalize (d : Decimal) : Decimal :=
  if h : d.coefficient ≠ 0 ∧ d.coefficient % 10 = 0 then
    normalize ⟨d.coefficient / 10, d.exponent + 1⟩
  else d
termination_by d.coefficient
decreasing_by exact Nat.div_lt_self (Nat.pos_of_ne_zero h.1) (by decide)

end Decimal

namespace BinaryFormat

def decimalPoint (num den : Nat) : Int :=
  if den ≤ num then (Text.digits (num / den)).length
  else 1 - (Text.digits ((den - 1) / num)).length

/-- The neighbours of `num / den` on the grid of `10 ^ exponent`, the nearer one first and
of two equally near ones the upper. -/
def neighbours (num den : Nat) (exponent : Int) : Decimal × Decimal :=
  let num := num * Nat.pow 10 (-exponent).toNat
  let den := den * Nat.pow 10 exponent.toNat
  let below : Decimal := ⟨num / den, exponent⟩
  let above : Decimal := ⟨num / den + 1, exponent⟩
  if 2 * (num % den) < den then (below, above) else (above, below)

def exactDecimal (format : BinaryFormat) (rung : Nat) : Decimal :=
  ⟨format.height rung * Nat.pow 5 format.depth, -format.depth⟩

/-- Tries grids of more and more digits until one has a neighbour that reads back. -/
def shortestFrom (format : BinaryFormat) (rung : Nat) : Nat → Int → Decimal
  | 0, _ => format.exactDecimal rung
  | tries + 1, exponent =>
    let (near, far) := neighbours (format.height rung) format.unit exponent
    if format.ofDecimal near = rung then near
    else if format.ofDecimal far = rung then far
    else shortestFrom format rung tries (exponent - 1)

/-- As many digits as always suffice: 9 for a fraction of 23 bits, 17 for one of 52. -/
def enoughDigits (format : BinaryFormat) : Nat :=
  (format.fraction + 1) * 30103 / 100000 + 2

def shortest (format : BinaryFormat) (rung : Nat) : Decimal :=
  (format.shortestFrom rung format.enoughDigits
    (decimalPoint (format.height rung) format.unit - 1)).normalize

end BinaryFormat

end Reservoir
