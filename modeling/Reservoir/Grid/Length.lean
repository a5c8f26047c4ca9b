/-!
The length of a plane vector: the root of the sum of the squares, corrected once by its
residual.
-/

namespace Reservoir

/-- The corrected root of `x * x + y * y` for `y ≤ x`. The residual is summed from
differences, which lose little where the squares would lose much. -/
def correctedRoot (x y : Float) : Float :=
  let h := (x * x + y * y).sqrt
  let residual :=
    if h ≤ 2 * y then
      let d := h - y
      x * (2 * d - x) + (d - 2 * (x - y)) * d
    else
      let d := h - x
      2 * d * (x - 2 * y) + ((4 * d - y) * y + d * d)
  h - residual / (2 * h)

/-- A side too short to count beside the other one is added to it. Sides whose squares would
leave the range are scaled by a power of two. -/
def planeLength (x y : Float) : Float :=
  let power (n : Int) : Float := Float.scaleB 1 n
  let long := if x.abs < y.abs then y.abs else x.abs
  let short := if x.abs < y.abs then x.abs else y.abs
  if short * power 54 ≤ long then long + short
  else if power 511 < long then
    correctedRoot (long * power (-600)) (short * power (-600)) * power 600
  else if short < power (-459) then
    correctedRoot (long * power 600) (short * power 600) * power (-600)
  else correctedRoot long short

end Reservoir
