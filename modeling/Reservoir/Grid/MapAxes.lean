import Reservoir.Grid.Cell
import Reservoir.Grid.Length

/-!
Map axes: the origin of a grid on the map and its unit vectors there. They are given by
three points: one on the second axis, the origin, and one on the first axis. Depth is not
affected.
-/

namespace Reservoir

structure Planar where
  x : Float
  y : Float

structure MapAxes where
  origin : Planar
  unitX : Planar
  unitY : Planar
  values : List Double

namespace Planar

def normalize? (v : Planar) : Option Planar :=
  let length := planeLength v.x v.y
  if length.isFinite && length > 0 then some ⟨v.x / length, v.y / length⟩ else none

def cross (u v : Planar) : Float := u.x * v.y - u.y * v.x

end Planar

namespace MapAxes

/-- The axes of six values; axes without length and parallel ones are left out. -/
def ofValues (values : List Double) : Outcome (Option MapAxes) :=
  match values.map Double.toFloat with
  | [x₁, y₁, x₀, y₀, x₂, y₂] =>
    match Planar.normalize? ⟨x₂ - x₀, y₂ - y₀⟩, Planar.normalize? ⟨x₁ - x₀, y₁ - y₀⟩ with
    | some unitX, some unitY =>
      if unitX.cross unitY == 0 then .ok none
      else .ok (some ⟨⟨x₀, y₀⟩, unitX, unitY, values⟩)
    | _, _ => .ok none
  | _ => .error (.sizeMismatch "MAPAXES" 6 values.length)

def toMap (m : MapAxes) (p : Point) : Point :=
  ⟨m.origin.x + p.x * m.unitX.x + p.y * m.unitY.x,
    m.origin.y + p.x * m.unitX.y + p.y * m.unitY.y, p.z⟩

def toGrid (m : MapAxes) (p : Point) : Point :=
  let norm := 1 / m.unitX.cross m.unitY
  let dx := p.x - m.origin.x
  let dy := p.y - m.origin.y
  ⟨(dx * m.unitY.y - dy * m.unitY.x) * norm, (-dx * m.unitX.y + dy * m.unitX.x) * norm, p.z⟩

end MapAxes

end Reservoir
