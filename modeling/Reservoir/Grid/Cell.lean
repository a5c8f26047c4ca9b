import Reservoir.Grid.Dims

/-!
Corner-point cells. A grid has a straight pillar at every node of its plane and eight
depths for every cell; corner `c` of a cell lies on pillar `c % 4` of its four, at the depth
of the corner. The first four corners are the top face, the others the bottom face.
-/

namespace Reservoir

structure Point where
  x : Float
  y : Float
  z : Float

abbrev Cell := Vector Point 8

namespace Point

def midpoint (p q : Point) : Point :=
  ⟨0.5 * (p.x + q.x), 0.5 * (p.y + q.y), 0.5 * (p.z + q.z)⟩

def zero : Point := ⟨0, 0, 0⟩

end Point

/-- How many values there are before the pillar at node `(i, j)`. -/
def pillarRank (nx i j : Nat) : Nat := 6 * (j * (nx + 1) + i)

/-- How many depths there are before the one of corner `c` of a cell. -/
def depthRank (nx ny : Nat) (p : Place) (c : Nat) : Nat :=
  p.k * 8 * nx * ny + p.j * 4 * nx + 2 * p.i
    + (if c % 2 = 1 then 1 else 0)
    + (if c % 4 ≥ 2 then 2 * nx else 0)
    + (if c ≥ 4 then 4 * nx * ny else 0)

def pillarIndex (nx i j : Nat) : Nat := wrap (pillarRank nx i j)

def depthIndex (nx ny : Nat) (p : Place) (c : Nat) : Nat := wrap (depthRank nx ny p c)

/-- The point of a pillar at a depth. A pillar without vertical extent is vertical. -/
def pointOnPillar (top bottom : Point) (z : Float) : Point :=
  let dz := bottom.z - top.z
  if dz == 0 then ⟨top.x, top.y, z⟩
  else
    let t := (z - top.z) / dz
    ⟨top.x + t * (bottom.x - top.x), top.y + t * (bottom.y - top.y), z⟩

def pointAt (values : Array Float) (start : Nat) : Point :=
  ⟨values.getD start 0, values.getD (start + 1) 0, values.getD (start + 2) 0⟩

def cornerAt (nx ny : Nat) (pillars depths : Array Float) (p : Place) (c : Nat) : Outcome Point :=
  let node := c % 4
  let start := pillarIndex nx (p.i + node % 2) (p.j + node / 2)
  match depths[depthIndex nx ny p c]? with
  | none => .error .crash
  | some z =>
    if start + 6 ≤ pillars.size then
      .ok (pointOnPillar (pointAt pillars start) (pointAt pillars (start + 3)) z)
    else .error .crash

def cellAt (nx ny : Nat) (pillars depths : Array Float) (p : Place) : Outcome Cell := do
  let corner := cornerAt nx ny pillars depths p
  return #v[← corner 0, ← corner 1, ← corner 2, ← corner 3,
    ← corner 4, ← corner 5, ← corner 6, ← corner 7]

namespace Cell

def center (cell : Cell) : Point :=
  let sum := cell.toList.foldl (fun s p => ⟨s.x + p.x, s.y + p.y, s.z + p.z⟩) Point.zero
  ⟨sum.x / 8, sum.y / 8, sum.z / 8⟩

def thickness (cell : Cell) : Float :=
  ((List.finRange 4).foldl (fun s c => s + (cell[c.val + 4].z - cell[c.val].z)) (-0.0)) / 4

def tolerance : Float := 1e-9

def epsilon : Float := Float.ofBits 0x3cb0000000000000

structure Weights where
  a : Float
  b : Float
  c : Float

namespace Weights

def nonnegative (w : Weights) : Bool :=
  w.a ≥ -tolerance && w.b ≥ -tolerance && w.c ≥ -tolerance

end Weights

/-- The weights of a point within the outline of a triangle; a triangle without area has
none. -/
def barycentric (p a b c : Point) : Option Weights :=
  let det := (b.y - c.y) * (a.x - c.x) + (c.x - b.x) * (a.y - c.y)
  if det.abs ≤ epsilon * (a.x.abs + a.y.abs + 1) then none
  else
    let l₁ := ((b.y - c.y) * (p.x - c.x) + (c.x - b.x) * (p.y - c.y)) / det
    let l₂ := ((c.y - a.y) * (p.x - c.x) + (a.x - c.x) * (p.y - c.y)) / det
    some ⟨l₁, l₂, 1 - l₁ - l₂⟩

structure Triangle where
  a : Fin 4
  b : Fin 4
  c : Fin 4

def triangles : List Triangle := [⟨0, 1, 3⟩, ⟨0, 3, 2⟩]

def outline (cell : Cell) (c : Fin 4) : Point :=
  Point.midpoint cell[c.val] cell[c.val + 4]

def locate (cell : Cell) (p : Point) : Option (Triangle × Weights) :=
  triangles.findSome? fun t => do
    let w ← barycentric p (cell.outline t.a) (cell.outline t.b) (cell.outline t.c)
    if w.nonnegative then some (t, w) else none

def coversOutline (cell : Cell) (p : Point) : Bool := (cell.locate p).isSome

def faceDepth (depth : Fin 4 → Float) (t : Triangle) (w : Weights) : Float :=
  (w.a * depth t.a + w.b * depth t.b) + w.c * depth t.c

/-- Whether a point lies in the cell: within its outline, between the depths of the two
faces there. -/
def contains (cell : Cell) (p : Point) : Bool :=
  match cell.locate p with
  | none => false
  | some (t, w) =>
    let top := faceDepth (fun c => cell[c.val].z) t w
    let bottom := faceDepth (fun c => cell[c.val + 4].z) t w
    let low := if top ≤ bottom then top else bottom
    let high := if top ≤ bottom then bottom else top
    let slack := tolerance * (1 + high.abs)
    p.z ≥ low - slack && p.z ≤ high + slack

end Cell

end Reservoir
